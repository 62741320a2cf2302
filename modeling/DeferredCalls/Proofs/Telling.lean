import DeferredCalls.Proofs.Consistency

/-!
# What the operations tell

The operations that a course is told by determine what it does to the contexts of threads, and they
leave every call bound to its callable and its context. The stack of contexts of a thread at the end
is the one at the start after the installs and the guard drops that were told, in their order.
-/

namespace DeferredCalls

/-- The stack of contexts of a thread after an operation. -/
def ContextStack.after (t : ThreadId) (s : ContextStack) : Operation → ContextStack
  | .install u snapshot => if u = t then s.install snapshot else s
  | .dropGuard u g => if u = t then (s.dropGuard g).stack else s
  | _ => s

namespace World

/-- What happens to contexts and calls while operations are performed. Threads, callables and calls
are there for good, calls stay bound, and calls that are dead stay dead. New calls are bound to
callables that were made. -/
structure Follows (w : World) (ops : List Operation) (w' : World) : Prop where
  threadCount : w.threads.size ≤ w'.threads.size
  role : ∀ t, t.index < w.threads.size → (w'.thread t).role = (w.thread t).role
  contextStack : ∀ t, w'.contextStack t = ops.foldl (ContextStack.after t) (w.contextStack t)
  callableCount : w.callables.size ≤ w'.callables.size
  callCount : w.calls.size ≤ w'.calls.size
  built : ∀ c : CallId, c.index < w'.calls.size →
    c.index < w.calls.size ∨ (w'.calls.get c).handle.callable.index < w'.callables.size
  call : ∀ c, c.index < w.calls.size →
    ∃ dead, w'.calls.get c = { w.calls.get c with dead } ∧ ((w.calls.get c).dead → dead)

namespace Follows

variable {w w' w'' : World} {ops more : List Operation}

protected theorem refl (w : World) : w.Follows [] w where
  threadCount := Nat.le_refl _
  role _ _ := rfl
  contextStack _ := rfl
  callableCount := Nat.le_refl _
  callCount := Nat.le_refl _
  built _ := .inl
  call c _ := ⟨(w.calls.get c).dead, rfl, id⟩

protected theorem trans (first : w.Follows ops w') (second : w'.Follows more w'') :
    w.Follows (ops ++ more) w'' where
  threadCount := Nat.le_trans first.threadCount second.threadCount
  role t inside := by
    rw [second.role t (Nat.lt_of_lt_of_le inside first.threadCount), first.role t inside]
  contextStack t := by
    rw [second.contextStack, first.contextStack, List.foldl_append]
  callableCount := Nat.le_trans first.callableCount second.callableCount
  callCount := Nat.le_trans first.callCount second.callCount
  built c known := by
    rcases second.built c known with old | new
    · refine (first.built c old).imp_right fun made => ?_
      obtain ⟨_, same, _⟩ := second.call c old
      rw [same]
      exact Nat.lt_of_lt_of_le made second.callableCount
    · exact .inr new
  call c known := by
    obtain ⟨dead, eq, stays⟩ := first.call c known
    obtain ⟨dead', eq', stays'⟩ := second.call c (Nat.lt_of_lt_of_le known first.callCount)
    refine ⟨dead', by rw [eq', eq], fun before => stays' ?_⟩
    rw [eq]
    exact stays before

end Follows

variable {w w' w'' : World} {t : ThreadId} {ops : List Operation}

/-- What threads do besides has no part in contexts and calls. -/
theorem Follows.of_same (threadCount : w.threads.size ≤ w'.threads.size)
    (role : ∀ t, t.index < w.threads.size → (w'.thread t).role = (w.thread t).role)
    (contextStack : ∀ t, w'.contextStack t = w.contextStack t)
    (callableCount : w.callables.size ≤ w'.callables.size) (calls : w'.calls = w.calls) :
    w.Follows [] w' where
  threadCount := threadCount
  role := role
  contextStack := contextStack
  callableCount := callableCount
  callCount := by rw [calls]
  built c known := .inl (calls ▸ known)
  call c _ := ⟨(w.calls.get c).dead, by rw [calls], id⟩

theorem Keeps.follows (h : w.Keeps w') : w.Follows [] w' where
  threadCount := by rw [h.threads]
  role _ _ := by rw [h.thread]
  contextStack _ := h.contextStack
  callableCount := Nat.le_of_eq h.callableCount.symm
  callCount := Nat.le_of_eq h.callCount.symm
  built c known := .inl (h.callCount ▸ known)
  call c _ := ⟨(w.calls.get c).dead, h.call c, id⟩

theorem Follows.keeps (first : w.Follows ops w') (second : w'.Keeps w'') : w.Follows ops w'' := by
  have both := first.trans second.follows
  rwa [List.append_nil] at both

theorem Follows.log {level : Level} {message : String} {fields : List (String × FieldValue)}
    (h : w.Follows ops w') : w.Follows ops (w'.log t level message fields) :=
  h.keeps (keeps_log ..)

theorem Agrees.follows (h : w.Agrees w') : w.Follows [] w' := by
  refine .of_same (Nat.le_of_eq h.threadCount.symm) (fun t _ => ?_) (fun t => ?_)
    (Nat.le_of_eq h.callableCount.symm) h.calls
  all_goals obtain ⟨guards, loops, eq⟩ := h.thread t
  · rw [eq]
  · rw [World.contextStack, eq]
    rfl

/-- A change of a thread that is not of its contexts. -/
theorem follows_onThread {f : Thread → Thread}
    (same : ∀ th, (f th).role = th.role ∧ (f th).context = th.context) :
    w.Follows [] (w.onThread t f) := by
  refine .of_same (Nat.le_of_eq size_threads_onThread.symm) (fun u _ => ?_) (fun u => ?_)
    (Nat.le_refl _) rfl
  · exact onThread_congr Thread.role (fun th => (same th).1) u
  · exact onThread_congr Thread.context (fun th => (same th).2) u

theorem contextStack_setContextStack (inside : t.index < w.threads.size) (s : ContextStack)
    (u : ThreadId) :
    (w.setContextStack t s).contextStack u = if t = u then s else w.contextStack u := by
  simp only [contextStack, setContextStack, thread_onThread inside, eq_comm (a := t)]
  split <;> rfl

/-- A change of the contexts of one thread. -/
theorem follows_setContextStack (inside : t.index < w.threads.size) {s : ContextStack}
    {op : Operation}
    (told : ∀ u, ContextStack.after u (w.contextStack u) op =
      if t = u then s else w.contextStack u) :
    w.Follows [op] (w.setContextStack t s) where
  threadCount := Nat.le_of_eq size_threads_onThread.symm
  role u _ := by
    rw [setContextStack, onThread_congr Thread.role]
    exact fun _ => rfl
  contextStack u := by
    rw [contextStack_setContextStack inside]
    exact (told u).symm
  callableCount := Nat.le_refl _
  callCount := Nat.le_refl _
  built _ := .inl
  call c _ := ⟨(w.calls.get c).dead, rfl, id⟩

theorem follows_install {s : Snapshot} (inside : t.index < w.threads.size)
    (alive : ∀ k ∈ s.shares, 0 < w.shareCount k) :
    w.Follows [.install t s] (w.install t s) := by
  have keeps := keeps_acquireAll alive
  refine keeps.follows.trans (follows_setContextStack (by rwa [keeps.threads]) fun u => ?_)
  rw [keeps.contextStack, ContextStack.after]
  split
  · next same => rw [same]
  · rfl

theorem follows_dropGuard {g : Guard} (inside : t.index < w.threads.size) :
    w.Follows [.dropGuard t g] (w.dropGuard t g) := by
  have warned := w.keeps_warnGuard t ((w.contextStack t).dropGuard g).warning
  refine Follows.keeps (warned.follows.trans (follows_setContextStack ?_ fun u => ?_))
    (keeps_releaseSnapshot ..)
  · rwa [warned.threads]
  rw [warned.contextStack, ContextStack.after]
  split
  · next same => rw [same]
  · rfl

theorem follows_enterCall {c : CallId} (alive : 0 < w.calls.shares c) :
    w.Follows [] (w.enterCall t c) :=
  (keeps_acquire (s := .call c) alive).follows.trans (follows_onThread fun _ => ⟨rfl, rfl⟩)

theorem follows_leaveCalls {level : Nat} : w.Follows [] (w.leaveCalls t level) := by
  refine Follows.keeps (follows_onThread ?_) (keeps_releaseCalls ..)
  exact fun _ => ⟨rfl, rfl⟩

/-- Operations on queues tell nothing about contexts. -/
theorem Follows.retell (h : w.Follows [] w')
    (silent : ∀ t s, ops.foldl (ContextStack.after t) s = s) : w.Follows ops w' where
  threadCount := h.threadCount
  role := h.role
  contextStack t := by
    rw [silent]
    exact h.contextStack t
  callableCount := h.callableCount
  callCount := h.callCount
  built := h.built
  call := h.call

theorem follows_pushThread (th : Thread) (fresh : th.context = {}) :
    w.Follows [] { w with threads := w.threads.push th } := by
  refine .of_same ?_ (fun u inside => ?_) (fun u => ?_) (Nat.le_refl _) rfl
  · rw [Arena.size_push]
    exact Nat.le_succ _
  · have other : u ≠ w.threads.next := fun same => by
      rw [same] at inside
      exact Nat.lt_irrefl _ inside
    simp only [thread, Arena.get_push, if_neg other]
  · simp only [contextStack, thread, Arena.get_push]
    split
    · next new =>
      rw [new, Arena.get_next, fresh]
      rfl
    · rfl

theorem follows_pushCall (call : Call) (made : call.handle.callable.index < w.callables.size) :
    w.Follows [] { w with calls := w.calls.push call } where
  threadCount := Nat.le_refl _
  role _ _ := rfl
  contextStack _ := rfl
  callableCount := Nat.le_refl _
  callCount := by
    rw [Arena.size_push]
    exact Nat.le_succ _
  built c known := by
    rw [Arena.get_push]
    split
    · exact .inr made
    · next old =>
      refine .inl (Nat.lt_of_le_of_ne (Nat.le_of_lt_succ ?_) fun last => old ?_)
      · rwa [Arena.size_push] at known
      · exact congrArg Ref.mk last
  call c known := by
    refine ⟨(w.calls.get c).dead, ?_, id⟩
    have other : c ≠ w.calls.next := fun same => by
      rw [same] at known
      exact Nat.lt_irrefl _ known
    rw [Arena.get_push, if_neg other]

theorem follows_build {b : CallBuilder} (made : b.handle.callable.index < w.callables.size)
    (handle : ∀ k ∈ b.handle.shares, 0 < w.shareCount k)
    (context : ∀ k ∈ (b.context.getD (w.ambient t)).shares, 0 < w.shareCount k) :
    w.Follows [] (w.build t b).2 := by
  have alive : ∀ k ∈ b.handle.shares ++ (b.context.getD (w.ambient t)).shares,
      0 < w.shareCount k := fun k member => (List.mem_append.mp member).elim (handle k) (context k)
  have keeps := keeps_acquireAll alive
  simp only [build, Call.shares]
  exact (keeps.follows.trans (follows_pushCall _ (keeps.callableCount.symm ▸ made))).log

theorem follows_markDead {c : CallId} : w.Follows [] (w.markDead t c) := by
  rw [markDead]
  split
  · exact .refl w
  · refine Follows.log ?_
    refine ⟨Nat.le_refl _, fun _ _ => rfl, fun _ => rfl, Nat.le_refl _,
      Nat.le_of_eq Arena.size_modify.symm, fun k known => .inl ?_, fun k known => ?_⟩
    · rwa [Arena.size_modify] at known
    by_cases same : k = c
    · subst same
      exact ⟨true, by rw [Arena.get_modify known, if_pos rfl], fun _ => rfl⟩
    · exact ⟨_, Arena.get_modify_of_ne same, id⟩

theorem follows_createLoop {settings : LoopSettings} :
    w.Follows [] (w.createLoop t settings).2 := by
  have pushed : w.Follows [] { w with
      loops := w.loops.push (.ofSettings settings t (w.thread t).currentLoop) } :=
    .of_same (Nat.le_refl _) (fun _ _ => rfl) (fun _ => rfl) (Nat.le_refl _) rfl
  refine Follows.log (pushed.trans (follows_onThread ?_))
  exact fun _ => ⟨rfl, rfl⟩

theorem follows_startLoopThread {settings : LoopSettings} :
    w.Follows [] (w.startLoopThread settings).2 := by
  have started := w.follows_pushThread
    { name := some settings.normalize.name, role := .serving w.loops.next } rfl
  exact (started.trans follows_createLoop).log

theorem follows_release {s : Share} (used : 0 < w.shareCount s) :
    w.Follows (w.releasing s) (w.release t s) := by
  have silent : ∀ u stack, (w.releasing s).foldl (ContextStack.after u) stack = stack := by
    intro u stack
    unfold releasing
    split
    · split <;> rfl
    · split <;> rfl
    · rfl
  refine Follows.retell ?_ silent
  by_cases lastLoop : ∃ l, s = .loop l ∧ w.loops.shares l = 1
  · obtain ⟨l, rfl, last⟩ := lastLoop
    obtain ⟨w', keeps, eq⟩ := w.release_last_loop t last
    rw [eq]
    have emptied : w.Follows [] w' := ⟨keeps.follows.threadCount, keeps.follows.role,
      keeps.follows.contextStack, keeps.follows.callableCount, keeps.follows.callCount,
      keeps.follows.built, keeps.follows.call⟩
    exact emptied.trans (follows_onThread fun _ => ⟨rfl, rfl⟩)
  by_cases lastManual : ∃ m, s = .manual m ∧ w.manuals.shares m = 1
  · obtain ⟨m, rfl, last⟩ := lastManual
    have keeps := w.release_last_manual t last
    exact ⟨keeps.follows.threadCount, keeps.follows.role, keeps.follows.contextStack,
      keeps.follows.callableCount, keeps.follows.callCount, keeps.follows.built, keeps.follows.call⟩
  · exact (w.keeps_release t (fun l eq last => lastLoop ⟨l, eq, last⟩)
      (fun m eq last => lastManual ⟨m, eq, last⟩) used).follows

theorem follows_post {s : Scheduler} {task : Task} : w.Follows [] (w.post t s task).2 := by
  cases s with
  | loop l =>
    simp only [post, postToLoop]
    split
    · exact (keeps_releaseTask ..).follows
    · refine Follows.log ?_
      exact .of_same (Nat.le_refl _) (fun _ _ => rfl) (fun _ => rfl) (Nat.le_refl _) rfl
  | manual m =>
    simp only [post, postToManual]
    split
    · exact (keeps_releaseTask ..).follows
    · exact .of_same (Nat.le_refl _) (fun _ _ => rfl) (fun _ => rfl) (Nat.le_refl _) rfl

theorem follows_dequeue {l : LoopId} {task : Task} (taken : w.dequeue? l = some (task, w')) :
    w.Follows [] w' := by
  obtain ⟨_, rest, _, rfl⟩ := of_dequeue? taken
  exact .of_same (Nat.le_refl _) (fun _ _ => rfl) (fun _ => rfl) (Nat.le_refl _) rfl

theorem follows_shutdownLoop {l : LoopId} : w.Follows [] (w.shutdownLoop t l) := by
  refine Follows.log ?_
  exact .of_same (Nat.le_refl _) (fun _ _ => rfl) (fun _ => rfl) (Nat.le_refl _) rfl

end World

/-- What a step does to contexts and calls is what it tells. -/
theorem Step.follows {m m' : Moment} {ops : List Operation} (h : m.Consistent)
    (step : Step m ops m') : m.world.Follows ops m'.world := by
  cases step with
  | quiet agrees moved => exact agrees.follows
  | acquire alive => exact (World.keeps_acquire alive).follows
  | release inside => exact World.follows_release h.balanced.shareCount_pos
  | install inside alive => exact World.follows_install inside alive
  | dropGuard inside => exact World.follows_dropGuard inside
  | enter inside alive => exact World.follows_enterCall alive
  | leave inside top => exact World.follows_leaveCalls
  | newContext x =>
    exact .of_same (Nat.le_refl _) (fun _ _ => rfl) (fun _ => rfl) (Nat.le_refl _) rfl
  | newCallable x =>
    exact .of_same (Nat.le_refl _) (fun _ _ => rfl) (fun _ => rfl)
      (Arena.size_push ▸ Nat.le_succ _) rfl
  | newManual empty =>
    exact .of_same (Nat.le_refl _) (fun _ _ => rfl) (fun _ => rfl) (Nat.le_refl _) rfl
  | newThread name => exact World.follows_pushThread { name } rfl
  | build made handle context => exact World.follows_build made handle context
  | markDead t c => exact World.follows_markDead
  | createLoop settings inside => exact World.follows_createLoop
  | startLoopThread settings => exact World.follows_startLoopThread
  | beginTurn inside idle working => exact World.follows_onThread fun _ => ⟨rfl, rfl⟩
  | endTurn inside => exact World.follows_onThread fun _ => ⟨rfl, rfl⟩
  | finish inside serves idle working => exact World.follows_onThread fun _ => ⟨rfl, rfl⟩
  | post there => exact World.follows_post.retell fun _ _ => rfl
  | start taken => exact (World.follows_dequeue taken).retell fun _ _ => rfl
  | takeAll alive =>
    refine World.Follows.retell ?_ ?_
    · exact .of_same (Nat.le_refl _) (fun _ _ => rfl) (fun _ => rfl) (Nat.le_refl _) rfl
    · intro t s
      rw [List.foldl_map]
      exact List.foldl_fixed ..
  | shutdown t l => exact World.follows_shutdownLoop.retell fun _ _ => rfl

/-- What a course does to contexts and calls is what it tells. -/
theorem Course.follows {m m' : Moment} {ops : List Operation} (h : m.Consistent)
    (course : Course m ops m') : m.world.Follows ops m'.world := by
  induction course with
  | refl => exact .refl _
  | step before last ih =>
    exact ih.trans (last.follows (before.consistent h))

/-- At the start of a session nothing is ambient anywhere. -/
theorem contextStack_start (verbosity : Verbosity) (t : ThreadId) :
    (Session.start verbosity).contextStack t = {} := by
  simp only [World.contextStack, World.thread, Session.start, Arena.get_push]
  split
  · rfl
  · rfl

/-- The stack of contexts of a thread is what is told of it, from an empty one on. -/
theorem Course.contextStack_eq {verbosity : Verbosity} {m : Moment} {ops : List Operation}
    (course : Course (.start verbosity) ops m) (t : ThreadId) :
    m.world.contextStack t = ops.foldl (ContextStack.after t) {} := by
  have start : (Moment.start verbosity).world.contextStack t = {} := contextStack_start verbosity t
  rw [(course.follows (consistent_start verbosity)).contextStack t, start]

end DeferredCalls
