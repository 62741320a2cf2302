import DeferredCalls.Proofs.Accounts

/-!
# Every moment is consistent

Each step of an execution keeps shares accounted for, the stacks of calls as they have to be taken
off, and loops known. So whatever is reached from a consistent moment is consistent; a session
starts from one.
-/

namespace DeferredCalls

open Holding

/-- Where a thread stands among loops. -/
def Thread.place (th : Thread) : Role × Option LoopId :=
  (th.role, th.currentLoop)

/-- What a thread has still to do: to take calls off its stack, or to end a turn. -/
def Thread.duties (th : Thread) : List CallId × Bool × Bool :=
  (th.callStack, th.busy, th.finished)

namespace World

/-- A change that leaves all threads in their places among loops, and forgets no callable. -/
structure Settled (w w' : World) : Prop where
  place : ∀ t, (w'.thread t).place = (w.thread t).place
  handles : ∀ l ∈ w'.names.loopHandles.values,
    l ∈ w.names.loopHandles.values ∨ l.index < w.loops.size
  callableCount : w.callables.size ≤ w'.callables.size
  callables : ∀ h ∈ w'.names.handles.values,
    h ∈ w.names.handles.values ∨ h.callable.index < w'.callables.size
  loopCount : w'.loops.size = w.loops.size
  previous : ∀ l, (w'.loops.get l).previous = (w.loops.get l).previous

/-- A change that leaves all threads at what they are doing. -/
structure Steady (w w' : World) : Prop extends Settled w w' where
  duties : ∀ t, (w'.thread t).duties = (w.thread t).duties

variable {w w' w'' : World} {t u : ThreadId}

protected theorem Settled.trans (first : w.Settled w') (second : w'.Settled w'') :
    w.Settled w'' where
  place t := (second.place t).trans (first.place t)
  handles l member := by
    rcases second.handles l member with member | known
    · exact first.handles l member
    · rw [first.loopCount] at known
      exact .inr known
  callableCount := Nat.le_trans first.callableCount second.callableCount
  callables k member := by
    rcases second.callables k member with member | made
    · exact (first.callables k member).imp_right fun made =>
        Nat.lt_of_lt_of_le made second.callableCount
    · exact .inr made
  loopCount := second.loopCount.trans first.loopCount
  previous l := (second.previous l).trans (first.previous l)

protected theorem Steady.trans (first : w.Steady w') (second : w'.Steady w'') : w.Steady w'' :=
  ⟨first.toSettled.trans second.toSettled, fun t => (second.duties t).trans (first.duties t)⟩

theorem Known.settled (h : w.Known) (settled : w.Settled w') : w'.Known where
  callable k member := (settled.callables k member).elim
    (fun kept => Nat.lt_of_lt_of_le (h.callable k kept) settled.callableCount) id
  handle l member := by
    rw [settled.loopCount]
    exact (settled.handles l member).elim (h.handle l) id
  current t l eq := by
    have same : (w'.thread t).currentLoop = (w.thread t).currentLoop :=
      congrArg Prod.snd (settled.place t)
    rw [same] at eq
    rw [settled.loopCount]
    exact h.current t l eq
  served t l eq := by
    have same : (w'.thread t).role = (w.thread t).role := congrArg Prod.fst (settled.place t)
    rw [same] at eq
    rw [settled.loopCount]
    exact h.served t l eq
  previous k l eq := by
    rw [settled.previous] at eq
    rw [settled.loopCount]
    exact h.previous k l eq

theorem Keeps.steady (h : w.Keeps w') : w.Steady w' where
  place t := by rw [h.thread]
  duties t := by rw [h.thread]
  handles l member := by
    rw [h.names] at member
    exact .inl member
  callableCount := Nat.le_of_eq h.callableCount.symm
  callables k member := by
    rw [h.names] at member
    exact .inl member
  loopCount := h.loopCount
  previous l := by rw [h.loop]

theorem Agrees.steady (h : w.Agrees w') : w.Steady w' where
  place t := by
    obtain ⟨guards, loops, eq⟩ := h.thread t
    rw [eq]
    rfl
  duties t := by
    obtain ⟨guards, loops, eq⟩ := h.thread t
    rw [eq]
    rfl
  handles l member := .inr (h.handles l member)
  callableCount := Nat.le_of_eq h.callableCount.symm
  callables k member := .inr (h.callableCount ▸ h.callables k member)
  loopCount := by rw [h.loops]
  previous l := by rw [h.loops]

/-- A change of objects other than threads and loops. -/
theorem Steady.of_same (threads : w'.threads = w.threads) (names : w'.names = w.names)
    (loops : w'.loops = w.loops) (callableCount : w.callables.size ≤ w'.callables.size) :
    w.Steady w' where
  place t := by rw [thread, threads, ← thread]
  duties t := by rw [thread, threads, ← thread]
  handles l member := .inl (names ▸ member)
  callableCount := callableCount
  callables k member := .inl (names ▸ member)
  loopCount := by rw [loops]
  previous l := by rw [loops]

theorem steady_loops {loops : Arena .eventLoop EventLoop} (size : loops.size = w.loops.size)
    (previous : ∀ l, (loops.get l).previous = (w.loops.get l).previous) :
    w.Steady { w with loops } :=
  ⟨⟨fun _ => rfl, fun _ => .inl, Nat.le_refl _, fun _ => .inl, size, previous⟩, fun _ => rfl⟩

theorem Known.pushLoop (loop : EventLoop) (h : w.Known)
    (known : ∀ l, loop.previous = some l → l.index < w.loops.size) :
    { w with loops := w.loops.push loop }.Known := by
  have grows {l : LoopId} (known : l.index < w.loops.size) :
      l.index < (w.loops.push loop).size := by
    rw [Arena.size_push]
    omega
  refine ⟨h.callable, fun l member => grows (h.handle l member),
    fun t l eq => grows (h.current t l eq),
    fun t l eq => grows (h.served t l eq), fun k l eq => grows ?_⟩
  simp only [Arena.get_push] at eq
  split at eq
  · exact known l eq
  · exact h.previous k l eq

theorem Known.pushThread (th : Thread) (h : w.Known) (aside : th.currentLoop = none)
    (known : ∀ l, th.role = .serving l → l.index < w.loops.size) :
    { w with threads := w.threads.push th }.Known where
  callable := h.callable
  handle := h.handle
  current u l eq := by
    simp only [thread, Arena.get_push] at eq
    split at eq
    · rw [aside] at eq
      contradiction
    · exact h.current u l eq
  served u l eq := by
    simp only [thread, Arena.get_push] at eq
    split at eq
    · exact known l eq
    · exact h.served u l eq
  previous := h.previous

theorem Known.setCurrentLoop (loop : Option LoopId) (h : w.Known)
    (inside : t.index < w.threads.size) (known : ∀ l, loop = some l → l.index < w.loops.size) :
    (w.onThread t fun th => { th with currentLoop := loop }).Known where
  callable := h.callable
  handle := h.handle
  current u l eq := by
    rw [thread_onThread inside] at eq
    split at eq
    · exact known l eq
    · exact h.current u l eq
  served u l eq := by
    rw [onThread_congr Thread.role] at eq
    · exact h.served u l eq
    · exact fun _ => rfl
  previous := h.previous

theorem Steady.log {level : Level} {message : String} {fields : List (String × FieldValue)}
    (h : w.Steady w') : w.Steady (w'.log t level message fields) :=
  h.trans (keeps_log ..).steady

theorem Known.log {level : Level} {message : String} {fields : List (String × FieldValue)}
    (h : w.Known) : (w.log t level message fields).Known :=
  h.settled (keeps_log ..).steady.toSettled

theorem settled_onThread {f : Thread → Thread} (same : ∀ th, (f th).place = th.place) :
    w.Settled (w.onThread t f) where
  place := onThread_congr Thread.place same
  handles _ := .inl
  callableCount := Nat.le_refl _
  callables _ := .inl
  loopCount := rfl
  previous _ := rfl

theorem steady_setContextStack {s : ContextStack} : w.Steady (w.setContextStack t s) where
  toSettled := settled_onThread fun _ => rfl
  duties := onThread_congr Thread.duties fun _ => rfl

theorem steady_install {s : Snapshot} (alive : ∀ k ∈ s.shares, 0 < w.shareCount k) :
    w.Steady (w.install t s) :=
  (keeps_acquireAll alive).steady.trans steady_setContextStack

theorem steady_dropGuard {g : Guard} : w.Steady (w.dropGuard t g) :=
  ((keeps_warnGuard ..).steady.trans steady_setContextStack).trans
    (keeps_releaseSnapshot ..).steady

theorem steady_build {b : CallBuilder} (handle : ∀ k ∈ b.handle.shares, 0 < w.shareCount k)
    (context : ∀ k ∈ (b.context.getD (w.ambient t)).shares, 0 < w.shareCount k) :
    w.Steady (w.build t b).2 := by
  have alive : ∀ k ∈ b.handle.shares ++ (b.context.getD (w.ambient t)).shares,
      0 < w.shareCount k := fun k member => (List.mem_append.mp member).elim (handle k) (context k)
  simp only [build, Call.shares]
  refine Steady.log ((keeps_acquireAll alive).steady.trans ?_)
  exact .of_same rfl rfl rfl (Nat.le_refl _)

theorem steady_markDead {c : CallId} : w.Steady (w.markDead t c) := by
  rw [markDead]
  split
  · exact (Keeps.refl w).steady
  · refine Steady.log ?_
    exact .of_same rfl rfl rfl (Nat.le_refl _)

/-- A change of a loop that leaves the one before it in place. -/
theorem steady_modifyLoop {l : LoopId} {f : EventLoop → EventLoop}
    (same : ∀ loop, (f loop).previous = loop.previous) :
    w.Steady { w with loops := w.loops.modify l f } :=
  steady_loops Arena.size_modify (Arena.get_modify_congr EventLoop.previous same)

theorem steady_dropLoop (l : LoopId) :
    w.Steady { w with loops := (w.loops.dropShare l).modify l fun loop =>
      { loop with closed := true, queue := [] } } := by
  apply steady_loops (by simp)
  intro k
  rw [Arena.get_modify_congr EventLoop.previous, Arena.get_dropShare]
  exact fun _ => rfl

theorem steady_post {s : Scheduler} {task : Task} : w.Steady (w.post t s task).2 := by
  cases s with
  | loop l =>
    simp only [post, postToLoop]
    split
    · exact (keeps_releaseTask ..).steady
    · refine Steady.log (steady_modifyLoop ?_)
      exact fun _ => rfl
  | manual m =>
    simp only [post, postToManual]
    split
    · exact (keeps_releaseTask ..).steady
    · exact .of_same rfl rfl rfl (Nat.le_refl _)

theorem steady_dequeue {l : LoopId} {task : Task} (taken : w.dequeue? l = some (task, w')) :
    w.Steady w' := by
  obtain ⟨_, rest, _, rfl⟩ := of_dequeue? taken
  apply steady_modifyLoop
  intro _
  rfl

theorem steady_shutdownLoop {l : LoopId} : w.Steady (w.shutdownLoop t l) := by
  refine Steady.log (steady_modifyLoop ?_)
  exact fun _ => rfl

end World

namespace Moment.Consistent

variable {w w' : World} {H H' : Multiset Holding} {t : ThreadId} {s : Share}

/-- A change that leaves the duties of all threads. -/
theorem dutiful (h : Moment.Consistent ⟨w, H⟩)
    (duties : ∀ t, (w'.thread t).duties = (w.thread t).duties) (balanced : w'.Balanced H')
    (entries : ∀ t i c, H'.count (entry t i c) = H.count (entry t i c))
    (turns : ∀ t, H'.count (turn t) = H.count (turn t)) (known : w'.Known) :
    Moment.Consistent ⟨w', H'⟩ where
  balanced := balanced
  entries t i c := by
    have same : w'.callStack t = w.callStack t := congrArg Prod.fst (duties t)
    rw [entries, same]
    exact h.entries t i c
  turns t := by
    have same : (w'.thread t).busy = (w.thread t).busy := congrArg (·.2.1) (duties t)
    rw [turns, same]
    exact h.turns t
  working t := by
    have busy : (w'.thread t).busy = (w.thread t).busy := congrArg (·.2.1) (duties t)
    have finished : (w'.thread t).finished = (w.thread t).finished := congrArg (·.2.2) (duties t)
    rw [busy, finished]
    exact h.working t
  known := known

/-- A change in the course of which all threads go on with what they are doing. -/
theorem steady (h : Moment.Consistent ⟨w, H⟩) (steady : w.Steady w') (balanced : w'.Balanced H')
    (entries : ∀ t i c, H'.count (entry t i c) = H.count (entry t i c))
    (turns : ∀ t, H'.count (turn t) = H.count (turn t)) : Moment.Consistent ⟨w', H'⟩ :=
  h.dutiful steady.duties balanced entries turns (h.known.settled steady.toSettled)

theorem quiet (h : Moment.Consistent ⟨w, H⟩) (agrees : w.Agrees w')
    (moved : w'.named + H' = w.named + H) : Moment.Consistent ⟨w', H'⟩ := by
  have duties : ∀ d, w.named.count d = 0 → w'.named.count d = 0 → H'.count d = H.count d := by
    intro d before after
    have := congrArg (Multiset.count d) moved
    simpa [before, after] using this
  refine h.steady agrees.steady (h.balanced.quiet agrees moved) (fun t i c => ?_) fun t => ?_
  · exact duties _ World.count_entry_named World.count_entry_named
  · exact duties _ World.count_turn_named World.count_turn_named

theorem acquire (h : Moment.Consistent ⟨w, H⟩) (alive : 0 < w.shareCount s) :
    Moment.Consistent ⟨w.acquire s, share s ::ₘ H⟩ :=
  h.steady (World.keeps_acquire alive).steady (h.balanced.acquire alive) (by simp) (by simp)

theorem release (h : Moment.Consistent ⟨w, share s ::ₘ H⟩) (inside : t.index < w.threads.size) :
    Moment.Consistent ⟨w.release t s, H⟩ := by
  have balanced := h.balanced.release (t := t)
  by_cases lastLoop : ∃ l, s = .loop l ∧ w.loops.shares l = 1
  · obtain ⟨l, rfl, last⟩ := lastLoop
    obtain ⟨w', keeps, eq⟩ := w.release_last_loop t last
    have emptied : w.Steady w' := (World.steady_dropLoop l).trans keeps.steady
    have inside' : t.index < w'.threads.size := by
      rw [keeps.threads]
      exact inside
    rw [eq] at balanced ⊢
    refine h.dutiful (fun u => ?_) balanced (by simp) (by simp) ?_
    · rw [World.onThread_congr Thread.duties, emptied.duties]
      exact fun _ => rfl
    · apply (h.known.settled emptied.toSettled).setCurrentLoop _ inside'
      intro k eq
      rw [emptied.loopCount]
      exact h.known.previous l k eq
  by_cases lastManual : ∃ m, s = .manual m ∧ w.manuals.shares m = 1
  · obtain ⟨m, rfl, last⟩ := lastManual
    have emptied := (w.release_last_manual t last).steady
    refine h.steady ⟨⟨emptied.place, emptied.handles, emptied.callableCount, emptied.callables,
      emptied.loopCount, emptied.previous⟩, ?_⟩ balanced (by simp) (by simp)
    exact emptied.duties
  · have keeps := w.keeps_release t (s := s) (fun l eq last => lastLoop ⟨l, eq, last⟩)
      (fun m eq last => lastManual ⟨m, eq, last⟩) h.balanced.shareCount_pos
    exact h.steady keeps.steady balanced (by simp) (by simp)

private theorem getElem?_concat_eq_some {α : Type} {l : List α} {x y : α} {i : Nat} :
    (l ++ [x])[i]? = some y ↔ l[i]? = some y ∨ (i = l.length ∧ x = y) := by
  rcases Nat.lt_trichotomy i l.length with below | top | above
  · simp [List.getElem?_append_left below, Nat.ne_of_lt below]
  · simp [top]
  · have outside : (l ++ [x]).length ≤ i := by
      rw [List.length_append, List.length_singleton]
      exact above
    simp [List.getElem?_eq_none outside, List.getElem?_eq_none (Nat.le_of_lt above),
      Nat.ne_of_gt above]

/-- A call stands on a stack as long as somebody has to take it off. -/
theorem entries_concat {c : CallId} (stack : ThreadId → List CallId) (u : ThreadId) (i : Nat)
    (k : CallId) : (entry t (stack t).length c ::ₘ H).count (entry u i k) =
      (if (if u = t then stack u ++ [c] else stack u)[i]? = some k then 1 else 0) ↔
    H.count (entry u i k) = if (stack u)[i]? = some k then 1 else 0 := by
  rw [Multiset.count_cons]
  by_cases same : u = t
  · subst same
    simp only [if_true, Holding.entry.injEq, true_and, getElem?_concat_eq_some]
    by_cases top : i = (stack u).length ∧ k = c
    · obtain ⟨rfl, rfl⟩ := top
      simp
    · rw [if_neg top]
      have other : ¬(i = (stack u).length ∧ c = k) := fun ⟨i, c⟩ => top ⟨i, c.symm⟩
      simp only [other, or_false, Nat.add_zero]
  · simp [same]

theorem enter {c : CallId} (h : Moment.Consistent ⟨w, H⟩) (inside : t.index < w.threads.size)
    (alive : 0 < w.calls.shares c) :
    Moment.Consistent ⟨w.enterCall t c, entry t (w.callStack t).length c ::ₘ H⟩ := by
  have keeps := World.keeps_acquire (w := w) (s := .call c) alive
  have others {β : Type} (g : Thread → β)
      (same : ∀ th, g { th with callStack := th.callStack ++ [c] } = g th) (u : ThreadId) :
      g ((w.enterCall t c).thread u) = g (w.thread u) := by
    rw [World.enterCall, World.onThread_congr g same, keeps.thread]
  constructor
  · exact h.balanced.enterCall inside alive _
  · intro u i k
    rw [World.callStack_enterCall inside alive]
    exact (entries_concat w.callStack u i k).mpr (h.entries u i k)
  · intro u
    rw [others Thread.busy fun _ => rfl, Multiset.count_cons_of_ne (by simp)]
    exact h.turns u
  · intro u
    rw [others Thread.busy fun _ => rfl, others Thread.finished fun _ => rfl]
    exact h.working u
  · exact h.known.settled
      (keeps.steady.toSettled.trans (World.settled_onThread fun _ => rfl))

theorem leave {c : CallId} {level : Nat} (h : Moment.Consistent ⟨w, entry t level c ::ₘ H⟩)
    (inside : t.index < w.threads.size) (top : (w.callStack t).length = level + 1) :
    Moment.Consistent ⟨w.leaveCalls t level, H⟩ := by
  have onTop : (w.callStack t)[level]? = some c := by
    have := h.entries t level c
    simp only [Multiset.count_cons_self] at this
    by_contra other
    rw [if_neg other] at this
    omega
  have stack : w.callStack t = (w.callStack t).take level ++ [c] := by
    obtain ⟨_, eq⟩ := List.getElem?_eq_some_iff.mp onTop
    rw [← eq, List.take_append_getElem, ← top, List.take_length]
  have others {β : Type} (g : Thread → β)
      (same : ∀ th, g { th with callStack := th.callStack.take level } = g th) (u : ThreadId) :
      g ((w.leaveCalls t level).thread u) = g (w.thread u) := by
    rw [World.leaveCalls, (World.keeps_releaseCalls ..).thread, World.shortened,
      World.onThread_congr g same]
  constructor
  · exact h.balanced.leaveCalls inside
  · intro u i k
    have height : ((w.leaveCalls t level).callStack t).length = level := by
      rw [World.callStack_leaveCalls inside, if_pos rfl, List.length_take, top,
        Nat.min_eq_left (Nat.le_succ level)]
    have whole : (if u = t then (w.leaveCalls t level).callStack u ++ [c]
        else (w.leaveCalls t level).callStack u) = w.callStack u := by
      rw [World.callStack_leaveCalls inside]
      split
      · next same => rw [same, ← stack]
      · rfl
    refine (entries_concat (t := t) (c := c) (w.leaveCalls t level).callStack u i k).mp ?_
    rw [height, whole]
    exact h.entries u i k
  · intro u
    rw [others Thread.busy fun _ => rfl]
    have := h.turns u
    rwa [Multiset.count_cons_of_ne (by simp)] at this
  · intro u
    rw [others Thread.busy fun _ => rfl, others Thread.finished fun _ => rfl]
    exact h.working u
  · refine h.known.settled (World.Settled.trans (World.settled_onThread ?_)
      (World.keeps_releaseCalls ..).steady.toSettled)
    exact fun _ => rfl

theorem duties_push (th : Thread) (u : ThreadId) (idle : th.duties = (default : Thread).duties) :
    (({ w with threads := w.threads.push th } : World).thread u).duties = (w.thread u).duties := by
  simp only [World.thread, Arena.get_push]
  split
  · next new => rw [new, idle, Arena.get_next]
  · rfl

theorem newThread (name : Option String) (h : Moment.Consistent ⟨w, H⟩) :
    Moment.Consistent ⟨{ w with threads := w.threads.push { name } }, H⟩ := by
  have nothing : w.Balanced (ofShares [] + H) := by
    rw [ofShares_nil, zero_add]
    exact h.balanced
  have balanced : { w with threads := w.threads.push { name } }.Balanced H :=
    nothing.newThread rfl rfl
  have loops : { w with threads := w.threads.push { name } }.Known :=
    h.known.pushThread _ rfl fun l eq => Role.noConfusion eq
  exact h.dutiful (fun u => duties_push { name } u rfl) balanced (by simp) (by simp) loops

theorem duties_createLoop (settings : LoopSettings) (u : ThreadId) :
    ((w.createLoop t settings).2.thread u).duties = (w.thread u).duties := by
  simp only [World.createLoop, (World.keeps_log ..).thread]
  rw [World.onThread_congr Thread.duties]
  · rfl
  · exact fun _ => rfl

theorem createLoop (settings : LoopSettings) (h : Moment.Consistent ⟨w, H⟩)
    (inside : t.index < w.threads.size) : Moment.Consistent
      ⟨(w.createLoop t settings).2, share (.loop (w.createLoop t settings).1) ::ₘ H⟩ := by
  have pushed := h.known.pushLoop (.ofSettings settings t (w.thread t).currentLoop)
    fun l eq => h.known.current t l eq
  have bound := pushed.setCurrentLoop (some w.loops.next) inside fun l eq => by
    obtain rfl := Option.some.inj eq
    exact Arena.size_push ▸ Nat.lt_succ_self _
  exact h.dutiful (duties_createLoop settings) h.balanced.createLoop (by simp) (by simp)
    (World.Known.log bound)

theorem startLoopThread (settings : LoopSettings) (h : Moment.Consistent ⟨w, H⟩) :
    Moment.Consistent ⟨(w.startLoopThread settings).2, H⟩ := by
  let th : Thread :=
    { name := some settings.normalize.name, role := .serving w.loops.next }
  let loop := EventLoop.ofSettings settings.normalize w.threads.next
    (({ w with threads := w.threads.push th } : World).thread w.threads.next).currentLoop
  have inside : w.loops.next.index < (w.loops.push loop).size :=
    Arena.size_push ▸ Nat.lt_succ_self _
  have aside : loop.previous = none := by
    simp [loop, th, EventLoop.ofSettings, World.thread, Arena.get_push]
  have pushed := h.known.pushLoop loop fun l eq => by
    rw [aside] at eq
    contradiction
  have served := pushed.pushThread th rfl fun l eq => by
    obtain rfl := Role.serving.inj eq
    exact inside
  have bound := served.setCurrentLoop (t := w.threads.next) (some w.loops.next)
    (Arena.size_push ▸ Nat.lt_succ_self _) fun l eq => by
    obtain rfl := Option.some.inj eq
    exact inside
  refine h.dutiful (fun u => ?_) h.balanced.startLoopThread (by simp) (by simp) ?_
  · simp only [World.startLoopThread, (World.keeps_log ..).thread, duties_createLoop]
    exact duties_push th u rfl
  · rw [World.startLoopThread, World.createLoop]
    exact World.Known.log (World.Known.log bound)

/-- A thread that begins or ends a turn, or leaves its loop. -/
theorem setWork {f : Thread → Thread} (busy finished : Bool) (h : Moment.Consistent ⟨w, H⟩)
    (inside : t.index < w.threads.size)
    (work : f (w.thread t) = { w.thread t with busy, finished })
    (working : busy = true → finished = false)
    (balanced : (w.onThread t f).Balanced H')
    (entries : ∀ t i c, H'.count (entry t i c) = H.count (entry t i c))
    (turns : ∀ u, H'.count (turn u) = if u = t then if busy then 1 else 0 else H.count (turn u)) :
    Moment.Consistent ⟨w.onThread t f, H'⟩ := by
  have thread : ∀ u, (w.onThread t f).thread u =
      if u = t then { w.thread u with busy, finished } else w.thread u := fun u => by
    rw [World.thread_onThread inside]
    split
    · next same => rw [same, work]
    · rfl
  constructor
  · exact balanced
  · intro u i c
    have same : (w.onThread t f).callStack u = w.callStack u := by
      simp only [World.callStack, thread]
      split <;> rfl
    rw [entries, same]
    exact h.entries u i c
  · intro u
    rw [turns, thread]
    split
    · rfl
    · exact h.turns u
  · intro u
    rw [thread]
    split
    · exact working
    · exact h.working u
  · refine h.known.settled
      ⟨fun u => ?_, fun _ => .inl, Nat.le_refl _, fun _ => .inl, rfl, fun _ => rfl⟩
    rw [thread]
    split <;> rfl

theorem beginTurn (h : Moment.Consistent ⟨w, H⟩) (inside : t.index < w.threads.size)
    (idle : (w.thread t).busy = false) (working : (w.thread t).finished = false) :
    Moment.Consistent ⟨w.onThread t fun th => { th with busy := true }, turn t ::ₘ H⟩ := by
  have balanced : w.Balanced (turn t ::ₘ H) := fun k => by
    have := h.balanced k
    simpa [Holding.shares] using this
  refine h.setWork true false inside (by rw [← working]) (fun _ => rfl)
    (World.balanced_busy.mpr balanced) (by simp) fun u => ?_
  by_cases same : u = t
  · have turns := h.turns t
    rw [idle] at turns
    subst same
    simpa using turns
  · simp [same]

theorem endTurn (h : Moment.Consistent ⟨w, turn t ::ₘ H⟩) (inside : t.index < w.threads.size) :
    Moment.Consistent ⟨w.onThread t fun th => { th with busy := false }, H⟩ := by
  have balanced : w.Balanced H := fun k => by
    have := h.balanced k
    simpa [Holding.shares] using this
  refine h.setWork false (w.thread t).finished inside rfl (fun eq => Bool.noConfusion eq)
    (World.balanced_busy.mpr balanced) (by simp) fun u => ?_
  by_cases same : u = t
  · subst same
    have turns := h.turns u
    simp only [Multiset.count_cons_self] at turns
    split at turns
    · simpa using turns
    · omega
  · simp [same]

theorem finish {l : LoopId} (h : Moment.Consistent ⟨w, H⟩) (inside : t.index < w.threads.size)
    (serves : w.servedLoop? t = some l) (idle : (w.thread t).busy = false)
    (working : (w.thread t).finished = false) : Moment.Consistent
      ⟨w.onThread t fun th => { th with finished := true }, share (.loop l) ::ₘ H⟩ := by
  have role := World.servedLoop?_eq_some.mp serves
  refine h.setWork false true inside (by rw [← idle]) (fun eq => Bool.noConfusion eq)
    (h.balanced.finish inside role working) (by simp) fun u => ?_
  by_cases same : u = t
  · have turns := h.turns t
    rw [idle] at turns
    subst same
    simpa using turns
  · simp [same]

theorem build {b : CallBuilder} (h : Moment.Consistent ⟨w, H⟩)
    (handle : ∀ k ∈ b.handle.shares, 0 < w.shareCount k)
    (context : ∀ k ∈ (b.context.getD (w.ambient t)).shares, 0 < w.shareCount k) :
    Moment.Consistent ⟨(w.build t b).2, share (.call (w.build t b).1) ::ₘ H⟩ :=
  h.steady (World.steady_build handle context) (h.balanced.build handle context) (by simp) (by simp)

/-- Every operation keeps the moment consistent. -/
theorem step {m m' : Moment} {ops : List Operation} (h : m.Consistent) (step : Step m ops m') :
    m'.Consistent := by
  cases step with
  | quiet agrees moved => exact h.quiet agrees moved
  | acquire alive => exact h.acquire alive
  | release inside => exact h.release inside
  | install inside alive =>
    exact h.steady (World.steady_install alive) (h.balanced.install inside alive)
      (by simp) (by simp)
  | dropGuard inside =>
    exact h.steady World.steady_dropGuard (h.balanced.dropGuard inside) (by simp) (by simp)
  | enter inside alive => exact h.enter inside alive
  | leave inside top => exact h.leave inside top
  | newContext x =>
    exact h.steady (.of_same rfl rfl rfl (Nat.le_refl _)) (h.balanced.newContext x)
      (by simp) (by simp)
  | newCallable x =>
    exact h.steady (.of_same rfl rfl rfl (Arena.size_push ▸ Nat.le_succ _))
      (h.balanced.newCallable x) (by simp) (by simp)
  | newManual empty =>
    exact h.steady (.of_same rfl rfl rfl (Nat.le_refl _)) (h.balanced.newManual empty)
      (by simp) (by simp)
  | newThread name => exact h.newThread name
  | build made handle context => exact h.build handle context
  | markDead t c =>
    exact h.steady World.steady_markDead (World.balanced_markDead.mpr h.balanced)
      (by simp) (by simp)
  | createLoop settings inside => exact h.createLoop settings inside
  | startLoopThread settings => exact h.startLoopThread settings
  | beginTurn inside idle working => exact h.beginTurn inside idle working
  | endTurn inside => exact h.endTurn inside
  | finish inside serves idle working => exact h.finish inside serves idle working
  | post there =>
    exact h.steady World.steady_post (h.balanced.post there) (by simp) (by simp)
  | start taken =>
    exact h.steady (World.steady_dequeue taken) (h.balanced.dequeue taken) (by simp) (by simp)
  | takeAll alive =>
    exact h.steady (.of_same rfl rfl rfl (Nat.le_refl _)) (h.balanced.emptyManual alive)
      (by simp) (by simp)
  | shutdown t l =>
    exact h.steady World.steady_shutdownLoop (World.balanced_shutdownLoop.mpr h.balanced)
      (by simp) (by simp)

end Moment.Consistent

/-- Whatever is reached from a consistent moment is consistent. -/
theorem Course.consistent {m m' : Moment} {ops : List Operation} (course : Course m ops m')
    (h : m.Consistent) : m'.Consistent :=
  course.invariant h fun _ _ _ => Moment.Consistent.step

/-- A session starts from a consistent moment. -/
theorem consistent_start (verbosity : Verbosity) : (Moment.start verbosity).Consistent := by
  have nothing : Moment.Consistent ⟨{ verbosity, allowance := Session.commandLimit }, 0⟩ := by
    have nobody : ∀ t, ({} : Arena .thread Thread).get t = default := fun t =>
      Arena.get_of_size_le (Nat.zero_le _)
    have noLoop : ∀ l, ({} : Arena .eventLoop EventLoop).get l = default := fun l =>
      Arena.get_of_size_le (Nat.zero_le _)
    constructor
    · intro s
      cases s <;> rfl
    · intro t i c
      simp only [World.callStack, World.thread, nobody]
      rfl
    · intro t
      simp only [World.thread, nobody]
      rfl
    · intro t busy
      simp only [World.thread, nobody] at busy
      contradiction
    · constructor
      · intro h member
        contradiction
      · intro l member
        contradiction
      · intro t l eq
        simp only [World.thread, nobody] at eq
        contradiction
      · intro t l eq
        simp only [World.thread, nobody] at eq
        contradiction
      · intro k l eq
        rw [noLoop] at eq
        contradiction
  exact nothing.newThread (some "driver")

end DeferredCalls
