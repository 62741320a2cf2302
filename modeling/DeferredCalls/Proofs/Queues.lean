import DeferredCalls.Proofs.Consistency

/-!
# The life of a loop

What operations do to a single loop. A loop is created open and with an empty queue. Posted tasks go
to the tail of its queue unless it is closed, and tasks are taken from the head. It may be closed at
any time, and it is closed at the latest when its last share is given up, which takes the queued
tasks along. No other operation concerns it.
-/

namespace DeferredCalls

/-- Whether an operation concerns a loop. -/
def Operation.Concerns (l : LoopId) : Operation → Prop
  | .post s _ _ => s = .loop l
  | .start s _ => s = .loop l
  | .shutdown k => k = l
  | .discard s _ => s = .loop l
  | _ => False

/-- A loop that was created, and whether it is in use. -/
structure LoopState where
  loop : EventLoop
  used : Bool

/-- What can happen to a loop, told by the operations that concern it. -/
inductive LoopChange (l : LoopId) : Option LoopState → List Operation → Option LoopState → Prop
  | other {x : Option LoopState} {ops : List Operation} :
    (∀ op ∈ ops, ¬op.Concerns l) → LoopChange l x ops x
  | create {loop : EventLoop} :
    loop.queue = [] → loop.closed = false → LoopChange l none [] (some ⟨loop, true⟩)
  | accept {x : LoopState} {task : Task} :
    x.loop.closed = false → LoopChange l (some x) [.post (.loop l) task true]
      (some { x with loop.queue := x.loop.queue ++ [task] })
  | reject {x : LoopState} {task : Task} :
    x.loop.closed = true → LoopChange l (some x) [.post (.loop l) task false] (some x)
  | start {x : LoopState} {task : Task} {rest : List Task} :
    x.loop.queue = task :: rest → LoopChange l (some x) [.start (.loop l) task]
      (some { x with loop.queue := rest })
  | shutdown {x : Option LoopState} :
    LoopChange l x [.shutdown l] (x.map fun x => { x with loop.closed := true })
  | discard {loop : EventLoop} :
    LoopChange l (some ⟨loop, true⟩) [.discard (.loop l) loop.queue]
      (some ⟨{ loop with closed := true, queue := [] }, false⟩)

namespace World

/-- What has become of a loop, if it was created. -/
def loopState (w : World) (l : LoopId) : Option LoopState :=
  if l.index < w.loops.size then some ⟨w.loop l, 0 < w.loops.shares l⟩ else none

variable {w w' w'' : World} {t : ThreadId} {l : LoopId} {k : LoopId}

theorem loopState_of_lt (known : l.index < w.loops.size) :
    w.loopState l = some ⟨w.loop l, 0 < w.loops.shares l⟩ :=
  if_pos known

theorem of_loopState {x : LoopState} (there : w.loopState l = some x) :
    l.index < w.loops.size ∧ w.loop l = x.loop ∧ x.used = decide (0 < w.loops.shares l) := by
  rw [loopState] at there
  split at there
  · next known =>
    obtain rfl := Option.some.inj there
    exact ⟨known, rfl, rfl⟩
  · contradiction

theorem Keeps.loopState (h : w.Keeps w') (l : LoopId) : w'.loopState l = w.loopState l := by
  have use : (0 < w'.loops.shares l) ↔ 0 < w.loops.shares l := by
    rw [Nat.pos_iff_ne_zero, Nat.pos_iff_ne_zero, ne_eq, h.loopUse l]
  simp only [World.loopState, World.loop, h.loopCount, h.loop l, use]

theorem loopState_congr (same : w'.loops = w.loops) (l : LoopId) :
    w'.loopState l = w.loopState l := by
  simp only [World.loopState, World.loop, same]

/-- A change of one loop is none of another one. -/
theorem loopState_modifyLoop (f : EventLoop → EventLoop) (l : LoopId) :
    { w with loops := w.loops.modify k f }.loopState l =
      if l = k then (w.loopState l).map fun x => { x with loop := f x.loop }
      else w.loopState l := by
  simp only [loopState, loop, Arena.size_modify, Arena.shares_modify]
  by_cases known : l.index < w.loops.size
  · rw [if_pos known, if_pos known]
    split
    · next same =>
      subst same
      rw [Arena.get_modify known, if_pos rfl]
      rfl
    · next other => rw [Arena.get_modify_of_ne other]
  · rw [if_neg known, if_neg known]
    split
    · rfl
    · rfl

theorem loopState_log {level : Level} {message : String} {fields : List (String × FieldValue)}
    (l : LoopId) : (w.log t level message fields).loopState l = w.loopState l :=
  (keeps_log ..).loopState l

/-! ## What each operation does to a loop -/

theorem loopChange_createLoop (settings : LoopSettings) (l : LoopId) :
    LoopChange l (w.loopState l) [] ((w.createLoop t settings).2.loopState l) := by
  have after : (w.createLoop t settings).2.loopState l =
      { w with
        loops := w.loops.push (.ofSettings settings t (w.thread t).currentLoop) }.loopState l := by
    rw [createLoop, loopState_log]
    rfl
  rw [after]
  simp only [loopState, loop, Arena.size_push, Arena.get_push, Arena.shares_push]
  by_cases new : l = w.loops.next
  · subst new
    have fresh : ¬w.loops.next.index < w.loops.size := Nat.lt_irrefl _
    have there : w.loops.next.index < w.loops.size + 1 := Nat.lt_succ_self _
    rw [if_neg fresh, if_pos there, if_pos rfl, if_pos rfl]
    exact .create rfl rfl
  · have same : (l.index < w.loops.size + 1) ↔ l.index < w.loops.size := by
      have apart : l.index ≠ w.loops.size := fun eq => new (by cases l; exact congrArg _ eq)
      omega
    rw [if_neg new, if_neg new]
    simp only [same]
    exact .other fun _ member => absurd member List.not_mem_nil

theorem loopChange_post {s : Scheduler} {task : Task} (there : w.CanPost s) (l : LoopId) :
    LoopChange l (w.loopState l) [.post s task (w.post t s task).1.isOk]
      ((w.post t s task).2.loopState l) := by
  have elsewhere (other : s ≠ .loop l) (same : (w.post t s task).2.loopState l = w.loopState l) :
      LoopChange l (w.loopState l) [.post s task (w.post t s task).1.isOk]
        ((w.post t s task).2.loopState l) := by
    rw [same]
    refine .other fun op member => ?_
    obtain rfl := List.mem_singleton.mp member
    exact other
  cases s with
  | manual m =>
    apply elsewhere Scheduler.noConfusion
    simp only [post, postToManual]
    split
    · exact (keeps_releaseTask ..).loopState l
    · exact loopState_congr rfl l
  | loop k =>
    by_cases mine : k = l
    · subst mine
      rw [loopState_of_lt there]
      simp only [post, postToLoop]
      split
      · next closed =>
        rw [(keeps_releaseTask ..).loopState, loopState_of_lt there]
        exact .reject closed
      · next opened =>
        rw [loopState_log, enqueue, loopState_modifyLoop, if_pos rfl, loopState_of_lt there]
        exact .accept (by simpa using opened)
    · apply elsewhere fun same => mine (Scheduler.loop.inj same)
      simp only [post, postToLoop]
      split
      · exact (keeps_releaseTask ..).loopState l
      · rw [loopState_log, enqueue, loopState_modifyLoop, if_neg (Ne.symm mine)]

theorem loopChange_dequeue {task : Task} (taken : w.dequeue? k = some (task, w')) (l : LoopId) :
    LoopChange l (w.loopState l) [.start (.loop k) task] (w'.loopState l) := by
  obtain ⟨known, rest, queued, rfl⟩ := of_dequeue? taken
  rw [loopState_modifyLoop]
  by_cases mine : l = k
  · subst mine
    rw [if_pos rfl, loopState_of_lt known]
    exact .start queued
  · rw [if_neg mine]
    refine .other fun op member => ?_
    obtain rfl := List.mem_singleton.mp member
    exact fun same => mine (Scheduler.loop.inj same).symm

theorem loopChange_shutdown (l : LoopId) :
    LoopChange l (w.loopState l) [.shutdown k] ((w.shutdownLoop t k).loopState l) := by
  rw [shutdownLoop, loopState_log, loopState_modifyLoop]
  by_cases mine : l = k
  · subst mine
    rw [if_pos rfl]
    exact .shutdown
  · rw [if_neg mine]
    refine .other fun op member => ?_
    obtain rfl := List.mem_singleton.mp member
    exact Ne.symm mine

theorem loopChange_dropLast (last : w.loops.shares k = 1) (l : LoopId) :
    LoopChange l (w.loopState l) [.discard (.loop k) (w.queueOf (.loop k))]
      ({ w with loops := (w.loops.dropShare k).modify k fun loop =>
        { loop with closed := true, queue := [] } }.loopState l) := by
  have known : k.index < w.loops.size := Arena.lt_size_of_shares_pos (by omega)
  by_cases mine : l = k
  · subst mine
    have after : { w with loops := (w.loops.dropShare l).modify l fun loop =>
        { loop with closed := true, queue := [] } }.loopState l =
        some ⟨{ w.loop l with closed := true, queue := [] }, false⟩ := by
      have inside : l.index < (w.loops.dropShare l).size := by
        rw [Arena.size_dropShare]
        exact known
      simp only [loopState, loop, Arena.size_modify, Arena.size_dropShare, Arena.shares_modify,
        Arena.shares_dropShare, Arena.get_modify inside, Arena.get_dropShare, if_true, known, last]
      rfl
    have before : w.loopState l = some ⟨w.loop l, true⟩ := by
      rw [loopState_of_lt known, last]
      rfl
    rw [after, before]
    exact .discard
  · have same : { w with loops := (w.loops.dropShare k).modify k fun loop =>
        { loop with closed := true, queue := [] } }.loopState l = w.loopState l := by
      simp only [loopState, loop, Arena.size_modify, Arena.size_dropShare, Arena.shares_modify,
        Arena.shares_dropShare, Arena.get_modify_of_ne mine, Arena.get_dropShare, if_neg mine]
    rw [same]
    refine .other fun op member => ?_
    obtain rfl := List.mem_singleton.mp member
    exact fun eq => mine (Scheduler.loop.inj eq).symm

theorem loopChange_release {s : Share} (used : 0 < w.shareCount s) (l : LoopId) :
    LoopChange l (w.loopState l) (w.releasing s) ((w.release t s).loopState l) := by
  by_cases lastLoop : ∃ k, s = .loop k ∧ w.loops.shares k = 1
  · obtain ⟨k, rfl, last⟩ := lastLoop
    obtain ⟨w', keeps, eq⟩ := w.release_last_loop t last
    have after : (w.release t (.loop k)).loopState l = w'.loopState l := by
      rw [eq]
      rfl
    rw [after, keeps.loopState, releasing, if_pos last]
    exact loopChange_dropLast last l
  have elsewhere : ∀ op ∈ w.releasing s, ¬op.Concerns l := by
    intro op member
    cases s with
    | loop k =>
      rw [releasing, if_neg fun last => lastLoop ⟨k, rfl, last⟩] at member
      contradiction
    | manual m =>
      change op ∈ if _ then [_] else [] at member
      split at member
      · obtain rfl := List.mem_singleton.mp member
        exact Scheduler.noConfusion
      · contradiction
    | _ => contradiction
  have same : (w.release t s).loopState l = w.loopState l := by
    by_cases lastManual : ∃ m, s = .manual m ∧ w.manuals.shares m = 1
    · obtain ⟨m, rfl, last⟩ := lastManual
      rw [(w.release_last_manual t last).loopState]
      rfl
    · exact (w.keeps_release t (fun l eq last => lastLoop ⟨l, eq, last⟩)
        (fun m eq last => lastManual ⟨m, eq, last⟩) used).loopState l
  rw [same]
  exact .other elsewhere

theorem loopState_dropGuard {g : Guard} : (w.dropGuard t g).loopState l = w.loopState l := by
  rw [dropGuard, (keeps_releaseSnapshot ..).loopState]
  exact (keeps_warnGuard ..).loopState l

theorem loopState_leaveCalls {level : Nat} :
    (w.leaveCalls t level).loopState l = w.loopState l := by
  rw [leaveCalls, (keeps_releaseCalls ..).loopState]
  rfl

theorem loopState_build {b : CallBuilder} (handle : ∀ k ∈ b.handle.shares, 0 < w.shareCount k)
    (context : ∀ k ∈ (b.context.getD (w.ambient t)).shares, 0 < w.shareCount k) :
    (w.build t b).2.loopState l = w.loopState l := by
  have alive : ∀ k ∈ b.handle.shares ++ (b.context.getD (w.ambient t)).shares,
      0 < w.shareCount k := fun k member => (List.mem_append.mp member).elim (handle k) (context k)
  simp only [build, loopState_log]
  exact (keeps_acquireAll alive).loopState l

theorem loopState_markDead {c : CallId} : (w.markDead t c).loopState l = w.loopState l := by
  rw [markDead]
  split
  · rfl
  · exact loopState_log l

theorem loopChange_startLoopThread (settings : LoopSettings) (l : LoopId) :
    LoopChange l (w.loopState l) [] ((w.startLoopThread settings).2.loopState l) := by
  have started : ∀ threads, { w with threads }.loopState l = w.loopState l :=
    fun _ => loopState_congr rfl l
  rw [startLoopThread, loopState_log, ← started]
  exact loopChange_createLoop settings.normalize l

/-- What leaves a loop as it is, and is told by operations that do not concern it. -/
theorem loopChange_of_eq {ops : List Operation} (same : w'.loopState l = w.loopState l)
    (elsewhere : ∀ op ∈ ops, ¬op.Concerns l) :
    LoopChange l (w.loopState l) ops (w'.loopState l) := by
  rw [same]
  exact .other elsewhere

/-- A change of threads is none of loops. -/
theorem loopChange_aside (same : w'.loops = w.loops) (l : LoopId) :
    LoopChange l (w.loopState l) [] (w'.loopState l) := by
  rw [loopState_congr same]
  exact .other fun _ member => nomatch member

theorem Keeps.loopChange (h : w.Keeps w') (l : LoopId) :
    LoopChange l (w.loopState l) [] (w'.loopState l) := by
  rw [h.loopState]
  exact .other fun _ member => nomatch member

end World

open World

/-- What a step does to a loop. -/
theorem Step.loopChange {m m' : Moment} {ops : List Operation} (h : m.Consistent)
    (step : Step m ops m') (l : LoopId) :
    LoopChange l (m.world.loopState l) ops (m'.world.loopState l) := by
  cases step with
  | quiet agrees moved => exact loopChange_aside agrees.loops l
  | acquire alive => exact (keeps_acquire alive).loopChange l
  | release inside => exact loopChange_release h.balanced.shareCount_pos l
  | install inside alive =>
    apply loopChange_of_eq ((keeps_acquireAll alive).loopState l)
    intro op member
    obtain rfl := List.mem_singleton.mp member
    exact id
  | dropGuard inside =>
    apply loopChange_of_eq loopState_dropGuard
    intro op member
    obtain rfl := List.mem_singleton.mp member
    exact id
  | enter inside alive => exact (keeps_acquire (s := .call _) alive).loopChange l
  | leave inside top => exact loopChange_of_eq loopState_leaveCalls fun _ member => nomatch member
  | newContext x => exact loopChange_aside rfl l
  | newCallable x => exact loopChange_aside rfl l
  | newManual empty => exact loopChange_aside rfl l
  | newThread name => exact loopChange_aside rfl l
  | build made handle context =>
    exact loopChange_of_eq (loopState_build handle context) fun _ member => nomatch member
  | markDead t c => exact loopChange_of_eq loopState_markDead fun _ member => nomatch member
  | createLoop settings inside => exact loopChange_createLoop settings l
  | startLoopThread settings => exact loopChange_startLoopThread settings l
  | beginTurn inside idle working => exact loopChange_aside rfl l
  | endTurn inside => exact loopChange_aside rfl l
  | finish inside serves idle working => exact loopChange_aside rfl l
  | post there => exact loopChange_post there l
  | start taken => exact loopChange_dequeue taken l
  | takeAll alive =>
    apply loopChange_of_eq (loopState_congr rfl l)
    intro op member
    obtain ⟨task, _, rfl⟩ := List.mem_map.mp member
    exact Scheduler.noConfusion
  | shutdown t k => exact loopChange_shutdown l

end DeferredCalls
