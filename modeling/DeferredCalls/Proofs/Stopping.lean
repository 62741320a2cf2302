import DeferredCalls.Proofs.Commands
import DeferredCalls.Proofs.Fairness

/-!
# Stopping loop threads

A loop thread that is stopped while it waits takes its last turn, which ends when no task is left. A
loop thread that has its turn is not waited for: its loop is closed, and nothing else happens to it
until it goes on by itself.
-/

namespace DeferredCalls

open World

namespace Service

variable {t u : ThreadId} {l : LoopId} {x y z : Service} {w : World} {runTask : RunTask}

/-- What holds for a loop thread that was stopped. -/
structure Stopped (t : ThreadId) (l : LoopId) (x y : Service) : Prop where
  sequel : x.Sequel t l y
  closed : (y.world.loop l).closed = true
  /-- From then on nothing is accepted. -/
  accepted : y.accepted = x.accepted
  /-- If the thread has its turn, it is where it was, and what was queued still is. -/
  inTurn : x.stage.inTurn = true → y.stage = x.stage ∧ y.started = x.started ∧ y.ended = x.ended ∧
    (y.world.loop l).queue = (x.world.loop l).queue
  /-- Otherwise it has left the loop, with every task that was accepted. -/
  left : x.stage.inTurn = false → y.stage = .left ∧ y.ended = y.accepted ∧ y.world.pending l = 0

/-! ## Where a turn ends -/

/-- A thread that has left its loop has run whatever was accepted. -/
theorem Sound.ended_of_left (sound : x.Sound t l) (left : x.stage = .left) :
    x.ended = x.accepted ∧ x.world.pending l = 0 := by
  have empty := (sound.left left).2
  have accepted := sound.accepted
  rw [empty, List.append_nil] at accepted
  exact ⟨by rw [accepted, sound.ended_eq (by rw [left]; rfl)], by rw [pending, empty]; rfl⟩

/-- A thread that ends its turn rests, or has left its loop. -/
theorem Advance.rests_or_leaves (last : x.Advance t l y) (idle : y.stage.inTurn = false) :
    (y.stage = .waiting ∧ (y.world.loop l).queue = [] ∧ (y.world.loop l).closed = false) ∨
      y.stage = .left := by
  cases last with
  | wake | take | finish => contradiction
  | rest _ empty opened => exact .inl ⟨rfl, empty, opened⟩
  | leave => exact .inr rfl

/-- At the end of a turn no task is left. -/
theorem Turn.ended (turn : x.Turn runTask t l y) (sound : x.Sound t l) :
    y.ended = y.accepted ∧ y.world.pending l = 0 ∧
      y.stage = if (y.world.loop l).closed then .left else .waiting := by
  have sound' := turn.path.sound sound
  obtain ⟨_, _, _, last, idle⟩ := turn
  rcases last.rests_or_leaves idle with ⟨waiting, empty, opened⟩ | left
  · have accepted := sound'.accepted
    rw [empty, List.append_nil] at accepted
    refine ⟨?_, by rw [pending, empty]; rfl, by rw [waiting, opened]; rfl⟩
    rw [accepted, sound'.ended_eq (by rw [waiting]; rfl)]
  · obtain ⟨ended, pending⟩ := sound'.ended_of_left left
    exact ⟨ended, pending, by rw [left, (sound'.left left).1]; rfl⟩

/-! ## Stopping a thread -/

/-- What is done aside before or after a stop is part of it. -/
theorem Stopped.after (aside : Aside t l x.world w)
    (stopped : Stopped t l { x with world := w } y) : x.Stopped t l y where
  sequel := Relation.ReflTransGen.trans (sequel_aside aside) stopped.sequel
  closed := stopped.closed
  accepted := stopped.accepted
  inTurn having := by
    rw [← aside.queue_eq]
    exact stopped.inTurn having
  left := stopped.left

theorem Stopped.andThen (stopped : x.Stopped t l y) (aside : Aside t l y.world w) :
    x.Stopped t l { y with world := w } := by
  refine ⟨Relation.ReflTransGen.trans stopped.sequel (sequel_aside aside),
    (aside.closed stopped.closed).1, stopped.accepted, fun having => ?_, fun idle => ?_⟩
  · rw [aside.queue_eq]
    exact stopped.inTurn having
  · rw [pending, aside.queue_eq]
    exact stopped.left idle

/-- Once it was stopped, a thread never waits again. -/
theorem Stopped.never_waits (stopped : x.Stopped t l y) (sound : x.Sound t l)
    (path : y.Path t l z) : z.stage ≠ .waiting := by
  refine path.never_waits (stopped.sequel.path.sound sound) stopped.closed ?_
  by_cases having : x.stage.inTurn = true
  · rw [(stopped.inTurn having).1]
    exact Stage.ne_waiting_of_inTurn having
  · rw [(stopped.left (Bool.eq_false_iff.mpr having)).1]
    nofun

end Service

open Service

namespace Act

variable {runTask : RunTask} {t u : ThreadId} {l : LoopId} {x : Service} {self : Performer}
  {id : String}

section Stop

variable (respects : RunTask.Respects t l runTask)

include respects

/-- A thread that has its turn, or has left its loop, does not take another turn. -/
theorem takeTurn_of_not_waiting (sound : x.Sound t l) (elsewhere : x.stage ≠ .waiting)
    (u : ThreadId) : takeTurn runTask t u x.world = (.ok (), x.world) := by
  obtain ⟨y, _, eq, same⟩ := takeTurn_eq respects sound u
  rw [if_neg fun wants => elsewhere (sound.wantsTurn_iff.mp wants).1] at same
  rw [eq, same]

/-- Stopping a loop thread, from wherever. -/
theorem stopLoopThread_eq (sound : x.Sound t l) (u : ThreadId) : ∃ y, x.Stopped t l y ∧
    stopLoopThread runTask t u x.world = (.ok (u == t || !x.stage.inTurn), y.world) := by
  have aside := aside_shutdownLoop sound.reserved u l
  have closed := closed_shutdownLoop sound.reserved.known u
  have shut : x.Sequel t l { x with world := x.world.shutdownLoop u l } := sequel_aside aside
  have sound' := shut.path.sound sound
  have stops {y : Service} (stopped : x.Stopped t l y) (left : y.stage.isLeft = !x.stage.inTurn)
      (eq : takeTurn runTask t u (x.world.shutdownLoop u l) = (.ok (), y.world)) :
      ∃ z, x.Stopped t l z ∧
        stopLoopThread runTask t u x.world = (.ok (u == t || !x.stage.inTurn), z.world) := by
    have soundY := stopped.sequel.path.sound sound
    rw [stopLoopThread, bind_apply, read_apply, sound.servedLoop?]
    simp only [bind_apply, change_apply, eq, read_apply]
    split
    · next mine =>
      have logged := (y.world.spares_log u .debug "loop thread stopped from its own task; detaching"
        [y.world.loopField l]).aside soundY.reserved
      exact ⟨_, stopped.andThen logged, by rw [mine]; rfl⟩
    · next other =>
      refine ⟨y, stopped, ?_⟩
      rw [read_apply, soundY.finished, left, Bool.eq_false_iff.mpr other, Bool.false_or]
  by_cases waiting : x.stage = .waiting
  · obtain ⟨y, passes, eq, turn⟩ := takeTurn_eq respects sound' u
    rw [if_pos (sound'.wantsTurn_iff.mpr ⟨waiting, .inr closed⟩)] at turn
    obtain ⟨still, same⟩ := (passes.sequel.path.precedes sound').closed closed
    obtain ⟨ended, none, stage⟩ := turn.ended sound'
    rw [if_pos still] at stage
    refine stops ⟨shut.trans passes.sequel, still, same, fun having => ?_,
      fun _ => ⟨stage, ended, none⟩⟩ ?_ eq
    · exact absurd waiting (Stage.ne_waiting_of_inTurn having)
    · rw [stage, waiting]
      rfl
  · -- The thread goes on where it is, or has left the loop long since.
    have isLeft := Stage.isLeft_eq_not_inTurn waiting
    refine stops ⟨shut, closed, rfl, fun _ => ⟨rfl, rfl, rfl, aside.queue_eq⟩, fun idle => ?_⟩
      isLeft (takeTurn_of_not_waiting respects sound' waiting u)
    rw [idle] at isLeft
    have left := Stage.eq_left_of_isLeft isLeft
    exact ⟨left, sound'.ended_of_left left⟩

/-- Stopping it again comes to nothing. -/
theorem stopLoopThread_again (sound : x.Sound t l) (closed : (x.world.loop l).closed = true)
    (elsewhere : x.stage ≠ .waiting) (u : ThreadId) :
    x.world.Spares (stopLoopThread runTask t u x.world).2 := by
  have spares := spares_shutdownLoop closed u
  have sound' : ({ x with world := x.world.shutdownLoop u l } : Service).Sound t l :=
    (sequel_aside (spares.aside sound.reserved)).path.sound sound
  have idle := takeTurn_of_not_waiting respects sound' elsewhere u
  rw [stopLoopThread, bind_apply, read_apply, sound.servedLoop?]
  simp only [bind_apply, change_apply, idle, read_apply]
  split
  · exact spares.trans (spares_log ..)
  · exact spares

/-- What is kept under names makes no difference to it. -/
theorem stopLoopThread_setNames (sound : x.Sound t l) (u : ThreadId) (names : Names) :
    ∃ y, x.Stopped t l y ∧ stopLoopThread runTask t u { x.world with names } =
      (.ok (u == t || !x.stage.inTurn), y.world) := by
  have aside : Aside t l x.world { x.world with names } :=
    Spares.aside ⟨rfl, rfl, fun _ => rfl, rfl⟩ sound.reserved
  obtain ⟨y, stopped, eq⟩ :=
    stopLoopThread_eq respects ((sequel_aside aside).path.sound sound) u
  exact ⟨y, stopped.after aside, eq⟩

end Stop

/-! ## The commands that stop a thread -/

section Commands

variable (respects : self.Respects t l) (sound : x.Sound t l)
  (named : x.world.names.loopThreads.get? id = some t)

include respects sound named

/-- Giving up a loop thread. -/
theorem dropLoopThreadNamed_eq (u : ThreadId) : ∃ y, x.Stopped t l y ∧
    dropLoopThreadNamed self id u x.world =
      (.ok (if u == t || !x.stage.inTurn then .nothing else .wouldBlock), y.world) := by
  obtain ⟨y, stopped, eq⟩ := stopLoopThread_setNames (runTask_respects respects) sound u
    { x.world.names with loopThreads := x.world.names.loopThreads.erase id }
  refine ⟨y, stopped, ?_⟩
  simp only [dropLoopThreadNamed, loopThreadNamed?, bind_apply, read_apply, named]
  simp only [forgetLoopThread, dropLoopThread, change_apply]
  rw [eq]
  rfl

/-- Shutting down a loop thread, with the end of its keeping. -/
theorem shutdownLoopThread_eq (u : ThreadId) : ∃ y, x.Stopped t l y ∧
    shutdownLoopThread self id u x.world =
      (.ok (if u == t || !x.stage.inTurn then .accepted else .wouldBlock), y.world) := by
  obtain ⟨y, stopped, eq⟩ := stopLoopThread_setNames (runTask_respects respects) sound u
    { x.world.names with loopThreads := x.world.names.loopThreads.erase id }
  have soundY := stopped.sequel.path.sound sound
  have again := (spares_shutdownLoop stopped.closed u).aside soundY.reserved
  refine ⟨_, stopped.andThen again, ?_⟩
  simp only [shutdownLoopThread, loopThreadNamed?, bind_apply, read_apply, named]
  simp only [forgetLoopThread, change_apply]
  rw [eq]
  simp only [bind_apply, soundY.servedLoop?]
  rfl

end Commands

end Act

end DeferredCalls
