import DeferredCalls.Proofs.Reserving
import DeferredCalls.Session.Perform
import Mathlib.Logic.Relation

/-!
# Loop threads at work

A loop thread waits until there is a task or its loop is closed, and then runs tasks from the head
of the queue, one after another, until none is left. If the loop is closed by then, it leaves the
loop for good; otherwise it waits again. In between, and also while it runs a task, others post to
the loop and shut it down, and so do the tasks themselves.

The service of a loop thread keeps the account of its tasks: which were accepted, which were started
and which have ended, in this order. Nothing that happens makes the account wrong.

The program knows only whole turns of a loop thread, in which its tasks do what the program makes of
them. So there are two views of a service: steps, with everything that can come in between, and the
parts that the program's own course is made of.
-/

namespace DeferredCalls

open World

/-- What a loop thread is at. -/
inductive Stage
  /-- It waits for a task, or for its loop to be closed. -/
  | waiting
  /-- It is about to look for the next task. -/
  | looking
  | running (task : Task)
  /-- It has left its loop. -/
  | left

namespace Stage

/-- The tasks that are being run: one, or none. -/
def current : Stage → List Task
  | running task => [task]
  | _ => []

/-- Whether the thread has its turn. -/
def inTurn : Stage → Bool
  | looking | running _ => true
  | _ => false

/-- Whether the thread has left its loop. -/
def isLeft : Stage → Bool
  | left => true
  | _ => false

/-- What a thread can be at when somebody else has come to the end of what he was doing. -/
inductive Within : Stage → Stage → Prop
  | same (stage : Stage) : Within stage stage
  | gone : Within waiting left

theorem Within.trans {x y z : Stage} (first : x.Within y) (second : y.Within z) : x.Within z := by
  cases first with
  | same => exact second
  | gone =>
    cases second
    exact .gone

variable {stage : Stage}

/-- A thread that does not wait has its turn, or has left its loop. -/
theorem isLeft_eq_not_inTurn (elsewhere : stage ≠ .waiting) : stage.isLeft = !stage.inTurn := by
  cases stage with
  | waiting => contradiction
  | _ => rfl

theorem eq_left_of_isLeft (gone : stage.isLeft = true) : stage = .left := by
  cases stage with
  | left => rfl
  | _ => contradiction

theorem ne_waiting_of_inTurn (having : stage.inTurn = true) : stage ≠ .waiting := by
  rintro rfl
  contradiction

/-- A thread that has its turn still has it then. -/
theorem Within.of_inTurn {x y : Stage} (within : x.Within y) (turn : x.inTurn = true) : y = x := by
  cases within with
  | same => rfl
  | gone => contradiction

end Stage

/-- A loop thread at work: the world around it, and the account of its tasks. -/
structure Service where
  world : World
  stage : Stage := .waiting
  accepted : List Task := []
  started : List Task := []
  ended : List Task := []

namespace Service

/-- What a loop thread does by itself. -/
inductive Advance (t : ThreadId) (l : LoopId) : Service → Service → Prop
  | wake {x : Service} :
    x.stage = .waiting → (x.world.loop l).queue ≠ [] ∨ (x.world.loop l).closed = true →
    Advance t l x { x with
      world := x.world.onThread t fun th => { th with busy := true }
      stage := .looking }
  | take {x : Service} {task : Task} {w : World} :
    x.stage = .looking → x.world.dequeue? l = some (task, w) →
    Advance t l x { x with
      world := w
      stage := .running task
      started := x.started ++ [task] }
  | finish {x : Service} {task : Task} :
    x.stage = .running task →
    Advance t l x { x with
      stage := .looking
      ended := x.ended ++ [task] }
  | rest {x : Service} :
    x.stage = .looking → (x.world.loop l).queue = [] → (x.world.loop l).closed = false →
    Advance t l x { x with
      world := x.world.onThread t fun th => { th with busy := false }
      stage := .waiting }
  | leave {x : Service} :
    x.stage = .looking → (x.world.loop l).queue = [] → (x.world.loop l).closed = true →
    Advance t l x { x with
      world := (Act.leaveLoop l t (x.world.onThread t fun th => { th with busy := false })).2
      stage := .left }

/-- What happens next: something elsewhere or in the task that is being run, or the thread goes
on. -/
inductive Step (t : ThreadId) (l : LoopId) : Service → Service → Prop
  | others {x : Service} {w : World} {new : List Task} :
    Meanwhile t l x.world new w →
    Step t l x { x with world := w, accepted := x.accepted ++ new }
  | own {x y : Service} : x.Advance t l y → Step t l x y

/-- What happens in the course of time. -/
def Path (t : ThreadId) (l : LoopId) : Service → Service → Prop :=
  Relation.ReflTransGen (Step t l)

/-- The thread runs tasks from the head of the queue, and logs in between. What a task does is what
the given way of running tasks makes of it on this thread, and its panic is logged; others may have
tasks accepted in the meantime. -/
inductive Serves (runTask : RunTask) (t : ThreadId) (l : LoopId) : Service → Service → Prop
  | done (x : Service) : Serves runTask t l x x
  | log {x z : Service} {level : Level} {message : String} {fields : List (String × FieldValue)} :
    x.stage = .looking → Aside t l x.world (x.world.log t level message fields) →
    Serves runTask t l { x with world := x.world.log t level message fields } z →
    Serves runTask t l x z
  | next {x z : Service} {task : Task} {w : World} {new : List Task} :
    x.stage = .looking → x.world.dequeue? l = some (task, w) →
    Meanwhile t l w new (w.ran runTask l task t) →
    Serves runTask t l { x with
      world := w.ran runTask l task t
      stage := .looking
      accepted := x.accepted ++ new
      started := x.started ++ [task]
      ended := x.ended ++ [task] } z →
    Serves runTask t l x z

/-- The thread has its turn: it wakes up, serves its loop, and is not at work any more. -/
inductive Turn (runTask : RunTask) (t : ThreadId) (l : LoopId) (x z : Service) : Prop
  | intro {y v : Service} (waiting : x.stage = .waiting) (wake : x.Advance t l y)
    (serves : y.Serves runTask t l v) (last : v.Advance t l z) (idle : z.stage.inTurn = false)

/-- What the course of the program consists of: something elsewhere, or in the task that is being
run, or a turn of the thread, with everything that commands in its tasks do. -/
inductive Part (t : ThreadId) (l : LoopId) : Service → Service → Prop
  | others {x : Service} {w : World} {new : List Task} :
    Meanwhile t l x.world new w →
    Part t l x { x with world := w, accepted := x.accepted ++ new }
  | turn {x y : Service} {depth : Nat} :
    x.Turn (Act.runTask (Act.performer depth)) t l y → Part t l x y

/-- What the program makes of a service. -/
def Sequel (t : ThreadId) (l : LoopId) : Service → Service → Prop :=
  Relation.ReflTransGen (Part t l)

/-- The account of a service is right, and fits what the world knows of the thread. -/
structure Sound (t : ThreadId) (l : LoopId) (x : Service) : Prop where
  reserved : x.world.Reserved t l
  accepted : x.accepted = x.started ++ (x.world.loop l).queue
  started : x.started = x.ended ++ x.stage.current
  busy : (x.world.thread t).busy = x.stage.inTurn
  finished : (x.world.thread t).finished = x.stage.isLeft
  left : x.stage = .left → (x.world.loop l).closed = true ∧ (x.world.loop l).queue = []

/-- A later state of a service: the account has grown, and what is over is over for good. -/
structure Precedes (l : LoopId) (x y : Service) : Prop where
  accepted : x.accepted <+: y.accepted
  started : x.started <+: y.started
  ended : x.ended <+: y.ended
  closed : (x.world.loop l).closed = true →
    (y.world.loop l).closed = true ∧ y.accepted = x.accepted
  left : x.stage = .left → y.stage = .left ∧ y.started = x.started ∧ y.ended = x.ended

variable {t : ThreadId} {l : LoopId} {x y z : Service} {w : World} {runTask : RunTask}

/-! ## Every step keeps the account -/

/-- A thread that leaves its loop says so, and gives up its share of the loop. -/
theorem aside_leave (reserved : w.Reserved t l) (empty : (w.loop l).queue = []) :
    Aside t l (w.onThread t fun th => { th with finished := true })
      (Act.leaveLoop l t w).2 := by
  rw [Act.leaveLoop_apply]
  dsimp only
  have spares := w.spares_log t .debug "event loop thread exiting" [w.loopField l]
  have queue :
      ((w.log t .debug "event loop thread exiting" [w.loopField l]).loop l).queue = [] := by
    rw [World.loop, spares.loop]
    exact empty
  obtain ⟨journal, remoteJournal, eq⟩ :=
    w.log_eq t .debug "event loop thread exiting" [w.loopField l]
  rw [eq] at queue ⊢
  have gone : (w.onThread t fun th => { th with finished := true }).Reserved t l :=
    reserved.setSlots fun _ => ⟨rfl, rfl⟩
  have logged : Aside t l (w.onThread t fun th => { th with finished := true })
      ({ w with journal, remoteJournal }.onThread t fun th => { th with finished := true }) :=
    Spares.aside ⟨rfl, rfl, fun _ => rfl, rfl⟩ gone
  exact logged.trans (aside_release logged.reserved t fun _ => queue)

/-- What is known of a thread, given what it is at. -/
theorem Sound.of_stage {stage : Stage} (sound : x.Sound t l) (eq : x.stage = stage) :
    x.started = x.ended ++ stage.current ∧ (x.world.thread t).busy = stage.inTurn ∧
      (x.world.thread t).finished = stage.isLeft := by
  rw [← eq]
  exact ⟨sound.started, sound.busy, sound.finished⟩

theorem Advance.sound (advance : x.Advance t l y) (sound : x.Sound t l) : y.Sound t l := by
  have reserved := sound.reserved
  have inside := reserved.inside
  cases advance with
  | wake waiting _ =>
    obtain ⟨started, _, finished⟩ := sound.of_stage waiting
    refine ⟨reserved.setSlots fun _ => ⟨rfl, rfl⟩, sound.accepted, started, ?_, ?_, nofun⟩
    · rw [thread_onThread_self inside]
      rfl
    · rw [thread_onThread_self inside]
      exact finished
  | @take task w looking taken =>
    obtain ⟨started, busy, finished⟩ := sound.of_stage looking
    obtain ⟨known, rest, queued, rfl⟩ := of_dequeue? taken
    refine ⟨reserved.modifyLoop fun _ => rfl, ?_, ?_, busy, finished, nofun⟩
    · rw [loop_modify_self known, sound.accepted, queued]
      simp
    · rw [started]
      simp [Stage.current]
  | finish running =>
    obtain ⟨started, busy, finished⟩ := sound.of_stage running
    exact ⟨reserved, sound.accepted, by rw [started]; simp [Stage.current], busy, finished, nofun⟩
  | rest looking empty opened =>
    obtain ⟨started, _, finished⟩ := sound.of_stage looking
    refine ⟨reserved.setSlots fun _ => ⟨rfl, rfl⟩, sound.accepted, started, ?_, ?_, nofun⟩
    · rw [thread_onThread_self inside]
      rfl
    · rw [thread_onThread_self inside]
      exact finished
  | leave looking empty closed =>
    obtain ⟨started, _, _⟩ := sound.of_stage looking
    have idle : (x.world.onThread t fun th => { th with busy := false }).Reserved t l :=
      reserved.setSlots fun _ => ⟨rfl, rfl⟩
    have released := aside_leave idle empty
    have inside' :
        t.index < (x.world.onThread t fun th => { th with busy := false }).threads.size := by
      rw [size_threads_onThread]
      exact inside
    refine ⟨released.reserved, ?_, started, ?_, ?_, fun _ => ⟨(released.closed closed).1, ?_⟩⟩
    · rw [released.queue_eq]
      exact sound.accepted
    · rw [released.busy, thread_onThread_self inside', thread_onThread_self inside]
      rfl
    · rw [released.finished, thread_onThread_self inside']
      rfl
    · rw [released.queue_eq]
      exact empty

theorem Step.sound (step : x.Step t l y) (sound : x.Sound t l) : y.Sound t l := by
  cases step with
  | own advance => exact advance.sound sound
  | others meanwhile =>
    refine ⟨meanwhile.reserved, ?_, sound.started, ?_, ?_, fun left => ?_⟩
    · rw [meanwhile.queue, sound.accepted, List.append_assoc]
    · rw [meanwhile.busy, sound.busy]
    · rw [meanwhile.finished, sound.finished]
    · obtain ⟨closed, empty⟩ := sound.left left
      obtain ⟨still, nothing⟩ := meanwhile.closed closed
      rw [meanwhile.queue, empty, nothing]
      exact ⟨still, rfl⟩

/-- The account is right as long as the service lasts. -/
theorem Path.sound (path : x.Path t l y) (sound : x.Sound t l) : y.Sound t l := by
  induction path with
  | refl => exact sound
  | tail _ step ih => exact step.sound ih

/-! ## The course of the program -/

theorem Serves.trans (first : x.Serves runTask t l y) (second : y.Serves runTask t l z) :
    x.Serves runTask t l z := by
  induction first with
  | done => exact second
  | log looking aside _ ih => exact .log looking aside (ih second)
  | next looking taken meanwhile _ ih => exact .next looking taken meanwhile (ih second)

/-- Something happens aside, and nothing is accepted. -/
theorem step_aside (aside : Aside t l x.world w) : x.Step t l { x with world := w } := by
  have step : Step t l x _ := .others aside.toMeanwhile
  simp only [List.append_nil] at step
  exact step

theorem Serves.path (serves : x.Serves runTask t l y) : x.Path t l y := by
  induction serves with
  | done => exact .refl
  | log _ aside _ ih => exact .head (step_aside aside) ih
  | next looking taken meanwhile _ ih =>
    exact .head (.own (.take looking taken))
      (.head (.others meanwhile) (.head (.own (.finish rfl)) ih))

theorem Turn.path (turn : x.Turn runTask t l z) : x.Path t l z := by
  obtain ⟨_, wake, serves, last, _⟩ := turn
  exact .head (.own wake) (serves.path.tail (.own last))

/-- The program takes steps. -/
theorem Sequel.path (sequel : x.Sequel t l y) : x.Path t l y := by
  induction sequel with
  | refl => exact .refl
  | tail _ part ih =>
    cases part with
    | others meanwhile => exact .tail ih (.others meanwhile)
    | turn turn => exact Relation.ReflTransGen.trans ih turn.path

theorem sequel_aside (aside : Aside t l x.world w) : x.Sequel t l { x with world := w } := by
  have part : Part t l x _ := .others aside.toMeanwhile
  simp only [List.append_nil] at part
  exact .single part

/-- While a thread has its turn, all the rest happens elsewhere or in its task. -/
theorem Sequel.meanwhile (sequel : x.Sequel t l y) (sound : x.Sound t l)
    (turn : x.stage.inTurn = true) : ∃ w new, Meanwhile t l x.world new w ∧
      y = { x with world := w, accepted := x.accepted ++ new } := by
  induction sequel with
  | refl =>
    have nothing : Meanwhile t l x.world [] x.world := (Aside.refl sound.reserved).toMeanwhile
    exact ⟨x.world, [], nothing, by rw [List.append_nil]⟩
  | tail _ part ih =>
    obtain ⟨w, new, before, rfl⟩ := ih
    cases part with
    | others after => exact ⟨_, _, before.trans after, by rw [List.append_assoc]⟩
    | turn having =>
      obtain ⟨waiting, _⟩ := having
      rw [show x.stage = .waiting from waiting] at turn
      contradiction

/-! ## What is over is over for good -/

namespace Precedes

protected theorem refl (l : LoopId) (x : Service) : x.Precedes l x where
  accepted := List.prefix_refl _
  started := List.prefix_refl _
  ended := List.prefix_refl _
  closed closed := ⟨closed, rfl⟩
  left left := ⟨left, rfl, rfl⟩

protected theorem trans (first : x.Precedes l y) (second : y.Precedes l z) : x.Precedes l z where
  accepted := first.accepted.trans second.accepted
  started := first.started.trans second.started
  ended := first.ended.trans second.ended
  closed closed := by
    obtain ⟨still, same⟩ := first.closed closed
    obtain ⟨atEnd, same'⟩ := second.closed still
    exact ⟨atEnd, same'.trans same⟩
  left left := by
    obtain ⟨still, started, ended⟩ := first.left left
    obtain ⟨atEnd, started', ended'⟩ := second.left still
    exact ⟨atEnd, started'.trans started, ended'.trans ended⟩

end Precedes

/-- A thread that has left its loop does nothing any more. -/
theorem Advance.not_left (advance : x.Advance t l y) : x.stage ≠ .left := by
  cases advance with
  | wake stage | take stage | finish stage | rest stage | leave stage =>
    rw [stage]
    nofun

theorem Advance.precedes (advance : x.Advance t l y) (sound : x.Sound t l) : x.Precedes l y := by
  have there (left : x.stage = .left) : False := advance.not_left left
  cases advance with
  | wake | rest =>
    exact ⟨List.prefix_refl _, List.prefix_refl _, List.prefix_refl _, fun closed => ⟨closed, rfl⟩,
      fun left => (there left).elim⟩
  | take looking taken =>
    obtain ⟨known, rest, queued, rfl⟩ := of_dequeue? taken
    refine ⟨List.prefix_refl _, List.prefix_append .., List.prefix_refl _, fun closed => ?_,
      fun left => (there left).elim⟩
    rw [loop_modify_self known]
    exact ⟨closed, rfl⟩
  | finish =>
    exact ⟨List.prefix_refl _, List.prefix_refl _, List.prefix_append .., fun closed =>
      ⟨closed, rfl⟩, fun left => (there left).elim⟩
  | leave looking empty _ =>
    refine ⟨List.prefix_refl _, List.prefix_refl _, List.prefix_refl _, fun closed => ⟨?_, rfl⟩,
      fun left => (there left).elim⟩
    have idle := sound.reserved.setSlots (u := t) (f := fun th => { th with busy := false })
      fun _ => ⟨rfl, rfl⟩
    exact ((aside_leave idle empty).closed closed).1

theorem Step.precedes (step : x.Step t l y) (sound : x.Sound t l) : x.Precedes l y := by
  cases step with
  | own advance => exact advance.precedes sound
  | others meanwhile =>
    refine ⟨List.prefix_append .., List.prefix_refl _, List.prefix_refl _, fun closed => ?_,
      fun left => ⟨left, rfl, rfl⟩⟩
    obtain ⟨still, rfl⟩ := meanwhile.closed closed
    exact ⟨still, List.append_nil _⟩

theorem Path.precedes (path : x.Path t l y) (sound : x.Sound t l) : x.Precedes l y := by
  induction path with
  | refl => exact .refl l x
  | tail before step ih => exact ih.trans (step.precedes (Path.sound before sound))

/-- A thread that is at a closed loop does not wait for anything any more. -/
theorem Path.never_waits (path : x.Path t l y) (sound : x.Sound t l)
    (closed : (x.world.loop l).closed = true) (elsewhere : x.stage ≠ .waiting) :
    y.stage ≠ .waiting := by
  induction path with
  | refl => exact elsewhere
  | tail before step ih =>
    have still := ((Path.precedes before sound).closed closed).1
    cases step with
    | others => exact ih
    | own advance =>
      cases advance with
      | wake | take | finish | leave => nofun
      | rest _ _ opened =>
        rw [opened] at still
        contradiction

end Service

end DeferredCalls
