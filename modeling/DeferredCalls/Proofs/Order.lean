import DeferredCalls.Proofs.Performing
import DeferredCalls.Proofs.Queues

/-!
# Tasks in order

The account of the tasks of a loop. What a loop accepted is what was started, in the same order, and
then what is still queued; when the loop is given up, the queued tasks are given up with it, and
from then on nothing is accepted or started. It makes no difference who drives the loop, how deep
inside its own tasks, and which of them panic.

A task is started in order to be run. So whoever drives a loop runs each task that is taken from its
queue before the next one is taken there, but for those that the task takes itself.
-/

namespace DeferredCalls

namespace Operation

variable (l : LoopId)

/-- The task that a loop accepted, if the operation is a post to it. -/
def accepted : Operation → List Task
  | .post s task true => if s = .loop l then [task] else []
  | _ => []

/-- The task that was taken from the queue of a loop in order to be run. -/
def started : Operation → List Task
  | .start s task => if s = .loop l then [task] else []
  | _ => []

/-- The tasks that were given up with a loop. -/
def discarded : Operation → List Task
  | .discard s tasks => if s = .loop l then tasks else []
  | _ => []

/-- Whether an operation closes a loop. -/
def closes : Operation → Bool
  | .shutdown k => k = l
  | .discard s _ => s = .loop l
  | _ => false

end Operation

/-- The tasks that a loop accepted, in order. -/
def accepted (l : LoopId) (ops : List Operation) : List Task :=
  ops.flatMap (Operation.accepted l)

/-- The tasks of a loop that were started, in order. -/
def started (l : LoopId) (ops : List Operation) : List Task :=
  ops.flatMap (Operation.started l)

/-- The tasks that were given up with a loop, in order. -/
def discarded (l : LoopId) (ops : List Operation) : List Task :=
  ops.flatMap (Operation.discarded l)

section Silence

variable {l : LoopId} {op : Operation} {ops more : List Operation}

theorem accepted_append : accepted l (ops ++ more) = accepted l ops ++ accepted l more :=
  List.flatMap_append

theorem started_append : started l (ops ++ more) = started l ops ++ started l more :=
  List.flatMap_append

theorem discarded_append : discarded l (ops ++ more) = discarded l ops ++ discarded l more :=
  List.flatMap_append

theorem started_toldOf_cons (taking : Taking) (rest : List Taking) :
    started l (toldOf l (taking :: rest)) =
      taking.task :: (started l taking.told ++ started l (toldOf l rest)) := by
  simp [toldOf, started, Operation.started]

theorem Operation.silent (elsewhere : ¬op.Concerns l) :
    op.accepted l = [] ∧ op.started l = [] ∧ op.discarded l = [] ∧ op.closes l = false := by
  cases op with
  | post s task accepted =>
    cases accepted with
    | true => exact ⟨if_neg elsewhere, rfl, rfl, rfl⟩
    | false => exact ⟨rfl, rfl, rfl, rfl⟩
  | start s task => exact ⟨rfl, if_neg elsewhere, rfl, rfl⟩
  | shutdown k => exact ⟨rfl, rfl, rfl, decide_eq_false elsewhere⟩
  | discard s tasks => exact ⟨rfl, rfl, if_neg elsewhere, decide_eq_false elsewhere⟩
  | install t s => exact ⟨rfl, rfl, rfl, rfl⟩
  | dropGuard t g => exact ⟨rfl, rfl, rfl, rfl⟩

/-- Operations that do not concern a loop tell nothing about its tasks. -/
theorem silent_of_elsewhere (elsewhere : ∀ op ∈ ops, ¬op.Concerns l) :
    accepted l ops = [] ∧ started l ops = [] ∧ discarded l ops = [] ∧
      ops.any (Operation.closes l) = false := by
  refine ⟨?_, ?_, ?_, ?_⟩
  · exact List.flatMap_eq_nil_iff.mpr fun op member => (op.silent (elsewhere op member)).1
  · exact List.flatMap_eq_nil_iff.mpr fun op member => (op.silent (elsewhere op member)).2.1
  · exact List.flatMap_eq_nil_iff.mpr fun op member => (op.silent (elsewhere op member)).2.2.1
  · apply List.any_eq_false.mpr
    intro op member
    rw [(op.silent (elsewhere op member)).2.2.2]
    exact Bool.false_ne_true

variable {s : Scheduler} {task : Task} {tasks : List Task} {k : LoopId} {answer : Bool}

@[simp] theorem accepted_post : accepted l [.post (.loop l) task answer] =
    if answer then [task] else [] := by
  cases answer <;> simp [accepted, Operation.accepted]

@[simp] theorem accepted_start : accepted l [.start s task] = [] := rfl

@[simp] theorem accepted_shutdown : accepted l [.shutdown k] = [] := rfl

@[simp] theorem accepted_discard : accepted l [.discard s tasks] = [] := rfl

@[simp] theorem started_post : started l [.post s task answer] = [] := rfl

@[simp] theorem started_start : started l [.start (.loop l) task] = [task] := by
  simp [started, Operation.started]

@[simp] theorem started_shutdown : started l [.shutdown k] = [] := rfl

@[simp] theorem started_discard : started l [.discard s tasks] = [] := rfl

@[simp] theorem discarded_post : discarded l [.post s task answer] = [] := rfl

@[simp] theorem discarded_start : discarded l [.start s task] = [] := rfl

@[simp] theorem discarded_shutdown : discarded l [.shutdown k] = [] := rfl

@[simp] theorem discarded_discard : discarded l [.discard (.loop l) tasks] = tasks := by
  simp [discarded, Operation.discarded]

end Silence

/-! ## The account of a loop -/

/-- What a loop in some state has to do with the tasks of which was told. -/
def Account (l : LoopId) (ops : List Operation) : Option LoopState → Prop
  | none => accepted l ops = [] ∧ started l ops = [] ∧ discarded l ops = []
  | some ⟨loop, true⟩ => accepted l ops = started l ops ++ loop.queue ∧ discarded l ops = []
  | some ⟨loop, false⟩ =>
    loop.closed = true ∧ loop.queue = [] ∧
      accepted l ops = started l ops ++ discarded l ops

namespace LoopChange

variable {l : LoopId} {x y : Option LoopState} {ops more : List Operation}

/-- Whatever happens to a loop, its account stays right. -/
theorem account (change : LoopChange l x more y) (before : Account l ops x) :
    Account l (ops ++ more) y := by
  cases change with
  | other elsewhere =>
    obtain ⟨accepts, starts, discards, _⟩ := silent_of_elsewhere elsewhere
    match x with
    | none | some ⟨loop, true⟩ | some ⟨loop, false⟩ =>
      simpa only [Account, accepted_append, started_append, discarded_append, accepts, starts,
        discards, List.append_nil] using before
  | create empty opened =>
    obtain ⟨accepts, starts, discards⟩ := before
    simp only [Account, List.append_nil, accepts, starts, discards, empty, and_self]
  | @accept x task opened =>
    obtain ⟨loop, _ | _⟩ := x
    · have closed : loop.closed = true := before.1
      rw [opened] at closed
      contradiction
    · obtain ⟨accepts, discards⟩ := before
      constructor
      · simp [accepted_append, started_append, accepts]
      · simp [discarded_append, discards]
  | @reject x task closed =>
    obtain ⟨loop, _ | _⟩ := x
    · obtain ⟨_, empty, accepts⟩ := before
      refine ⟨closed, empty, ?_⟩
      simp [accepted_append, started_append, discarded_append, accepts]
    · obtain ⟨accepts, discards⟩ := before
      constructor
      · simp [accepted_append, started_append, accepts]
      · simp [discarded_append, discards]
  | @start x task rest queued =>
    obtain ⟨loop, _ | _⟩ := x
    · have empty : loop.queue = [] := before.2.1
      rw [queued] at empty
      contradiction
    · have head : loop.queue = task :: rest := queued
      obtain ⟨accepts, discards⟩ := before
      constructor
      · simp [accepted_append, started_append, accepts, head]
      · simp [discarded_append, discards]
  | shutdown =>
    match x with
    | none =>
      obtain ⟨accepts, starts, discards⟩ := before
      simp [Account, accepted_append, started_append, discarded_append, accepts, starts, discards]
    | some ⟨loop, true⟩ =>
      obtain ⟨accepts, discards⟩ := before
      constructor
      · simp [accepted_append, started_append, accepts]
      · simp [discarded_append, discards]
    | some ⟨loop, false⟩ =>
      obtain ⟨closed, empty, accepts⟩ := before
      refine ⟨rfl, empty, ?_⟩
      simp [accepted_append, started_append, discarded_append, accepts]
  | @discard loop =>
    obtain ⟨accepts, discards⟩ := before
    refine ⟨rfl, rfl, ?_⟩
    simp [accepted_append, started_append, discarded_append, accepts, discards]

end LoopChange

/-- What becomes of a loop that was created. It is closed by being shut down or given up, and never
opened again; closed, it accepts nothing. Once given up, it has nothing to be started. -/
structure LoopState.Becomes (l : LoopId) (x : LoopState) (ops : List Operation) (y : LoopState) :
    Prop where
  closed : y.loop.closed = (x.loop.closed || ops.any (Operation.closes l))
  rejects : x.loop.closed = true → accepted l ops = []
  gone : x.used = false → x.loop.closed = true → x.loop.queue = [] →
    y.used = false ∧ y.loop.queue = [] ∧ started l ops = []

namespace LoopState.Becomes

variable {l : LoopId} {x y z : LoopState} {ops more : List Operation}

protected theorem refl (l : LoopId) (x : LoopState) : x.Becomes l [] x where
  closed := (Bool.or_false _).symm
  rejects _ := rfl
  gone unused _ empty := ⟨unused, empty, rfl⟩

protected theorem trans (first : x.Becomes l ops y) (second : y.Becomes l more z) :
    x.Becomes l (ops ++ more) z where
  closed := by
    rw [second.closed, first.closed, List.any_append, Bool.or_assoc]
  rejects closed := by
    have still : y.loop.closed = true := by rw [first.closed, closed, Bool.true_or]
    rw [accepted_append, first.rejects closed, second.rejects still]
    rfl
  gone unused closed empty := by
    have still : y.loop.closed = true := by rw [first.closed, closed, Bool.true_or]
    obtain ⟨unused', empty', starts⟩ := first.gone unused closed empty
    obtain ⟨unused'', empty'', starts'⟩ := second.gone unused' still empty'
    refine ⟨unused'', empty'', ?_⟩
    rw [started_append, starts, starts']
    rfl

end LoopState.Becomes

/-- A loop that was created is there for good. -/
theorem LoopChange.becomes {l : LoopId} {x : LoopState} {y : Option LoopState}
    {ops : List Operation} (change : LoopChange l (some x) ops y) :
    ∃ z, y = some z ∧ x.Becomes l ops z := by
  cases change with
  | other elsewhere =>
    obtain ⟨accepts, starts, _, closes⟩ := silent_of_elsewhere elsewhere
    refine ⟨x, rfl, ⟨?_, fun _ => accepts, fun unused _ empty => ⟨unused, empty, starts⟩⟩⟩
    rw [closes, Bool.or_false]
  | accept opened =>
    refine ⟨_, rfl, ⟨(Bool.or_false _).symm, fun closed => ?_, fun _ closed => ?_⟩⟩
    · rw [opened] at closed
      contradiction
    · rw [opened] at closed
      contradiction
  | reject closed =>
    refine ⟨x, rfl, ⟨(Bool.or_false _).symm, fun _ => rfl, fun unused _ empty => ?_⟩⟩
    exact ⟨unused, empty, rfl⟩
  | start queued =>
    refine ⟨_, rfl, ⟨(Bool.or_false _).symm, fun _ => rfl, fun _ _ empty => ?_⟩⟩
    rw [queued] at empty
    contradiction
  | shutdown =>
    refine ⟨_, rfl, ⟨?_, fun _ => rfl, fun unused _ empty => ⟨unused, empty, rfl⟩⟩⟩
    simp [Operation.closes]
  | discard =>
    refine ⟨_, rfl, ⟨?_, fun _ => rfl, fun used => nomatch used⟩⟩
    simp [Operation.closes]

section Courses

variable {m m' : Moment} {l : LoopId} {ops : List Operation}

/-- The account of a loop is right at every moment of a session. -/
theorem Course.account {verbosity : Verbosity} (course : Course (.start verbosity) ops m)
    (l : LoopId) : Account l ops (m.world.loopState l) := by
  induction course with
  | refl => exact ⟨rfl, rfl, rfl⟩
  | step before last ih =>
    exact (last.loopChange (before.consistent (consistent_start verbosity)) l).account ih

theorem Course.becomes (h : m.Consistent) (course : Course m ops m') {x : LoopState}
    (there : m.world.loopState l = some x) :
    ∃ y, m'.world.loopState l = some y ∧ x.Becomes l ops y := by
  induction course with
  | refl => exact ⟨x, there, .refl l x⟩
  | step before last ih =>
    obtain ⟨y, middle, first⟩ := ih
    have change := last.loopChange (before.consistent h) l
    rw [middle] at change
    obtain ⟨z, final, second⟩ := change.becomes
    exact ⟨z, final, first.trans second⟩

theorem Course.accepted_of_used {verbosity : Verbosity} (course : Course (.start verbosity) ops m)
    (used : 0 < m.world.loops.shares l) :
    accepted l ops = started l ops ++ (m.world.loop l).queue := by
  have account := course.account l
  rw [World.loopState_of_lt (Arena.lt_size_of_shares_pos used), decide_eq_true used] at account
  exact account.1

theorem Course.accepted_of_released {verbosity : Verbosity}
    (course : Course (.start verbosity) ops m) (known : l.index < m.world.loops.size)
    (released : m.world.loops.shares l = 0) :
    (m.world.loop l).closed = true ∧ (m.world.loop l).queue = [] ∧
      accepted l ops = started l ops ++ discarded l ops := by
  have unused : decide (0 < m.world.loops.shares l) = false := by simp [released]
  have account := course.account l
  rw [World.loopState_of_lt known, unused] at account
  exact account

/-- Every task that a loop accepted was started or discarded, or is queued. -/
theorem Course.accepted_eq {verbosity : Verbosity} (course : Course (.start verbosity) ops m)
    (l : LoopId) :
    accepted l ops = started l ops ++ discarded l ops ++ (m.world.loop l).queue := by
  by_cases known : l.index < m.world.loops.size
  · by_cases used : 0 < m.world.loops.shares l
    · have account := course.account l
      rw [World.loopState_of_lt known, decide_eq_true used] at account
      rw [account.1, account.2, List.append_nil]
    · obtain ⟨_, empty, accepts⟩ := course.accepted_of_released known (Nat.eq_zero_of_not_pos used)
      rw [accepts, empty, List.append_nil]
  · have account := course.account l
    have nothing : m.world.loop l = default := Arena.get_of_size_le (Nat.le_of_not_lt known)
    rw [World.loopState, if_neg known] at account
    obtain ⟨accepts, starts, discards⟩ := account
    rw [accepts, starts, discards, nothing]
    rfl

/-- What a loop has queued was accepted by a loop of which nothing was discarded. -/
theorem Course.discarded_of_queued {verbosity : Verbosity}
    (course : Course (.start verbosity) ops m) (queued : (m.world.loop l).queue ≠ []) :
    discarded l ops = [] := by
  have known : l.index < m.world.loops.size := Arena.lt_size_of_ne EventLoop.queue queued
  have used : 0 < m.world.loops.shares l := by
    by_contra released
    obtain ⟨_, empty, _⟩ := course.accepted_of_released known (Nat.eq_zero_of_not_pos released)
    contradiction
  have account := course.account l
  rw [World.loopState_of_lt known, decide_eq_true used] at account
  exact account.2

/-- A queued task waits until those before it and then the task itself are started, unless the queue
is discarded. -/
theorem Course.still_queued {verbosity : Verbosity} {more : List Operation} {task : Task}
    {before after : List Task} (course : Course (.start verbosity) ops m) (rest : Course m more m')
    (queued : (m.world.loop l).queue = before ++ task :: after)
    (early : (started l more).length ≤ before.length) (kept : discarded l more = []) :
    task ∈ (m'.world.loop l).queue := by
  have unspoiled : discarded l ops = [] := course.discarded_of_queued (by simp [queued])
  have first := course.accepted_eq l
  have second := (course.trans rest).accepted_eq l
  rw [accepted_append, started_append, discarded_append, first, unspoiled, kept, queued] at second
  simp only [List.append_nil, List.append_assoc] at second
  have whole : before ++ (task :: (after ++ accepted l more)) =
      started l more ++ (m'.world.loop l).queue := List.append_cancel_left second
  have rest : (m'.world.loop l).queue =
      (before ++ (task :: (after ++ accepted l more))).drop (started l more).length := by
    rw [whole, List.drop_left]
  rw [rest, List.drop_append_of_le_length early]
  simp

/-- The last share of a loop takes the queued tasks along. -/
theorem World.loop_release_last {w : World} {t : ThreadId} (last : w.loops.shares l = 1) :
    (w.release t (.loop l)).loopState l =
      some ⟨{ w.loop l with closed := true, queue := [] }, false⟩ := by
  obtain ⟨w', keeps, eq⟩ := w.release_last_loop t last
  have after : (w.release t (.loop l)).loopState l = w'.loopState l := by
    rw [eq]
    rfl
  have known : l.index < w.loops.size := Arena.lt_size_of_shares_pos (by omega)
  have inside : l.index < (w.loops.dropShare l).size := by
    rw [Arena.size_dropShare]
    exact known
  rw [after, keeps.loopState, loopState, if_pos (by rwa [Arena.size_modify]), loop,
    Arena.shares_modify, Arena.shares_dropShare, if_pos rfl, last, Arena.get_modify inside,
    if_pos rfl, Arena.get_dropShare]
  rfl

/-- Posting adds a task to the queue if and only if the loop is not closed. -/
theorem World.queue_post {w : World} (t : ThreadId) (task : Task)
    (known : l.index < w.loops.size) :
    if (w.loop l).closed then
      (w.post t (.loop l) task).1 = .error (.loopClosed (w.loop l).name) ∧
      ((w.post t (.loop l) task).2.loop l).queue = (w.loop l).queue
    else
      (w.post t (.loop l) task).1 = .ok () ∧
      ((w.post t (.loop l) task).2.loop l).queue = (w.loop l).queue ++ [task] := by
  split
  · next closed =>
    rw [post, postToLoop, if_pos closed]
    exact ⟨rfl, congrArg EventLoop.queue ((keeps_releaseTask ..).loop l)⟩
  · next opened =>
    rw [post, postToLoop, if_neg opened]
    refine ⟨rfl, (congrArg EventLoop.queue ((keeps_log ..).loop l)).trans ?_⟩
    rw [enqueue, Arena.get_modify known, if_pos rfl]
    rfl

end Courses

/-- Tasks of a loop start in the order in which they were accepted, none twice and none left out, as
long as the loop is in use; a post is accepted if and only if the loop is not closed; a loop is
closed for good, by being shut down or given up; and giving it up takes exactly the queued tasks
along. Driving a loop, with whatever tasks, is cycle after cycle, in which each task that is started
is run, and so is each one that is started in a session. -/
theorem tasks_start_in_order {verbosity : Verbosity} {ops : List Operation} {m : Moment}
    (course : Course (.start verbosity) ops m) {l : LoopId} (known : l.index < m.world.loops.size) :
    (0 < m.world.loops.shares l →
      accepted l ops = started l ops ++ (m.world.loop l).queue) ∧
    (∀ t task,
      if (m.world.loop l).closed then
        (m.world.post t (.loop l) task).1 = .error (.loopClosed (m.world.loop l).name) ∧
        ((m.world.post t (.loop l) task).2.loop l).queue = (m.world.loop l).queue
      else
        (m.world.post t (.loop l) task).1 = .ok () ∧
        ((m.world.post t (.loop l) task).2.loop l).queue = (m.world.loop l).queue ++ [task]) ∧
    (m.world.loops.shares l = 1 → ∀ t,
      m.world.releasing (.loop l) = [.discard (.loop l) (m.world.loop l).queue] ∧
      ((m.world.release t (.loop l)).loop l).closed = true ∧
      (m.world.release t (.loop l)).pending l = 0) ∧
    (m.world.loops.shares l = 0 →
      accepted l ops = started l ops ++ discarded l ops ∧
      (m.world.loop l).closed = true ∧ m.world.pending l = 0) ∧
    (∀ more m', Course m more m' →
      (m'.world.loop l).closed = ((m.world.loop l).closed || more.any (Operation.closes l)) ∧
      ((m.world.loop l).closed = true → accepted l more = []) ∧
      (m.world.loops.shares l = 0 →
        m'.world.loops.shares l = 0 ∧ started l more = [] ∧ m'.world.pending l = 0)) ∧
    (∀ {runs : RunTask → Prop} {runTask : RunTask}, runTask.Lawful (.diligent runs) →
      ∀ t, m.Ready t →
      (∃ takings w', Driven runs runTask l t m.held m.world takings w' ∧
        Act.runPending runTask l t m.world = (.ok takings.length, w')) ∧
      (∀ fuel, ∃ takings answer w', Driven runs runTask l t m.held m.world takings w' ∧
        Act.runUntilIdle runTask l fuel t m.world = (.ok answer, w') ∧
        ∀ count, answer = some count → count = takings.length ∧ (w'.loop l).queue = []) ∧
      ∀ fuel, ∃ takings answer w', Driven runs runTask l t m.held m.world takings w' ∧
        Act.runUntilHalt runTask l fuel t m.world = (.ok answer, if answer = some .closed then
          w'.log t .debug "event loop shut down" [w'.loopField l] else w') ∧
        ∀ halt, answer = some halt →
          (w'.loop l).queue = [] ∧ ((w'.loop l).closed = true ↔ halt = .closed)) ∧
    ∀ script, ∃ told,
      Course (.start verbosity) told
        ⟨(Session.perform script Session.driver (Session.start verbosity)).2, 0⟩ ∧
      ∀ k before task after, told = before ++ .start (.loop k) task :: after →
        RunAt Session.runs (.start verbosity) before k task after
          ⟨(Session.perform script Session.driver (Session.start verbosity)).2, 0⟩ := by
  have consistent := course.consistent (consistent_start verbosity)
  refine ⟨course.accepted_of_used, fun t task => World.queue_post t task known, ?_, ?_, ?_, ?_, ?_⟩
  · intro last t
    obtain ⟨_, loop, _⟩ := World.of_loopState (World.loop_release_last (t := t) last)
    refine ⟨if_pos last, by rw [loop], ?_⟩
    rw [World.pending, loop]
    rfl
  · intro released
    obtain ⟨closed, empty, accepts⟩ := course.accepted_of_released known released
    exact ⟨accepts, closed, congrArg List.length empty⟩
  · intro more m' rest
    obtain ⟨y, there, becomes⟩ := rest.becomes consistent (World.loopState_of_lt known)
    obtain ⟨_, loop, use⟩ := World.of_loopState there
    refine ⟨?_, becomes.rejects, ?_⟩
    · rw [loop]
      exact becomes.closed
    · intro released
      obtain ⟨closed, empty, _⟩ := course.accepted_of_released known released
      obtain ⟨unused, empty', starts⟩ := becomes.gone (by simp [released]) closed empty
      rw [use] at unused
      refine ⟨Nat.eq_zero_of_not_pos (of_decide_eq_false unused), starts, ?_⟩
      rw [World.pending, loop, empty']
      rfl
  · intro runs runTask lawful t ready
    refine ⟨?_, fun fuel => ?_, fun fuel => ?_⟩
    · obtain ⟨takings, w', drive, eq⟩ := Act.exists_drive_runPending (l := l) lawful ready
      exact ⟨takings, w', drive.driven lawful.known ready, eq⟩
    · obtain ⟨takings, answer, w', drive, rest⟩ :=
        Act.exists_drive_runUntilIdle (l := l) lawful fuel ready
      exact ⟨takings, answer, w', drive.driven lawful.known ready, rest⟩
    · obtain ⟨takings, answer, w', drive, rest⟩ :=
        Act.exists_drive_runUntilHalt (l := l) lawful fuel ready
      exact ⟨takings, answer, w', drive.driven lawful.known ready, rest⟩
  · intro script
    obtain ⟨told, diligent⟩ := Session.reaches_perform verbosity script
    have diligent : Diligent Session.runs _ told _ := diligent
    exact ⟨told, diligent.course, fun _ _ _ _ => diligent.runAt⟩

/-- What a task is called, if it is a job. -/
def Task.tag : Task → Option String
  | .job j => j.tag
  | _ => none

namespace Pumping

open Act Moment

/-- Three tasks wait for a loop, which is then closed. The first one drives the loop itself, posts
one more task, and panics. -/
def prepare : Act Unit := script (performer 3)
  [("loop", .newLoop "day" {}), ("handle", .newLoopHandle "door" "day"),
    ("first", .post "day" false (some "first")
      [("drive", .runPending "day"), ("late", .post "day" false (some "late") [] .normal [])]
      (.panic ⟨none⟩) []),
    ("second", .post "day" false (some "second") [] .normal []),
    ("third", .post "day" false (some "third") [] .normal []),
    ("close", .shutdown "door")]

/-- The world in which the tasks wait. -/
def world : World :=
  (prepare Session.driver (Session.start none)).2

/-- The cycle takes the first task, and inside of its run the other two are taken. So all three are
started in order, and each of them is run; the late one was rejected. -/
theorem tasks_of_driven_loop : ∃ takings w',
    Driven Session.runs (runTask (performer 3)) ⟨0⟩ Session.driver 0 world takings w' ∧
    runPending (runTask (performer 3)) ⟨0⟩ Session.driver world = (.ok 1, w') ∧
    (takings.map fun taking => taking.task.tag) = [some "first"] ∧
    (started ⟨0⟩ (toldOf ⟨0⟩ takings)).map Task.tag =
      [some "first", some "second", some "third"] := by
  obtain ⟨ops, course⟩ : Reaches (.start none) ⟨world, 0⟩ :=
    lawful_script (performer_lawful 3) _ (Session.ready_start none)
  have ready : Ready ⟨world, 0⟩ Session.driver := (Session.ready_start none).after course
  obtain ⟨inOrder, _, _, _, later, driving, _⟩ :=
    tasks_start_in_order course (l := ⟨0⟩) (by decide +kernel)
  obtain ⟨⟨takings, w', driven, eq⟩, _⟩ :=
    driving (runTask_lawful (Session.performer_diligent 3)) Session.driver ready
  have final : (runPending (runTask (performer 3)) ⟨0⟩ Session.driver world).2 = w' :=
    congrArg Prod.snd eq
  have used : 0 < w'.loops.shares ⟨0⟩ := by
    rw [← final]
    decide +kernel
  have left : w'.pending ⟨0⟩ = 0 := by
    rw [← final]
    decide +kernel
  have count : (runPending (runTask (performer 3)) ⟨0⟩ Session.driver world).1 = .ok 1 := by
    decide +kernel
  obtain ⟨inOrder', _⟩ := tasks_start_in_order (course.trans driven.course) (l := ⟨0⟩)
    (Arena.lt_size_of_shares_pos used)
  have starts : (world.loop ⟨0⟩).queue = started ⟨0⟩ (toldOf ⟨0⟩ takings) := by
    have account := inOrder' used
    rw [accepted_append, started_append, inOrder (by decide +kernel),
      (later _ _ driven.course).2.1 (by decide +kernel), List.length_eq_zero_iff.mp left] at account
    simpa using account
  have tags : (started ⟨0⟩ (toldOf ⟨0⟩ takings)).map Task.tag =
      [some "first", some "second", some "third"] := by
    rw [← starts]
    decide +kernel
  have single : takings.length = 1 :=
    Except.ok.inj ((congrArg Prod.fst eq).symm.trans count)
  obtain ⟨taking, rfl⟩ := List.length_eq_one_iff.mp single
  refine ⟨[taking], w', driven, eq, ?_, tags⟩
  rw [started_toldOf_cons] at tags
  exact congrArg (List.take 1) tags

end Pumping

end DeferredCalls
