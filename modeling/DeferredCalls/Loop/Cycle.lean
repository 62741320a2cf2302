import DeferredCalls.Loop.Queue

/-!
# Driving a loop

The owner of a loop runs its tasks in cycles. A cycle covers as many tasks as were queued when it
began, up to the cycle budget of the loop. It takes one task at a time from the head of the queue,
so that tasks may post, close the loop, or drive it themselves; a task that panics does not stop
the cycle.

How a task is run is a parameter of everything here. Driving a loop until it is idle, or until it
is closed, need not come to an end, since tasks may post themselves again: the number of cycles is
bounded by fuel, and the answer is `none` when the fuel does not suffice.
-/

namespace DeferredCalls

/-- How a task is run. -/
abbrev RunTask := Task → Act Unit

namespace World

/-- The number of tasks that a cycle covers. -/
def cycleLimit (w : World) (l : LoopId) : Nat :=
  if (w.loop l).cycleBudget = 0 then w.pending l else min (w.pending l) (w.loop l).cycleBudget

/-- The world in which a task of a loop has been run. If it panicked, its panic was logged. -/
def ran (w : World) (runTask : RunTask) (l : LoopId) (task : Task) (t : ThreadId) : World :=
  match runTask task t w with
  | (.ok (), w') => w'
  | (.error p, w') =>
    w'.log t .warn "posted task panicked" [w'.loopField l, ("panic", .text p.message)]

end World

namespace Act

/-- Takes the task at the head of a queue. -/
def dequeue (l : LoopId) : Act (Option Task) :=
  update fun _ w =>
    match w.dequeue? l with
    | some (task, w') => (some task, w')
    | none => (none, w)

/-- Runs a task, and logs its panic if it panics. -/
def runContained (runTask : RunTask) (l : LoopId) (task : Task) : Act Unit := do
  match ← attempt (runTask task) with
  | .ok () => pure ()
  | .error p =>
    log .warn "posted task panicked" fun w => [w.loopField l, ("panic", .text p.message)]

/-- A task is run, and its panic is logged. Nothing of it goes on. -/
theorem runContained_apply {runTask : RunTask} {l : LoopId} {t : ThreadId} {w : World}
    (task : Task) : runContained runTask l task t w = (.ok (), w.ran runTask l task t) := by
  rw [runContained, bind_apply, attempt_apply, World.ran]
  rcases runTask task t w with ⟨_ | _, _⟩
  · rfl
  · rfl

/-- Runs up to a number of tasks from the head of a queue, and counts them. -/
def runTasks (runTask : RunTask) (l : LoopId) : Nat → Act Nat
  | 0 => pure 0
  | limit + 1 => do
    match ← dequeue l with
    | none => pure 0
    | some task =>
      runContained runTask l task
      let ran ← runTasks runTask l limit
      pure (ran + 1)

/-- Runs one cycle, and counts its tasks. -/
def runPending (runTask : RunTask) (l : LoopId) : Act Nat := do
  let limit ← read fun _ w => w.cycleLimit l
  let ran ← runTasks runTask l limit
  if 0 < ran then
    log .trace "event loop cycle" fun w => [w.loopField l, ("ran", .number ran)]
  pure ran

/-- Runs cycles until one of them finds no task, and counts the tasks of all of them. -/
def runUntilIdle (runTask : RunTask) (l : LoopId) : Nat → Act (Option Nat)
  | 0 => pure none
  | fuel + 1 => do
    let ran ← runPending runTask l
    if ran = 0 then pure (some 0)
    else
      let rest ← runUntilIdle runTask l fuel
      pure (rest.map (ran + ·))

/-- How driving a loop until it is closed came to a halt. -/
inductive Halt
  /-- The loop is closed, and no task is left. -/
  | closed
  /-- The loop is open, and no task is left. -/
  | waiting
  deriving DecidableEq, Repr

/-- Runs cycles until no task is left. Where the loop is closed by then, that is its end; otherwise
its thread would wait for the next task. -/
def runUntilHalt (runTask : RunTask) (l : LoopId) : Nat → Act (Option Halt)
  | 0 => pure none
  | fuel + 1 => do
    let _ ← runPending runTask l
    if ← read fun _ w => w.pending l == 0 then
      if ← read fun _ w => (w.loop l).closed then
        log .debug "event loop shut down" fun w => [w.loopField l]
        pure (some .closed)
      else pure (some .waiting)
    else runUntilHalt runTask l fuel

end Act

namespace World

/-- Enough fuel to drive a loop: each cycle runs a task, and a task that is not queued yet is posted
by one of the commands that are still performed. -/
def drivingFuel (w : World) (l : LoopId) : Nat :=
  w.pending l + w.allowance + 1

end World

end DeferredCalls
