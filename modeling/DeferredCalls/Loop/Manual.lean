import DeferredCalls.Loop.Cycle

/-!
# Running a manual scheduler

A manual scheduler runs all of its tasks at once. A panic of a task is not contained: it goes on,
and the tasks after it are given up.
-/

namespace DeferredCalls

namespace World

/-- Empties the queue of a manual scheduler. -/
def emptyManual (w : World) (m : ManualId) : World :=
  { w with manuals := w.manuals.modify m fun s => { s with queue := [] } }

end World

namespace Act

/-- Takes all tasks of a manual scheduler. -/
def takeTasks (m : ManualId) : Act (List Task) :=
  update fun _ w => ((w.manuals.get m).queue, w.emptyManual m)

/-- Runs tasks in order. If one panics, the others are given up. -/
def runInOrder (runTask : RunTask) : List Task → Act Unit
  | [] => pure ()
  | task :: rest => fun t w =>
    match runTask task t w with
    | (.ok (), w') => runInOrder runTask rest t w'
    | (.error p, w') => (.error p, w'.releaseTasks t rest)

/-- Runs all tasks of a manual scheduler, and counts them. -/
def runManual (runTask : RunTask) (m : ManualId) : Act Nat := do
  let tasks ← takeTasks m
  runInOrder runTask tasks
  pure tasks.length

end Act

end DeferredCalls
