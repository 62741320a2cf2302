import DeferredCalls.Act

/-!
# Queues of tasks

Creating loops, posting to them and closing them. Any thread may post to a loop that is not closed,
and the task goes to the tail of its queue; a closed loop rejects every task, which gives up at once
what the task holds. A loop that is closed is never opened again.

The loop created last is the current loop of its thread.
-/

namespace DeferredCalls

namespace World

/-- A loop. -/
def loop (w : World) (l : LoopId) : EventLoop :=
  w.loops.get l

/-- The number of queued tasks of a loop. -/
def pending (w : World) (l : LoopId) : Nat :=
  (w.loop l).queue.length

/-- Creates a loop that is bound to a thread and becomes its current loop. -/
def createLoop (w : World) (t : ThreadId) (settings : LoopSettings) : LoopId × World :=
  let loop := EventLoop.ofSettings settings t (w.thread t).currentLoop
  let id := w.loops.next
  let w := { w with loops := w.loops.push loop }
  let w := w.onThread t fun th => { th with currentLoop := some id }
  (id, w.log t .debug "event loop created" [w.loopField id])

/-- Closes a loop. The tasks that are queued stay. -/
def shutdownLoop (w : World) (t : ThreadId) (l : LoopId) : World :=
  let w := { w with loops := w.loops.modify l fun loop => { loop with closed := true } }
  w.log t .debug "event loop shutdown requested" [w.loopField l]

/-- Adds a task at the tail of the queue of a loop. -/
def enqueue (w : World) (l : LoopId) (task : Task) : World :=
  { w with loops := w.loops.modify l fun loop => { loop with queue := loop.queue ++ [task] } }

/-- Takes the task at the head of the queue of a loop. -/
def dequeue? (w : World) (l : LoopId) : Option (Task × World) :=
  match (w.loop l).queue with
  | [] => none
  | task :: rest =>
    some (task, { w with loops := w.loops.modify l fun loop => { loop with queue := rest } })

/-- Posts a task to a loop. A rejected task is given up at once. -/
def postToLoop (w : World) (t : ThreadId) (l : LoopId) (task : Task) :
    Except Error Unit × World :=
  if (w.loop l).closed then (.error (.loopClosed (w.loop l).name), w.releaseTask t task)
  else (.ok (), (w.enqueue l task).log t .trace "task posted" [w.loopField l])

/-- Posts a task to a manual scheduler. -/
def postToManual (w : World) (t : ThreadId) (m : ManualId) (task : Task) :
    Except Error Unit × World :=
  if (w.manuals.get m).reject then (.error { kind := .loopClosed }, w.releaseTask t task)
  else
    (.ok (), { w with
      manuals := w.manuals.modify m fun s => { s with queue := s.queue ++ [task] } })

/-- Posts a task, of which the scheduler takes over the shares. -/
def post (w : World) (t : ThreadId) (s : Scheduler) (task : Task) : Except Error Unit × World :=
  match s with
  | .loop l => w.postToLoop t l task
  | .manual m => w.postToManual t m task

/-- Whether a thread is the one on which a scheduler runs its tasks. -/
def isDesignated (w : World) (t : ThreadId) : Scheduler → Bool
  | .loop l => (w.loop l).owner == t
  | .manual m => (w.manuals.get m).designated

/-- What a scheduler does about calls that are scheduled from another thread. -/
def violationOf (w : World) : Scheduler → ViolationResponse
  | .loop l => (w.loop l).violation
  | .manual m => (w.manuals.get m).violation

end World

end DeferredCalls
