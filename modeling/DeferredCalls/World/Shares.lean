import DeferredCalls.World

/-!
# Shares and releases

Making a share of an object, and giving one up. When the last share of an object is given up, the
object is released, on the thread and at the very moment at which that happens: the release of a
context state or of a callable is noted; a call gives up its callable and then its context; a queue
gives up its tasks in their order. An event loop is closed first, and its thread gets back the
current loop that it had before only after the tasks are gone.
-/

namespace DeferredCalls

/-- A share of an object. -/
inductive Share
  | context (id : ContextId)
  | callable (id : CallableId)
  | call (id : CallId)
  | loop (id : LoopId)
  | manual (id : ManualId)
  deriving DecidableEq, Repr

/-- The shares that a snapshot holds. -/
def Snapshot.shares (s : Snapshot) : List Share :=
  s.state?.toList.map .context

/-- The shares that a handle holds. -/
def Handle.shares : Handle → List Share
  | .strong c => [.callable c]
  | .weak _ => []

/-- The shares that a call holds, in the order in which it gives them up. -/
def Call.shares (c : Call) : List Share :=
  c.handle.shares ++ c.context.shares

/-- The shares that a task holds. -/
def Task.shares (task : Task) : List Share :=
  task.holds.map .call

namespace World

/-- How many shares there are of an object. -/
def shareCount (w : World) : Share → Nat
  | .context c => w.contexts.shares c
  | .callable c => w.callables.shares c
  | .call c => w.calls.shares c
  | .loop l => w.loops.shares l
  | .manual m => w.manuals.shares m

/-- Makes another share of an object. -/
def acquire (w : World) : Share → World
  | .context c => { w with contexts := w.contexts.addShare c }
  | .callable c => { w with callables := w.callables.addShare c }
  | .call c => { w with calls := w.calls.addShare c }
  | .loop l => { w with loops := w.loops.addShare l }
  | .manual m => { w with manuals := w.manuals.addShare m }

/-- Makes another share of each of several objects. -/
def acquireAll (w : World) (shares : List Share) : World :=
  shares.foldl acquire w

/-- Gives up a share of a context state. -/
def releaseContext (w : World) (t : ThreadId) (c : ContextId) : World :=
  let w := { w with contexts := w.contexts.dropShare c }
  if w.contexts.shares c = 0 then
    w.note t (.freedContext (w.contexts.get c).name (w.position t))
  else w

/-- Gives up a share of a callable. -/
def releaseCallable (w : World) (t : ThreadId) (c : CallableId) : World :=
  let w := { w with callables := w.callables.dropShare c }
  if w.callables.shares c = 0 then
    w.note t (.freedCallable (w.callables.get c).name (w.position t))
  else w

/-- Gives up what a snapshot holds. -/
def releaseSnapshot (w : World) (t : ThreadId) (s : Snapshot) : World :=
  match s.state? with
  | some c => w.releaseContext t c
  | none => w

/-- Gives up what a handle holds. -/
def releaseHandle (w : World) (t : ThreadId) : Handle → World
  | .strong c => w.releaseCallable t c
  | .weak _ => w

/-- Gives up a share of a call. -/
def releaseCall (w : World) (t : ThreadId) (c : CallId) : World :=
  let w := { w with calls := w.calls.dropShare c }
  if w.calls.shares c = 0 then
    let call := w.calls.get c
    (w.releaseHandle t call.handle).releaseSnapshot t call.context
  else w

/-- Gives up shares of calls, one after another. -/
def releaseCalls (w : World) (t : ThreadId) (cs : List CallId) : World :=
  cs.foldl (fun w c => w.releaseCall t c) w

/-- Gives up what a task holds. -/
def releaseTask (w : World) (t : ThreadId) (task : Task) : World :=
  w.releaseCalls t task.holds

/-- Gives up what tasks hold, one after another. -/
def releaseTasks (w : World) (t : ThreadId) (tasks : List Task) : World :=
  tasks.foldl (fun w task => w.releaseTask t task) w

/-- Closes a loop for good and empties its queue. The tasks are still in hand. -/
def abandoned (w : World) (t : ThreadId) (l : LoopId) : World :=
  let closed := { w with loops := w.loops.modify l fun loop =>
    { loop with closed := true, queue := [] } }
  if (w.loops.get l).queue.isEmpty then closed
  else closed.log t .debug "event loop dropped with queued tasks"
    [closed.loopField l, ("abandoned", .number (w.loops.get l).queue.length)]

/-- Closes a loop for good, gives up its tasks, and makes the loop current that was so before. -/
def discardLoop (w : World) (t : ThreadId) (l : LoopId) : World :=
  ((w.abandoned t l).releaseTasks t (w.loops.get l).queue).onThread t fun th =>
    { th with currentLoop := (w.loops.get l).previous }

/-- Gives up a share of a loop. -/
def releaseLoop (w : World) (t : ThreadId) (l : LoopId) : World :=
  let w := { w with loops := w.loops.dropShare l }
  if w.loops.shares l = 0 then w.discardLoop t l else w

/-- Gives up a share of a manual scheduler. -/
def releaseManual (w : World) (t : ThreadId) (m : ManualId) : World :=
  let w := { w with manuals := w.manuals.dropShare m }
  if w.manuals.shares m = 0 then
    let tasks := (w.manuals.get m).queue
    let w := { w with manuals := w.manuals.modify m fun s => { s with queue := [] } }
    w.releaseTasks t tasks
  else w

/-- Gives up a share. -/
def release (w : World) (t : ThreadId) : Share → World
  | .context c => w.releaseContext t c
  | .callable c => w.releaseCallable t c
  | .call c => w.releaseCall t c
  | .loop l => w.releaseLoop t l
  | .manual m => w.releaseManual t m

end World

end DeferredCalls
