import DeferredCalls.Loop.Cycle

/-!
# Loop threads

A loop thread is named after its loop and does nothing but run the tasks of that loop, until the
loop is closed and no task is left. It gets its turns whenever other threads wait for it, or have
come to the end of a command while no loop thread has its turn; which of these moments they are
makes no difference to the order of its tasks. Stopping a loop thread closes its loop and, from any
other thread, waits until the loop thread has finished; from one of its own tasks it does not wait.
A thread that one of its tasks is waiting for would wait forever.
-/

namespace DeferredCalls

namespace World

/-- The loop that a thread serves, if it is a loop thread. -/
def servedLoop? (w : World) (t : ThreadId) : Option LoopId :=
  match (w.thread t).role with
  | .serving l => some l
  | .commands => none

theorem servedLoop?_eq_some {w : World} {t : ThreadId} {l : LoopId} :
    w.servedLoop? t = some l ↔ (w.thread t).role = .serving l := by
  rw [servedLoop?]
  split
  · next k role => rw [role, Option.some.injEq, Role.serving.injEq]
  · next role =>
    rw [role]
    exact ⟨nofun, nofun⟩

/-- Starts a loop thread with a loop of its own. -/
def startLoopThread (w : World) (settings : LoopSettings) : ThreadId × World :=
  let settings := settings.normalize
  let t := w.threads.next
  let thread : Thread := { name := some settings.name, role := .serving w.loops.next }
  let w := { w with threads := w.threads.push thread }
  let made := w.createLoop t settings
  (t, made.2.log t .info "event loop thread started" [made.2.loopField made.1])

/-- Whether a loop thread has something to do and can do it. -/
def wantsTurn (w : World) (t : ThreadId) : Bool :=
  match (w.thread t).role with
  | .commands => false
  | .serving l =>
    let th := w.thread t
    !th.busy && !th.finished && (!(w.loop l).queue.isEmpty || (w.loop l).closed)

/-- Whether some loop thread has its turn at the moment. -/
def anyTurn (w : World) : Bool :=
  (List.range w.threads.size).any fun i => (w.thread ⟨i⟩).busy

/-- The first loop thread that has something to do, if none has its turn already. -/
def nextTurn? (w : World) : Option ThreadId :=
  if w.anyTurn then none
  else
    (List.range w.threads.size).findSome? fun i => if w.wantsTurn ⟨i⟩ then some ⟨i⟩ else none

/-- Enough fuel for all loop threads to come to rest. -/
def settlingFuel (w : World) : Nat :=
  (w.loops.cells.foldl (fun n c => n + c.value.queue.length) 0) + w.threads.size + w.allowance + 1

end World

namespace Act

/-- Whether the thread executes the tasks of a loop and does nothing else. -/
def onLoopThread : Act Bool :=
  read fun t w => (w.servedLoop? t).isSome

/-- Leaves the loop that the thread serves, for good, and gives it up. -/
def leaveLoop (l : LoopId) : Act Unit := do
  log .debug "event loop thread exiting" fun w => [w.loopField l]
  change fun t w => (w.onThread t fun th => { th with finished := true }).release t (.loop l)

theorem leaveLoop_apply {l : LoopId} {t : ThreadId} {w : World} : leaveLoop l t w = (.ok (),
    ((w.log t .debug "event loop thread exiting" [w.loopField l]).onThread t
      fun th => { th with finished := true }).release t (.loop l)) := rfl

/-- Runs tasks of the loop that the thread serves until none is left. If the loop is closed then,
the thread leaves it. -/
def turn (runTask : RunTask) (l : LoopId) : Act Unit := do
  change fun t w => w.onThread t fun th => { th with busy := true }
  let halt ← runUntilHalt runTask l (← read fun _ w => w.drivingFuel l)
  change fun t w => w.onThread t fun th => { th with busy := false }
  if halt = some .closed then leaveLoop l

/-- Lets a loop thread have its turn, if it has something to do and can do it. -/
def takeTurn (runTask : RunTask) (t : ThreadId) : Act Unit := do
  match ← read fun _ w => w.servedLoop? t with
  | none => pure ()
  | some l => if ← read fun _ w => w.wantsTurn t then on t (turn runTask l)

/-- Lets loop threads run until none of them has anything to do. -/
def settle (runTask : RunTask) : Nat → Act Unit
  | 0 => pure ()
  | fuel + 1 => do
    match ← read fun _ w => w.nextTurn? with
    | none => pure ()
    | some t =>
      takeTurn runTask t
      settle runTask fuel

/-- Lets all loop threads come to rest. -/
def settleAll (runTask : RunTask) : Act Unit := do
  settle runTask (← read fun _ w => w.settlingFuel)

/-- Stops a loop thread, and tells whether there is an end to waiting for it. A thread that stops
itself has its turn already, and does not wait. -/
def stopLoopThread (runTask : RunTask) (t : ThreadId) : Act Bool := do
  match ← read fun _ w => w.servedLoop? t with
  | none => pure true
  | some l =>
    change fun u w => w.shutdownLoop u l
    takeTurn runTask t
    if ← read fun u _ => u == t then
      log .debug "loop thread stopped from its own task; detaching" fun w => [w.loopField l]
      pure true
    else read fun _ w => (w.thread t).finished

end Act

end DeferredCalls
