import DeferredCalls.Loop.Manual
import DeferredCalls.Loop.Thread
import DeferredCalls.Session.Naming
import DeferredCalls.Session.Nested

/-!
# Commands about schedulers

Loops are kept by the thread that created them, and handles of loops by everyone. A thread that
executes the tasks of a loop and does nothing else creates no loops of its own.
-/

namespace DeferredCalls.Act

/-- The reply that tells whether a request was accepted. -/
def acceptance : Except Error Unit → Reply
  | .ok () => .accepted
  | .error e => .failed e

/-- Keeps a new loop. -/
def newLoop (id : String) (settings : LoopSettings) : Act Reply := do
  if ← onLoopThread then pure .refused
  else
    let l ← update fun t w => w.createLoop t settings
    put Drawer.loops id l
    pure (.words (← read fun _ w => (w.loop l).name))

/-- Drives a loop until it is idle. -/
def driveUntilIdle (self : Performer) (l : LoopId) : Act Reply := do
  let ran ← runUntilIdle (runTask self) l (← read fun _ w => w.drivingFuel l)
  pure (.count (ran.getD 0))

/-- Drives a loop until it is closed, unless that would never be. -/
def driveUntilClosed (self : Performer) (l : LoopId) (trusting : Bool) : Act Reply := do
  if trusting || (← read fun _ w => (w.loop l).closed) then
    match ← runUntilHalt (runTask self) l (← read fun _ w => w.drivingFuel l) with
    | some .closed => pure .nothing
    | _ => pure .wouldBlock
  else pure .wouldBlock

/-- The current loop of the thread, kept as a handle if it is given a name. -/
def currentLoopNamed (id : Option String) : Act Reply := do
  match ← read fun t w => (w.thread t).currentLoop with
  | none => pure .nothing
  | some l =>
    if let some id := id then put Drawer.loopHandles id l
    read fun _ w => .current (w.loop l).name (w.loop l).closed

/-- Keeps a new manual scheduler. -/
def newManual (id : String) (s : Manual) : Act Reply := do
  let m ← update fun _ w => (w.manuals.next, { w with manuals := w.manuals.push s })
  put Drawer.manuals id m
  pure .nothing

end DeferredCalls.Act
