import DeferredCalls.Loop.Thread
import DeferredCalls.Session.Naming
import DeferredCalls.Session.Nested

/-!
# Commands about threads

The outermost script of a thread catches the panics of its commands, one by one. A thread that has
come to its end gives up its guards and then its loops. A loop thread is kept together with a
handle of its loop, and giving it up stops it. What would have to wait forever says so and goes on.
-/

namespace DeferredCalls.Act

/-- Starts an empty journal and returns the one that was kept until then. -/
def openJournal : Act (Array Entry) :=
  update fun _ w => (w.journal, { w with journal := #[] })

/-- Returns what the journal holds and goes on with the one that was kept before. -/
def closeJournal (outer : Array Entry) : Act (List Entry) :=
  update fun _ w => (w.journal.toList, { w with journal := outer })

/-- Performs a command of the outermost script of a thread: a panic is caught, and then loop threads
come to rest. -/
def perform (self : Performer) (command : Command) : Act Record := do
  let outer ← openJournal
  let reply ← attempt (self command)
  settleAll (runTask self)
  let position ← read fun t w => w.position t
  let entries ← closeJournal outer
  let reply : Reply := match reply with
    | .ok r => r
    | .error p => .panicked p
  pure (.mk reply position entries)

/-- Performs the commands of the outermost script of a thread. -/
def performAll (self : Performer) : Script → Act (List Record)
  | [] => pure []
  | (_, command) :: rest => do
    let r ← perform self command
    let rs ← performAll self rest
    pure (r :: rs)

/-- Gives up what a thread keeps for itself. -/
def closeThread : Act Unit := do
  change Drawer.guards.clear
  change Drawer.loops.clear

/-- Performs a script on a new thread. What that thread notes at its end belongs to the command
that started it, also when a loop thread performs that command. -/
def newThread (self : Performer) (name : Option String) (body : Script) : Act Reply := do
  let u ← update fun _ w => (w.threads.next, { w with threads := w.threads.push { name } })
  let records ← on u (performAll self body)
  on u closeThread
  pure (.records records)

/-- How a loop thread that was kept under a name is given up: it is stopped. -/
def dropLoopThread (self : Performer) (t : ThreadId) : Act Bool :=
  stopLoopThread (runTask self) t

/-- The loop threads that are kept under names. -/
def loopThreadNamed? (id : String) : Act (Option ThreadId) :=
  read fun _ w => w.names.loopThreads.get? id

/-- Keeps nothing under the name of a loop thread. -/
def forgetLoopThread (id : String) : Act Unit :=
  change fun _ w =>
    { w with names := { w.names with loopThreads := w.names.loopThreads.erase id } }

/-- Starts a loop thread and keeps it, together with a handle of its loop. -/
def spawnLoopThread (self : Performer) (id : String) (settings : LoopSettings) : Act Reply := do
  let u ← update fun _ w => w.startLoopThread settings
  let old ← loopThreadNamed? id
  change fun _ w =>
    { w with names := { w.names with loopThreads := w.names.loopThreads.insert id u } }
  let ended ← match old with
    | some old => dropLoopThread self old
    | none => pure true
  if let some l := ← read fun _ w => w.servedLoop? u then put Drawer.loopHandles id l
  let name ← read fun _ w => (w.thread u).name.getD ""
  pure (if ended then .words name else .wouldBlock)

/-- Posts a job to a loop and waits until it has ended. -/
def syncLoopThread (self : Performer) (l : LoopId) (j : Job) : Act Reply := do
  let ticket ← update fun _ w => (w.tickets.size, { w with tickets := w.tickets.push none })
  match ← post (.loop l) (.job { j with ticket := some ticket }) with
  | .error e => pure (.failed e)
  | .ok () =>
    takeTurn (runTask self) (← read fun _ w => (w.loop l).owner)
    match ← read fun _ w => (w.tickets[ticket]?).join with
    | some false => pure .done
    | some true => pure .taskPanicked
    | none => pure .wouldBlock

/-- Stops a loop thread for good. The end of its keeping asks its loop to close once more. -/
def shutdownLoopThread (self : Performer) (id : String) : Act Reply := do
  match ← loopThreadNamed? id with
  | none => pure .missing
  | some u =>
    forgetLoopThread id
    let ended ← stopLoopThread (runTask self) u
    if let some l := ← read fun _ w => w.servedLoop? u then change fun t w => w.shutdownLoop t l
    pure (if ended then .accepted else .wouldBlock)

/-- Gives up a loop thread. -/
def dropLoopThreadNamed (self : Performer) (id : String) : Act Reply := do
  match ← loopThreadNamed? id with
  | none => pure .missing
  | some u =>
    forgetLoopThread id
    let ended ← dropLoopThread self u
    pure (if ended then .nothing else .wouldBlock)

end DeferredCalls.Act
