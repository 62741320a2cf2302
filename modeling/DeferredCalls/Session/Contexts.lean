import DeferredCalls.Loop.Thread
import DeferredCalls.Session.Naming
import DeferredCalls.Session.Nested

/-!
# Commands about contexts

A command that installs a snapshot holds shares of it until it is done. Threads that execute the
tasks of a loop and do nothing else keep no guards, so they only install for the length of a script.
-/

namespace DeferredCalls.Act

/-- Keeps a capture of a new context state. -/
def newContext (id label : String) : Act Reply := do
  let s ← update fun _ w =>
    (Snapshot.of w.contexts.next, { w with contexts := w.contexts.push { name := id, label } })
  put Drawer.contexts id s
  pure .nothing

/-- Keeps a snapshot, with a share of its own. -/
def keepSnapshot (id : String) (s : Snapshot) : Act Reply := do
  acquireAll s.shares
  put Drawer.contexts id s
  pure .nothing

/-- Installs a snapshot and keeps the guard. -/
def installNamed (context guardName : String) : Act Reply := do
  if ← onLoopThread then pure .refused
  else withNamed Drawer.contexts context fun s => holdingAll s.shares do
    let g ← update fun t w => ((w.contextStack t).nextGuard, w.install t s)
    put Drawer.guards guardName g
    pure .nothing

/-- Performs a script while a snapshot is ambient. -/
def within (self : Performer) (context : String) (body : Script) (ending : Ending) : Act Reply :=
  withNamed Drawer.contexts context fun s => holdingAll s.shares do
    installing s do
      note fun t w => .inside (w.position t)
      script self body
      let _ ← finish ending
    pure .nothing

end DeferredCalls.Act
