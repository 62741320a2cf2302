import DeferredCalls.Session.Naming
import DeferredCalls.Session.Nested

/-!
# Commands about callables, handles and sinks

A command that runs a callable holds a share of it until it is done; one that only looks at it
makes no share.
-/

namespace DeferredCalls.Act

/-- Keeps a new callable. -/
def newCallable (id : String) (title : Option String) (body : Script) (limit : Nat)
    (endings : List Ending) : Act Reply := do
  let f ← update fun _ w =>
    (w.callables.next,
      { w with callables := w.callables.push { name := id, title, body, limit, endings } })
  put Drawer.callables id f
  pure .nothing

/-- Keeps a handle, with shares of its own. -/
def keepHandle (id : String) (h : Handle) : Act Reply := do
  acquireAll h.shares
  put Drawer.handles id h
  pure .nothing

/-- Invokes a callable directly. -/
def invokeNamed (self : Performer) (id : String) (args : Option CallArgs) : Act Reply :=
  withNamed Drawer.callables id fun f => holding (.callable f) do
    match ← invoke self f args with
    | .ok () => pure .accepted
    | .error e => pure (.callFailed e)

/-- Obtains the callable of a handle, and keeps it if it is given a name. -/
def obtainNamed (id : String) (name : Option String) : Act Reply :=
  withNamed Drawer.handles id fun h => do
    match ← read fun _ w => w.obtain h with
    | .error e => pure (.failed e)
    | .ok f => holding (.callable f) do
      let description ← read fun _ w => (w.callables.get f).description
      if let some name := name then
        acquireAll [.callable f]
        put Drawer.callables name f
      pure (.obtained description)

/-- Keeps a new sink. -/
def newSink (id : String) (kind : SinkKind) : Act Reply := do
  let s ← update fun _ w => (w.sinks.next, { w with sinks := w.sinks.push { kind } })
  put Drawer.sinks id s
  pure .nothing

/-- What a sink holds; taking it leaves nothing behind. -/
def readSink (s : SinkId) (take : Bool) : Act Reply :=
  update fun _ w =>
    let sink := w.sinks.get s
    if sink.kind = .memory then
      if take then
        (.diagnostics sink.entries.isEmpty 0 sink.entries,
          { w with sinks := w.sinks.modify s fun k => { k with entries := [] } })
      else (.diagnostics sink.entries.isEmpty sink.entries.length sink.entries, w)
    else (.sink sink.debug, w)

end DeferredCalls.Act
