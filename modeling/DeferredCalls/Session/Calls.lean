import DeferredCalls.Call.Build
import DeferredCalls.Session.Naming

/-!
# Commands about calls

Building calls, keeping them under names, and what is shown of them.
-/

namespace DeferredCalls.Act

/-- What is shown of a call. -/
def viewCall (c : CallId) (w : World) : CallView :=
  let call := w.calls.get c
  { id := World.callLabel c
    rawId := World.callIdDebug c
    alive := w.callExists c
    dead := call.dead
    description := w.describeCall c
    context := w.describeSnapshot call.context
    provenance := call.provenance
    callable := w.viewHandle call.handle
    debug := w.debugCall c }

/-- Continues with the handle that a call is to be built from, if it is there. -/
def withSource (source : CallSource) (f : Handle → Act Reply) : Act Reply :=
  match source with
  | .callable name => withNamed Drawer.callables name fun c => f (.strong c)
  | .handle name => withNamed Drawer.handles name f

/-- Builds a call and keeps it. -/
def buildNamed (id : String) (b : CallBuilder) : Act Reply := do
  let c ← update fun t w => w.build t b
  put Drawer.calls id c
  pure (.words (← read fun _ w => w.describeCall c))

/-- Builds a call from a handle in the given way and keeps it. -/
def buildFrom (id : String) (options : Option CallOptions) (h : Handle) : Act Reply :=
  match options with
  | none => buildNamed id { handle := h }
  | some o =>
    withOptional Drawer.contexts o.context fun context =>
      withOptional Drawer.sinks o.sink fun sink => do
        let b : CallBuilder := { handle := h, context, provenance := o.provenance, sink }
        if o.showBuilder then note fun _ w => .builder (w.debugBuilder b)
        buildNamed id b

/-- Builds a call in the given way and keeps it. -/
def newCall (id : String) (source : CallSource) (options : Option CallOptions) : Act Reply :=
  withSource source (buildFrom id options)

/-- Keeps a call, with a share of its own. -/
def keepCall (id : String) (c : CallId) : Act Unit := do
  acquireAll [.call c]
  put Drawer.calls id c

/-- Keeps the innermost call that the thread is executing. -/
def currentCall (id : String) : Act Reply := do
  match ← read fun t w => (w.callStack t).getLast? with
  | none => pure .nothing
  | some c =>
    keepCall id c
    pure (.words (← read fun _ w => w.describeCall c))

/-- Keeps the call of a weak reference, if it is in use. -/
def upgrade (id call : String) : Act Reply :=
  withNamed Drawer.weaks id fun c => do
    if ← read fun _ w => w.callAlive c then
      keepCall call c
      pure (.flag true)
    else pure (.flag false)

end DeferredCalls.Act
