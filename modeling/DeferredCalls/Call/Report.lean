import DeferredCalls.Act

/-!
# Reports about calls

The diagnostic of a call, and the sinks that diagnostics are handed to. A sink that refuses
diagnostics panics.
-/

namespace DeferredCalls

namespace World

/-- The diagnostic of a call without a failure: it shows the context that the call is bound to. -/
def contextReport (w : World) (t : ThreadId) (c : CallId) : Diagnostic :=
  let call := w.calls.get c
  { call := w.describeCall c
    provenance := call.provenance
    context := w.describeSnapshot call.context
    chain := w.callChain t }

/-- The diagnostic of a failure: it shows the context that is ambient at the moment. -/
def failureReport (w : World) (t : ThreadId) (c : CallId) (e : Error)
    (traceback : Option String) : Diagnostic :=
  let report : Diagnostic :=
    { call := w.describeCall c
      provenance := (w.calls.get c).provenance
      context := (w.position t).context
      chain := w.callChain t }
  report.withError e.text traceback

/-- The sink of a call; a call without one logs. -/
def sinkOf (w : World) (c : CallId) : Option SinkId :=
  (w.calls.get c).sink

/-- What a sink does; without one, diagnostics are logged. -/
def sinkKind (w : World) (s : Option SinkId) : SinkKind :=
  match s with
  | some s => (w.sinks.get s).kind
  | none => .logging

/-- Keeps a diagnostic in a sink. -/
def keep (w : World) (s : Option SinkId) (d : Diagnostic) : World :=
  match s with
  | some s =>
    { w with sinks := w.sinks.modify s fun k => { k with entries := k.entries ++ [d] } }
  | none => w

end World

namespace Diagnostic

/-- A diagnostic as an event. -/
def event (d : Diagnostic) : Event where
  level := .error
  message := d.text
  fields := [("call", .text d.call), ("provenance", .text d.place)]

end Diagnostic

namespace Act

/-- Hands a diagnostic to a sink. -/
def emit (s : Option SinkId) (d : Diagnostic) : Act Unit := do
  match ← read fun _ w => w.sinkKind s with
  | .memory => change fun _ w => w.keep s d
  | .probe => note fun t w => .emitted d.text (w.position t)
  | .refusing => panic ⟨some ("sink refused " ++ d.call)⟩
  | .logging => change fun t w => w.log t d.event.level d.event.message d.event.fields
  | .console => pure ()

/-- Logs the diagnostic of a call. -/
def printContext (c : CallId) : Act Unit :=
  change fun t w => w.log t .info (w.contextReport t c).text [World.callField c]

end Act

end DeferredCalls
