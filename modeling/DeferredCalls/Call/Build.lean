import DeferredCalls.Callable.Holding
import DeferredCalls.Context.Ambient

/-!
# Building and ending calls

A call binds a callable to the context that is ambient when the call is built, or to the one that
the builder was given. Calls are numbered in the order in which they are built. A call that was
marked dead stays dead.
-/

namespace DeferredCalls

/-- What a call is built from. -/
structure CallBuilder where
  handle : Handle
  context : Option Snapshot := none
  provenance : Option Provenance := some .caller
  sink : Option SinkId := none

namespace World

/-- A builder as a record. -/
def debugBuilder (w : World) (b : CallBuilder) : String :=
  Text.Layout.openRecord "DeferredCallBuilder" [⟨"callable", w.debugHandle b.handle⟩,
    ⟨"context", Text.Layout.optional (b.context.map w.debugSnapshot)⟩,
    ⟨"provenance", debugProvenance b.provenance⟩]

/-- Builds a call, which takes shares of its callable and of its context. -/
def build (w : World) (t : ThreadId) (b : CallBuilder) : CallId × World :=
  let call : Call :=
    { handle := b.handle
      context := b.context.getD (w.ambient t)
      provenance := b.provenance
      sink := b.sink }
  let id := w.calls.next
  let w := w.acquireAll call.shares
  let w := { w with calls := w.calls.push call }
  (id, w.log t .trace "deferred call created"
    [callField id, ("callable", .text (w.describeHandle b.handle))])

/-- Marks a call dead. Only the first time makes a difference. -/
def markDead (w : World) (t : ThreadId) (c : CallId) : World :=
  if (w.calls.get c).dead then w
  else
    { w with calls := w.calls.modify c fun call => { call with dead := true } }.log t .debug
      "deferred call marked dead" [callField c]

end World

end DeferredCalls
