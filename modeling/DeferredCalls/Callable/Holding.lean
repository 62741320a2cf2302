import DeferredCalls.Act

/-!
# Obtaining a callable through a handle

A strong handle always yields its callable; a weak one only as long as the callable is in use.
Looking at a handle never makes a share.
-/

namespace DeferredCalls

namespace World

/-- The callable of a handle, if it is in use. -/
def obtain? (w : World) (h : Handle) : Option CallableId :=
  if w.handleAlive h then some h.callable else none

/-- The callable of a handle, or the error that it was released. -/
def obtain (w : World) (h : Handle) : Except Error CallableId :=
  match w.obtain? h with
  | some c => .ok c
  | none => .error (.unavailable "callable was released")

theorem obtain?_isSome (w : World) (h : Handle) : (w.obtain? h).isSome = w.handleAlive h := by
  unfold obtain?; split <;> simp_all

end World

/-- How a callable is invoked: its embedder decides what that does. -/
abbrev Invoke := CallableId → Option CallArgs → Act (Except CallError Unit)

/-- How a diagnostic is handed to a sink: its embedder decides what that does. -/
abbrev Emit := Option SinkId → Diagnostic → Act Unit

/-- The code of an embedder that runs in the course of a call: its callables and its sinks. -/
structure Embedder where
  invoke : Invoke
  emit : Emit

end DeferredCalls
