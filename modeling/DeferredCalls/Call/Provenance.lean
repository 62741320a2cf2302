import DeferredCalls.Text.Layout
import DeferredCalls.Text.Quoted

/-!
# Where a call was registered
-/

namespace DeferredCalls

/-- A line of a source file. -/
structure Provenance where
  file : String
  line : Nat
  deriving DecidableEq, Repr

namespace Provenance

/-- A place as `file:line`. -/
def text (p : Provenance) : String :=
  p.file ++ ":" ++ toString p.line

/-- A place as a record. -/
def debug (p : Provenance) : String :=
  Text.Layout.record "Provenance" [⟨"file", Text.quote p.file⟩, ⟨"line", toString p.line⟩]

/-- The place of a call for which no other place was given: the caller itself. -/
def caller : Provenance := ⟨"<caller>", 0⟩

end Provenance

end DeferredCalls
