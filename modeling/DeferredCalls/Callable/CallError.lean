/-!
# The failure of a callable

A callable that fails says what went wrong in its own words and may add a traceback.
-/

namespace DeferredCalls

/-- A failure in the words of the callable that raised it. -/
structure CallError where
  description : String
  traceback : Option String := none
  deriving DecidableEq, Repr

end DeferredCalls
