import DeferredCalls.Error

/-!
# What a run amounted to
-/

namespace DeferredCalls

/-- Why a run did not invoke the callable. -/
inductive SkipReason
  /-- The call was marked dead. -/
  | dead
  /-- The callable was released. -/
  | unavailable
  deriving DecidableEq, Repr

/-- The name under which a reason is shown. -/
def SkipReason.name : SkipReason → String
  | .dead => "Dead"
  | .unavailable => "Unavailable"

/-- What a run of a call amounted to. -/
inductive RunOutcome
  /-- The callable returned normally. -/
  | completed
  /-- The callable was not invoked. -/
  | skipped (reason : SkipReason)
  /-- The callable failed or panicked. -/
  | failed (error : Error)
  deriving DecidableEq, Repr

namespace RunOutcome

/-- The name under which an outcome is shown. -/
def name : RunOutcome → String
  | completed => "Completed"
  | skipped _ => "Skipped"
  | failed _ => "Failed"

def isCompleted : RunOutcome → Bool
  | completed => true
  | _ => false

def isSkipped : RunOutcome → Bool
  | skipped _ => true
  | _ => false

def isFailed : RunOutcome → Bool
  | failed _ => true
  | _ => false

/-- Everything but a failure counts as a success. -/
def isSuccess (o : RunOutcome) : Bool :=
  !o.isFailed

/-- The error of a failure. -/
def error? : RunOutcome → Option Error
  | failed e => some e
  | _ => none

/-- A failure as an error, and everything else as a success. -/
def toExcept : RunOutcome → Except Error Unit
  | failed e => .error e
  | _ => .ok ()

theorem isSuccess_iff_error?_eq_none (o : RunOutcome) : o.isSuccess = true ↔ o.error? = none := by
  cases o <;> simp [isSuccess, isFailed, error?]

end RunOutcome

end DeferredCalls
