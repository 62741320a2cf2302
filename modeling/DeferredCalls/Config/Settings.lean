import DeferredCalls.Config.ConfigError
import DeferredCalls.Text.Blank
import DeferredCalls.Text.Lowercase
import DeferredCalls.Text.Quoted
import DeferredCalls.Text.Unsigned

/-!
# Settings of an event loop

An event loop has a name, a bound on the tasks that one cycle runs, and a response to calls that
are scheduled from the wrong thread. A loop never runs under a blank name: `normalize` puts the
default name in its place.
-/

namespace DeferredCalls

/-- What happens when a call is scheduled from the wrong thread. -/
inductive ViolationResponse
  /-- Panic with the details. -/
  | panic
  /-- Report the details and answer with an error. -/
  | log
  deriving DecidableEq, Repr, Inhabited

/-- The name under which a response is shown. -/
def ViolationResponse.name : ViolationResponse → String
  | .panic => "Panic"
  | .log => "Log"

/-- How a program is built. -/
inductive Build
  /-- With the checks that help those who develop it. -/
  | development
  | release
  deriving DecidableEq, Repr

/-- The response that was not chosen. A contract is enforced at once while a program is
developed. -/
def Build.violation : Build → ViolationResponse
  | .development => .panic
  | .release => .log

/-- The name of a loop that was given none. -/
def defaultLoopName : String := "ctxcall-loop"

/-- The settings of an event loop; where nothing else is said, those of a development build. A cycle
budget of zero means that a cycle runs every task that was queued when it began. -/
structure LoopSettings where
  name : String := defaultLoopName
  cycleBudget : Nat := 0
  violation : ViolationResponse := Build.development.violation
  deriving DecidableEq, Repr, Inhabited

namespace LoopSettings

/-- The default settings. -/
def ofBuild (build : Build) : LoopSettings :=
  { violation := build.violation }

/-- Puts the default name in place of a blank one. -/
def normalize (s : LoopSettings) : LoopSettings :=
  if Text.allBlank s.name then { s with name := defaultLoopName } else s

@[simp] theorem normalize_cycleBudget (s : LoopSettings) :
    s.normalize.cycleBudget = s.cycleBudget := by
  unfold normalize; split <;> rfl

@[simp] theorem normalize_violation (s : LoopSettings) :
    s.normalize.violation = s.violation := by
  unfold normalize; split <;> rfl

theorem normalize_name (s : LoopSettings) :
    s.normalize.name = if Text.allBlank s.name then defaultLoopName else s.name := by
  unfold normalize; split <;> rfl

theorem allBlank_normalize_name (s : LoopSettings) :
    Text.allBlank s.normalize.name = false := by
  rw [normalize_name]
  split
  · decide
  · simp_all

end LoopSettings

/-! ## Values in words -/

/-- Reads the value of a cycle budget: an unsigned number, with blanks around it. -/
def readBudget (setting value : String) : Except ConfigError Nat :=
  match Text.unsigned? (Text.trim value) with
  | .ok n => .ok n
  | .error e => .error (.invalidValue setting
      ("expected unsigned integer, got " ++ Text.quote value ++ " (" ++ e.message ++ ")"))

/-- The words for a response, in lowercase letters. -/
def ViolationResponse.ofWord? (word : String) : Option ViolationResponse :=
  if word = "panic" ∨ word = "abort" ∨ word = "fatal" then some .panic
  else if word = "log" ∨ word = "error" ∨ word = "report" then some .log
  else none

/-- Reads the value of a response: one of its words in letters of either case, with blanks around
it. -/
def readViolation (setting value : String) : Except ConfigError ViolationResponse :=
  match ViolationResponse.ofWord? (Text.lowercase (Text.trim value)) with
  | some response => .ok response
  | none => .error (.invalidValue setting
      ("expected one of panic/log, got " ++ Text.quote value))

end DeferredCalls
