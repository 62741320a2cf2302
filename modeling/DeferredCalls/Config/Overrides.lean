import DeferredCalls.Config.Settings
import DeferredCalls.Error

/-!
# Settings from the environment and from files

Settings can be overridden by the variables of the environment and by the `event_loop` table of a
settings file. An override in place applies its values one after another, in the order name,
budget, response, and stops at the first value that is not acceptable; what was applied before
stays. The constructors `fromEnvironment`, `fromFile` and `withEnvironment` answer new settings
with a name that is not blank, or an error.

What the defaults are depends on how the program is built. How files are found and how their text is
read is not the affair of this library, which takes what it is given there: settings, or a
complaint.
-/

namespace DeferredCalls

/-- The `event_loop` table of a settings file. -/
structure FileSettings where
  name : Option String := none
  cycleBudget : Option Nat := none
  violation : Option String := none
  deriving DecidableEq, Repr

/-- What settings depend on besides the environment. -/
structure Surroundings where
  /-- How the program is built. -/
  build : Build := .development
  /-- The texts of the files at paths. -/
  readText : String → Except FileError String
  /-- What the text of a settings file comes to, or a complaint about it. -/
  parse : String → Except String FileSettings

/-! ## The environment -/

/-- The variables of the environment, whose values are bytes. -/
structure Environment where
  entries : List (String × ByteArray) := []

namespace Environment

/-- The value of a variable. One that is not a text counts as not set. -/
def read? (env : Environment) (name : String) : Option String :=
  (env.entries.lookup name).bind String.fromUTF8?

end Environment

/-- The variable that holds the name of a loop. -/
def nameVariable : String := "CTXCALL_LOOP_NAME"

/-- The variable that holds the cycle budget. -/
def budgetVariable : String := "CTXCALL_CYCLE_BUDGET"

/-- The variable that holds the response to a scheduling violation. -/
def violationVariable : String := "CTXCALL_CONTRACT_VIOLATION"

/-- Reads a value if it is there. -/
def readOptional (read : String → Except ConfigError α) :
    Option String → Except ConfigError (Option α)
  | none => .ok none
  | some value => (read value).map some

/-- Settings after an attempt to override them, and why the attempt stopped early. -/
structure Override where
  settings : LoopSettings
  failure : Option ConfigError := none

namespace LoopSettings

/-- Overrides settings in place by the variables that are set. -/
def applyEnvironment (s : LoopSettings) (env : Environment) : Override :=
  let s := { s with name := (env.read? nameVariable).getD s.name }
  match readOptional (readBudget budgetVariable) (env.read? budgetVariable) with
  | .error e => { settings := s, failure := some e }
  | .ok budget =>
    let s := { s with cycleBudget := budget.getD s.cycleBudget }
    match readOptional (readViolation violationVariable) (env.read? violationVariable) with
    | .error e => { settings := s, failure := some e }
    | .ok violation => { settings := { s with violation := violation.getD s.violation } }

/-- New settings that the variables of the environment override. -/
def withEnvironment (s : LoopSettings) (env : Environment) : Except Error LoopSettings :=
  match s.applyEnvironment env with
  | ⟨_, some e⟩ => .error (.ofConfigError e)
  | ⟨s, none⟩ => .ok s.normalize

/-- The default settings, overridden by the variables of the environment. -/
def fromEnvironment (around : Surroundings) (env : Environment) : Except Error LoopSettings :=
  (ofBuild around.build).withEnvironment env

end LoopSettings

/-! ## Files -/

namespace FileSettings

/-- Reads the text of a settings file. -/
def ofText (around : Surroundings) (text : String) : Except ConfigError FileSettings :=
  (around.parse text).mapError fun complaint => @ConfigError.malformed complaint

/-- Reads the settings file at a path. -/
def read (around : Surroundings) (path : String) : Except ConfigError FileSettings :=
  match around.readText path with
  | .error e => .error (.unreadable path e)
  | .ok text => ofText around text

end FileSettings

/-- The name under which the response in a settings file is reported. -/
def violationKey : String := "event_loop.contract_violation"

namespace LoopSettings

/-- Overrides settings in place by what a settings file holds. -/
def applyFile (s : LoopSettings) (file : FileSettings) : Override :=
  let s := { s with
    name := file.name.getD s.name
    cycleBudget := file.cycleBudget.getD s.cycleBudget }
  match readOptional (readViolation violationKey) file.violation with
  | .error e => { settings := s, failure := some e }
  | .ok violation => { settings := { s with violation := violation.getD s.violation } }

/-- The default settings, overridden by the settings file at a path. -/
def fromFile (around : Surroundings) (path : String) : Except Error LoopSettings :=
  match FileSettings.read around path with
  | .error e => .error (.ofConfigError e)
  | .ok file =>
    match (ofBuild around.build).applyFile file with
    | ⟨_, some e⟩ => .error (.ofConfigError e)
    | ⟨s, none⟩ => .ok s.normalize

end LoopSettings

end DeferredCalls
