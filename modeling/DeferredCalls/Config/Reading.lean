import DeferredCalls.Config.Folder
import DeferredCalls.Config.Overrides
import DeferredCalls.Toml.Document

/-!
# Settings files in a working folder

The surroundings of a program that was built for development, and finds its settings files in a
folder. Their text is a document of tables and values, of which the `event_loop` table counts. What
a reader of such documents complains of is not told here: all complaints read the same.
-/

namespace DeferredCalls

namespace FileSettings

/-- An optional text. -/
def text? : Option Toml.Value → Option (Option String)
  | none => some none
  | some (.text s) => some (some s)
  | some _ => none

/-- An optional number that is not negative. -/
def budget? : Option Toml.Value → Option (Option Nat)
  | none => some none
  | some (.integer (.ofNat n)) => some (some n)
  | some _ => none

/-- The three settings, where each of them is absent or has the right type. -/
def ofValues? (name budget violation : Option Toml.Value) : Option FileSettings := do
  let name ← text? name
  let cycleBudget ← budget? budget
  let violation ← text? violation
  pure { name, cycleBudget, violation }

/-- The settings that a value holds: a table by its names, an array by its first three elements,
and a moment, which counts as a table of other names, holds none. -/
def ofValue? : Toml.Value → Option FileSettings
  | .table es => ofValues? (es.lookup "name") (es.lookup "cycle_budget")
      (es.lookup "contract_violation")
  | .array (name :: budget :: violation :: _) =>
    ofValues? (some name) (some budget) (some violation)
  | .moment => some {}
  | _ => none

/-- The settings that a document holds. -/
def ofDocument? (text : String) : Option FileSettings := do
  let entries ← Toml.parse text
  match entries.lookup "event_loop" with
  | none => pure {}
  | some value => ofValue? value

end FileSettings

/-- The surroundings of a program whose settings files are in a folder. -/
def Folder.surroundings (folder : Folder) : Surroundings where
  readText := folder.readText
  parse text :=
    match FileSettings.ofDocument? text with
    | some file => .ok file
    | none => .error "_"

end DeferredCalls
