/-!
# Written values

The layout in which values are written for inspection: a record is its name followed by its fields
between braces, a wrapped value its name followed by the value in parentheses, and a choice is one
of `None` and `Some(..)`. An open record ends in two dots, which stand for fields that are not
written.
-/

namespace DeferredCalls.Text.Layout

/-- One field of a written record. -/
structure Field where
  name : String
  value : String

/-- A field as `name: value`. -/
def Field.text (f : Field) : String :=
  f.name ++ ": " ++ f.value

/-- A record with all of its fields. -/
def record (name : String) (fields : List Field) : String :=
  name ++ " \x7b " ++ ", ".intercalate (fields.map Field.text) ++ " \x7d"

/-- A record with some fields that are not written. -/
def openRecord (name : String) (fields : List Field) : String :=
  name ++ " \x7b " ++ ", ".intercalate (fields.map Field.text ++ [".."]) ++ " \x7d"

/-- A wrapped value. -/
def wrapped (name value : String) : String :=
  name ++ "(" ++ value ++ ")"

/-- A value that may be absent. -/
def optional : Option String → String
  | none => "None"
  | some value => wrapped "Some" value

/-- A truth value. -/
def flag (b : Bool) : String :=
  if b then "true" else "false"

end DeferredCalls.Text.Layout
