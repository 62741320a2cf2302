import DeferredCalls.Toml.Value
import DeferredCalls.Toml.Number
import DeferredCalls.Toml.Moment

/-!
# Settings documents

A document is a sequence of lines: blank lines, comments, headers and assignments. `parse` answers
the entries of the document's table, or nothing if the document is not well formed.
-/

namespace DeferredCalls.Toml

/-! ## Values -/

/-- A list of elements separated by commas up to a closing bracket; a comma may follow the last
one. -/
def arrayRest (element : Reader Value) : Nat → Reader (List Value)
  | 0, _ => none
  | fuel + 1, cs =>
    match skipBetween cs with
    | ']' :: rest => some ([], rest)
    | cs => do
      let (v, cs) ← element cs
      match skipBetween cs with
      | ']' :: rest => pure ([v], rest)
      | ',' :: rest =>
        let (vs, rest) ← arrayRest element fuel rest
        pure (v :: vs, rest)
      | _ => none

/-- Assignments separated by commas up to a closing brace, entered into a table; no comma follows
the last one. -/
def inlineRest (element : Reader Value) : Nat → Entries → Reader Entries
  | 0, _, _ => none
  | fuel + 1, es, cs => do
    let ((path, last), cs) ← key cs
    match cs with
    | '=' :: cs =>
      let (v, cs) ← element (skipGap cs)
      let es ← es.addValue path last v .explicit
      match skipGap cs with
      | '\x7d' :: rest => pure (es, rest)
      | ',' :: rest => inlineRest element fuel es rest
      | _ => none
    | _ => none

/-- A number or a moment. -/
def numberOrMoment : Reader Value := fun cs =>
  match moment cs with
  | .read _ rest => some (.moment, rest)
  | .malformed => none
  | .other => (number cs).map fun
    | (.integer n, rest) => (.integer n, rest)
    | (.fraction, rest) => (.fraction, rest)

/-- A value in which arrays and inline tables are nested at most `depth` deep. -/
def value : Nat → Reader Value
  | depth, cs =>
    match cs with
    | [] => none
    | '[' :: rest =>
      match depth with
      | 0 => none
      | depth + 1 => (arrayRest (value depth) (rest.length + 1) rest).map fun (vs, r) =>
          (.array vs, r)
    | '\x7b' :: rest =>
      match depth with
      | 0 => none
      | depth + 1 =>
        match skipGap rest with
        | '\x7d' :: r => some (.table [], r)
        | _ => (inlineRest (value depth) (rest.length + 1) [] rest).map fun (es, r) =>
            (.table (Entries.toValues es), r)
    | 't' :: 'r' :: 'u' :: 'e' :: rest => some (.boolean true, rest)
    | 'f' :: 'a' :: 'l' :: 's' :: 'e' :: rest => some (.boolean false, rest)
    | c :: rest =>
      if c == '"' || c == '\'' then (string (c :: rest)).map fun (s, r) => (.text s, r)
      else numberOrMoment (c :: rest)

/-! ## Lines -/

/-- A document that has been read up to some line: its entries, and the path of the table that
assignments enter. -/
structure Progress where
  entries : Entries := []
  header : List String := []

namespace Progress

/-- Reads a header and opens its table. -/
def readHeader (p : Progress) (cs : List Char) : Option (Progress × List Char) :=
  match cs with
  | '[' :: '[' :: cs => do
    let ((path, last), cs) ← key cs
    match cs with
    | ']' :: ']' :: cs =>
      let rest ← lineEnd cs
      let entries ← p.entries.openElement path last
      pure (⟨entries, path ++ [last]⟩, rest)
    | _ => none
  | '[' :: cs => do
    let ((path, last), cs) ← key cs
    match cs with
    | ']' :: cs =>
      let rest ← lineEnd cs
      let entries ← p.entries.openTable path last
      pure (⟨entries, path ++ [last]⟩, rest)
    | _ => none
  | _ => none

/-- Reads an assignment and enters its value into the current table. -/
def readAssignment (p : Progress) (cs : List Char) : Option (Progress × List Char) := do
  let ((path, last), cs) ← key cs
  match cs with
  | '=' :: cs =>
    let (v, cs) ← value nestingLimit (skipGap cs)
    let rest ← lineEnd cs
    let entries ← Entries.alterAt false (Entries.addValue path last v) p.header .explicit p.entries
    pure (⟨entries, p.header⟩, rest)
  | _ => none

/-- Reads one line. -/
def readLine (p : Progress) (cs : List Char) : Option (Progress × List Char) :=
  match skipGap cs with
  | '[' :: cs => p.readHeader ('[' :: cs)
  | cs =>
    match lineEnd cs with
    | some rest => some (p, rest)
    | none => p.readAssignment cs

end Progress

/-- Reads the lines that are left; `fuel` bounds their number. -/
def readLines : Nat → Progress → List Char → Option Progress
  | _, p, [] => some p
  | 0, _, _ => none
  | fuel + 1, p, c :: cs =>
    match p.readLine (c :: cs) with
    | some (p, rest) => readLines fuel p rest
    | none => none

/-- The names of a document and what they denote. A byte order mark at its front is left out. -/
def parse (text : String) : Option (List (String × Value)) :=
  let cs := match text.toList with
    | '\uFEFF' :: cs => cs
    | cs => cs
  (readLines (cs.length + 1) {} cs).map fun p => Entries.toValues p.entries

end DeferredCalls.Toml
