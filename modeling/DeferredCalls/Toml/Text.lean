/-!
# Blanks, keys and strings of a settings document

Readers for the smallest parts of a document. A reader takes the characters that are left and
answers what it read and what is left after it, or nothing if it cannot read.
-/

namespace DeferredCalls.Toml

/-- Reads from the front of the characters that are left. -/
abbrev Reader (α : Type) := List Char → Option (α × List Char)

/-- A space or a tab. -/
def isGap (c : Char) : Bool :=
  c == ' ' || c == '\t'

/-- Leaves out spaces and tabs. -/
def skipGap (cs : List Char) : List Char :=
  cs.dropWhile isGap

/-- Characters that may stand in comments and between quotes: a tab and all characters that are not
controls. -/
def isPlain (c : Char) : Bool :=
  c == '\t' || (0x20 ≤ c.toNat && c.toNat != 0x7F)

/-- A line feed, with or without a carriage return before it. -/
def newline : Reader Unit
  | '\n' :: cs => some ((), cs)
  | '\r' :: '\n' :: cs => some ((), cs)
  | _ => none

/-- Leaves out a comment. -/
def skipComment : List Char → List Char
  | '#' :: cs => cs.dropWhile isPlain
  | cs => cs

/-- The end of a line: blanks and a comment, and then a line feed or the end of the document. -/
def lineEnd (cs : List Char) : Option (List Char) :=
  match skipComment (skipGap cs) with
  | [] => some []
  | rest => (newline rest).map (·.2)

/-- Leaves out blanks, line feeds, and comments that end in a line feed; `fuel` bounds the number
of lines. -/
def skipLines : Nat → List Char → List Char
  | 0, cs => cs
  | fuel + 1, cs =>
    let cs := skipGap cs
    match newline (skipComment cs) with
    | some (_, rest) => skipLines fuel rest
    | none => cs

/-- Leaves out everything that may stand between the elements of an array. -/
def skipBetween (cs : List Char) : List Char :=
  skipLines cs.length cs

/-! ## Strings -/

/-- The value of a hexadecimal digit. -/
def hexDigit? (c : Char) : Option Nat :=
  if '0' ≤ c ∧ c ≤ '9' then some (c.toNat - '0'.toNat)
  else if 'a' ≤ c ∧ c ≤ 'f' then some (c.toNat - 'a'.toNat + 10)
  else if 'A' ≤ c ∧ c ≤ 'F' then some (c.toNat - 'A'.toNat + 10)
  else none

/-- The number that hexadecimal digits denote. -/
def hexNumber? (cs : List Char) : Option Nat :=
  cs.foldlM (fun n c => (hexDigit? c).map (n * 16 + ·)) 0

/-- The character written by `count` hexadecimal digits. -/
def codePoint (count : Nat) : Reader Char := fun cs =>
  if cs.length < count then none
  else match hexNumber? (cs.take count) with
    | some n => if h : n.isValidChar then some (Char.ofNatAux n h, cs.drop count) else none
    | none => none

/-- What stands after a backslash. -/
def escaped : Reader Char
  | 'b' :: cs => some ('\x08', cs)
  | 't' :: cs => some ('\t', cs)
  | 'n' :: cs => some ('\n', cs)
  | 'f' :: cs => some ('\x0c', cs)
  | 'r' :: cs => some ('\r', cs)
  | '"' :: cs => some ('"', cs)
  | '\\' :: cs => some ('\\', cs)
  | 'u' :: cs => codePoint 4 cs
  | 'U' :: cs => codePoint 8 cs
  | _ => none

/-- The rest of a string on one line, up to its double quote. -/
def basicRest : Nat → Reader (List Char)
  | 0, _ => none
  | _ + 1, [] => none
  | _ + 1, '"' :: cs => some ([], cs)
  | fuel + 1, '\\' :: cs => do
    let (c, cs) ← escaped cs
    let (s, cs) ← basicRest fuel cs
    pure (c :: s, cs)
  | fuel + 1, c :: cs =>
    if isPlain c then (basicRest fuel cs).map fun (s, cs) => (c :: s, cs) else none

/-- The rest of a string on one line without escapes, up to its single quote. -/
def literalRest : Reader (List Char)
  | [] => none
  | '\'' :: cs => some ([], cs)
  | c :: cs =>
    if isPlain c then (literalRest cs).map fun (s, cs) => (c :: s, cs) else none

/-- What a run of `count` quotes inside a string over several lines means: fewer than three belong
to the text, and of three to five the last three close the string. -/
inductive QuoteRun
  | inside
  | closing (before : Nat)
  | tooMany

/-- Judges a run of quotes. -/
def QuoteRun.ofCount (count : Nat) : QuoteRun :=
  if count < 3 then .inside else if count ≤ 5 then .closing (count - 3) else .tooMany

/-- Leaves out blanks and line feeds. -/
def skipBlank : List Char → List Char
  | '\r' :: '\n' :: cs => skipBlank cs
  | c :: cs => if isGap c || c == '\n' then skipBlank cs else c :: cs
  | [] => []

/-- The rest of a string over several lines, up to its three double quotes. A backslash at the end
of a line joins it to the next character that is not blank. -/
def longBasicRest : Nat → Reader (List Char)
  | 0, _ => none
  | _ + 1, [] => none
  | fuel + 1, '"' :: cs =>
    let run := '"' :: cs.takeWhile (· == '"')
    let rest := cs.dropWhile (· == '"')
    match QuoteRun.ofCount run.length with
    | .inside => (longBasicRest fuel rest).map fun (s, cs) => (run ++ s, cs)
    | .closing before => some (List.replicate before '"', rest)
    | .tooMany => none
  | fuel + 1, '\\' :: cs =>
    match newline (skipGap cs) with
    | some (_, rest) => longBasicRest fuel (skipBlank rest)
    | none => do
      let (c, cs) ← escaped cs
      let (s, cs) ← longBasicRest fuel cs
      pure (c :: s, cs)
  | fuel + 1, c :: cs =>
    match newline (c :: cs) with
    | some (_, rest) => (longBasicRest fuel rest).map fun (s, cs) => ('\n' :: s, cs)
    | none => if isPlain c then (longBasicRest fuel cs).map fun (s, cs) => (c :: s, cs) else none

/-- The rest of a string over several lines without escapes, up to its three single quotes. -/
def longLiteralRest : Nat → Reader (List Char)
  | 0, _ => none
  | _ + 1, [] => none
  | fuel + 1, '\'' :: cs =>
    let run := '\'' :: cs.takeWhile (· == '\'')
    let rest := cs.dropWhile (· == '\'')
    match QuoteRun.ofCount run.length with
    | .inside => (longLiteralRest fuel rest).map fun (s, cs) => (run ++ s, cs)
    | .closing before => some (List.replicate before '\'', rest)
    | .tooMany => none
  | fuel + 1, c :: cs =>
    match newline (c :: cs) with
    | some (_, rest) => (longLiteralRest fuel rest).map fun (s, cs) => ('\n' :: s, cs)
    | none => if isPlain c then (longLiteralRest fuel cs).map fun (s, cs) => (c :: s, cs) else none

/-- Leaves out the line feed right after the quotes that open a string over several lines. -/
def skipFirstNewline (cs : List Char) : List Char :=
  match newline cs with
  | some (_, rest) => rest
  | none => cs

/-- A string in any of its four forms. -/
def string : Reader String := fun cs =>
  let chars : Option (List Char × List Char) :=
    match cs with
    | '"' :: '"' :: '"' :: cs => longBasicRest (cs.length + 1) (skipFirstNewline cs)
    | '"' :: cs => basicRest (cs.length + 1) cs
    | '\'' :: '\'' :: '\'' :: cs => longLiteralRest (cs.length + 1) (skipFirstNewline cs)
    | '\'' :: cs => literalRest cs
    | _ => none
  chars.map fun (s, cs) => (String.ofList s, cs)

/-! ## Keys -/

/-- A character of a key without quotes. -/
def isBareKeyChar (c : Char) : Bool :=
  c.isAlphanum || c == '-' || c == '_'

/-- One part of a key. -/
def keyPart : Reader String
  | '"' :: cs => (basicRest (cs.length + 1) cs).map fun (s, cs) => (String.ofList s, cs)
  | '\'' :: cs => (literalRest cs).map fun (s, cs) => (String.ofList s, cs)
  | cs =>
    match cs.takeWhile isBareKeyChar with
    | [] => none
    | name => some (String.ofList name, cs.dropWhile isBareKeyChar)

/-- The parts of a key, with the blanks around them; `fuel` bounds their number. -/
def keyParts : Nat → Reader (List String)
  | 0, _ => none
  | fuel + 1, cs => do
    let (part, cs) ← keyPart (skipGap cs)
    match skipGap cs with
    | '.' :: cs =>
      let (parts, cs) ← keyParts fuel cs
      pure (part :: parts, cs)
    | cs => pure ([part], cs)

/-- How deep keys and values may be nested. -/
def nestingLimit : Nat := 79

/-- A key: the parts before the last, and the last part. -/
def key : Reader (List String × String) := fun cs => do
  let (parts, cs) ← keyParts nestingLimit cs
  let last ← parts.getLast?
  pure ((parts.dropLast, last), cs)

end DeferredCalls.Toml
