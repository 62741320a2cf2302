import DeferredCalls.Toml.Text

/-!
# Moments in time

Dates, times of day and both together, with or without an offset from universal time. A number that
begins like a date (four digits and a dash) or like a time (two digits and a colon) has to be one.
-/

namespace DeferredCalls.Toml

/-- What came of an attempt to read one of several forms. -/
inductive Attempt (α : Type)
  /-- The form was read. -/
  | read (value : α) (rest : List Char)
  /-- The characters do not begin like this form. -/
  | other
  /-- The characters begin like this form, but are not well formed. -/
  | malformed

/-- A number of exactly `count` decimal digits. -/
def decimalDigits (count : Nat) : Reader Nat := fun cs =>
  let digits := cs.take count
  if digits.length == count && digits.all Char.isDigit then
    some (digits.foldl (fun n c => n * 10 + (c.toNat - '0'.toNat)) 0, cs.drop count)
  else none

/-- A number of two digits between two bounds. -/
def twoDigits (low high : Nat) : Reader Nat := fun cs => do
  let (n, cs) ← decimalDigits 2 cs
  if low ≤ n && n ≤ high then pure (n, cs) else none

/-- The number of days of a month. -/
def daysOfMonth (year month : Nat) : Nat :=
  if month == 2 then
    if year % 4 == 0 && (year % 100 != 0 || year % 400 == 0) then 29 else 28
  else if month == 4 || month == 6 || month == 9 || month == 11 then 30
  else 31

/-- Month and day, after the year and a dash. -/
def monthAndDay (year : Nat) (cs : List Char) : Option (List Char) := do
  let (month, cs) ← twoDigits 1 12 cs
  match cs with
  | '-' :: cs =>
    let (day, cs) ← twoDigits 1 31 cs
    if day ≤ daysOfMonth year month then pure cs else none
  | _ => none

/-- Minute, second and a fraction of a second, after the hour and a colon. -/
def minuteAndSecond (cs : List Char) : Option (List Char) := do
  let (_, cs) ← twoDigits 0 59 cs
  match cs with
  | ':' :: cs =>
    let (_, cs) ← twoDigits 0 60 cs
    match cs with
    | '.' :: d :: rest => if d.isDigit then pure (rest.dropWhile Char.isDigit) else pure cs
    | _ => pure cs
  | _ => none

/-- A time of day. -/
def timeOfDay (cs : List Char) : Attempt Unit :=
  match twoDigits 0 23 cs with
  | some (_, ':' :: rest) =>
    match minuteAndSecond rest with
    | some rest => .read () rest
    | none => .malformed
  | _ => .other

/-- An offset from universal time. -/
def offset : List Char → Attempt Unit
  | 'Z' :: cs => .read () cs
  | 'z' :: cs => .read () cs
  | c :: cs =>
    if c == '+' || c == '-' then
      match twoDigits 0 23 cs with
      | some (_, ':' :: rest) =>
        match twoDigits 0 59 rest with
        | some (_, rest) => .read () rest
        | none => .malformed
      | _ => .malformed
    else .other
  | [] => .other

/-- A time of day after a date, and an offset after that time, where they are there. -/
def timeAfterDate (cs : List Char) : Attempt Unit :=
  match cs with
  | c :: rest =>
    if c == 'T' || c == 't' || c == ' ' then
      match timeOfDay rest with
      | .read _ rest =>
        match offset rest with
        | .read _ rest => .read () rest
        | .other => .read () rest
        | .malformed => .malformed
      | .other => .read () cs
      | .malformed => .malformed
    else .read () cs
  | [] => .read () cs

/-- A moment: a date, a time of day, or both. -/
def moment (cs : List Char) : Attempt Unit :=
  match decimalDigits 4 cs with
  | some (year, '-' :: rest) =>
    match monthAndDay year rest with
    | some rest => timeAfterDate rest
    | none => .malformed
  | _ => timeOfDay cs

end DeferredCalls.Toml
