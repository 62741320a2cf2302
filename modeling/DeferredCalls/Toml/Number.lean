import DeferredCalls.Toml.Text

/-!
# Numbers of a settings document

Whole numbers are decimal with an optional sign, or hexadecimal, octal or binary behind a two
character mark; underscores may stand between two digits. They have to fit into a signed 64-bit
word. A number with a fraction or an exponent is fractional and must not exceed the range of double
precision upwards.
-/

namespace DeferredCalls.Toml

/-- Digits of a kind with single underscores between them, the underscores left out. The answer is
`none` where an underscore is not followed by a digit. -/
def groupedDigits (isDigit : Char → Bool) : List Char → Option (List Char × List Char)
  | '_' :: d :: cs =>
    if isDigit d then (groupedDigits isDigit cs).map fun (ds, rest) => (d :: ds, rest) else none
  | ['_'] => none
  | d :: cs =>
    if isDigit d then (groupedDigits isDigit cs).map fun (ds, rest) => (d :: ds, rest)
    else some ([], d :: cs)
  | [] => some ([], [])

/-- At least one digit of a kind, and more with single underscores between them. -/
def someDigits (isDigit : Char → Bool) : Reader (List Char)
  | d :: cs =>
    if isDigit d then (groupedDigits isDigit cs).map fun (ds, rest) => (d :: ds, rest) else none
  | [] => none

/-- The number that digits denote in a base. -/
def digitsToNat (base : Nat) (ds : List Char) : Nat :=
  ds.foldl (fun n c => n * base + (hexDigit? c).getD 0) 0

/-- The bound of signed words of 64 bits. -/
def signedLimit : Nat := 9223372036854775808

/-- A number behind the mark of its base. -/
def markedInteger (base : Nat) (isDigit : Char → Bool) : Reader Int := fun cs => do
  let (ds, rest) ← someDigits isDigit cs
  let n := digitsToNat base ds
  if n < signedLimit then pure (Int.ofNat n, rest) else none

/-- An optional sign; the answer says whether it is a minus. -/
def sign : List Char → Bool × List Char
  | '-' :: cs => (true, cs)
  | '+' :: cs => (false, cs)
  | cs => (false, cs)

/-- The whole part of a decimal number, which has no leading zeros. -/
def wholePart : Reader (List Char)
  | '0' :: cs => some (['0'], cs)
  | cs => someDigits Char.isDigit cs

/-- A signed number, if it fits. -/
def signedInteger (negative : Bool) (ds : List Char) : Option Int :=
  let n := digitsToNat 10 ds
  if negative then if n ≤ signedLimit then some (-Int.ofNat n) else none
  else if n < signedLimit then some (Int.ofNat n) else none

/-- The digits after the decimal point, if there is one. -/
def fractionPart : Reader (List Char)
  | '.' :: cs => someDigits Char.isDigit cs
  | cs => some ([], cs)

/-- The exponent, if there is one. -/
def exponentPart : Reader (Option Int)
  | c :: cs =>
    if c == 'e' || c == 'E' then
      let (negative, cs) := sign cs
      (someDigits Char.isDigit cs).map fun (ds, rest) =>
        let n := Int.ofNat (digitsToNat 10 ds)
        (some (if negative then -n else n), rest)
    else some (none, c :: cs)
  | [] => some (none, [])

/-- A number `mantissa * 10 ^ exponent` that rounds to no finite number of double precision: one
from halfway above the largest such number on. -/
def tooLargeForDouble (mantissa : Nat) (exponent : Int) : Bool :=
  let bound := Nat.pow 2 1024 - Nat.pow 2 970
  let digits : Int := (Nat.toDigits 10 mantissa).length
  if mantissa == 0 then false
  else if 400 < exponent + digits then true
  else if exponent + digits < 300 then false
  else if 0 ≤ exponent then bound ≤ mantissa * Nat.pow 10 exponent.toNat
  else bound * Nat.pow 10 (-exponent).toNat ≤ mantissa

/-- A value that a number can be. -/
inductive Number
  | integer (n : Int)
  | fraction

/-- A decimal number. -/
def decimal : Reader Number := fun cs => do
  let (negative, cs) := sign cs
  match cs with
  | 'i' :: 'n' :: 'f' :: rest => pure (.fraction, rest)
  | 'n' :: 'a' :: 'n' :: rest => pure (.fraction, rest)
  | _ =>
    let (whole, cs) ← wholePart cs
    let (decimals, cs) ← fractionPart cs
    let (exponent, cs) ← exponentPart cs
    if decimals.isEmpty && exponent.isNone then
      let n ← signedInteger negative whole
      pure (.integer n, cs)
    else if !negative &&
        tooLargeForDouble (digitsToNat 10 (whole ++ decimals))
          (exponent.getD 0 - Int.ofNat decimals.length) then none
    else pure (.fraction, cs)

/-- A number in any of its forms. -/
def number : Reader Number
  | '0' :: 'x' :: cs =>
    (markedInteger 16 (fun c => (hexDigit? c).isSome) cs).map fun (n, rest) => (.integer n, rest)
  | '0' :: 'o' :: cs =>
    (markedInteger 8 (fun c => '0' ≤ c && c ≤ '7') cs).map fun (n, rest) => (.integer n, rest)
  | '0' :: 'b' :: cs =>
    (markedInteger 2 (fun c => c == '0' || c == '1') cs).map fun (n, rest) => (.integer n, rest)
  | cs => decimal cs

end DeferredCalls.Toml
