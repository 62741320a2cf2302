/-!
# Unsigned numbers in decimal

The texts that denote a number of an unsigned 64-bit word: an optional plus sign and one or more
ASCII digits, with any number of leading zeros. `unsigned?` reads a text from the left, and the
first thing wrong with it is the reason that it gives.
-/

namespace DeferredCalls.Text

/-- The first number that no longer fits into a word of 64 bits. -/
def wordLimit : Nat := 18446744073709551616

/-- Why a text denotes no unsigned number. -/
inductive UnsignedError
  /-- There is no character at all. -/
  | empty
  /-- There is a character other than a digit, or no digit after the sign. -/
  | invalidDigit
  /-- The digits read so far exceed the word. -/
  | tooLarge
  deriving DecidableEq, Repr

/-- What a reason says. -/
def UnsignedError.message : UnsignedError → String
  | .empty => "cannot parse integer from empty string"
  | .invalidDigit => "invalid digit found in string"
  | .tooLarge => "number too large to fit in target type"

/-- The value of an ASCII digit. -/
def digit? (c : Char) : Option Nat :=
  if '0' ≤ c ∧ c ≤ '9' then some (c.toNat - '0'.toNat) else none

/-- Reads digits onto the number that the digits before them denote. -/
def unsignedDigits (acc : Nat) : List Char → Except UnsignedError Nat
  | [] => .ok acc
  | c :: cs =>
    match digit? c with
    | none => .error .invalidDigit
    | some d =>
      if acc * 10 + d < wordLimit then unsignedDigits (acc * 10 + d) cs else .error .tooLarge

/-- Reads an optional plus sign and one or more digits. -/
def unsignedChars : List Char → Except UnsignedError Nat
  | [] => .error .empty
  | ['+'] => .error .invalidDigit
  | '+' :: cs => unsignedDigits 0 cs
  | cs => unsignedDigits 0 cs

/-- The number that a text denotes. -/
def unsigned? (s : String) : Except UnsignedError Nat :=
  unsignedChars s.toList

end DeferredCalls.Text
