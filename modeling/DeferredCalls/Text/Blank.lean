/-!
# Blank characters and trimming

The characters with the Unicode property `White_Space`, and the removal of such characters from
both ends of a text. `trim` cuts a text only at its ends: `trimChars_eq_self` says that a text
whose first and last characters are not blank is left alone.
-/

namespace DeferredCalls.Text

/-- The Unicode property `White_Space`. -/
def isBlank (c : Char) : Bool :=
  let n := c.toNat
  (9 ≤ n && n ≤ 13) || n == 0x20 || n == 0x85 || n == 0xA0 || n == 0x1680 ||
    (0x2000 ≤ n && n ≤ 0x200A) || n == 0x2028 || n == 0x2029 || n == 0x202F || n == 0x205F ||
    n == 0x3000

/-- Removes the blank characters at both ends. -/
def trimChars (cs : List Char) : List Char :=
  ((cs.dropWhile isBlank).reverse.dropWhile isBlank).reverse

/-- A text without the blank characters at its ends. -/
def trim (s : String) : String :=
  String.ofList (trimChars s.toList)

/-- A text is blank when it has no character that is not blank. -/
def allBlank (s : String) : Bool :=
  s.toList.all isBlank

@[simp] theorem trimChars_nil : trimChars [] = [] := rfl

@[simp] theorem toList_trim (s : String) : (trim s).toList = trimChars s.toList := by
  simp [trim]

/-- Nothing is removed between two characters that are not blank. -/
theorem trimChars_eq_self {c d : Char} {cs : List Char}
    (first : isBlank c = false) (last : isBlank d = false) :
    trimChars (c :: (cs ++ [d])) = c :: (cs ++ [d]) := by
  simp [trimChars, first, last]

end DeferredCalls.Text
