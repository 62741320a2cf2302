import DeferredCalls.Config.Settings
import Mathlib.Data.List.TakeWhile
import Mathlib.Data.String.Basic

/-!
# The grammar of values

What a cycle budget and a response look like when they are written as texts. Blanks around a value
are of no account. A budget is an optional plus sign and one or more ASCII digits, with any number
of leading zeros, and fits into a word of 64 bits. A response is one of its words, in ASCII letters
of either case: Unicode knows letters beyond ASCII whose lowercase form is an ASCII letter, but no
word has that letter in it.

The readers of values accept exactly this, and what they refuse they report under the name of the
setting.
-/

namespace DeferredCalls

namespace Text

/-! ## Blanks around a value -/

/-- A text is made of some characters and of blanks on both sides. -/
def Pads (core : List Char) (s : String) : Prop :=
  ∃ before after, s.toList = before ++ core ++ after ∧
    (∀ c ∈ before, isBlank c = true) ∧ ∀ c ∈ after, isBlank c = true

variable {before core after cs : List Char} {c : Char} {s : String}

theorem dropWhile_blank (solid : ∀ c ∈ core, isBlank c = false)
    (blank : ∀ c ∈ after, isBlank c = true) :
    (core ++ after).dropWhile isBlank = if core = [] then [] else core ++ after := by
  cases core with
  | nil => simpa [List.dropWhile_eq_nil_iff] using blank
  | cons c core => simp [solid c (List.mem_cons_self ..)]

/-- Trimming takes the blanks on both sides away, and nothing else. -/
theorem trimChars_of_pads (left : ∀ c ∈ before, isBlank c = true)
    (solid : ∀ c ∈ core, isBlank c = false) (right : ∀ c ∈ after, isBlank c = true) :
    trimChars (before ++ core ++ after) = core := by
  have mirrored : ∀ c ∈ core.reverse, isBlank c = false := fun c member =>
    solid c (List.mem_reverse.mp member)
  have rest : ∀ c ∈ after.reverse, isBlank c = true := fun c member =>
    right c (List.mem_reverse.mp member)
  rw [trimChars, List.append_assoc, List.dropWhile_append_of_pos left, dropWhile_blank solid right]
  split
  · next empty => rw [empty]; rfl
  · rw [List.reverse_append, List.dropWhile_append_of_pos rest, ← List.append_nil core.reverse,
      dropWhile_blank mirrored (by simp)]
    split <;> simp_all

theorem exists_trimChars (cs : List Char) : ∃ before after, cs = before ++ trimChars cs ++ after ∧
    (∀ c ∈ before, isBlank c = true) ∧ ∀ c ∈ after, isBlank c = true := by
  refine ⟨cs.takeWhile isBlank, ((cs.dropWhile isBlank).reverse.takeWhile isBlank).reverse, ?_,
    fun c member => List.mem_takeWhile_imp member,
    fun c member => List.mem_takeWhile_imp (List.mem_reverse.mp member)⟩
  rw [trimChars, List.append_assoc, ← List.reverse_append, List.takeWhile_append_dropWhile,
    List.reverse_reverse, List.takeWhile_append_dropWhile]

/-- What is left of a text when the blanks on both sides are gone. -/
theorem pads_trim (s : String) : Pads (trim s).toList s := by
  rw [toList_trim]
  exact exists_trimChars s.toList

theorem Pads.toList_trim (pads : Pads core s) (solid : ∀ c ∈ core, isBlank c = false) :
    (trim s).toList = core := by
  obtain ⟨before, after, split, left, right⟩ := pads
  rw [Text.toList_trim, split, trimChars_of_pads left solid right]

/-- A property of texts without blanks holds of what is left of a text after trimming if and only if
the text is made of such characters and blanks around them. -/
theorem exists_pads_iff {P : List Char → Prop} (solid : ∀ cs, P cs → ∀ c ∈ cs, isBlank c = false) :
    (∃ core, Pads core s ∧ P core) ↔ P (trim s).toList := by
  constructor
  · rintro ⟨core, pads, holds⟩
    rwa [pads.toList_trim (solid core holds)]
  · intro holds
    exact ⟨_, pads_trim s, holds⟩

/-! ## Numbers -/

/-- An optional plus sign and one or more digits, which denote a number. -/
def IsNumeral (cs : List Char) (n : Nat) : Prop :=
  ∃ sign digits, cs = sign ++ digits ∧ (sign = [] ∨ sign = ['+']) ∧ digits ≠ [] ∧
    (∀ c ∈ digits, c.isDigit = true) ∧ Nat.ofDigitChars 10 digits 0 = n

theorem digit?_eq : digit? c = if c.isDigit then some (c.toNat - '0'.toNat) else none := by
  have same : ('0' ≤ c ∧ c ≤ '9') ↔ c.isDigit = true := Char.isDigit_iff_toNat.symm
  simp only [digit?, same]

theorem not_blank_of_isDigit (digit : c.isDigit = true) : isBlank c = false := by
  obtain ⟨low, high⟩ := Char.isDigit_iff_toNat.mp digit
  have low : 48 ≤ c.toNat := low
  have high : c.toNat ≤ 57 := high
  simp only [isBlank, Bool.or_eq_false_iff, Bool.and_eq_false_iff, decide_eq_false_iff_not,
    beq_eq_false_iff_ne]
  omega

theorem IsNumeral.not_blank {n : Nat} (numeral : IsNumeral cs n) : ∀ c ∈ cs, isBlank c = false := by
  obtain ⟨sign, digits, rfl, signs, _, decimal, _⟩ := numeral
  intro c member
  rcases List.mem_append.mp member with front | back
  · rcases signs with rfl | rfl
    · contradiction
    · rw [List.mem_singleton.mp front]
      decide
  · exact not_blank_of_isDigit (decimal c back)

theorem le_ofDigitChars (digits : List Char) (acc : Nat) :
    acc ≤ Nat.ofDigitChars 10 digits acc := by
  induction digits generalizing acc with
  | nil => exact Nat.le_refl acc
  | cons c digits ih =>
    rw [Nat.ofDigitChars_cons]
    exact Nat.le_trans (by omega) (ih _)

/-- Digits are read if the number stays within a word of 64 bits, which it does not any more once it
has left it. -/
theorem unsignedDigits_eq_ok {acc n : Nat} (fits : acc < wordLimit) :
    unsignedDigits acc cs = .ok n ↔
      (∀ c ∈ cs, c.isDigit = true) ∧ Nat.ofDigitChars 10 cs acc = n ∧ n < wordLimit := by
  induction cs generalizing acc with
  | nil =>
    simp only [unsignedDigits, Except.ok.injEq, List.not_mem_nil, false_implies, implies_true,
      Nat.ofDigitChars_nil, true_and]
    constructor
    · rintro rfl
      exact ⟨rfl, fits⟩
    · exact fun same => same.1
  | cons c cs ih =>
    rw [unsignedDigits, digit?_eq, Nat.ofDigitChars_cons, Nat.mul_comm 10, List.forall_mem_cons]
    by_cases digit : c.isDigit = true
    · simp only [digit, if_true, true_and]
      split
      · next small => exact ih small
      · next large =>
        have grown := le_ofDigitChars cs (acc * 10 + (c.toNat - '0'.toNat))
        refine ⟨nofun, fun ⟨_, same, bound⟩ => absurd (Nat.lt_of_le_of_lt grown ?_) large⟩
        rwa [same]
    · simp only [digit, Bool.false_eq_true, if_false, false_and, reduceCtorEq]

theorem unsignedChars_eq_ok {n : Nat} :
    unsignedChars cs = .ok n ↔ IsNumeral cs n ∧ n < wordLimit := by
  have zero : 0 < wordLimit := by decide
  have signed (digits : List Char) : unsignedChars ('+' :: digits) = .ok n ↔
      digits ≠ [] ∧ unsignedDigits 0 digits = .ok n := by
    cases digits with
    | nil => simp [unsignedChars]
    | cons d digits => simp [unsignedChars]
  have bare (digits : List Char) (unsigned : digits.head? ≠ some '+') :
      unsignedChars digits = .ok n ↔ digits ≠ [] ∧ unsignedDigits 0 digits = .ok n := by
    unfold unsignedChars
    split <;> simp_all
  constructor
  · intro read
    by_cases plus : cs.head? = some '+'
    · obtain ⟨digits, rfl⟩ : ∃ digits, cs = '+' :: digits := by
        cases cs with
        | nil => contradiction
        | cons c digits => exact ⟨digits, by rw [Option.some.inj plus]⟩
      obtain ⟨some, read⟩ := (signed digits).mp read
      obtain ⟨decimal, same, bound⟩ := (unsignedDigits_eq_ok zero).mp read
      exact ⟨⟨['+'], digits, rfl, .inr rfl, some, decimal, same⟩, bound⟩
    · obtain ⟨some, read⟩ := (bare cs plus).mp read
      obtain ⟨decimal, same, bound⟩ := (unsignedDigits_eq_ok zero).mp read
      exact ⟨⟨[], cs, rfl, .inl rfl, some, decimal, same⟩, bound⟩
  · rintro ⟨⟨sign, digits, rfl, rfl | rfl, some, decimal, same⟩, bound⟩
    · have unsigned : digits.head? ≠ Option.some '+' := fun plus => by
        have digit := decimal '+' (List.mem_of_head? plus)
        contradiction
      exact (bare digits unsigned).mpr
        ⟨some, (unsignedDigits_eq_ok zero).mpr ⟨decimal, same, bound⟩⟩
    · exact (signed digits).mpr ⟨some, (unsignedDigits_eq_ok zero).mpr ⟨decimal, same, bound⟩⟩

/-! ## Letters of either case -/

/-- Whether the lowercase forms of the letters of a row lie beyond ASCII, and are characters. The
sign for the unit of temperature is a row of its own: its lowercase form is an ASCII letter. -/
def LetterRange.staysBeyond (r : LetterRange) : Bool :=
  128 ≤ r.first + r.distance && r.last + r.distance < 0xD800 ||
    0xE000 ≤ r.first + r.distance && r.last + r.distance < 0x110000 ||
    r.first + r.distance == 'k'.toNat && r.first == r.last

theorem staysBeyond_of_mem : ∀ r ∈ lowercaseRanges, r.staysBeyond = true := by
  decide +kernel

theorem toNat_ofNat {n : Nat} (valid : n.isValidChar) : (Char.ofNat n).toNat = n := by
  rw [Char.ofNat, dif_pos valid]
  rfl

theorem LetterRange.shift_beyond {r : LetterRange} (row : r.staysBeyond = true) {n : Nat}
    (inside : r.contains n = true) :
    128 ≤ (Char.ofNat (r.shift n)).toNat ∨ Char.ofNat (r.shift n) = 'k' := by
  simp only [staysBeyond, Bool.or_eq_true, Bool.and_eq_true, decide_eq_true_eq, beq_iff_eq] at row
  simp only [contains, Bool.and_eq_true, decide_eq_true_eq] at inside
  obtain ⟨⟨low, high⟩, _⟩ := inside
  have shifted : r.shift n = (n + r.distance).toNat := rfl
  rcases row with (below | above) | ⟨kelvin, alone⟩
  · left
    have valid : (r.shift n).isValidChar := .inl (by omega)
    rw [toNat_ofNat valid]
    omega
  · left
    have valid : (r.shift n).isValidChar := .inr (by omega)
    rw [toNat_ofNat valid]
    omega
  · right
    have same : r.shift n = 'k'.toNat := by omega
    rw [same, Char.ofNat_toNat]

/-- In the lowercase form of a character beyond ASCII there is one beyond ASCII, or it is the letter
k. -/
theorem exists_mem_lowercaseChar (beyond : 128 ≤ c.toNat) :
    ∃ d ∈ lowercaseChar c, 128 ≤ d.toNat ∨ d = 'k' := by
  rw [lowercaseChar, if_neg (by omega)]
  split
  · exact ⟨Char.ofNat 0x307, by simp, .inl (by decide)⟩
  split
  · next r found =>
    have row := staysBeyond_of_mem r (List.mem_of_find?_eq_some found)
    have inside : r.contains c.toNat = true := by
      have holds := List.find?_some found
      exact holds
    exact ⟨_, List.mem_singleton_self _, LetterRange.shift_beyond row inside⟩
  · exact ⟨c, List.mem_singleton_self c, .inl beyond⟩

theorem toLower_eq_self (other : ¬(65 ≤ c.toNat ∧ c.toNat ≤ 90)) : c.toLower = c :=
  dif_neg other

theorem toLower_of_isBlank (blank : isBlank c = true) : c.toLower = c := by
  apply toLower_eq_self
  simp only [isBlank, Bool.or_eq_true, Bool.and_eq_true, decide_eq_true_eq, beq_iff_eq] at blank
  omega

/-- A word that is made of ASCII letters other than k is the lowercase form of a text if and only if
it is made of the same letters, except for their case. -/
theorem flatMap_lowercaseChar_eq {word : List Char}
    (letters : ∀ c ∈ word, c.toNat < 128 ∧ c ≠ 'k') :
    cs.flatMap lowercaseChar = word ↔ cs.map Char.toLower = word := by
  have ascii (plain : ∀ c ∈ cs, c.toNat < 128) :
      cs.flatMap lowercaseChar = cs.map Char.toLower := by
    induction cs with
    | nil => rfl
    | cons c cs ih =>
      obtain ⟨first, rest⟩ := List.forall_mem_cons.mp plain
      rw [List.flatMap_cons, lowercaseChar_ascii first, ih rest]
      rfl
  constructor
  · rintro rfl
    refine (ascii fun c member => Nat.lt_of_not_le fun beyond => ?_).symm
    obtain ⟨d, inside, strange⟩ := exists_mem_lowercaseChar beyond
    obtain ⟨plain, other⟩ := letters d (List.mem_flatMap.mpr ⟨c, member, inside⟩)
    rcases strange with far | kelvin
    · omega
    · exact other kelvin
  · rintro rfl
    refine ascii fun c member => Nat.lt_of_not_le fun beyond => ?_
    have plain := (letters _ (List.mem_map_of_mem member)).1
    rw [toLower_eq_self (by omega)] at plain
    omega

end Text

open Text

/-! ## Words for responses -/

namespace ViolationResponse

/-- The words for a response. -/
def words : ViolationResponse → List String
  | panic => ["panic", "abort", "fatal"]
  | log => ["log", "error", "report"]

/-- One of the words for a response, in ASCII letters of either case. -/
def IsWord (r : ViolationResponse) (cs : List Char) : Prop :=
  ∃ word ∈ r.words, cs.map Char.toLower = word.toList

theorem ofWord?_eq_some {word : String} {r : ViolationResponse} :
    ofWord? word = some r ↔ word ∈ r.words := by
  have apart : word ∈ panic.words → word ∉ log.words := by
    simp only [words, List.mem_cons, List.not_mem_nil, or_false]
    rintro (rfl | rfl | rfl) <;> decide
  have panics : (word = "panic" ∨ word = "abort" ∨ word = "fatal") ↔ word ∈ panic.words := by
    simp [words]
  have logs : (word = "log" ∨ word = "error" ∨ word = "report") ↔ word ∈ log.words := by
    simp [words]
  simp only [ofWord?, panics, logs]
  cases r with
  | panic => split <;> simp_all
  | log => split <;> simp_all

theorem letters_of_word {word : String} {r : ViolationResponse} (known : word ∈ r.words) :
    ∀ c ∈ word.toList, c.toNat < 128 ∧ c ≠ 'k' := by
  have all : (r.words.all fun word => word.toList.all fun c => c.toNat < 128 ∧ c ≠ 'k') = true := by
    cases r <;> decide
  intro c member
  exact of_decide_eq_true (List.all_eq_true.mp (List.all_eq_true.mp all word known) c member)

theorem solid_of_word {word : String} {r : ViolationResponse} (known : word ∈ r.words) :
    ∀ c ∈ word.toList, isBlank c = false := by
  have all : (r.words.all fun word => word.toList.all fun c => !isBlank c) = true := by
    cases r <;> decide
  intro c member
  exact (Bool.not_eq_true' _).mp (List.all_eq_true.mp (List.all_eq_true.mp all word known) c member)

theorem isWord_iff {r : ViolationResponse} {s : String} :
    r.IsWord s.toList ↔ ofWord? (lowercase s) = some r := by
  rw [ofWord?_eq_some]
  constructor
  · rintro ⟨word, known, same⟩
    rw [← flatMap_lowercaseChar_eq (letters_of_word known), ← toList_lowercase] at same
    rwa [String.toList_inj.mp same]
  · intro known
    refine ⟨_, known, ?_⟩
    rw [← flatMap_lowercaseChar_eq (letters_of_word known), toList_lowercase]

theorem IsWord.ascii {r : ViolationResponse} {cs : List Char} (word : r.IsWord cs) :
    ∀ c ∈ cs, c.toNat < 128 := by
  obtain ⟨word, known, same⟩ := word
  intro c member
  by_contra beyond
  have letter := letters_of_word known c.toLower (same ▸ List.mem_map_of_mem member)
  rw [toLower_eq_self (by omega)] at letter
  exact beyond letter.1

theorem IsWord.not_blank {r : ViolationResponse} {cs : List Char} (word : r.IsWord cs) :
    ∀ c ∈ cs, isBlank c = false := by
  obtain ⟨word, known, same⟩ := word
  intro c member
  by_contra blank
  rw [Bool.not_eq_false] at blank
  have letter := solid_of_word known c.toLower (same ▸ List.mem_map_of_mem member)
  rw [toLower_of_isBlank blank, blank] at letter
  contradiction

end ViolationResponse

/-! ## Values -/

/-- A text that denotes a cycle budget. -/
def BudgetValue (s : String) (n : Nat) : Prop :=
  ∃ core, Pads core s ∧ IsNumeral core n ∧ n < 2 ^ 64

/-- A text that denotes a response. -/
def ResponseValue (s : String) (r : ViolationResponse) : Prop :=
  ∃ core, Pads core s ∧ r.IsWord core

section Reading

variable {setting s : String} {n : Nat} {r : ViolationResponse} {e : ConfigError}

theorem readBudget_eq_ok : readBudget setting s = .ok n ↔ BudgetValue s n := by
  have trimmed : BudgetValue s n ↔ unsigned? (trim s) = .ok n := by
    rw [BudgetValue, exists_pads_iff fun _ value => value.1.not_blank]
    exact unsignedChars_eq_ok.symm
  rw [trimmed, readBudget]
  cases unsigned? (trim s) with
  | ok k => simp only [Except.ok.injEq]
  | error why => simp only [reduceCtorEq]

theorem readViolation_eq_ok : readViolation setting s = .ok r ↔ ResponseValue s r := by
  have trimmed : ResponseValue s r ↔ ViolationResponse.ofWord? (lowercase (trim s)) = some r := by
    rw [ResponseValue, exists_pads_iff fun _ value => value.not_blank]
    exact ViolationResponse.isWord_iff
  rw [trimmed, readViolation]
  cases ViolationResponse.ofWord? (lowercase (trim s)) with
  | some found => simp only [Except.ok.injEq, Option.some.injEq]
  | none => simp only [reduceCtorEq]

/-- What is refused is reported under the name of the setting, with the text as it was. -/
theorem of_readBudget_error (refused : readBudget setting s = .error e) : ∃ why : UnsignedError,
    e = .invalidValue setting
      ("expected unsigned integer, got " ++ quote s ++ " (" ++ why.message ++ ")") := by
  rw [readBudget] at refused
  cases read : unsigned? (trim s) with
  | ok k =>
    rw [read] at refused
    cases refused
  | error why =>
    rw [read] at refused
    exact ⟨why, (Except.error.inj refused).symm⟩

theorem of_readViolation_error (refused : readViolation setting s = .error e) :
    e = .invalidValue setting ("expected one of panic/log, got " ++ quote s) := by
  rw [readViolation] at refused
  cases read : ViolationResponse.ofWord? (lowercase (trim s)) with
  | some found =>
    rw [read] at refused
    cases refused
  | none =>
    rw [read] at refused
    exact (Except.error.inj refused).symm

end Reading

/-- A number as it is printed is a numeral. -/
theorem isNumeral_toString (n : Nat) : IsNumeral (toString n).toList n := by
  rw [Nat.toString_eq_ofList_toDigits, String.toList_ofList]
  exact ⟨[], _, rfl, .inl rfl, Nat.toDigits_ne_nil,
    fun c member => Nat.isDigit_of_mem_toDigits (by omega) (by omega) member,
    Nat.ofDigitChars_ten_toDigits⟩

/-- The readers of values accept exactly what is written as the grammar says, and a value as it is
printed is read back, with any blanks around it. No character beyond ASCII is accepted in a word,
even if its lowercase form is an ASCII letter. Everything else is refused, under the name of the
setting. -/
theorem readers_follow_grammar (setting : String) :
    (∀ s n, readBudget setting s = .ok n ↔ BudgetValue s n) ∧
    (∀ n before after, n < 2 ^ 64 → allBlank before = true → allBlank after = true →
      readBudget setting (before ++ toString n ++ after) = .ok n) ∧
    (∀ s e, readBudget setting s = .error e → ∃ why : UnsignedError, e = .invalidValue setting
      ("expected unsigned integer, got " ++ quote s ++ " (" ++ why.message ++ ")")) ∧
    (∀ s r, readViolation setting s = .ok r ↔ ResponseValue s r) ∧
    (∀ s r, readViolation setting s = .ok r → ∀ c ∈ (trim s).toList, c.toNat < 128) ∧
    (∀ s e, readViolation setting s = .error e →
      e = .invalidValue setting ("expected one of panic/log, got " ++ quote s)) := by
  refine ⟨fun _ _ => readBudget_eq_ok, ?_, fun _ _ => of_readBudget_error,
    fun _ _ => readViolation_eq_ok, ?_, fun _ _ => of_readViolation_error⟩
  · intro n before after fits left right
    rw [readBudget_eq_ok]
    exact ⟨(toString n).toList, ⟨before.toList, after.toList, by simp, List.all_eq_true.mp left,
      List.all_eq_true.mp right⟩, isNumeral_toString n, fits⟩
  · intro s r read
    obtain ⟨core, pads, word⟩ := readViolation_eq_ok.mp read
    rw [pads.toList_trim word.not_blank]
    exact word.ascii

/-- The greatest number is read back with blanks around it, and the next one is no value. A capital
i with a dot above, whose lowercase form begins with an ASCII letter, makes no word. -/
theorem values_at_the_edge :
    readBudget "budget" ("\u3000" ++ toString 18446744073709551615 ++ "\t") =
      .ok 18446744073709551615 ∧
    ¬BudgetValue "+018446744073709551616" 18446744073709551616 ∧
    ∀ r, ¬ResponseValue " PAN\u0130C" r := by
  obtain ⟨accepted, printed, _, words, ascii, _⟩ := readers_follow_grammar "budget"
  refine ⟨printed _ _ _ (by decide) (by decide) (by decide), fun value => ?_, fun r value => ?_⟩
  · have read := (accepted _ _).mpr value
    revert read
    decide +kernel
  · have plain := ascii _ r ((words _ r).mpr value) '\u0130' (by decide)
    revert plain
    decide

end DeferredCalls
