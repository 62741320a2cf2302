import DeferredCalls.Call.Report
import Mathlib.Data.List.Basic

/-!
# Diagnostics can be read back

A diagnostic is shown on several lines. The call, the place and the context are always there; the
chain of calls, the error and the traceback may be missing, and what they say may look like any
other line. Still a diagnostic can be read back from its text, provided that the traceback is the
only thing in it that goes over several lines: below the context, the words that a line begins with
tell what it is about, and nothing comes after the traceback. Whether the first line announces a
failure, or only names a call that sounds like it, is decided by the error further down.

What cannot be read back is a chain of at most one call, because such a chain is not shown.
-/

namespace DeferredCalls

namespace Text

/-! ## Lines -/

/-- A text without a line break. -/
def OneLine (s : String) : Prop :=
  '\n' ∉ s.toList

instance (s : String) : Decidable (OneLine s) :=
  inferInstanceAs (Decidable ('\n' ∉ s.toList))

/-- The lines of a text. There is one even if the text is empty. -/
def lines (s : String) : List String :=
  (s.toList.splitOn '\n').map String.ofList

/-- Lines that go on below another line. -/
def below : List String → String
  | [] => ""
  | line :: rest => "\n" ++ line ++ below rest

variable {s t words line : String} {rows rest : List String}

theorem not_mem_toDigits {c : Char} (other : c.isDigit = false) (n : Nat) :
    c ∉ Nat.toDigits 10 n := by
  intro member
  have digit : c.isDigit = true := Nat.isDigit_of_mem_toDigits (by omega) (by omega) member
  rw [other] at digit
  contradiction

@[simp] theorem oneLine_append : OneLine (s ++ t) ↔ OneLine s ∧ OneLine t := by
  simp [OneLine, not_or]

theorem oneLine_toString (n : Nat) : OneLine (toString n) := by
  rw [OneLine, Nat.toString_eq_ofList_toDigits, String.toList_ofList]
  exact not_mem_toDigits (by decide) n

theorem lines_ne_nil (s : String) : lines s ≠ [] := by
  simp [lines, List.splitOn_ne_nil]

theorem lines_of_oneLine (single : OneLine s) : lines s = [s] := by
  rw [lines, List.splitOn_eq_singleton single, List.map_singleton, String.ofList_toList]

/-- A line break parts the lines before it from those after it. -/
theorem lines_append_break (s t : String) : lines (s ++ ("\n" ++ t)) = lines s ++ lines t := by
  have parted : (s ++ ("\n" ++ t)).toList = s.toList ++ '\n' :: t.toList := by simp
  rw [lines, parted, List.splitOn_append_cons_self, List.map_append]
  rfl

theorem intercalate_lines (s : String) : "\n".intercalate (lines s) = s := by
  rw [← String.toList_inj, String.toList_intercalate, lines, List.map_map]
  have same : String.toList ∘ String.ofList = id := funext fun _ => String.toList_ofList
  rw [same, List.map_id]
  exact List.intercalate_splitOn '\n'

theorem below_append (rows rest : List String) :
    below (rows ++ rest) = below rows ++ below rest := by
  induction rows with
  | nil => simp [below]
  | cons line rows ih => simp [below, ih, String.append_assoc]

theorem lines_append_below (single : OneLine line) (singles : ∀ row ∈ rows, OneLine row) :
    lines (line ++ below rows) = line :: rows := by
  induction rows generalizing line with
  | nil => rw [below, String.append_empty, lines_of_oneLine single]
  | cons row rows ih =>
    obtain ⟨first, others⟩ := List.forall_mem_cons.mp singles
    rw [below, String.append_assoc, lines_append_break, lines_of_oneLine single, ih first others,
      List.singleton_append]

/-! ## Words at the beginning of a line -/

/-- What a line says after the words that it begins with. -/
def after? (words line : String) : Option String :=
  (words.toList.isPrefixOf? line.toList).map String.ofList

theorem after?_eq_some_iff : after? words line = some s ↔ line = words ++ s := by
  simp only [after?, Option.map_eq_some_iff, List.isPrefixOf?_eq_some_iff_append_eq]
  constructor
  · rintro ⟨rest, split, rfl⟩
    rw [← String.toList_inj, String.toList_append, String.toList_ofList, split]
  · rintro rfl
    exact ⟨s.toList, String.toList_append.symm, String.ofList_toList⟩

@[simp] theorem after?_append (words s : String) : after? words (words ++ s) = some s :=
  after?_eq_some_iff.mpr rfl

end Text

open Text

/-! ## Places -/

namespace Provenance

/-- Reads a place. The number of the line comes after the last colon; without a colon it is no
place. -/
def ofText? (s : String) : Option Provenance :=
  let backwards := s.toList.reverse
  match backwards.dropWhile (· != ':') with
  | [] => none
  | _ :: file =>
    let digits := (backwards.takeWhile (· != ':')).reverse
    some ⟨String.ofList file.reverse, Nat.ofDigitChars 10 digits 0⟩

/-- A file may have colons in its name, but no digit is one. -/
theorem ofText?_text (p : Provenance) : ofText? p.text = some p := by
  have backwards : p.text.toList.reverse =
      (Nat.toDigits 10 p.line).reverse ++ ':' :: p.file.toList.reverse := by
    simp [text]
  have plain : ∀ c ∈ (Nat.toDigits 10 p.line).reverse, (c != ':') = true := by
    intro c member
    rw [bne_iff_ne]
    rintro rfl
    exact not_mem_toDigits (by decide) p.line (List.mem_reverse.mp member)
  have front : (p.text.toList.reverse.takeWhile (· != ':')).reverse = Nat.toDigits 10 p.line := by
    rw [backwards, List.takeWhile_append_of_pos plain]
    simp
  have back : p.text.toList.reverse.dropWhile (· != ':') = ':' :: p.file.toList.reverse := by
    rw [backwards, List.dropWhile_append_of_pos plain]
    simp
  simp only [ofText?, back, front, Nat.ofDigitChars_ten_toDigits, List.reverse_reverse,
    String.ofList_toList]

end Provenance

namespace Diagnostic

/-! ## What a diagnostic is made of -/

/-- How a diagnostic comes about: first there is a report without a failure, and then a failure may
be added to it. -/
inductive Made : Diagnostic → Prop
  | report (call : String) (provenance : Option Provenance) (context : String)
    (chain : List String) : Made { call, provenance, context, chain }
  | failure {d : Diagnostic} (error : String) (traceback : Option String) :
    Made d → Made (d.withError error traceback)

/-- Nothing in a diagnostic but its traceback goes over several lines. -/
structure SingleLine (d : Diagnostic) : Prop where
  call : OneLine d.call
  file : ∀ p ∈ d.provenance, OneLine p.file
  context : OneLine d.context
  chain : ∀ call ∈ d.chain, OneLine call
  error : ∀ e ∈ d.error, OneLine e

/-- What a text shows of a diagnostic: everything, except for a chain of at most one call. -/
def shown (d : Diagnostic) : Diagnostic :=
  { d with chain := if 1 < d.chain.length then d.chain else [] }

/-- Two diagnostics are the same, but for chains of at most one call. -/
structure Alike (d d' : Diagnostic) : Prop where
  call : d.call = d'.call
  provenance : d.provenance = d'.provenance
  context : d.context = d'.context
  error : d.error = d'.error
  traceback : d.traceback = d'.traceback
  chain : d.chain = d'.chain ∨ d.chain.length ≤ 1 ∧ d'.chain.length ≤ 1

variable {d d' : Diagnostic} {depth : Nat} {calls rest : List String}

theorem Made.traceback_eq_none (made : d.Made) (calm : d.error = none) : d.traceback = none := by
  cases made with
  | report => rfl
  | failure => contradiction

theorem alike_iff_shown : d.Alike d' ↔ d.shown = d'.shown := by
  have chains : (d.chain = d'.chain ∨ d.chain.length ≤ 1 ∧ d'.chain.length ≤ 1) ↔
      (if 1 < d.chain.length then d.chain else []) =
        if 1 < d'.chain.length then d'.chain else [] := by
    grind
  constructor
  · intro alike
    rw [shown, shown, alike.call, alike.provenance, alike.context, alike.error, alike.traceback,
      chains.mp alike.chain]
  · intro same
    obtain ⟨call, provenance, context, chain, error, traceback⟩ := mk.inj same
    exact ⟨call, provenance, context, error, traceback, chains.mpr chain⟩

theorem text_shown (d : Diagnostic) : d.shown.text = d.text := by
  by_cases long : 1 < d.chain.length
  · rw [shown, if_pos long]
  · have hidden : d.shown.chain = [] := if_neg long
    rw [text, text, chainText, chainText, hidden, if_neg long]
    rfl

/-! ## The lines of a diagnostic -/

/-- What the row of a call in a chain begins with. -/
def rowMark (depth : Nat) : String :=
  "    #" ++ toString depth ++ " "

/-- The rows of a chain from a depth on. -/
def chainRows (depth : Nat) : List String → List String
  | [] => []
  | call :: calls => (rowMark depth ++ call) :: chainRows (depth + 1) calls

/-- The lines about the chain. -/
def chainPart (d : Diagnostic) : List String :=
  if 1 < d.chain.length then "  call chain:" :: chainRows 0 d.chain else []

/-- The line about the error. -/
def errorPart (d : Diagnostic) : List String :=
  d.error.toList.map ("  error: " ++ ·)

/-- The lines of the traceback. -/
def tracebackPart (d : Diagnostic) : List String :=
  d.traceback.toList.flatMap lines

theorem chainLines_eq (depth : Nat) (calls : List String) :
    chainLines depth calls = below (chainRows depth calls) := by
  induction calls generalizing depth with
  | nil => rfl
  | cons call calls ih =>
    -- The line break is part of a longer literal on one side only, so the characters are compared.
    rw [chainLines, chainRows, below, rowMark, ih, ← String.toList_inj]
    simp

theorem chainText_eq (d : Diagnostic) : d.chainText = below d.chainPart := by
  rw [chainText, chainPart, chainLines_eq]
  split <;> rfl

theorem errorLine_eq (d : Diagnostic) : d.errorLine = below d.errorPart := by
  rw [errorLine, errorPart, ← String.toList_inj]
  cases d.error with
  | none => rfl
  | some e => simp [below]

/-- The lines that are always there, and those of the chain and of the error. -/
theorem text_eq (d : Diagnostic) : d.text =
    d.heading ++ below (("  root call: " ++ d.place) :: ("  context: " ++ d.context) ::
      (d.chainPart ++ d.errorPart)) ++ d.tracebackText := by
  rw [text, chainText_eq, errorLine_eq, below, below, below_append, ← String.toList_inj]
  simp

theorem lines_append_tracebackText (s : String) (d : Diagnostic) :
    lines (s ++ d.tracebackText) = lines s ++ d.tracebackPart := by
  rw [tracebackText, tracebackPart]
  cases d.traceback with
  | none => simp
  | some t => simp [lines_append_break]

theorem oneLine_rowMark (depth : Nat) : OneLine (rowMark depth) :=
  oneLine_append.mpr ⟨oneLine_append.mpr ⟨by decide, oneLine_toString depth⟩, by decide⟩

theorem oneLine_chainRows (singles : ∀ call ∈ calls, OneLine call) :
    ∀ row ∈ chainRows depth calls, OneLine row := by
  induction calls generalizing depth with
  | nil => exact List.forall_mem_nil _
  | cons call calls ih =>
    obtain ⟨first, others⟩ := List.forall_mem_cons.mp singles
    exact List.forall_mem_cons.mpr
      ⟨oneLine_append.mpr ⟨oneLine_rowMark depth, first⟩, ih others⟩

namespace SingleLine

variable (single : d.SingleLine)
include single

theorem heading : OneLine d.heading := by
  rw [Diagnostic.heading]
  cases d.error with
  | none => exact single.call
  | some e => exact oneLine_append.mpr ⟨by decide, single.call⟩

theorem place : OneLine d.place := by
  have file := single.file
  rw [Diagnostic.place]
  cases known : d.provenance with
  | none => decide
  | some p =>
    rw [known] at file
    exact oneLine_append.mpr ⟨oneLine_append.mpr ⟨file p rfl, by decide⟩, oneLine_toString p.line⟩

theorem chainPart : ∀ row ∈ d.chainPart, OneLine row := by
  rw [Diagnostic.chainPart]
  split
  · exact List.forall_mem_cons.mpr ⟨by decide, oneLine_chainRows single.chain⟩
  · exact List.forall_mem_nil _

theorem errorPart : ∀ row ∈ d.errorPart, OneLine row := by
  intro row member
  obtain ⟨e, known, rfl⟩ := List.mem_map.mp member
  exact oneLine_append.mpr ⟨by decide, single.error e (Option.mem_toList.mp known)⟩

end SingleLine

/-- The lines of the text, one for each thing that it shows but the traceback. -/
theorem lines_text (single : d.SingleLine) : lines d.text =
    d.heading :: ("  root call: " ++ d.place) :: ("  context: " ++ d.context) ::
      (d.chainPart ++ (d.errorPart ++ d.tracebackPart)) := by
  have parts : ∀ row ∈ d.chainPart ++ d.errorPart, OneLine row :=
    List.forall_mem_append.mpr ⟨single.chainPart, single.errorPart⟩
  have context : OneLine ("  context: " ++ d.context) :=
    oneLine_append.mpr ⟨by decide, single.context⟩
  have root : OneLine ("  root call: " ++ d.place) := oneLine_append.mpr ⟨by decide, single.place⟩
  rw [text_eq, lines_append_tracebackText, lines_append_below single.heading
    (List.forall_mem_cons.mpr ⟨root, List.forall_mem_cons.mpr ⟨context, parts⟩⟩)]
  simp

/-! ## Reading a diagnostic -/

/-- Reads the call off the first line, which announces a failure if there is an error. -/
def readHeading (error : Option String) (heading : String) : Option String :=
  match error with
  | some _ => after? "error in " heading
  | none => some heading

/-- Reads the calls of a chain from a depth on, up to the first line that is no row of its depth. -/
def readRows (depth : Nat) : List String → List String × List String
  | [] => ([], [])
  | line :: rest =>
    match after? (rowMark depth) line with
    | some call =>
      let (calls, rest) := readRows (depth + 1) rest
      (call :: calls, rest)
    | none => ([], line :: rest)

/-- Reads the chain, if there is one. -/
def readChain : List String → List String × List String
  | [] => ([], [])
  | line :: rest => if line = "  call chain:" then readRows 0 rest else ([], line :: rest)

/-- Reads the error and the traceback, which is all that is left. -/
def readFailure : List String → Option String × Option String
  | [] => (none, none)
  | line :: rest =>
    (after? "  error: " line, if rest = [] then none else some ("\n".intercalate rest))

/-- Reads a diagnostic. -/
def ofText? (s : String) : Option Diagnostic :=
  match lines s with
  | heading :: root :: context :: parts => do
    let (chain, rest) := readChain parts
    let (error, traceback) := readFailure rest
    let call ← readHeading error heading
    let place ← after? "  root call: " root
    let context ← after? "  context: " context
    some { call, provenance := Provenance.ofText? place, context, chain, error, traceback }
  | _ => none

theorem readHeading_heading (d : Diagnostic) : readHeading d.error d.heading = some d.call := by
  rw [heading]
  cases d.error with
  | none => rfl
  | some e => exact after?_append "error in " d.call

theorem ofText?_place (d : Diagnostic) : Provenance.ofText? d.place = d.provenance := by
  rw [place]
  cases d.provenance with
  | none => decide
  | some p => exact p.ofText?_text

/-- No line about an error looks like a row of a chain. -/
theorem after?_rowMark_error (depth : Nat) (e : String) :
    after? (rowMark depth) ("  error: " ++ e) = none := by
  simp [after?, rowMark, List.isPrefixOf?]

/-- The rows of a chain are read as far as they go, if what follows does not look like one of them.
What the calls are named does not matter, since the row of each depth begins with words of its
own. -/
theorem readRows_chainRows
    (stop : ∀ line ∈ rest.head?, ∀ depth, after? (rowMark depth) line = none) :
    readRows depth (chainRows depth calls ++ rest) = (calls, rest) := by
  induction calls generalizing depth with
  | nil =>
    cases rest with
    | nil => rfl
    | cons line rest => simp [chainRows, readRows, stop line rfl]
  | cons call calls ih => simp [chainRows, readRows, ih]

/-- What comes below the chain is nothing, or begins with the line about the error. -/
theorem Made.below_chain (made : d.Made) :
    d.errorPart ++ d.tracebackPart = [] ∨
      ∃ e rest, d.errorPart ++ d.tracebackPart = ("  error: " ++ e) :: rest := by
  rw [errorPart, tracebackPart]
  cases error : d.error with
  | none => simp [made.traceback_eq_none error]
  | some e => exact .inr ⟨e, _, rfl⟩

theorem readChain_parts (made : d.Made) :
    readChain (d.chainPart ++ (d.errorPart ++ d.tracebackPart)) =
      (d.shown.chain, d.errorPart ++ d.tracebackPart) := by
  by_cases long : 1 < d.chain.length
  · have stop : ∀ line ∈ (d.errorPart ++ d.tracebackPart).head?, ∀ depth,
        after? (rowMark depth) line = none := by
      rcases made.below_chain with nothing | ⟨e, rest, failure⟩
      · simp [nothing]
      · rw [failure]
        rintro line ⟨rfl⟩ depth
        exact after?_rowMark_error depth e
    rw [chainPart, if_pos long, List.cons_append, readChain, if_pos rfl, readRows_chainRows stop,
      shown, if_pos long]
  · have hidden : d.shown.chain = [] := if_neg long
    rw [chainPart, if_neg long, List.nil_append, hidden]
    -- Without a chain, what comes next must not pass for the line that announces one.
    rcases made.below_chain with nothing | ⟨e, rest, failure⟩
    · rw [nothing, readChain]
    · have other : "  error: " ++ e ≠ "  call chain:" := by
        intro same
        have chars := congrArg String.toList same
        simp at chars
      rw [failure, readChain, if_neg other]

theorem readFailure_parts (made : d.Made) :
    readFailure (d.errorPart ++ d.tracebackPart) = (d.error, d.traceback) := by
  rw [errorPart, tracebackPart]
  cases error : d.error with
  | none =>
    rw [made.traceback_eq_none error]
    rfl
  | some e =>
    cases d.traceback with
    | none => simp [readFailure]
    | some t => simp [readFailure, lines_ne_nil, intercalate_lines]

/-- The text of a diagnostic is read back. -/
theorem ofText?_text (made : d.Made) (single : d.SingleLine) : ofText? d.text = some d.shown := by
  rw [ofText?, lines_text single]
  simp only [readChain_parts made, readFailure_parts made, readHeading_heading, ofText?_place,
    after?_append, Option.bind_eq_bind, Option.bind_some]
  rfl

end Diagnostic

/-! ## Diagnostics of calls -/

namespace World

theorem contextReport_made (w : World) (t : ThreadId) (c : CallId) : (w.contextReport t c).Made :=
  .report ..

theorem failureReport_made (w : World) (t : ThreadId) (c : CallId) (e : Error)
    (traceback : Option String) : (w.failureReport t c e traceback).Made :=
  .failure _ _ (.report ..)

end World

/-- Diagnostics are read back from their texts, if nothing in them but the traceback goes over
several lines. Therefore two of them have the same text if and only if they are the same, but for
chains of at most one call. -/
theorem diagnostics_are_read_back {d d' : Diagnostic} (made : d.Made) (made' : d'.Made)
    (single : d.SingleLine) (single' : d'.SingleLine) :
    Diagnostic.ofText? d.text = some d.shown ∧ (d.text = d'.text ↔ d.Alike d') := by
  have read := Diagnostic.ofText?_text made single
  have read' := Diagnostic.ofText?_text made' single'
  refine ⟨read, ?_⟩
  rw [Diagnostic.alike_iff_shown]
  constructor
  · intro same
    rw [same, read'] at read
    exact (Option.some.inj read).symm
  · intro same
    rw [← Diagnostic.text_shown d, same, Diagnostic.text_shown d']

namespace Namesake

/-- A report about a call whose name sounds like a failure. -/
def report : Diagnostic :=
  { call := "error in menu", provenance := some ⟨"lobby:menu.py", 14⟩, context := "  error: dark"
    chain := ["door", "#1 menu"] }

/-- A failure that begins with the same line. Its traceback looks like a report that goes on. -/
def failure : Diagnostic :=
  { report with call := "menu" }.withError "shut" (some "\n  context: attic\n    #2 window\n")

/-- The failure is read back, and it is not taken for the report. -/
theorem texts_of_namesakes :
    Diagnostic.ofText? failure.text = some failure ∧ failure.text ≠ report.text := by
  have single : report.SingleLine := ⟨by decide, by decide, by decide, by decide, by decide⟩
  have single' : failure.SingleLine := ⟨by decide, by decide, by decide, by decide, by decide⟩
  obtain ⟨read, same⟩ :=
    diagnostics_are_read_back (d := failure) (.failure _ _ (.report ..)) (.report ..) single' single
  refine ⟨read, fun texts => ?_⟩
  have calls := (same.mp texts).call
  revert calls
  decide

end Namesake

/-- With a line break in it, a context can pass for one that is followed by an error. -/
example :
    Diagnostic.text { call := "error in menu", provenance := none, context := "\n  error: shut"
                      chain := [] } =
      (Diagnostic.withError { call := "menu", provenance := none, context := "", chain := [] }
        "shut" none).text := by
  decide

end DeferredCalls
