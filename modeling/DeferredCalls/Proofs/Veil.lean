import DeferredCalls.Proofs.Detail
import DeferredCalls.Proofs.Touching

/-!
# A world under a veil

A veil hides two things: the events that are logged in more than some detail, and of some threads
what they have for themselves, in the place of which it shows anything whatsoever. What a thread
does that the veil does not hide is the same in the world under the veil as in the world itself, and
then the veil hides no more than before.

Here this is shown for the operations of the library, one by one. A thread may be hidden only if it
does nothing meanwhile; so where loop threads can take turns, a loop thread that waits for tasks is
not hidden.
-/

namespace DeferredCalls

/-! ## Arenas, object by object -/

namespace Arena

variable {kind : ObjectKind} {α : Type}

/-- Changes every object, each in its own way. -/
def mapRefs (a : Arena kind α) (f : Ref kind → α → α) : Arena kind α :=
  ⟨a.cells.mapIdx fun i c => { c with value := f ⟨i⟩ c.value }⟩

variable {a : Arena kind α} {f : Ref kind → α → α} {r : Ref kind} {g : α → α}

@[simp] theorem size_mapRefs : (a.mapRefs f).size = a.size := by
  simp [mapRefs, size]

theorem next_mapRefs : (a.mapRefs f).next = a.next := by
  simp [mapRefs, next]

theorem get_mapRefs_of_fixed [Inhabited α] (fixed : ∀ x, f r x = x) :
    (a.mapRefs f).get r = a.get r := by
  by_cases inside : r.index < a.cells.size
  · simp [get, mapRefs, inside, fixed]
  · simp [get, mapRefs, inside]

/-- What no change touches is as before in all objects. -/
theorem get_mapRefs_congr [Inhabited α] {β : Type} (p : α → β) (same : ∀ r x, p (f r x) = p x)
    (r : Ref kind) : p ((a.mapRefs f).get r) = p (a.get r) := by
  by_cases inside : r.index < a.cells.size
  · simp [get, mapRefs, inside, same]
  · simp [get, mapRefs, inside]

theorem modify_mapRefs (fixed : ∀ x, f r x = x) :
    (a.mapRefs f).modify r g = (a.modify r g).mapRefs f := by
  simp only [mapRefs, modify]
  congr 1
  apply Array.ext
  · simp
  · intro i _ _
    by_cases e : r.index = i
    · subst e
      simp [Array.getElem_modify, fixed]
    · simp [Array.getElem_modify, e]

theorem push_mapRefs (fixed : ∀ x, f a.next x = x) {value : α} :
    (a.mapRefs f).push value = (a.push value).mapRefs f := by
  have last : f ⟨a.cells.size⟩ value = value := fixed value
  simp [mapRefs, push, Array.mapIdx_push, last]

theorem mapRefs_eq_self [Inhabited α] (fixed : ∀ r, r.index < a.size → f r (a.get r) = a.get r) :
    a.mapRefs f = a := by
  obtain ⟨cells⟩ := a
  simp only [mapRefs]
  congr 1
  apply Array.ext
  · simp
  · intro i _ inside
    have same := fixed ⟨i⟩ inside
    simp only [get, inside, getElem?_pos, Option.map_some, Option.getD_some] at same
    simp [same]

end Arena

/-! ## Veils -/

def Thread.withSlots (th : Thread) (s : Slots) : Thread :=
  { th with context := s.context, callStack := s.callStack, currentLoop := s.currentLoop }

/-- What is hidden from someone who looks at the world. -/
structure Veil where
  /-- The most detailed level of which events are shown. -/
  limit : Verbosity := some .trace
  /-- What is shown in the place of the slots of the threads that are hidden. -/
  hidden : ThreadId → Option Slots := fun _ => none
  /-- Whether loop threads take turns meanwhile. -/
  turns : Bool := true

namespace Veil

/-- What is shown of a thread. -/
def cover (V : Veil) (u : ThreadId) (th : Thread) : Thread :=
  match V.hidden u with
  | none => th
  | some s => th.withSlots s

/-- What is shown of a journal. -/
def journal (V : Veil) (entries : Array Entry) : Array Entry :=
  (entries.filter (·.isWithin V.limit)).map (·.upTo V.limit)

/-- What is shown of the journal of loop threads. -/
def remoteJournal (V : Veil) (entries : Array (String × Entry)) : Array (String × Entry) :=
  (entries.filter (·.2.isWithin V.limit)).map fun p => (p.1, p.2.upTo V.limit)

variable {V : Veil} {entries : Array Entry} {remote : Array (String × Entry)} {e : Entry}
  {name : String}

theorem journal_push (within : e.isWithin V.limit = true) :
    V.journal (entries.push e) = (V.journal entries).push (e.upTo V.limit) := by
  simp [journal, Array.filter_push_of_pos, within]

theorem journal_push_of_not_within (detailed : e.isWithin V.limit = false) :
    V.journal (entries.push e) = V.journal entries := by
  simp [journal, Array.filter_push_of_neg, detailed]

theorem remoteJournal_push (within : e.isWithin V.limit = true) :
    V.remoteJournal (remote.push (name, e)) =
      (V.remoteJournal remote).push (name, e.upTo V.limit) := by
  simp [remoteJournal, Array.filter_push_of_pos, within]

theorem remoteJournal_push_of_not_within (detailed : e.isWithin V.limit = false) :
    V.remoteJournal (remote.push (name, e)) = V.remoteJournal remote := by
  simp [remoteJournal, Array.filter_push_of_neg, detailed]

theorem journal_empty (V : Veil) : V.journal #[] = #[] := by
  simp [journal]

theorem toList_journal (entries : Array Entry) :
    (V.journal entries).toList = Entry.allUpTo V.limit entries.toList := by
  simp [journal, Entry.allUpTo_eq]

end Veil

namespace World

/-- What is shown of a world. -/
def under (w : World) (V : Veil) : World :=
  { w with
    threads := w.threads.mapRefs V.cover
    journal := V.journal w.journal
    remoteJournal := V.remoteJournal w.remoteJournal
    verbosity := V.limit.least w.verbosity }

/-- Whether a thread does nothing unless it goes on with something that it has begun. -/
def waits (w : World) (u : ThreadId) : Bool :=
  match (w.thread u).role with
  | .commands => true
  | .serving _ => (w.thread u).busy || (w.thread u).finished

end World

/-- A veil that hides only threads that are there, and that do nothing meanwhile. -/
structure Veil.Fits (V : Veil) (w : World) : Prop where
  known : ∀ u, V.hidden u ≠ none → u.index < w.threads.size
  waits : V.turns = true → ∀ u, V.hidden u ≠ none → w.waits u = true

/-- A veil that hides no thread fits every world. -/
theorem Veil.Fits.of_none {V : Veil} {w : World} (none : ∀ u, V.hidden u = none) : V.Fits w :=
  ⟨fun u hidden => absurd (none u) hidden, fun _ u hidden => absurd (none u) hidden⟩

theorem Veil.Fits.touches {V : Veil} {t : ThreadId} {w w' : World} (fits : V.Fits w)
    (own : V.hidden t = none) (touches : w.Touches t w') : V.Fits w' where
  known u hidden := Nat.lt_of_lt_of_le (fits.known u hidden) touches.threadCount
  waits turns u hidden := by
    have other : u ≠ t := fun same => hidden (same ▸ own)
    rw [World.waits, touches.others u other (fits.known u hidden)]
    exact fits.waits turns u hidden

namespace World

variable {V : Veil} {t u : ThreadId} {w : World}

/-! ## What threads see -/

theorem cover_own (own : V.hidden t = none) (th : Thread) : V.cover t th = th := by
  rw [Veil.cover, own]

/-- A thread that is not hidden is shown as it is. -/
theorem thread_under (own : V.hidden t = none) : (w.under V).thread t = w.thread t :=
  Arena.get_mapRefs_of_fixed (cover_own own)

/-- Of hidden threads, too, everything but their slots is shown. -/
theorem thread_under_congr {β : Type} (p : Thread → β)
    (same : ∀ th s, p (Thread.withSlots th s) = p th) (u : ThreadId) :
    p ((w.under V).thread u) = p (w.thread u) := by
  refine Arena.get_mapRefs_congr p (fun r th => ?_) u
  rw [Veil.cover]
  split
  · rfl
  · exact same th _

/-- A veil that shows of each hidden thread what it really has hides no thread. -/
theorem threads_under (shown : ∀ u s, V.hidden u = some s → (w.thread u).slots = s) :
    (w.under V).threads = w.threads := by
  refine Arena.mapRefs_eq_self fun u _ => ?_
  rw [Veil.cover]
  split
  · rfl
  · next s hidden =>
    rw [← shown u s hidden]
    rfl

theorem role_under : ((w.under V).thread u).role = (w.thread u).role :=
  thread_under_congr Thread.role (fun _ _ => rfl) u

theorem name_under : ((w.under V).thread u).name = (w.thread u).name :=
  thread_under_congr Thread.name (fun _ _ => rfl) u

theorem busy_under : ((w.under V).thread u).busy = (w.thread u).busy :=
  thread_under_congr Thread.busy (fun _ _ => rfl) u

theorem finished_under : ((w.under V).thread u).finished = (w.thread u).finished :=
  thread_under_congr Thread.finished (fun _ _ => rfl) u

theorem servedLoop?_under : (w.under V).servedLoop? u = w.servedLoop? u := by
  rw [servedLoop?, servedLoop?, role_under]

theorem wantsTurn_under : (w.under V).wantsTurn u = w.wantsTurn u := by
  rw [wantsTurn, wantsTurn, role_under]
  simp only [busy_under, finished_under]
  rfl

theorem waits_of_wantsTurn (wants : w.wantsTurn u = true) : w.waits u = false := by
  cases role : (w.thread u).role with
  | commands =>
    simp only [wantsTurn, role] at wants
    contradiction
  | serving l =>
    simp only [wantsTurn, role, Bool.and_eq_true, Bool.not_eq_true'] at wants
    simp only [waits, role, wants.1.1, wants.1.2, Bool.or_false]

/-- A loop thread that can take its turn is not hidden. -/
theorem own_of_wantsTurn (fits : V.Fits w) (turns : V.turns = true)
    (wants : w.wantsTurn u = true) : V.hidden u = none := by
  by_contra hidden
  have waits := fits.waits turns u hidden
  rw [waits_of_wantsTurn wants] at waits
  contradiction

theorem anyTurn_under : (w.under V).anyTurn = w.anyTurn := by
  have count : (w.under V).threads.size = w.threads.size := Arena.size_mapRefs
  simp only [anyTurn, busy_under, count]

theorem nextTurn?_under : (w.under V).nextTurn? = w.nextTurn? := by
  have count : (w.under V).threads.size = w.threads.size := Arena.size_mapRefs
  simp only [nextTurn?, anyTurn_under, wantsTurn_under, count]

theorem settlingFuel_under : (w.under V).settlingFuel = w.settlingFuel := by
  have count : (w.under V).threads.size = w.threads.size := Arena.size_mapRefs
  simp only [settlingFuel, count]
  rfl

theorem violationDetail_under (c : CallId) (weakly : Bool) :
    (w.under V).violationDetail t c weakly = w.violationDetail t c weakly := by
  simp only [violationDetail, name_under]
  rfl

/-- Of an event of too much detail nothing is shown. -/
theorem under_note {e : Entry} (detailed : e.isWithin V.limit = false) :
    (w.note t e).under V = w.under V := by
  rw [note]
  split
  · simp only [under]
    rw [Veil.journal_push_of_not_within detailed]
  · simp only [under]
    rw [Veil.remoteJournal_push_of_not_within detailed]

section Own

variable (own : V.hidden t = none)

include own

theorem contextStack_under : (w.under V).contextStack t = w.contextStack t := by
  rw [contextStack, thread_under own, contextStack]

theorem callStack_under : (w.under V).callStack t = w.callStack t := by
  rw [callStack, thread_under own, callStack]

theorem ambient_under : (w.under V).ambient t = w.ambient t := by
  rw [ambient, contextStack_under own, ambient]

theorem callChain_under : (w.under V).callChain t = w.callChain t := by
  rw [callChain, callStack_under own]
  rfl

theorem position_under : (w.under V).position t = w.position t := by
  simp only [position, thread_under own]
  rfl

theorem contextReport_under (c : CallId) :
    (w.under V).contextReport t c = w.contextReport t c := by
  simp only [contextReport, callChain_under own]
  rfl

theorem failureReport_under (c : CallId) (e : Error) (traceback : Option String) :
    (w.under V).failureReport t c e traceback = w.failureReport t c e traceback := by
  simp only [failureReport, callChain_under own, position_under own]
  rfl

/-! ## What threads do -/

theorem onThread_under (f : Thread → Thread) :
    (w.under V).onThread t f = (w.onThread t f).under V := by
  rw [World.onThread, under, Arena.modify_mapRefs (cover_own own)]
  rfl

/-- What is noted is shown, except for the events in the journals that it contains. -/
theorem note_under {e : Entry} (within : e.isWithin V.limit = true) :
    (w.under V).note t (e.upTo V.limit) = (w.note t e).under V := by
  rw [note, note, thread_under own]
  split
  · rw [under, ← Veil.journal_push within]
    rfl
  · rw [under, ← Veil.remoteJournal_push within]
    rfl

/-- Events are shown up to the limit. -/
theorem log_under (level : Level) (message : String) (fields : List (String × FieldValue)) :
    (w.under V).log t level message fields = (w.log t level message fields).under V := by
  have admitted : (w.under V).verbosity.admits level =
      (V.limit.admits level && w.verbosity.admits level) := Verbosity.admits_least
  rw [log, log, admitted]
  cases logged : w.verbosity.admits level with
  | false =>
    rw [Bool.and_false]
    rfl
  | true =>
    rw [Bool.and_true, if_pos rfl]
    cases shown : V.limit.admits level with
    | true =>
      rw [if_pos rfl]
      exact note_under own (e := .event { level, message, fields }) shown
    | false =>
      rw [if_neg Bool.false_ne_true]
      exact (under_note (e := .event { level, message, fields }) shown).symm

end Own

end World

end DeferredCalls
