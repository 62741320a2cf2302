import DeferredCalls.Proofs.Frame

/-!
# Objects that go out of use

An object goes out of use with its last share. For a context state or a callable that is noted at
that moment, once, with the position at which the thread then is. What is released together is noted
in the order in which it goes.
-/

namespace DeferredCalls

/-- Whether an entry notes a release. -/
def Entry.isRelease : Entry → Bool
  | freedContext .. | freedCallable .. => true
  | _ => false

namespace World

/-- What was noted on the side of a thread: in the journal of commands, or in the one of loop
threads. -/
def notesOf (w : World) (t : ThreadId) : List Entry :=
  match (w.thread t).role with
  | .commands => w.journal.toList
  | .serving _ => w.remoteJournal.toList.map (·.2)

/-- The releases among what was noted on the side of a thread. -/
def releaseNotes (w : World) (t : ThreadId) : List Entry :=
  (w.notesOf t).filter Entry.isRelease

/-- What is noted when an object is released at some position: nothing but for context states and
callables. -/
def releaseNote (w : World) (p : Position) : Share → List Entry
  | .context c => [.freedContext (w.contexts.get c).name p]
  | .callable c => [.freedCallable (w.callables.get c).name p]
  | .call _ | .loop _ | .manual _ => []

/-- From one world to another, a thread releases some objects at a position, each of them once,
namely those whose count falls to zero. No count rises, and what objects know about themselves
stays. -/
structure Frees (t : ThreadId) (p : Position) (w : World) (gone : List Share) (w' : World) :
    Prop where
  notes : w'.releaseNotes t = w.releaseNotes t ++ gone.flatMap (w.releaseNote p)
  once : gone.Nodup
  mem_iff : ∀ k, k ∈ gone ↔ 0 < w.shareCount k ∧ w'.shareCount k = 0
  falls : ∀ k, w'.shareCount k ≤ w.shareCount k
  context : ∀ c, w'.contexts.get c = w.contexts.get c
  callable : ∀ c, w'.callables.get c = w.callables.get c

variable {w w' w'' : World} {t u : ThreadId} {p : Position} {gone more : List Share} {k s : Share}

/-! ## Notes -/

theorem notesOf_note (e : Entry) : (w.note t e).notesOf t = w.notesOf t ++ [e] := by
  have thread : (w.note t e).thread t = w.thread t := (w.keeps_note t e).thread
  unfold notesOf
  rw [thread]
  unfold note
  cases (w.thread t).role with
  | commands => simp
  | serving l => simp

theorem releaseNotes_note {e : Entry} (mine : e.isRelease = true) :
    (w.note t e).releaseNotes t = w.releaseNotes t ++ [e] := by
  simp [releaseNotes, notesOf_note, mine]

/-- An event is not a release. -/
theorem releaseNotes_log {level : Level} {message : String} {fields : List (String × FieldValue)} :
    (w.log t level message fields).releaseNotes t = w.releaseNotes t := by
  unfold log
  split
  · simp [releaseNotes, notesOf_note, Entry.isRelease]
  · rfl

theorem shareCount_log {level : Level} {message : String} {fields : List (String × FieldValue)} :
    (w.log t level message fields).shareCount k = w.shareCount k := by
  obtain ⟨journal, remoteJournal, eq⟩ := w.log_eq t level message fields
  rw [eq]
  cases k <;> rfl

theorem contexts_log {level : Level} {message : String} {fields : List (String × FieldValue)} :
    (w.log t level message fields).contexts = w.contexts := by
  obtain ⟨journal, remoteJournal, eq⟩ := w.log_eq t level message fields
  rw [eq]

theorem callables_log {level : Level} {message : String} {fields : List (String × FieldValue)} :
    (w.log t level message fields).callables = w.callables := by
  obtain ⟨journal, remoteJournal, eq⟩ := w.log_eq t level message fields
  rw [eq]

theorem describeSnapshot_congr (context : ∀ c, w'.contexts.get c = w.contexts.get c)
    (x : Snapshot) : w'.describeSnapshot x = w.describeSnapshot x := by
  unfold describeSnapshot
  split
  · rfl
  · rw [context]

/-- A thread is where it was when its slots, the labels of contexts and the names of loops are the
same. -/
theorem position_congr (thread : w'.thread u = w.thread u)
    (context : ∀ c, w'.contexts.get c = w.contexts.get c)
    (name : ∀ l, (w'.loops.get l).name = (w.loops.get l).name) :
    w'.position u = w.position u := by
  simp only [position, thread, describeSnapshot_congr context, name]

theorem Keeps.position (h : w.Keeps w') (context : ∀ c, w'.contexts.get c = w.contexts.get c) :
    w'.position u = w.position u :=
  position_congr h.thread context fun l => by rw [h.loop]

theorem position_log {level : Level} {message : String} {fields : List (String × FieldValue)} :
    (w.log t level message fields).position u = w.position u :=
  (keeps_log ..).position fun _ => by rw [contexts_log]

/-! ## Chains of releases -/

namespace Frees

/-- A change that neither makes nor takes shares, and notes no release. -/
theorem of_same (counted : ∀ k, w'.shareCount k = w.shareCount k)
    (notes : w'.releaseNotes t = w.releaseNotes t)
    (context : ∀ c, w'.contexts.get c = w.contexts.get c)
    (callable : ∀ c, w'.callables.get c = w.callables.get c) : w.Frees t p [] w' where
  notes := by simp [notes]
  once := List.nodup_nil
  mem_iff k := by
    rw [counted]
    simp only [List.not_mem_nil, false_iff]
    omega
  falls k := Nat.le_of_eq (counted k)
  context := context
  callable := callable

protected theorem refl (w : World) : w.Frees t p [] w :=
  .of_same (fun _ => rfl) rfl (fun _ => rfl) fun _ => rfl

/-- The last share of an object is given up. -/
theorem last (last : w.shareCount s = 1)
    (counted : ∀ k, w'.shareCount k = w.shareCount k - if k = s then 1 else 0)
    (notes : w'.releaseNotes t = w.releaseNotes t ++ w.releaseNote p s)
    (context : ∀ c, w'.contexts.get c = w.contexts.get c)
    (callable : ∀ c, w'.callables.get c = w.callables.get c) : w.Frees t p [s] w' where
  notes := by simp [notes]
  once := List.nodup_singleton s
  mem_iff k := by
    rw [counted, List.mem_singleton]
    by_cases same : k = s
    · simp [same, last]
    · simp only [same, if_false, false_iff]
      omega
  falls k := by
    rw [counted]
    exact Nat.sub_le ..
  context := context
  callable := callable

/-- A share of an object is given up that is not the last one. -/
theorem notLast (used : 0 < w.shareCount s) (more : w.shareCount s ≠ 1)
    (counted : ∀ k, w'.shareCount k = w.shareCount k - if k = s then 1 else 0)
    (notes : w'.releaseNotes t = w.releaseNotes t)
    (context : ∀ c, w'.contexts.get c = w.contexts.get c)
    (callable : ∀ c, w'.callables.get c = w.callables.get c) : w.Frees t p [] w' where
  notes := by simp [notes]
  once := List.nodup_nil
  mem_iff k := by
    rw [counted]
    simp only [List.not_mem_nil, false_iff]
    by_cases same : k = s
    · subst same
      rw [if_pos rfl]
      omega
    · rw [if_neg same]
      omega
  falls k := by
    rw [counted]
    exact Nat.sub_le ..
  context := context
  callable := callable

/-- The last share of an object is given up, and its release is noted. -/
theorem last_note {e : Entry} (isLast : w.shareCount s = 1)
    (counted : ∀ k, w'.shareCount k = w.shareCount k - if k = s then 1 else 0)
    (silent : w'.releaseNotes t = w.releaseNotes t)
    (context : ∀ c, w'.contexts.get c = w.contexts.get c)
    (callable : ∀ c, w'.callables.get c = w.callables.get c)
    (noted : w.releaseNote p s = [e]) (mine : e.isRelease = true) :
    w.Frees t p [s] (w'.note t e) := by
  have notes : (w'.note t e).releaseNotes t = w.releaseNotes t ++ w.releaseNote p s := by
    rw [releaseNotes_note mine, silent, noted]
  obtain ⟨journal, remoteJournal, eq⟩ := w'.note_eq t e
  rw [eq] at notes ⊢
  exact .last isLast (fun k => (by cases k <;> rfl : _ = w'.shareCount k).trans (counted k)) notes
    context callable

/-- What is released later is in use until then. -/
protected theorem trans (first : w.Frees t p gone w') (second : w'.Frees t p more w'') :
    w.Frees t p (gone ++ more) w'' where
  notes := by
    have same : w'.releaseNote p = w.releaseNote p := by
      funext k
      cases k <;> simp only [releaseNote, first.context, first.callable]
    rw [second.notes, first.notes, same, List.flatMap_append, List.append_assoc]
  once := by
    refine List.nodup_append.mpr ⟨first.once, second.once, ?_⟩
    rintro k earlier _ later rfl
    have zero := ((first.mem_iff k).mp earlier).2
    have positive := ((second.mem_iff k).mp later).1
    omega
  mem_iff k := by
    have fell := first.falls k
    have fallen := second.falls k
    rw [List.mem_append, first.mem_iff, second.mem_iff]
    omega
  falls k := Nat.le_trans (second.falls k) (first.falls k)
  context c := (second.context c).trans (first.context c)
  callable c := (second.callable c).trans (first.callable c)

protected theorem log {level : Level} {message : String} {fields : List (String × FieldValue)}
    (h : w.Frees t p gone w') : w.Frees t p gone (w'.log t level message fields) := by
  have logged : w'.Frees t p [] (w'.log t level message fields) :=
    .of_same (fun _ => shareCount_log) releaseNotes_log (fun _ => by rw [contexts_log])
      fun _ => by rw [callables_log]
  simpa using h.trans logged

end Frees

/-- A change of threads and queues that leaves all counts, labels and notes as they are. -/
theorem frees_aside (counted : ∀ k, w'.shareCount k = w.shareCount k)
    (role : (w'.thread t).role = (w.thread t).role) (journal : w'.journal = w.journal)
    (remote : w'.remoteJournal = w.remoteJournal) (contexts : w'.contexts = w.contexts)
    (callables : ∀ c, w'.callables.get c = w.callables.get c) : w.Frees t p [] w' := by
  refine .of_same counted ?_ (fun c => by rw [contexts]) callables
  simp only [releaseNotes, notesOf, role, journal, remote]

theorem frees_onThread {f : Thread → Thread} (same : ∀ th, (f th).role = th.role) :
    w.Frees t p [] (w.onThread u f) :=
  frees_aside (fun k => by cases k <;> rfl) (onThread_congr Thread.role same t) rfl rfl rfl
    fun _ => rfl

theorem frees_setContextStack {x : ContextStack} : w.Frees t p [] (w.setContextStack u x) :=
  frees_onThread fun _ => rfl

end World

end DeferredCalls
