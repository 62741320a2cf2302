/-!
# Name tables

A table in which objects are kept under names, in the order of the names. Names are ordered by the
code points of their characters.
-/

namespace DeferredCalls

theorem NameTable.increasing_nil {α : Type} : ([] : List (String × α)).Pairwise (·.1 < ·.1) :=
  .nil

/-- Objects under names, each name at most once, in increasing order of the names. -/
structure NameTable (α : Type) where
  entries : List (String × α) := []
  increasing : entries.Pairwise (·.1 < ·.1) := by exact NameTable.increasing_nil

namespace NameTable

variable {α : Type}

instance : Inhabited (NameTable α) := ⟨{}⟩

/-- The object kept under a name. -/
def get? (t : NameTable α) (name : String) : Option α :=
  t.entries.lookup name

/-- Puts an object in its place among ordered entries. -/
def insertEntry (name : String) (value : α) : List (String × α) → List (String × α)
  | [] => [(name, value)]
  | e :: es =>
    if name = e.1 then (name, value) :: es
    else if name < e.1 then (name, value) :: e :: es
    else e :: insertEntry name value es

theorem mem_insertEntry {name : String} {value : α} {e : String × α} {es : List (String × α)}
    (h : e ∈ insertEntry name value es) : e = (name, value) ∨ e ∈ es := by
  induction es with
  | nil => simpa [insertEntry] using h
  | cons x xs ih =>
    simp only [insertEntry] at h
    split at h
    · simp_all only [List.mem_cons]
      exact h.imp_right .inr
    · split at h
      · simpa using h
      · rcases List.mem_cons.mp h with rfl | h
        · simp
        · exact (ih h).imp_right (List.mem_cons_of_mem x)

theorem increasing_insertEntry (name : String) (value : α) {es : List (String × α)}
    (h : es.Pairwise (·.1 < ·.1)) : (insertEntry name value es).Pairwise (·.1 < ·.1) := by
  induction es with
  | nil => simp [insertEntry]
  | cons x xs ih =>
    obtain ⟨below, rest⟩ := List.pairwise_cons.mp h
    simp only [insertEntry]
    split
    · next same => exact List.pairwise_cons.mpr ⟨fun e he => same ▸ below e he, rest⟩
    · next differs =>
      split
      · next less =>
        refine List.pairwise_cons.mpr ⟨fun e he => ?_, h⟩
        rcases List.mem_cons.mp he with rfl | he
        · exact less
        · exact String.lt_trans less (below e he)
      · next notLess =>
        refine List.pairwise_cons.mpr ⟨fun e he => ?_, ih rest⟩
        rcases mem_insertEntry he with rfl | he
        · exact Std.lt_of_le_of_ne notLess fun same => differs same.symm
        · exact below e he

/-- Keeps an object under a name, in place of what was kept there. -/
def insert (t : NameTable α) (name : String) (value : α) : NameTable α :=
  ⟨insertEntry name value t.entries, increasing_insertEntry name value t.increasing⟩

/-- Keeps nothing under a name. -/
def erase (t : NameTable α) (name : String) : NameTable α :=
  ⟨t.entries.filter (·.1 ≠ name), t.increasing.filter _⟩

/-- The names, in order. -/
def names (t : NameTable α) : List String :=
  t.entries.map (·.1)

/-- The objects, in the order of their names. -/
def values (t : NameTable α) : List α :=
  t.entries.map (·.2)

@[simp] theorem get?_empty (name : String) : ({} : NameTable α).get? name = none := rfl

theorem lookup_cons_eq (name n : String) (v : α) (es : List (String × α)) :
    ((n, v) :: es).lookup name = if name = n then some v else es.lookup name := by
  by_cases h : name = n
  · simp [h]
  · simp [List.lookup_cons, h, beq_eq_false_iff_ne.mpr h]

theorem get?_insert (t : NameTable α) (name other : String) (value : α) :
    (t.insert name value).get? other = if other = name then some value else t.get? other := by
  obtain ⟨es, increasing⟩ := t
  simp only [get?, insert]
  clear increasing
  induction es with
  | nil => simp [insertEntry, lookup_cons_eq]
  | cons e es ih =>
    obtain ⟨n, v⟩ := e
    simp only [insertEntry]
    split
    · next h => subst h; simp only [lookup_cons_eq]; split <;> rfl
    · next h =>
      split
      · simp only [lookup_cons_eq]
      · simp only [lookup_cons_eq, ih]
        by_cases e₁ : other = n
        · subst e₁; simp [Ne.symm h]
        · simp [e₁]

theorem get?_erase (t : NameTable α) (name other : String) :
    (t.erase name).get? other = if other = name then none else t.get? other := by
  obtain ⟨es, increasing⟩ := t
  simp only [get?, erase]
  clear increasing
  induction es with
  | nil => simp
  | cons e es ih =>
    obtain ⟨n, v⟩ := e
    by_cases hn : n = name
    · simp only [hn, ne_eq, not_true_eq_false, decide_false, Bool.false_eq_true,
        not_false_eq_true, List.filter_cons_of_neg, ih, lookup_cons_eq]
      split <;> rfl
    · simp only [ne_eq, hn, not_false_eq_true, decide_true, List.filter_cons_of_pos,
        lookup_cons_eq, ih]
      by_cases e₁ : other = n
      · subst e₁; simp [hn]
      · simp [e₁]

end NameTable

end DeferredCalls
