import DeferredCalls.Arena
import DeferredCalls.NameTable
import Mathlib.Algebra.BigOperators.Group.Finset.Basic
import Mathlib.Algebra.Order.BigOperators.Group.Finset

/-!
# Sums over arenas and name tables

What all objects of an arena, or all entries of a table, amount to together. The lemmas say how a
sum changes when one object is added or changed; they are stated without subtraction, so that they
hold in every commutative monoid and linear arithmetic can use them.
-/

namespace DeferredCalls

variable {M : Type} [AddCommMonoid M]

namespace Arena

variable {kind : ObjectKind} {α : Type}

theorem shares_of_size_le {a : Arena kind α} {r : Ref kind} (h : a.size ≤ r.index) :
    a.shares r = 0 := by
  have none : a.cells[r.index]? = none := Array.getElem?_eq_none h
  simp [shares, none]

theorem lt_size_of_shares_pos {a : Arena kind α} {r : Ref kind} (h : 0 < a.shares r) :
    r.index < a.size := by
  by_contra outside
  have := shares_of_size_le (r := r) (Nat.le_of_not_lt outside)
  omega

theorem shares_push_eq_add {a : Arena kind α} {value : α} (r : Ref kind) :
    (a.push value).shares r = a.shares r + if r = a.next then 1 else 0 := by
  rw [shares_push]
  split
  · next same =>
    have unused : a.shares a.next = 0 := shares_of_size_le (Nat.le_refl _)
    rw [same, unused]
  · rfl

theorem shares_dropShare_eq_sub {a : Arena kind α} {s : Ref kind} (r : Ref kind) :
    (a.dropShare s).shares r = a.shares r - if r = s then 1 else 0 := by
  rw [shares_dropShare]
  split <;> rfl

variable [Inhabited α]

/-- An object together with the number of its shares. -/
def cell (a : Arena kind α) (r : Ref kind) : Cell α :=
  ⟨a.get r, a.shares r⟩

@[simp] theorem cell_value (a : Arena kind α) (r : Ref kind) : (a.cell r).value = a.get r := rfl

@[simp] theorem cell_shares (a : Arena kind α) (r : Ref kind) : (a.cell r).shares = a.shares r :=
  rfl

/-- What the objects of an arena amount to together. -/
def total (a : Arena kind α) (f : Ref kind → Cell α → M) : M :=
  ∑ i ∈ Finset.range a.size, f ⟨i⟩ (a.cell ⟨i⟩)

variable {a b : Arena kind α} {r : Ref kind} {f : Ref kind → Cell α → M}

theorem get_of_size_le (h : a.size ≤ r.index) : a.get r = default := by
  have none : a.cells[r.index]? = none := Array.getElem?_eq_none h
  simp [get, none]

/-- Only objects that were created differ from those that were not. -/
theorem lt_size_of_ne {β : Type} (p : α → β) (differs : p (a.get r) ≠ p default) :
    r.index < a.size := by
  by_contra outside
  rw [get_of_size_le (Nat.le_of_not_lt outside)] at differs
  exact differs rfl

theorem get_next : a.get a.next = default :=
  get_of_size_le (Nat.le_refl _)

/-- What a change of an object does not touch is as before in all objects. -/
theorem get_modify_congr {β : Type} {g : α → α} (p : α → β) (same : ∀ x, p (g x) = p x)
    (s : Ref kind) : p ((a.modify r g).get s) = p (a.get s) := by
  by_cases inside : r.index < a.size
  · rw [get_modify inside]
    split
    · exact same _
    · rfl
  · by_cases other : s = r
    · have outside := Nat.le_of_not_lt inside
      rw [other, get_of_size_le outside, get_of_size_le (by rwa [size_modify])]
    · rw [get_modify_of_ne other]

theorem total_congr (size : b.size = a.size)
    (cells : ∀ s, s.index < a.size → f s (b.cell s) = f s (a.cell s)) : b.total f = a.total f := by
  rw [total]
  rw [size]
  exact Finset.sum_congr rfl fun i hi => cells ⟨i⟩ (Finset.mem_range.mp hi)

/-- An arena that differs from another in one cell only. -/
theorem total_update (size : b.size = a.size) (inside : r.index < a.size)
    (others : ∀ s, s ≠ r → f s (b.cell s) = f s (a.cell s)) :
    b.total f + f r (a.cell r) = a.total f + f r (b.cell r) := by
  have member : r.index ∈ Finset.range a.size := Finset.mem_range.mpr inside
  have rest : ∑ i ∈ (Finset.range a.size).erase r.index, f ⟨i⟩ (b.cell ⟨i⟩) =
      ∑ i ∈ (Finset.range a.size).erase r.index, f ⟨i⟩ (a.cell ⟨i⟩) := by
    apply Finset.sum_congr rfl
    intro i hi
    apply others ⟨i⟩
    intro same
    exact (Finset.mem_erase.mp hi).1 (by rw [← same])
  unfold total
  rw [size, ← Finset.add_sum_erase _ _ member, ← Finset.add_sum_erase _ _ member, rest]
  exact (add_right_comm _ _ _).trans
    ((congrArg (· + _) (add_comm _ _)).trans (add_right_comm _ _ _))

theorem total_push {v : α} : (a.push v).total f = a.total f + f a.next ⟨v, 1⟩ := by
  have inside : ∑ i ∈ Finset.range a.size, f ⟨i⟩ ((a.push v).cell ⟨i⟩) = a.total f := by
    apply Finset.sum_congr rfl
    intro i hi
    have differs : (⟨i⟩ : Ref kind) ≠ a.next := fun same => by
      have : i = a.size := congrArg Ref.index same
      exact absurd (Finset.mem_range.mp hi) (by omega)
    simp [cell, get_push, shares_push, differs]
  rw [total] at inside ⊢
  rw [size_push, Finset.sum_range_succ, inside]
  have last : (a.push v).cell ⟨a.size⟩ = ⟨v, 1⟩ := by
    simp [cell, get_push, shares_push, next, size]
  rw [last]
  rfl

theorem total_modify {g : α → α} (inside : r.index < a.size) :
    (a.modify r g).total f + f r (a.cell r) =
      a.total f + f r ⟨g (a.get r), a.shares r⟩ := by
  have changed : (a.modify r g).cell r = ⟨g (a.get r), a.shares r⟩ := by
    simp [cell, get_modify inside]
  rw [← changed]
  apply total_update size_modify inside
  intro s differs
  simp [cell, get_modify_of_ne differs]

/-- A change of objects that does not change what they amount to. -/
theorem total_modify_of_eq {g : α → α} (same : ∀ c, f r ⟨g c.value, c.shares⟩ = f r c) :
    (a.modify r g).total f = a.total f := by
  apply total_congr size_modify
  intro s hs
  by_cases e : s = r
  · subst e
    have changed : (a.modify s g).cell s = ⟨g (a.get s), a.shares s⟩ := by
      simp [cell, get_modify hs]
    rw [changed]
    exact same (a.cell s)
  · simp [cell, get_modify_of_ne e]

theorem total_addShare (inside : r.index < a.size) :
    (a.addShare r).total f + f r (a.cell r) = a.total f + f r ⟨a.get r, a.shares r + 1⟩ := by
  have changed : (a.addShare r).cell r = ⟨a.get r, a.shares r + 1⟩ := by
    simp [cell, shares_addShare inside]
  rw [← changed]
  apply total_update size_addShare inside
  intro s differs
  simp [cell, shares_addShare inside, differs]

theorem total_dropShare (inside : r.index < a.size) :
    (a.dropShare r).total f + f r (a.cell r) = a.total f + f r ⟨a.get r, a.shares r - 1⟩ := by
  have changed : (a.dropShare r).cell r = ⟨a.get r, a.shares r - 1⟩ := by
    simp [cell, shares_dropShare]
  rw [← changed]
  apply total_update size_dropShare inside
  intro s differs
  simp [cell, shares_dropShare, differs]

/-- A sum that does not depend on shares does not change with them. -/
theorem total_value_congr (F : α → M) (size : b.size = a.size)
    (values : ∀ s, b.get s = a.get s) :
    b.total (fun _ c => F c.value) = a.total (fun _ c => F c.value) :=
  total_congr size fun s _ => by simp [values]

theorem le_total (inside : r.index < a.size) (f : Ref kind → Cell α → Nat) :
    f r (a.cell r) ≤ a.total f :=
  Finset.single_le_sum (f := fun i => f ⟨i⟩ (a.cell ⟨i⟩)) (fun _ _ => Nat.zero_le _)
    (Finset.mem_range.mpr inside)

theorem exists_of_total_pos {f : Ref kind → Cell α → Nat} (pos : 0 < a.total f) :
    ∃ r, r.index < a.size ∧ 0 < f r (a.cell r) := by
  by_contra none
  simp only [not_exists, not_and] at none
  have zero : a.total f = 0 := Finset.sum_eq_zero fun i hi =>
    Nat.eq_zero_of_not_pos (none ⟨i⟩ (Finset.mem_range.mp hi))
  omega

end Arena

namespace NameTable

variable {α : Type}

/-- What the objects of a table amount to together. -/
def total (t : NameTable α) (f : α → M) : M :=
  (t.values.map f).sum

variable {t : NameTable α} {name : String} {a : α} {f : α → M}

private theorem lookup_eq_none_of_lt {es : List (String × α)} (above : ∀ e ∈ es, name < e.1) :
    es.lookup name = none := by
  induction es with
  | nil => rfl
  | cons e es ih =>
    have differs : name ≠ e.1 := fun same =>
      String.lt_irrefl name (same ▸ above e (List.mem_cons_self ..))
    rw [← Prod.eta e, lookup_cons_eq, if_neg differs]
    exact ih fun x hx => above x (List.mem_cons_of_mem e hx)

private theorem total_insertEntry (name : String) (a : α) (f : α → M) {es : List (String × α)}
    (increasing : es.Pairwise (·.1 < ·.1)) :
    ((insertEntry name a es).map fun e => f e.2).sum + ((es.lookup name).map f).getD 0 =
      (es.map fun e => f e.2).sum + f a := by
  induction es with
  | nil => simp [insertEntry]
  | cons e es ih =>
    obtain ⟨above, rest⟩ := List.pairwise_cons.mp increasing
    simp only [insertEntry]
    split
    · next same =>
      rw [← Prod.eta e, lookup_cons_eq, if_pos same]
      simp only [List.map_cons, List.sum_cons, Option.map_some, Option.getD_some]
      rw [add_comm (f a), add_comm (f e.2), add_right_comm]
    · next differs =>
      split
      · next less =>
        have absent : (e :: es).lookup name = none := lookup_eq_none_of_lt fun x hx => by
          rcases List.mem_cons.mp hx with rfl | hx
          · exact less
          · exact String.lt_trans less (above x hx)
        rw [absent]
        simp [add_comm]
      · have found : (e :: es).lookup name = es.lookup name := by
          rw [← Prod.eta e, lookup_cons_eq, if_neg differs]
        rw [found]
        simp only [List.map_cons, List.sum_cons]
        rw [add_assoc, ih rest, ← add_assoc]

/-- A new entry takes the place of the one under its name. -/
theorem total_insert (t : NameTable α) (name : String) (a : α) (f : α → M) :
    (t.insert name a).total f + ((t.get? name).map f).getD 0 = t.total f + f a := by
  have := total_insertEntry name a f t.increasing
  simpa [total, values, insert, get?, Function.comp_def] using this

private theorem total_eraseEntry (name : String) (f : α → M) {es : List (String × α)}
    (increasing : es.Pairwise (·.1 < ·.1)) :
    ((es.filter (·.1 ≠ name)).map fun e => f e.2).sum + ((es.lookup name).map f).getD 0 =
      (es.map fun e => f e.2).sum := by
  induction es with
  | nil => simp
  | cons e es ih =>
    obtain ⟨above, rest⟩ := List.pairwise_cons.mp increasing
    by_cases same : name = e.1
    · have kept : es.filter (·.1 ≠ name) = es := List.filter_eq_self.mpr fun x hx => by
        have less : name < x.1 := by rw [same]; exact above x hx
        have differs : x.1 ≠ name := fun h => String.lt_irrefl name (by rwa [h] at less)
        simpa using differs
      rw [← Prod.eta e, lookup_cons_eq, if_pos same,
        List.filter_cons_of_neg (by simp [same]), kept]
      simp [add_comm]
    · have found : (e :: es).lookup name = es.lookup name := by
        rw [← Prod.eta e, lookup_cons_eq, if_neg same]
      rw [found, List.filter_cons_of_pos (by simpa using Ne.symm same)]
      simp only [List.map_cons, List.sum_cons]
      rw [add_assoc, ih rest]

theorem total_erase (t : NameTable α) (name : String) (f : α → M) :
    (t.erase name).total f + ((t.get? name).map f).getD 0 = t.total f := by
  have := total_eraseEntry name f t.increasing
  simpa [total, values, erase, get?, Function.comp_def] using this

theorem mem_values_of_get? (h : t.get? name = some a) : a ∈ t.values := by
  simp only [get?] at h
  simp only [values]
  generalize t.entries = es at h
  induction es with
  | nil => simp at h
  | cons e es ih =>
    rw [← Prod.eta e, lookup_cons_eq] at h
    simp only [List.map_cons, List.mem_cons]
    split at h
    · exact .inl (Option.some.inj h).symm
    · exact .inr (ih h)

end NameTable

end DeferredCalls
