/-!
# Shared objects

Objects that several places refer to live in arenas. An arena never forgets an object: a reference
stays valid, and what changes is the number of shares that keep the object in use. An object whose
last share is gone is released; it can still be read, and it never comes back into use, because a
share is only ever made from another share.
-/

namespace DeferredCalls

/-- The sorts of shared objects. -/
inductive ObjectKind
  | context
  | callable
  | call
  | sink
  | eventLoop
  | manual
  | thread
  deriving DecidableEq, Repr

/-- A reference to an object of a sort. References are numbered in the order of creation. -/
structure Ref (kind : ObjectKind) where
  index : Nat
  deriving DecidableEq, Repr, Inhabited

abbrev ContextId := Ref .context
abbrev CallableId := Ref .callable
abbrev CallId := Ref .call
abbrev SinkId := Ref .sink
abbrev LoopId := Ref .eventLoop
abbrev ManualId := Ref .manual
abbrev ThreadId := Ref .thread

/-- An object and the number of shares that keep it in use. -/
structure Cell (α : Type) where
  value : α
  shares : Nat

/-- The objects of one sort, in the order of creation. -/
structure Arena (kind : ObjectKind) (α : Type) where
  cells : Array (Cell α) := #[]

namespace Arena

variable {kind : ObjectKind} {α : Type}

instance : Inhabited (Arena kind α) := ⟨{}⟩

/-- The number of objects ever made. -/
def size (a : Arena kind α) : Nat :=
  a.cells.size

/-- The reference that the next object will have. -/
def next (a : Arena kind α) : Ref kind :=
  ⟨a.cells.size⟩

/-- The number of shares of an object. -/
def shares (a : Arena kind α) (r : Ref kind) : Nat :=
  (a.cells[r.index]?.map Cell.shares).getD 0

/-- An object, or a default one for a reference that the arena never gave out. -/
def get [Inhabited α] (a : Arena kind α) (r : Ref kind) : α :=
  (a.cells[r.index]?.map Cell.value).getD default

/-- Adds an object with one share. -/
def push (a : Arena kind α) (value : α) : Arena kind α :=
  ⟨a.cells.push ⟨value, 1⟩⟩

/-- Changes an object. -/
def modify (a : Arena kind α) (r : Ref kind) (f : α → α) : Arena kind α :=
  ⟨a.cells.modify r.index fun c => { c with value := f c.value }⟩

/-- Makes another share of an object. -/
def addShare (a : Arena kind α) (r : Ref kind) : Arena kind α :=
  ⟨a.cells.modify r.index fun c => { c with shares := c.shares + 1 }⟩

/-- Gives up a share of an object. -/
def dropShare (a : Arena kind α) (r : Ref kind) : Arena kind α :=
  ⟨a.cells.modify r.index fun c => { c with shares := c.shares - 1 }⟩

/-! ## What each operation does to shares and to objects -/

section Lemmas

variable {a : Arena kind α} {r s : Ref kind} {value : α} {f : α → α}

@[simp] theorem size_push : (a.push value).size = a.size + 1 := by simp [push, size]

@[simp] theorem size_modify : (a.modify r f).size = a.size := by simp [modify, size]

@[simp] theorem size_addShare : (a.addShare r).size = a.size := by simp [addShare, size]

@[simp] theorem size_dropShare : (a.dropShare r).size = a.size := by simp [dropShare, size]

@[simp] theorem shares_modify : (a.modify r f).shares s = a.shares s := by
  by_cases e : r.index = s.index <;>
    simp [shares, modify, Array.getElem?_modify, e, Function.comp_def]

theorem shares_push : (a.push value).shares s = if s = a.next then 1 else a.shares s := by
  obtain ⟨i⟩ := s
  by_cases e : i = a.cells.size <;> simp [shares, push, next, Array.getElem?_push, e]

theorem shares_addShare (h : r.index < a.size) :
    (a.addShare r).shares s = if s = r then a.shares s + 1 else a.shares s := by
  obtain ⟨i⟩ := s
  obtain ⟨j⟩ := r
  by_cases e : j = i
  · subst e
    have h : j < a.cells.size := h
    simp [shares, addShare, Array.getElem_modify, h]
  · simp [shares, addShare, Array.getElem?_modify, e, Ne.symm e]

theorem shares_dropShare :
    (a.dropShare r).shares s = if s = r then a.shares s - 1 else a.shares s := by
  obtain ⟨i⟩ := s
  obtain ⟨j⟩ := r
  by_cases e : j = i
  · subst e
    cases h : a.cells[j]? <;> simp [shares, dropShare, Array.getElem?_modify, h]
  · simp [shares, dropShare, Array.getElem?_modify, e, Ne.symm e]

variable [Inhabited α]

@[simp] theorem get_addShare : (a.addShare r).get s = a.get s := by
  by_cases e : r.index = s.index <;>
    simp [get, addShare, Array.getElem?_modify, e, Function.comp_def]

@[simp] theorem get_dropShare : (a.dropShare r).get s = a.get s := by
  by_cases e : r.index = s.index <;>
    simp [get, dropShare, Array.getElem?_modify, e, Function.comp_def]

theorem get_push : (a.push value).get s = if s = a.next then value else a.get s := by
  obtain ⟨i⟩ := s
  by_cases e : i = a.cells.size <;> simp [get, push, next, Array.getElem?_push, e]

theorem get_modify (h : r.index < a.size) :
    (a.modify r f).get s = if s = r then f (a.get s) else a.get s := by
  obtain ⟨i⟩ := s
  obtain ⟨j⟩ := r
  by_cases e : j = i
  · subst e
    have h : j < a.cells.size := h
    simp [get, modify, Array.getElem_modify, h]
  · simp [get, modify, Array.getElem?_modify, e, Ne.symm e]

theorem get_modify_of_ne (h : s ≠ r) : (a.modify r f).get s = a.get s := by
  obtain ⟨i⟩ := s
  obtain ⟨j⟩ := r
  have e : j ≠ i := fun e => h (by rw [e])
  simp [get, modify, Array.getElem?_modify, e]

end Lemmas

/-! ## When two operations come to the same -/

section Equal

variable {a : Arena kind α} {r : Ref kind} {f g : α → α}

/-- Giving up a share just made leaves no trace. -/
theorem dropShare_addShare : (a.addShare r).dropShare r = a := by
  simp only [addShare, dropShare]
  congr 1
  apply Array.ext
  · simp
  · intro i _ _
    by_cases e : r.index = i <;> simp [Array.getElem_modify, e]

theorem modify_modify : (a.modify r f).modify r g = a.modify r fun x => g (f x) := by
  simp only [modify]
  congr 1
  apply Array.ext
  · simp
  · intro i _ _
    by_cases e : r.index = i <;> simp [Array.getElem_modify, e]

/-- Only what a change makes of the object itself matters. -/
theorem modify_congr [Inhabited α] (h : f (a.get r) = g (a.get r)) :
    a.modify r f = a.modify r g := by
  simp only [modify]
  congr 1
  apply Array.ext
  · simp
  · intro i inside _
    by_cases e : r.index = i
    · subst e
      have inside : r.index < a.cells.size := by simpa using inside
      simp only [get, inside, getElem?_pos, Option.map_some, Option.getD_some] at h
      simp [Array.getElem_modify, h]
    · simp [Array.getElem_modify, e]

theorem modify_eq_self [Inhabited α] (h : f (a.get r) = a.get r) : a.modify r f = a := by
  rw [modify_congr (g := id) h]
  unfold modify
  congr 1
  apply Array.ext
  · simp
  · intro i _ _
    by_cases e : r.index = i <;> simp [Array.getElem_modify, e]

end Equal

end Arena

end DeferredCalls
