import DeferredCalls.Arena

/-!
# The stack of installed contexts

Each thread has an ambient context and a stack of installs that are still active. An install makes a
snapshot ambient and hands out a guard that remembers what was ambient before. Giving up a guard
brings that back and ends the guarded install together with every install made after it that is
still active, so the ambient context never outlives the guard of its install. A guard whose install
was already ended that way has nothing left to do.

Installs are told apart by tokens: the token of an install is the number of those made before it, as
a 64-bit word, so tokens start again from zero when the words run out.
-/

namespace DeferredCalls

/-- A capture of the ambient context: a share of a context state, or no context. -/
structure Snapshot where
  state? : Option ContextId := none
  deriving DecidableEq, Repr, Inhabited

namespace Snapshot

/-- The capture of no context. -/
def empty : Snapshot := {}

/-- The capture of a context state. -/
def of (c : ContextId) : Snapshot := ⟨some c⟩

/-- Whether a capture is of no context. -/
def isEmpty (s : Snapshot) : Bool :=
  s.state?.isNone

end Snapshot

/-- What distinguishes one install of a thread from another. -/
abbrev Token := UInt64

/-- The right to end an install. -/
structure Guard where
  /-- What was ambient before the install. -/
  previous : Snapshot
  token : Token
  deriving DecidableEq, Repr, Inhabited

/-- The ambient context of a thread and its active installs. -/
structure ContextStack where
  ambient : Snapshot := .empty
  /-- The tokens of the active installs, innermost first. -/
  active : List Token := []
  /-- The number of installs ever made. -/
  installs : Nat := 0
  deriving DecidableEq, Repr, Inhabited

/-- What is wrong with giving up a guard at some moment. -/
inductive GuardWarning
  /-- Installs made after the guarded one were still active. -/
  | outOfOrder (expected current : Nat)
  /-- The guarded install had already been ended. -/
  | unwound (current : Nat)
  deriving DecidableEq, Repr

/-- What comes of giving up a guard. -/
structure GuardDrop where
  warning : Option GuardWarning
  stack : ContextStack
  /-- The snapshot that nothing holds any more. -/
  released : Snapshot

namespace ContextStack

/-- The number of active installs. -/
def depth (s : ContextStack) : Nat :=
  s.active.length

/-- The token of the next install. -/
def nextToken (s : ContextStack) : Token :=
  .ofNat s.installs

/-- The guard that the next install hands out. -/
def nextGuard (s : ContextStack) : Guard :=
  ⟨s.ambient, s.nextToken⟩

/-- Makes a snapshot ambient. -/
def install (s : ContextStack) (snapshot : Snapshot) : ContextStack :=
  { ambient := snapshot
    active := s.nextToken :: s.active
    installs := s.installs + 1 }

/-- The active installs from the one with a token down, if it is active. -/
def fromToken (s : ContextStack) (token : Token) : List Token :=
  s.active.dropWhile (· ≠ token)

/-- Gives up a guard: ends its install and those made after it, if it is still active. -/
def dropGuard (s : ContextStack) (g : Guard) : GuardDrop :=
  match s.fromToken g.token with
  | [] =>
    { warning := some (.unwound s.depth)
      stack := s
      released := g.previous }
  | token :: below =>
    { warning :=
        if below.length + 1 = s.depth then none
        else some (.outOfOrder (token :: below).length s.depth)
      stack := { s with ambient := g.previous, active := below }
      released := s.ambient }

@[simp] theorem depth_install (s : ContextStack) (snapshot : Snapshot) :
    (s.install snapshot).depth = s.depth + 1 := rfl

@[simp] theorem ambient_install (s : ContextStack) (snapshot : Snapshot) :
    (s.install snapshot).ambient = snapshot := rfl

/-- Giving up the guard of the install just made leaves what was there before, but for the number of
installs, and releases what was installed. -/
theorem dropGuard_install (s : ContextStack) (snapshot : Snapshot) :
    (s.install snapshot).dropGuard s.nextGuard =
      { warning := none
        stack := { s with installs := s.installs + 1 }
        released := snapshot } := by
  simp [dropGuard, fromToken, install, nextGuard, depth]

theorem fromToken_eq_nil {s : ContextStack} {token : Token} (h : token ∉ s.active) :
    s.fromToken token = [] := by
  unfold fromToken
  generalize s.active = tokens at h
  induction tokens with
  | nil => rfl
  | cons x xs ih =>
    simp only [List.mem_cons, not_or] at h
    simpa [Ne.symm h.1] using ih h.2

theorem fromToken_of_split {s : ContextStack} {token : Token} {above below : List Token}
    (split : s.active = above ++ token :: below) (first : token ∉ above) :
    s.fromToken token = token :: below := by
  have others : ∀ x ∈ above, decide (x ≠ token) = true := fun x member =>
    decide_eq_true fun same => first (same ▸ member)
  rw [fromToken, split, List.dropWhile_append_of_pos others]
  simp

/-- A guard whose install is not active changes nothing. -/
theorem dropGuard_of_not_mem {s : ContextStack} {g : Guard} (h : g.token ∉ s.active) :
    s.dropGuard g =
      { warning := some (.unwound s.depth), stack := s, released := g.previous } := by
  simp [dropGuard, fromToken_eq_nil h]

/-- A guard whose install is active brings back what was ambient before it, and the installs below
it are all that stays active. -/
theorem dropGuard_of_mem {s : ContextStack} {g : Guard} (h : g.token ∈ s.active) :
    ∃ above below, s.active = above ++ g.token :: below ∧ g.token ∉ above ∧
      (s.dropGuard g).stack = { s with ambient := g.previous, active := below } ∧
      (s.dropGuard g).released = s.ambient := by
  obtain ⟨above, below, split, first⟩ := List.eq_append_cons_of_mem h
  refine ⟨above, below, split, first, ?_, ?_⟩ <;> simp [dropGuard, fromToken_of_split split first]

/-- Giving up a guard, what was ambient and what the guard remembers become what is ambient and what
is released. -/
theorem dropGuard_exchange (s : ContextStack) (g : Guard) :
    ((s.dropGuard g).stack.ambient = s.ambient ∧ (s.dropGuard g).released = g.previous) ∨
      ((s.dropGuard g).stack.ambient = g.previous ∧ (s.dropGuard g).released = s.ambient) := by
  by_cases h : g.token ∈ s.active
  · obtain ⟨_, _, _, _, stack, released⟩ := dropGuard_of_mem h
    exact .inr ⟨by rw [stack], released⟩
  · rw [dropGuard_of_not_mem h]
    exact .inl ⟨rfl, rfl⟩

end ContextStack

end DeferredCalls
