import DeferredCalls.Proofs.Telling

/-!
# Histories of installs

The history of a thread is told by operations alone: which snapshots were installed on it, and which
guards were given up. An install is active as long as neither its own guard was given up nor that of
an install that was active beneath it when it was made.

The stack of contexts of a thread fits the same about the active installs as the history does, as
long as tokens do not start again from zero.
-/

namespace DeferredCalls

/-- An install as it is remembered. -/
structure Install where
  snapshot : Snapshot
  /-- The installs that were active when it was made, innermost first. -/
  beneath : List Nat
  deriving DecidableEq, Repr

/-- The installs of a thread, numbered in the order in which they were made. -/
structure History where
  installs : List Install := []
  /-- The installs whose own guards were given up. -/
  ended : List Nat := []
  deriving DecidableEq, Repr

namespace History

/-- The number of installs ever made. -/
def size (h : History) : Nat :=
  h.installs.length

/-- What an install made ambient. -/
def snapshot (h : History) (n : Nat) : Snapshot :=
  ((h.installs[n]?).map Install.snapshot).getD .empty

/-- The installs that were active when an install was made. -/
def beneath (h : History) (n : Nat) : List Nat :=
  ((h.installs[n]?).map Install.beneath).getD []

/-- Whether neither the guard of an install nor one of those beneath it was given up. -/
def isActive (h : History) (n : Nat) : Bool :=
  n ∉ h.ended ∧ ∀ k ∈ h.beneath n, k ∉ h.ended

/-- The active installs, innermost first. -/
def active (h : History) : List Nat :=
  (List.range h.size).reverse.filter h.isActive

/-- What the innermost of some installs made ambient. Without any, nothing is. -/
def top (h : History) (ns : List Nat) : Snapshot :=
  (ns.head?.map h.snapshot).getD .empty

/-- What the innermost active install made ambient. -/
def ambient (h : History) : Snapshot :=
  h.top h.active

/-- The guard that an install handed out. -/
def guard (h : History) (n : Nat) : Guard :=
  ⟨h.top (h.beneath n), .ofNat n⟩

/-- The guards that were not given up. -/
def guards (h : History) : List Guard :=
  ((List.range h.size).filter (· ∉ h.ended)).map h.guard

/-- Makes a snapshot ambient. -/
def install (h : History) (s : Snapshot) : History :=
  { h with installs := h.installs ++ [⟨s, h.active⟩] }

/-- Gives up the guard of an install. -/
def finish (h : History) (n : Nat) : History :=
  { h with ended := n :: h.ended }

/-- The history of a thread after an operation. -/
def after (t : ThreadId) (h : History) : Operation → History
  | .install u s => if u = t then h.install s else h
  | .dropGuard u g => if u = t then h.finish g.token.toNat else h
  | _ => h

/-- The history of a thread. -/
def told (t : ThreadId) (ops : List Operation) : History :=
  ops.foldl (after t) {}

variable {h : History} {n k : Nat} {s : Snapshot}

/-! ## Installs are only added -/

@[simp] theorem size_install : (h.install s).size = h.size + 1 := by
  simp [install, size]

@[simp] theorem size_finish : (h.finish n).size = h.size := rfl

theorem snapshot_install (old : n < h.size) : (h.install s).snapshot n = h.snapshot n := by
  simp only [snapshot, install]
  rw [List.getElem?_append_left old]

theorem beneath_install (old : n < h.size) : (h.install s).beneath n = h.beneath n := by
  simp only [beneath, install]
  rw [List.getElem?_append_left old]

@[simp] theorem snapshot_install_size : (h.install s).snapshot h.size = s := by
  simp [snapshot, install, size]

@[simp] theorem beneath_install_size : (h.install s).beneath h.size = h.active := by
  simp [beneath, install, size]

@[simp] theorem snapshot_finish : (h.finish k).snapshot n = h.snapshot n := rfl

@[simp] theorem beneath_finish : (h.finish k).beneath n = h.beneath n := rfl

theorem isActive_iff : h.isActive n = true ↔ n ∉ h.ended ∧ ∀ k ∈ h.beneath n, k ∉ h.ended :=
  decide_eq_true_iff

theorem mem_active : n ∈ h.active ↔
    n < h.size ∧ n ∉ h.ended ∧ ∀ k ∈ h.beneath n, k ∉ h.ended := by
  simp [active, isActive]

theorem lt_size_of_mem_active (member : n ∈ h.active) : n < h.size :=
  (mem_active.mp member).1

theorem nodup_active : h.active.Nodup :=
  (List.nodup_reverse.mpr List.nodup_range).filter _

theorem top_install {ns : List Nat} (old : ∀ n ∈ ns, n < h.size) :
    (h.install s).top ns = h.top ns := by
  cases ns with
  | nil => rfl
  | cons n ns =>
    have known := old n (List.mem_cons_self ..)
    simp only [top, List.head?_cons, Option.map_some, snapshot_install known]

@[simp] theorem top_finish {ns : List Nat} : (h.finish k).top ns = h.top ns := rfl

/-! ## Which installs are active -/

/-- What is true of every history: guards are given up only of installs that were made, and active
installs lie one upon the other. -/
structure Nested (h : History) : Prop where
  made : ∀ n ∈ h.ended, n < h.size
  earlier : ∀ n, n < h.size → ∀ k ∈ h.beneath n, k < n
  layers : ∀ above n below, h.active = above ++ n :: below → h.beneath n = below

/-- A new install is active, on top of those that were active. -/
theorem Nested.active_install (nested : h.Nested) : (h.install s).active = h.size :: h.active := by
  have old : ∀ n ∈ (List.range h.size).reverse, (h.install s).isActive n = h.isActive n := by
    intro n member
    have known : n < h.size := List.mem_range.mp (List.mem_reverse.mp member)
    simp only [isActive, beneath_install known]
    rfl
  have new : (h.install s).isActive h.size = true := by
    have here : h.size ∉ (h.install s).ended := fun member =>
      Nat.lt_irrefl _ (nested.made _ member)
    have below : ∀ k ∈ h.active, k ∉ (h.install s).ended := fun k member =>
      (mem_active.mp member).2.1
    simpa [isActive] using ⟨here, below⟩
  rw [active, size_install, List.range_succ, List.reverse_append, List.reverse_singleton,
    List.singleton_append, List.filter_cons_of_pos new, List.filter_congr old]
  rfl

theorem Nested.install (nested : h.Nested) : (h.install s).Nested where
  made n member := by
    rw [size_install]
    exact Nat.lt_succ_of_lt (nested.made n member)
  earlier n known k member := by
    rw [size_install] at known
    rcases Nat.lt_succ_iff_lt_or_eq.mp known with old | rfl
    · rw [beneath_install old] at member
      exact nested.earlier n old k member
    · rw [beneath_install_size] at member
      exact lt_size_of_mem_active member
  layers above n below split := by
    rw [nested.active_install] at split
    cases above with
    | nil =>
      obtain ⟨rfl, rfl⟩ := List.cons.inj split
      exact beneath_install_size
    | cons first above =>
      have rest : h.active = above ++ n :: below := (List.cons.inj split).2
      have member : n ∈ h.active := by
        rw [rest]
        exact List.mem_append_right _ (List.mem_cons_self ..)
      rw [beneath_install (lt_size_of_mem_active member)]
      exact nested.layers above n below rest

/-- Giving up a guard ends its install and those that lie upon it. -/
theorem active_finish : (h.finish k).active =
    h.active.filter fun n => n ≠ k ∧ k ∉ h.beneath n := by
  rw [active, active, List.filter_filter]
  apply List.filter_congr
  intro n _
  rw [Bool.eq_iff_iff, Bool.and_eq_true, isActive_iff, isActive_iff, decide_eq_true_iff]
  simp only [finish, List.mem_cons, not_or, beneath]
  constructor
  · rintro ⟨⟨other, mine⟩, beneath⟩
    exact ⟨⟨other, fun member => (beneath k member).1 rfl⟩, mine, fun j member =>
      (beneath j member).2⟩
  · rintro ⟨⟨other, apart⟩, mine, beneath⟩
    refine ⟨⟨other, mine⟩, fun j member => ⟨?_, beneath j member⟩⟩
    rintro rfl
    exact apart member

/-- When the guard of an active install is given up, the installs beneath it stay active. -/
theorem Nested.active_finish_of_mem (nested : h.Nested) {above below : List Nat}
    (split : h.active = above ++ k :: below) : (h.finish k).active = below := by
  have distinct := nodup_active (h := h)
  rw [split, List.nodup_append] at distinct
  obtain ⟨_, tail, apart⟩ := distinct
  have upon : above.filter (fun n => n ≠ k ∧ k ∉ h.beneath n) = [] := by
    apply List.filter_eq_nil_iff.mpr
    intro n member
    obtain ⟨front, back, rfl⟩ := List.append_of_mem member
    have layer := nested.layers front n (back ++ k :: below) (by rw [split]; simp)
    simp [layer]
  have under : below.filter (fun n => n ≠ k ∧ k ∉ h.beneath n) = below := by
    apply List.filter_eq_self.mpr
    intro n member
    obtain ⟨front, back, rfl⟩ := List.append_of_mem member
    have layer := nested.layers (above ++ k :: front) n back (by rw [split]; simp)
    have fresh := (List.nodup_cons.mp tail).1
    simp only [List.mem_append, List.mem_cons, not_or] at fresh
    simp [layer, fresh.2.2, Ne.symm fresh.2.1]
  rw [active_finish, split, List.filter_append, upon, List.nil_append,
    List.filter_cons_of_neg (by simp), under]

/-- A guard whose install is not active any more ends nothing. -/
theorem Nested.active_finish_of_not_mem (nested : h.Nested) (stale : k ∉ h.active) :
    (h.finish k).active = h.active := by
  rw [active_finish]
  apply List.filter_eq_self.mpr
  intro n member
  obtain ⟨above, below, split⟩ := List.append_of_mem member
  have layer := nested.layers above n below split
  have other : n ≠ k := fun same => stale (same ▸ member)
  have apart : k ∉ below := fun inside => stale (by
    rw [split]
    exact List.mem_append_right _ (List.mem_cons_of_mem n inside))
  simp [layer, other, apart]

theorem Nested.finish (nested : h.Nested) (known : k < h.size) : (h.finish k).Nested where
  made n member := by
    rcases List.mem_cons.mp member with rfl | old
    · exact known
    · exact nested.made n old
  earlier := nested.earlier
  layers above n below split := by
    by_cases member : k ∈ h.active
    · obtain ⟨front, back, whole⟩ := List.append_of_mem member
      rw [nested.active_finish_of_mem whole] at split
      exact nested.layers (front ++ k :: above) n below (by rw [whole, split]; simp)
    · rw [nested.active_finish_of_not_mem member] at split
      exact nested.layers above n below split

/-! ## Guards -/

theorem Nested.guard_install (nested : h.Nested) (old : n < h.size) :
    (h.install s).guard n = h.guard n := by
  rw [guard, guard, beneath_install old, top_install]
  intro k member
  exact Nat.lt_trans (nested.earlier n old k member) old

@[simp] theorem guard_finish : (h.finish k).guard n = h.guard n := rfl

theorem Nested.guards_install (nested : h.Nested) :
    (h.install s).guards = h.guards ++ [⟨h.ambient, .ofNat h.size⟩] := by
  have fresh : h.size ∉ h.ended := fun member => Nat.lt_irrefl _ (nested.made _ member)
  have new : (h.install s).guard h.size = ⟨h.ambient, .ofNat h.size⟩ := by
    rw [guard, beneath_install_size, top_install, ambient]
    exact fun _ => lt_size_of_mem_active
  have old : ∀ n ∈ (List.range h.size).filter (· ∉ h.ended),
      (h.install s).guard n = h.guard n := by
    intro n member
    exact nested.guard_install (List.mem_range.mp (List.mem_of_mem_filter member))
  rw [guards, size_install, List.range_succ, List.filter_append, List.map_append, guards]
  change ((List.range h.size).filter (· ∉ h.ended)).map _ ++
    ([h.size].filter (· ∉ h.ended)).map _ = _
  rw [List.map_congr_left old, List.filter_cons_of_pos (by simpa using fresh), List.filter_nil,
    List.map_singleton, new]

theorem mem_guards {g : Guard} :
    g ∈ h.guards ↔ ∃ n, n < h.size ∧ n ∉ h.ended ∧ h.guard n = g := by
  simp [guards, and_assoc]

/-- Guards are told apart by their tokens, as long as these do not start again from zero. -/
theorem token_guard (few : h.size ≤ 2 ^ 64) (known : n < h.size) :
    (h.guard n).token.toNat = n := by
  rw [guard, UInt64.toNat_ofNat']
  exact Nat.mod_eq_of_lt (Nat.lt_of_lt_of_le known few)

theorem guards_finish (known : n < h.size) (mine : n ∉ h.ended) :
    (h.guards : Multiset Guard) = h.guard n ::ₘ (h.finish n).guards := by
  have distinct : ((List.range h.size).filter (· ∉ h.ended)).Nodup := List.nodup_range.filter _
  have member : n ∈ (List.range h.size).filter (· ∉ h.ended) := by
    simpa using ⟨known, mine⟩
  have others : ((List.range h.size).filter (· ∉ h.ended)).erase n =
      (List.range (h.finish n).size).filter (· ∉ (h.finish n).ended) := by
    rw [distinct.erase_eq_filter, List.filter_filter]
    exact List.filter_congr fun k _ => by simp [finish, bne, beq_eq_decide]
  have apart := (List.perm_cons_erase member).map h.guard
  rw [others] at apart
  exact Multiset.coe_eq_coe.mpr apart

/-! ## What a stack of contexts has to do with a history -/

/-- A stack of contexts and the guards of its thread are what the history fits. -/
structure Matches (h : History) (stack : ContextStack) (guards : Multiset Guard) : Prop where
  nested : h.Nested
  installs : stack.installs = h.size
  ambient : stack.ambient = h.ambient
  active : stack.active = h.active.map .ofNat
  guards : guards = h.guards

namespace Matches

variable {stack : ContextStack} {guards : Multiset Guard} {g : Guard}

theorem empty : Matches {} {} 0 where
  nested :=
    { made := fun _ member => nomatch member
      earlier := fun _ known => nomatch known
      layers := by simp [History.active, size] }
  installs := rfl
  ambient := rfl
  active := rfl
  guards := rfl

theorem install (fits : h.Matches stack guards) (s : Snapshot) :
    (h.install s).Matches (stack.install s) (stack.nextGuard ::ₘ guards) where
  nested := fits.nested.install
  installs := by rw [size_install, ← fits.installs]; rfl
  ambient := by
    rw [History.ambient, fits.nested.active_install]
    simp [top]
  active := by
    rw [fits.nested.active_install, List.map_cons, ← fits.active, ← fits.installs]
    rfl
  guards := by
    have next : stack.nextGuard = ⟨h.ambient, .ofNat h.size⟩ := by
      rw [ContextStack.nextGuard, ContextStack.nextToken, fits.ambient, fits.installs]
    rw [fits.nested.guards_install, fits.guards, next, ← Multiset.coe_add, add_comm]
    rfl

/-- Every guard is the one of an install whose guard was not given up. -/
theorem exists_guard (fits : h.Matches stack guards) (member : g ∈ guards) :
    ∃ n, n < h.size ∧ n ∉ h.ended ∧ h.guard n = g := by
  rw [fits.guards] at member
  exact mem_guards.mp member

/-- The token of an install is among the active ones if and only if the install is. -/
theorem mem_active_iff (fits : h.Matches stack guards) (few : h.size ≤ 2 ^ 64)
    (known : n < h.size) : UInt64.ofNat n ∈ stack.active ↔ n ∈ h.active := by
  rw [fits.active, List.mem_map]
  constructor
  · rintro ⟨k, member, same⟩
    have kept := congrArg UInt64.toNat same
    rw [UInt64.toNat_ofNat', UInt64.toNat_ofNat',
      Nat.mod_eq_of_lt (Nat.lt_of_lt_of_le (lt_size_of_mem_active member) few),
      Nat.mod_eq_of_lt (Nat.lt_of_lt_of_le known few)] at kept
    rwa [← kept]
  · intro member
    exact ⟨n, member, rfl⟩

theorem nodup_tokens (few : h.size ≤ 2 ^ 64) : (h.active.map UInt64.ofNat).Nodup := by
  apply nodup_active.map_on
  intro n active k active' same
  have kept := congrArg UInt64.toNat same
  rwa [UInt64.toNat_ofNat', UInt64.toNat_ofNat',
    Nat.mod_eq_of_lt (Nat.lt_of_lt_of_le (lt_size_of_mem_active active) few),
    Nat.mod_eq_of_lt (Nat.lt_of_lt_of_le (lt_size_of_mem_active active') few)] at kept

/-- A guard whose install is not active any more changes nothing when it is given up. -/
theorem dropGuard_of_stale (fits : h.Matches stack guards) (few : h.size ≤ 2 ^ 64)
    (member : g ∈ guards) (stale : g.token.toNat ∉ h.active) :
    (stack.dropGuard g).stack = stack := by
  obtain ⟨n, known, _, rfl⟩ := fits.exists_guard member
  rw [token_guard few known] at stale
  rw [ContextStack.dropGuard_of_not_mem]
  exact fun active => stale ((fits.mem_active_iff few known).mp active)

/-- Where no guard is left, nothing is ambient. -/
theorem of_no_guards (fits : h.Matches stack 0) : stack.ambient = .empty ∧ stack.active = [] := by
  have none : h.active = [] := by
    apply List.eq_nil_iff_forall_not_mem.mpr
    intro n member
    obtain ⟨known, mine, _⟩ := mem_active.mp member
    have there : h.guard n ∈ (h.guards : Multiset Guard) := mem_guards.mpr ⟨n, known, mine, rfl⟩
    rw [← fits.guards] at there
    exact Multiset.notMem_zero _ there
  rw [fits.ambient, fits.active, History.ambient, none]
  exact ⟨rfl, rfl⟩

theorem dropGuard (fits : h.Matches stack (g ::ₘ guards)) (few : h.size ≤ 2 ^ 64) :
    (h.finish g.token.toNat).Matches (stack.dropGuard g).stack guards := by
  obtain ⟨n, known, mine, rfl⟩ := fits.exists_guard (Multiset.mem_cons_self g guards)
  have rest : guards = (h.finish n).guards := by
    have all := fits.guards
    rw [guards_finish known mine] at all
    exact (Multiset.cons_inj_right _).mp all
  have unfinished :=
    fun stale => fits.dropGuard_of_stale few (Multiset.mem_cons_self _ guards) stale
  rw [token_guard few known] at unfinished ⊢
  have nested := fits.nested.finish known
  by_cases member : n ∈ h.active
  · obtain ⟨above, below, split⟩ := List.append_of_mem member
    have active := fits.nested.active_finish_of_mem split
    have token := (fits.mem_active_iff few known).mpr member
    obtain ⟨above', below', split', first, eq, _⟩ :=
      ContextStack.dropGuard_of_mem (s := stack) (g := h.guard n) token
    have distinct := nodup_tokens few
    rw [← fits.active, split', List.nodup_append, List.nodup_cons] at distinct
    have same := split'.symm.trans (fits.active.trans (congrArg (List.map UInt64.ofNat) split))
    rw [List.map_append, List.map_cons] at same
    obtain ⟨_, _, rfl⟩ := (List.append_cons_inj_of_notMem first distinct.2.1.1).mp same
    rw [eq]
    refine ⟨nested, fits.installs, ?_, ?_, rest⟩
    · rw [History.ambient, active, top_finish, ← fits.nested.layers above n below split]
      rfl
    · rw [active]
  · have active := fits.nested.active_finish_of_not_mem member
    rw [unfinished member]
    refine ⟨nested, fits.installs, ?_, ?_, rest⟩
    · rw [fits.ambient, History.ambient, History.ambient, active, top_finish]
    · rw [fits.active, active]

end Matches

end History

end DeferredCalls
