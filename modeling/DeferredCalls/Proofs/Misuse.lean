import DeferredCalls.Proofs.GuardOrder
import DeferredCalls.Proofs.Outcomes
import DeferredCalls.Proofs.Transitions

/-!
# Misuse of guards

Guards are meant to be given up in the reverse order of their installs. When that is not done a
warning is logged, and the history of the thread says which: none when the guard is the one of the
innermost active install, that the order is wrong when later installs are active as well, and that
there is nothing left to do when an earlier install has taken this one along.

A run gives up a guard of its own when it leaves, so it warns of what its callable and its sink did:
that they gave up the guard of an install beneath the run, or else that they left installs behind.
Since a guard is given up only once, no install is the subject of two warnings.
-/

namespace DeferredCalls

open Holding Moment Act

/-! ## Events -/

/-- What is logged of a misused guard. -/
def GuardWarning.event : GuardWarning → Event
  | outOfOrder expected current =>
    { level := .warn
      message := "context guard restored out of LIFO order"
      fields := [("expected_depth", .number expected), ("current_depth", .number current)] }
  | unwound current =>
    { level := .warn
      message := "context guard dropped after its install was unwound"
      fields := [("current_depth", .number current)] }

/-- The event that an entry notes, if it notes one. -/
def Entry.event? : Entry → Option Event
  | event e => some e
  | _ => none

namespace World

/-- The events among what was noted on the side of a thread. -/
def eventsOf (w : World) (t : ThreadId) : List Event :=
  (w.notesOf t).filterMap Entry.event?

/-- What is noted of events that are logged: those of an admitted level. -/
def logged (w : World) (events : List Event) : List Event :=
  events.filter fun e => w.verbosity.admits e.level

variable {w w' inner : World} {t : ThreadId} {c : CallId} {g : Guard} {s : Share}
  {shares : List Share} {partings : List Parting}

theorem eventsOf_log {level : Level} {message : String} {fields : List (String × FieldValue)} :
    (w.log t level message fields).eventsOf t =
      w.eventsOf t ++ w.logged [⟨level, message, fields⟩] := by
  by_cases admitted : w.verbosity.admits level = true
  · simp [log, logged, admitted, eventsOf, notesOf_note, Entry.event?]
  · simp [log, logged, admitted]

theorem eventsOf_warnGuard (warning : Option GuardWarning) : (w.warnGuard t warning).eventsOf t =
    w.eventsOf t ++ w.logged (warning.toList.map GuardWarning.event) := by
  cases warning with
  | none => simp [warnGuard, logged]
  | some warning =>
    cases warning with
    | outOfOrder expected current => exact eventsOf_log
    | unwound current => exact eventsOf_log

theorem eventsOf_onThread {f : Thread → Thread} (same : ∀ th, (f th).role = th.role) :
    (w.onThread t f).eventsOf t = w.eventsOf t := by
  have role : ((w.onThread t f).thread t).role = (w.thread t).role :=
    onThread_congr Thread.role same t
  simp only [eventsOf, notesOf, role]
  rfl

theorem eventsOf_without : (w.without s).eventsOf t = w.eventsOf t := by
  cases s with
  | context | callable | call | loop | manual => rfl

/-- That an object goes is noted, but it is not an event. -/
theorem eventsOf_noteRelease : (w.noteRelease t s).eventsOf t = w.eventsOf t := by
  cases s with
  | context c | callable c =>
    simp [noteRelease, releaseNote, eventsOf, notesOf_note, Entry.event?]
  | call | loop | manual => rfl

theorem GivesUp.eventsOf (chain : w.GivesUp t shares partings w') :
    w'.eventsOf t = w.eventsOf t := by
  induction chain with
  | nil w => rfl
  | share plain several _ ih => rw [ih, eventsOf_without]
  | last plain one _ ih => rw [ih, eventsOf_noteRelease, eventsOf_without]

/-- All that is logged when a guard is given up is a warning, if there is one. -/
theorem eventsOf_dropGuard (late : w.DropsLate t g partings) : (w.dropGuard t g).eventsOf t =
    w.eventsOf t ++
      w.logged (((w.contextStack t).dropGuard g).warning.toList.map GuardWarning.event) := by
  rw [late.2.1.eventsOf, unguarded, setContextStack, eventsOf_onThread, eventsOf_warnGuard]
  exact fun _ => rfl

/-- All that is logged when a run leaves is the warning about its own guard, if there is one. -/
theorem eventsOf_exited (late : w.LeavesLate inner t c) : (w.exited inner t c).eventsOf t =
    inner.eventsOf t ++ inner.logged
      (((inner.contextStack t).dropGuard (w.runGuard t)).warning.toList.map
        GuardWarning.event) := by
  obtain ⟨_, context, calls, callable, first, _, second, third, _⟩ := late
  rw [third.eventsOf, second.eventsOf, shortened, eventsOf_onThread, eventsOf_dropGuard first]
  exact fun _ => rfl

end World

/-! ## Warnings and the history -/

/-- What is wrong with giving up the guard of an active install: that others lie upon it. -/
theorem ContextStack.warning_of_split {s : ContextStack} {g : Guard} {above below : List Token}
    (split : s.active = above ++ g.token :: below) (first : g.token ∉ above) :
    (s.dropGuard g).warning =
      if above = [] then none else some (.outOfOrder (below.length + 1) s.depth) := by
  have depth : s.depth = above.length + (below.length + 1) := by
    rw [ContextStack.depth, split, List.length_append, List.length_cons]
  have alone : below.length + 1 = s.depth ↔ above = [] := by
    rw [depth, ← List.length_eq_zero_iff]
    omega
  rw [dropGuard, fromToken_of_split split first]
  simp only [alone, List.length_cons]

/-- The warning about a guard follows from the history of its install. -/
structure ContextStack.WarnsOf (s : ContextStack) (g : Guard) (h : History) (n : Nat) : Prop where
  innermost : (s.dropGuard g).warning = none ↔ h.active.head? = some n
  /-- Installs made later are active as well. -/
  outOfOrder : ∀ expected current,
    (s.dropGuard g).warning = some (.outOfOrder expected current) ↔
      n ∈ h.active ∧ (∃ k ∈ h.active, n < k) ∧
        expected = (h.beneath n).length + 1 ∧ current = s.depth
  /-- The guard of an install beneath it was given up. -/
  unwound : ∀ current, (s.dropGuard g).warning = some (.unwound current) ↔
    (∃ k ∈ h.beneath n, k ∈ h.ended) ∧ current = s.depth

namespace History

variable {h : History} {n k : Nat} {above below : List Nat} {t : ThreadId} {ops : List Operation}

theorem descending_active : h.active.Pairwise (· > ·) :=
  (List.pairwise_reverse.mpr List.pairwise_lt_range).filter _

/-- What lies upon an active install was made later, and what lies beneath it earlier. -/
theorem exists_later_iff (split : h.active = above ++ n :: below) :
    (∃ k ∈ h.active, n < k) ↔ above ≠ [] := by
  have order := descending_active (h := h)
  rw [split, List.pairwise_append, List.pairwise_cons] at order
  obtain ⟨_, ⟨earlier, _⟩, later⟩ := order
  rw [split]
  constructor
  · rintro ⟨k, member, more⟩ rfl
    rcases List.mem_cons.mp member with rfl | lower
    · exact Nat.lt_irrefl _ more
    · exact Nat.lt_asymm more (earlier k lower)
  · intro some
    obtain ⟨k, member⟩ := List.exists_mem_of_ne_nil above some
    exact ⟨k, List.mem_append_left _ member, later k member n (List.mem_cons_self ..)⟩

theorem head?_active : h.active.head? = some n ↔ n ∈ h.active ∧ ¬∃ k ∈ h.active, n < k := by
  constructor
  · intro first
    obtain ⟨below, split⟩ := List.head?_eq_some_iff.mp first
    have nothing : h.active = [] ++ n :: below := split
    exact ⟨List.mem_of_mem_head? first, fun later => (exists_later_iff nothing).mp later rfl⟩
  · rintro ⟨active, last⟩
    obtain ⟨above, below, split⟩ := List.append_of_mem active
    obtain rfl : above = [] := by
      by_contra some
      exact last ((exists_later_iff split).mpr some)
    rw [split]
    rfl

/-- An install whose own guard was not given up is not active if and only if a guard beneath it
was. -/
theorem not_mem_active (known : n < h.size) (mine : n ∉ h.ended) :
    n ∉ h.active ↔ ∃ k ∈ h.beneath n, k ∈ h.ended := by
  rw [mem_active]
  simp [known, mine]

/-- The warning about the guard of an install that was made, as the history has it. -/
theorem Matches.warning_eq {stack : ContextStack} {guards : Multiset Guard}
    (fits : h.Matches stack guards) (few : h.size ≤ 2 ^ 64) (known : n < h.size) :
    (stack.dropGuard (h.guard n)).warning =
      if n ∈ h.active then
        if ∃ k ∈ h.active, n < k then some (.outOfOrder ((h.beneath n).length + 1) stack.depth)
        else none
      else some (.unwound stack.depth) := by
  by_cases active : n ∈ h.active
  · obtain ⟨above, below, split⟩ := List.append_of_mem active
    have layer := fits.nested.layers above n below split
    have tokens : stack.active =
        above.map .ofNat ++ (h.guard n).token :: below.map UInt64.ofNat := by
      rw [fits.active, split, List.map_append, List.map_cons]
      rfl
    have apart : (h.guard n).token ∉ above.map UInt64.ofNat := by
      have distinct := nodup_tokens few
      rw [← fits.active, tokens, List.nodup_append] at distinct
      exact fun member => distinct.2.2 _ member _ (List.mem_cons_self ..) rfl
    rw [ContextStack.warning_of_split tokens apart, if_pos active]
    simp only [List.length_map, List.map_eq_nil_iff, layer, exists_later_iff split, ite_not]
  · have stale : (h.guard n).token ∉ stack.active := fun member =>
      active ((fits.mem_active_iff few known).mp member)
    rw [ContextStack.dropGuard_of_not_mem stale, if_neg active]

/-- The stack of contexts warns of the guard of an install that was not given up before exactly as
the history has it. -/
theorem Matches.warnsOf {stack : ContextStack} {guards : Multiset Guard}
    (fits : h.Matches stack guards) (few : h.size ≤ 2 ^ 64) (known : n < h.size)
    (mine : n ∉ h.ended) : stack.WarnsOf (h.guard n) h n := by
  constructor
  case innermost =>
    rw [fits.warning_eq few known, head?_active]
    split
    · next active => split <;> simp [*]
    · next ended => simp [ended]
  case outOfOrder =>
    intro expected current
    rw [fits.warning_eq few known]
    split
    · next active => split <;> simp [*, eq_comm]
    · next ended => simp [ended]
  case unwound =>
    intro current
    rw [fits.warning_eq few known, ← not_mem_active known mine]
    split
    · next active => split <;> simp [active]
    · next ended => simp [ended, eq_comm]

/-- The installs whose own guards were given up are told by what was given up. -/
theorem mem_ended_foldl : k ∈ (ops.foldl (after t) h).ended ↔
    k ∈ h.ended ∨ ∃ g, .dropGuard t g ∈ ops ∧ g.token.toNat = k := by
  induction ops generalizing h with
  | nil => simp
  | cons op ops ih =>
    have first : k ∈ (h.after t op).ended ↔
        k ∈ h.ended ∨ ∃ g, op = .dropGuard t g ∧ g.token.toNat = k := by
      cases op with
      | dropGuard u g =>
        by_cases same : u = t
        · simp [after, finish, same, or_comm, eq_comm]
        · simp [after, same]
      | install u s =>
        by_cases same : u = t
        · simp [after, install, same]
        · simp [after, same]
      | _ => simp [after]
    rw [List.foldl_cons, ih, first, or_assoc, ← exists_or]
    simp only [List.mem_cons, or_and_right, eq_comm]

end History

/-! ## One warning at most -/

namespace ContextStack

/-- The warning about a guard that a thread gives up by an operation, with the install of the
guard. -/
def warned (t : ThreadId) (s : ContextStack) : Operation → List (Nat × GuardWarning)
  | .dropGuard u g =>
    if u = t then (s.dropGuard g).warning.toList.map fun warning => (g.token.toNat, warning) else []
  | _ => []

/-- The warnings about the guards that a thread gives up, from a stack of contexts on. -/
def warnings (t : ThreadId) : ContextStack → List Operation → List (Nat × GuardWarning)
  | _, [] => []
  | s, op :: ops => s.warned t op ++ warnings t (s.after t op) ops

variable {s : ContextStack} {t : ThreadId} {g : Guard} {ops more : List Operation}

theorem warnings_append : s.warnings t (ops ++ more) =
    s.warnings t ops ++ (ops.foldl (after t) s).warnings t more := by
  induction ops generalizing s with
  | nil => rfl
  | cons op ops ih =>
    rw [List.cons_append, warnings, ih, ← List.append_assoc]
    rfl

theorem warnings_of_spares (spares : ∀ op ∈ ops, op.Spares t) : s.warnings t ops = [] := by
  induction ops with
  | nil => rfl
  | cons op ops ih =>
    have first := spares op (List.mem_cons_self ..)
    have nothing : s.warned t op = [] := by
      cases op with
      | dropGuard u g => exact if_neg first
      | _ => rfl
    rw [warnings, nothing, after_of_spares first, List.nil_append]
    exact ih fun op' member => spares op' (List.mem_cons_of_mem op member)

end ContextStack

section Courses

variable {verbosity : Verbosity} {ops : List Operation} {m : Moment} {w : World}
  {H : Multiset Holding} {t : ThreadId}

/-- Installs that there was a warning about: one for each, and their guards were given up. -/
structure Subjects (subjects : List Nat) (h : History) : Prop where
  distinct : subjects.Nodup
  ended : ∀ n ∈ subjects, n ∈ h.ended

/-- When the guard of an install is given up, there is no warning about that install yet. -/
theorem Subjects.finish {subjects : List Nat} {h : History} {n : Nat} (old : Subjects subjects h)
    (mine : n ∉ h.ended) (warning : Option GuardWarning) :
    Subjects (subjects ++ (warning.toList.map fun x => (n, x)).map Prod.fst) (h.finish n) := by
  cases warning with
  | none =>
    refine ⟨by simpa using old.distinct, fun k member => List.mem_cons_of_mem n ?_⟩
    exact old.ended k (by simpa using member)
  | some warning =>
    constructor
    case distinct =>
      refine List.nodup_append.mpr
        ⟨old.distinct, List.nodup_singleton n, fun k member k' same => ?_⟩
      rw [List.mem_singleton.mp same]
      exact ne_of_mem_of_not_mem (old.ended k member) mine
    case ended =>
      intro k member
      rcases List.mem_append.mp member with before | now
      · exact List.mem_cons_of_mem n (old.ended k before)
      · exact List.mem_cons.mpr (.inl (List.mem_singleton.mp now))

theorem Course.subjects (course : Course (.start verbosity) ops m) (t : ThreadId)
    (few : (History.told t ops).size ≤ 2 ^ 64) :
    Subjects ((ContextStack.warnings t {} ops).map Prod.fst) (History.told t ops) := by
  induction course with
  | refl => exact ⟨List.nodup_nil, fun _ member => nomatch member⟩
  | @step k k' ops more before last ih =>
    rw [History.told, List.foldl_append, ← History.told] at few ⊢
    have earlier := Nat.le_trans (History.size_le_foldl _ _) few
    have old := ih earlier
    rw [ContextStack.warnings_append, List.map_append]
    rcases last.guards (before.consistent (consistent_start verbosity)) t with
      ⟨s, rfl, _⟩ | ⟨g, rfl, guards⟩ | ⟨spares, _⟩
    · have nothing (x : ContextStack) : x.warnings t [.install t s] = [] := rfl
      rw [nothing, List.map_nil, List.append_nil]
      refine ⟨old.distinct, fun n member => ?_⟩
      simpa [History.after, History.install] using old.ended n member
    · -- The guard exists, so it was not given up before.
      obtain ⟨n, known, mine, rfl⟩ := (before.matches t earlier).exists_guard
        (guards ▸ Multiset.mem_cons_self g _)
      have next := old.finish mine
      rw [← History.token_guard earlier known] at next
      simpa only [ContextStack.warnings, ContextStack.warned, if_true, List.append_nil,
        List.foldl_cons, List.foldl_nil, History.after] using next _
    · rw [ContextStack.warnings_of_spares spares, List.map_nil, List.append_nil,
        foldl_of_fixed fun op member => History.after_of_spares (spares op member) _]
      exact old

end Courses

/-! ## What is reported -/

/-- What is logged when a guard that is in hand is given up. -/
structure World.ReportsDrop (verbosity : Verbosity) (ops : List Operation) (w : World)
    (t : ThreadId) (g : Guard) : Prop where
  events : (w.dropGuard t g).eventsOf t = w.eventsOf t ++
    w.logged (((w.contextStack t).dropGuard g).warning.toList.map GuardWarning.event)
  warns : (w.contextStack t).WarnsOf g (History.told t ops) g.token.toNat
  counted : ContextStack.warnings t {} (ops ++ [.dropGuard t g]) = ContextStack.warnings t {} ops ++
    ((w.contextStack t).dropGuard g).warning.toList.map fun warning => (g.token.toNat, warning)
  /-- The install that handed the guard out, and the depth that it was made at. -/
  made : ∃ before s after m₀, ops = before ++ .install t s :: after ∧
    Course (.start verbosity) before m₀ ∧ g = (m₀.world.contextStack t).nextGuard ∧
    (m₀.world.contextStack t).depth = ((History.told t ops).beneath g.token.toNat).length

/-- While a run was in progress, its callable or its sink gave up the guard of an install that was
active when it began. -/
def CutBeneath (t : ThreadId) (before between : List Operation) : Prop :=
  ∃ g, .dropGuard t g ∈ between ∧ g.token.toNat ∈ (History.told t before).active

/-- While a run was in progress, installs were made that are still active. -/
def LeftAbove (t : ThreadId) (before : List Operation) (context : Snapshot)
    (between : List Operation) : Prop :=
  ∃ k ∈ (History.told t (before ++ .install t context :: between)).active,
    (History.told t before).size < k

/-- What is logged of its own guard when a run leaves, which began in one world and whose callable
and sink left another one. -/
structure World.ReportsRun (w inner after : World) (t : ThreadId) (c : CallId)
    (before between : List Operation) : Prop where
  events : after.eventsOf t = inner.eventsOf t ++ inner.logged
    (((inner.contextStack t).dropGuard (w.runGuard t)).warning.toList.map GuardWarning.event)
  silent : ((inner.contextStack t).dropGuard (w.runGuard t)).warning = none ↔
    ¬CutBeneath t before between ∧ ¬LeftAbove t before (w.calls.get c).context between
  unwound : ((inner.contextStack t).dropGuard (w.runGuard t)).warning =
    some (.unwound (inner.contextStack t).depth) ↔ CutBeneath t before between
  outOfOrder : ((inner.contextStack t).dropGuard (w.runGuard t)).warning =
    some (.outOfOrder ((w.contextStack t).depth + 1) (inner.contextStack t).depth) ↔
      ¬CutBeneath t before between ∧ LeftAbove t before (w.calls.get c).context between

section Reports

variable {verbosity : Verbosity} {ops between : List Operation} {w inner : World}
  {H : Multiset Holding} {t : ThreadId} {g : Guard} {c : CallId}

theorem mem_guards_of_held {m : Moment} (held : Holding.guard t g ∈ m.held) : g ∈ m.guards t := by
  rw [Moment.guards, Multiset.mem_filterMap]
  exact ⟨.guard t g, Multiset.mem_add.mpr (.inr held), if_pos rfl⟩

theorem reportsDrop (course : Course (.start verbosity) ops ⟨w, H⟩)
    (inside : t.index < w.threads.size) (few : (History.told t ops).size ≤ 2 ^ 64)
    (held : Holding.guard t g ∈ H) : w.ReportsDrop verbosity ops t g := by
  have fits := course.matches t few
  obtain ⟨n, known, mine, rfl⟩ := fits.exists_guard (mem_guards_of_held held)
  have token := History.token_guard few known
  obtain ⟨before, s, after, m₀, whole, first, handed, beneath⟩ := course.before_install few known
  have balanced := (course.consistent (consistent_start verbosity)).balanced
  obtain ⟨K, rfl⟩ := Multiset.exists_cons_of_mem held
  obtain ⟨partings, late⟩ := balanced.dropsLate inside
  constructor
  case events => exact World.eventsOf_dropGuard late
  case warns =>
    rw [token]
    exact fits.warnsOf few known mine
  case counted =>
    rw [ContextStack.warnings_append, ← course.contextStack_eq t]
    simp only [ContextStack.warnings, ContextStack.warned, if_true, List.append_nil]
  case made =>
    refine ⟨before, s, after, m₀, whole, first, handed, ?_⟩
    rw [token, ContextStack.depth, beneath, List.length_map]

/-- The installs beneath the one of a run are those that were active when the run began, and whether
the guard of one of them was given up is told of the run. -/
theorem History.beneath_run (t : ThreadId) (before between : List Operation) (context : Snapshot) :
    let h := History.told t (before ++ .install t context :: between)
    h.beneath (History.told t before).size = (History.told t before).active ∧
      ((∃ k ∈ (History.told t before).active, k ∈ h.ended) ↔ CutBeneath t before between) := by
  intro h
  have told : h = between.foldl (History.after t) ((History.told t before).install context) :=
    History.told_install
  have goes := (History.Continues.mk (Nat.le_refl _) (fun _ _ => rfl) fun _ _ => rfl :
    ((History.told t before).install context).Continues _).foldl t between
  constructor
  · rw [told, goes.beneath _ (by simp), History.beneath_install_size]
  · rw [told]
    constructor
    · rintro ⟨k, active, ended⟩
      rcases History.mem_ended_foldl.mp ended with old | ⟨g, dropped, rfl⟩
      · exact absurd old (History.mem_active.mp active).2.1
      · exact ⟨g, dropped, active⟩
    · rintro ⟨g, dropped, active⟩
      exact ⟨_, active, History.mem_ended_foldl.mpr (.inr ⟨g, dropped, rfl⟩)⟩

theorem reportsRun (course : Course (.start verbosity) ops ⟨w, H⟩)
    (inside : t.index < w.threads.size) (used : 0 < w.calls.shares c)
    (there : w.callExists c = true)
    (running : Course ⟨w.entered t c, w.runHeld t c H⟩ between ⟨inner, w.runHeld t c H⟩)
    (few : (inner.contextStack t).installs < 2 ^ 64) :
    w.ReportsRun inner (w.exited inner t c) t c ops between := by
  have ready : Ready ⟨w, H⟩ t := ⟨course.consistent (consistent_start verbosity), inside⟩
  have entered := course_entered ready used there
  have after : Ready ⟨inner, w.runHeld t c H⟩ t :=
    (ready.after entered).after running
  have late := leavesLate ready used there after fun few =>
    (rests_of_course ready (course.numbered t) used there running few).2
  have whole := (course.trans entered).trans running
  rw [List.append_assoc, List.singleton_append] at whole
  have fewTold : (History.told t (ops ++ .install t (w.calls.get c).context :: between)).size ≤
      2 ^ 64 := (whole.size_told t).trans_le (Nat.le_of_lt few)
  have fewBefore : (w.contextStack t).installs < 2 ^ 64 := by
    have grown := History.size_le_foldl (t := t)
      ((History.told t ops).install (w.calls.get c).context) between
    rw [← History.told_install, History.size_install, course.size_told t] at grown
    exact Nat.lt_of_lt_of_le grown fewTold
  have fits := whole.matches t fewTold
  -- The guard of the run is still in hand, and its install is the one that came after `ops`.
  obtain ⟨n, known, mine, handed⟩ := fits.exists_guard
    (mem_guards_of_held (Multiset.mem_cons_self (Holding.guard t (w.runGuard t)) _))
  obtain rfl : (History.told t ops).size = n := by
    rw [course.size_told t, ← History.token_guard fewTold known, handed]
    exact (Nat.mod_eq_of_lt fewBefore).symm.trans UInt64.toNat_ofNat'.symm
  have warns := fits.warnsOf fewTold known mine
  rw [handed] at warns
  obtain ⟨beneath, cut⟩ := History.beneath_run t ops between (w.calls.get c).context
  have active := not_iff_comm.mp (History.not_mem_active known mine)
  rw [beneath, cut] at active
  have depth : (w.contextStack t).depth = (History.told t ops).active.length := by
    have before := course.matches t (by rw [course.size_told t]; exact Nat.le_of_lt fewBefore)
    rw [ContextStack.depth, ← List.length_map UInt64.ofNat]
    exact congrArg List.length before.active
  constructor
  case events => exact World.eventsOf_exited late
  case silent =>
    rw [warns.innermost, History.head?_active, ← active]
    exact Iff.rfl
  case unwound =>
    rw [warns.unwound, beneath, cut]
    exact and_iff_left rfl
  case outOfOrder =>
    rw [warns.outOfOrder, ← active, beneath, ← depth]
    simp only [and_true]
    exact Iff.rfl

end Reports

/-- Misuse of guards is reported, exactly. When a guard of a thread is given up there is no warning
if and only if its install is the innermost active one. If later installs are active as well, the
order is wrong, with the depth that the install had reached and the depth now. If an earlier install
has taken it along, there is nothing left to do. No install is warned about twice. And when a run
leaves, there is no warning of its own unless its callable or its sink gave up the guard of an
install that was active when it began, which has taken the run along, or else left installs active
above it. -/
theorem misuse_of_guards_is_reported {verbosity : Verbosity} {ops : List Operation} {w : World}
    {H : Multiset Holding} {t : ThreadId} (course : Course (.start verbosity) ops ⟨w, H⟩)
    (inside : t.index < w.threads.size) (few : (History.told t ops).size < 2 ^ 64) :
    (∀ g, Holding.guard t g ∈ H → w.ReportsDrop verbosity ops t g) ∧
    ((ContextStack.warnings t {} ops).map Prod.fst).Nodup ∧
    ∀ code c args, Embedder.Lawful code → 0 < w.calls.shares c → w.callExists c = true →
      let inner := (invokeFor code c (w.callableOf c) args t (w.entered t c)).2
      (inner.contextStack t).installs < 2 ^ 64 →
      (∃ between, Course ⟨w.entered t c, w.runHeld t c H⟩ between ⟨inner, w.runHeld t c H⟩) ∧
      ∀ between, Course ⟨w.entered t c, w.runHeld t c H⟩ between ⟨inner, w.runHeld t c H⟩ →
        w.ReportsRun inner (run code c args t w).2 t c ops between := by
  have few := Nat.le_of_lt few
  refine ⟨fun g held => reportsDrop course inside few held, (course.subjects t few).distinct, ?_⟩
  intro code c args lawful used there inner fewInner
  have ready : Ready ⟨w, H⟩ t := ⟨course.consistent (consistent_start verbosity), inside⟩
  refine ⟨?_, fun between running => ?_⟩
  · exact lawful_invokeFor lawful _ args (ready.after (course_entered ready used there))
  · have left : (run code c args t w).2 = w.exited inner t c := by rw [run_of_exists there]
    rw [left]
    exact reportsRun course inside used there running fewInner

namespace Cut

/-- A context is ambient, and a call is bound to another one. When its callable is invoked, it
gives up the guard of the ambient context of before. -/
def prepare : Act Unit := script (performer 1)
  [("hall", .newContext "hall" "hall"), ("install", .install "hall" "gate"),
    ("room", .newContext "room" "room"),
    ("callable", .newCallable "cut" none [("drop", .dropGuard "gate")] 1 []),
    ("handle", .newHandle "handle" "cut" .weak),
    ("call", .newCall "call" (.handle "handle") (some { context := some "room" }))]

/-- The world in which the call is about to be run. -/
def world : World :=
  (prepare Session.driver (Session.start (some .warn))).2

/-- The world that the callable has left. -/
def inner : World :=
  (invokeFor (embedder (performer 2)) ⟨0⟩ (world.callableOf ⟨0⟩) none Session.driver
    (world.entered Session.driver ⟨0⟩)).2

/-- The run warns that its install was taken along, in so many words, because the callable gave up a
guard beneath it. -/
theorem run_warns_of_cut : ∃ before between,
    Course (.start (some .warn)) before ⟨world, 0⟩ ∧ CutBeneath Session.driver before between ∧
    (run (embedder (performer 2)) ⟨0⟩ none Session.driver world).2.eventsOf Session.driver =
      inner.eventsOf Session.driver ++ [(GuardWarning.unwound 0).event] := by
  obtain ⟨before, course⟩ := lawful_script (performer_lawful 1) _ (Session.ready_start (some .warn))
  obtain ⟨_, _, runs⟩ := misuse_of_guards_is_reported (w := world) course (t := Session.driver)
    (by decide +kernel) (by rw [course.size_told]; decide +kernel)
  obtain ⟨⟨between, running⟩, reports⟩ := runs (embedder (performer 2)) ⟨0⟩ none
    (embedder_lawful (performer_lawful 2)) (by decide +kernel)
    (by decide +kernel) (by decide +kernel)
  have warning : ((inner.contextStack Session.driver).dropGuard
      (world.runGuard Session.driver)).warning = some (.unwound 0) := by decide +kernel
  have logged : inner.logged [(GuardWarning.unwound 0).event] =
      [(GuardWarning.unwound 0).event] := by decide +kernel
  have report : world.ReportsRun inner _ Session.driver ⟨0⟩ before between :=
    reports between running
  refine ⟨before, between, course, report.unwound.mp (warning.trans ?_), ?_⟩
  · decide +kernel
  · rw [report.events, warning]
    exact congrArg _ logged

end Cut

end DeferredCalls
