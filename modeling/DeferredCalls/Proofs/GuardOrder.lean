import DeferredCalls.Proofs.Ambient

/-!
# Guards in any order

Guards need not be given up in the reverse order of their installs. What several guards leave, once
all of them were given up, does not depend on the order: the outermost of their installs that was
still active takes along all that were made after it, and the thread is back where it was just
before that install. Which of the guards came first shows only on the way there.
-/

namespace DeferredCalls

namespace History

variable {h h' : History} {n k : Nat} {ns ns' : List Nat}

/-! ## Several guards -/

/-- Gives up the guards of several installs, one after another. -/
def finishAll (h : History) (ns : List Nat) : History :=
  ns.foldl finish h

@[simp] theorem finishAll_cons : h.finishAll (n :: ns) = (h.finish n).finishAll ns := rfl

theorem installs_finishAll : (h.finishAll ns).installs = h.installs := by
  induction ns generalizing h with
  | nil => rfl
  | cons n ns ih => exact ih

theorem top_finishAll {ks : List Nat} : (h.finishAll ns).top ks = h.top ks := by
  have same : (h.finishAll ns).snapshot = h.snapshot := by
    funext n
    rw [snapshot, snapshot, installs_finishAll]
  rw [top, top, same]

/-- What stays active is what is neither one of those installs nor lies upon one of them. -/
theorem active_finishAll : (h.finishAll ns).active =
    h.active.filter fun k => ∀ n ∈ ns, k ≠ n ∧ n ∉ h.beneath k := by
  induction ns generalizing h with
  | nil => simp [finishAll]
  | cons n ns ih =>
    rw [finishAll_cons, ih, active_finish, List.filter_filter]
    apply List.filter_congr
    intro k _
    rw [Bool.eq_iff_iff, Bool.and_eq_true, decide_eq_true_iff, decide_eq_true_iff,
      decide_eq_true_iff, List.forall_mem_cons, and_comm]
    rfl

theorem active_finishAll_perm (order : ns.Perm ns') :
    (h.finishAll ns).active = (h.finishAll ns').active := by
  rw [active_finishAll, active_finishAll]
  apply List.filter_congr
  intro k _
  simp only [order.mem_iff]

/-- The outermost of the installs takes those along that lie upon it, and leaves those beneath
it. -/
theorem Nested.active_finishAll (nested : h.Nested) {above below : List Nat} (member : n ∈ ns)
    (split : h.active = above ++ n :: below) (lowest : ∀ k ∈ ns, k ∉ below) :
    (h.finishAll ns).active = below := by
  have upon : ∀ k ∈ above ++ [n], ¬ ∀ j ∈ ns, k ≠ j ∧ j ∉ h.beneath k := by
    intro k inside spared
    rcases List.mem_append.mp inside with higher | same
    · obtain ⟨front, back, rfl⟩ := List.append_of_mem higher
      have layer := nested.layers front k (back ++ n :: below) (by rw [split]; simp)
      exact (spared n member).2 (by simp [layer])
    · exact (spared n member).1 (List.mem_singleton.mp same)
  have under : ∀ k ∈ below, ∀ j ∈ ns, k ≠ j ∧ j ∉ h.beneath k := by
    intro k inside j ended
    obtain ⟨front, back, rfl⟩ := List.append_of_mem inside
    have layer := nested.layers (above ++ n :: front) k back (by rw [split]; simp)
    have apart := lowest j ended
    simp only [List.mem_append, List.mem_cons, not_or] at apart
    exact ⟨Ne.symm apart.2.1, by rw [layer]; exact apart.2.2⟩
  rw [History.active_finishAll, split, List.append_cons, List.filter_append,
    List.filter_eq_nil_iff.mpr fun k inside => by simpa using upon k inside, List.nil_append]
  exact List.filter_eq_self.mpr fun k inside => decide_eq_true (under k inside)

/-- Where none of the installs is active any more, nothing changes. -/
theorem Nested.active_finishAll_of_stale (nested : h.Nested) (stale : ∀ n ∈ ns, n ∉ h.active) :
    (h.finishAll ns).active = h.active := by
  rw [History.active_finishAll]
  refine List.filter_eq_self.mpr fun k inside => decide_eq_true fun n ended => ?_
  obtain ⟨above, below, split⟩ := List.append_of_mem inside
  have layer := nested.layers above k below split
  refine ⟨fun same => stale n ended (same ▸ inside), fun beneath => stale n ended ?_⟩
  rw [split]
  exact List.mem_append_right _ (List.mem_cons_of_mem k (layer ▸ beneath))

/-- A stack of contexts fits the history when guards in hand are given up, whichever they are. -/
theorem Matches.dropGuards {stack : ContextStack} {rest : Multiset Guard} {gs : List Guard}
    (fits : h.Matches stack (gs + rest)) (few : h.size ≤ 2 ^ 64) :
    (h.finishAll (gs.map (·.token.toNat))).Matches
      (gs.foldl (fun s g => (s.dropGuard g).stack) stack) rest := by
  induction gs generalizing h stack with
  | nil => simpa [finishAll] using fits
  | cons g gs ih =>
    rw [← Multiset.cons_coe, Multiset.cons_add] at fits
    exact ih (fits.dropGuard few) few

/-- What a stack of contexts is follows from the installs and from which of them are active. -/
theorem Matches.stack_eq {stack stack' : ContextStack} {guards guards' : Multiset Guard}
    (fits : h.Matches stack guards) (fits' : h'.Matches stack' guards')
    (installs : h.installs = h'.installs) (active : h.active = h'.active) : stack = stack' := by
  have snapshots : h.snapshot = h'.snapshot := by
    funext n
    rw [snapshot, snapshot, installs]
  have ambient : stack.ambient = stack'.ambient := by
    rw [fits.ambient, fits'.ambient, History.ambient, History.ambient, top, top, active, snapshots]
  have tokens : stack.active = stack'.active := by rw [fits.active, fits'.active, active]
  have count : stack.installs = stack'.installs := by
    rw [fits.installs, fits'.installs, size, size, installs]
  calc stack = ⟨stack.ambient, stack.active, stack.installs⟩ := rfl
    _ = ⟨stack'.ambient, stack'.active, stack'.installs⟩ := by rw [ambient, tokens, count]
    _ = stack' := rfl

/-- A guard that exists is active if and only if its install is. -/
theorem Matches.token_mem_active {stack : ContextStack} {guards : Multiset Guard} {g : Guard}
    (fits : h.Matches stack guards) (few : h.size ≤ 2 ^ 64) (member : g ∈ guards) :
    g.token ∈ stack.active ↔ g.token.toNat ∈ h.active := by
  obtain ⟨n, known, _, rfl⟩ := fits.exists_guard member
  rw [token_guard few known]
  exact fits.mem_active_iff few known

/-! ## The moment of an install -/

theorem guard_install_size {s : Snapshot} :
    (h.install s).guard h.size = ⟨h.ambient, .ofNat h.size⟩ := by
  rw [guard, beneath_install_size, top_install fun _ => lt_size_of_mem_active, ambient]

theorem told_install {t : ThreadId} {s : Snapshot} {before after : List Operation} :
    told t (before ++ .install t s :: after) =
      after.foldl (History.after t) ((told t before).install s) := by
  rw [told, List.foldl_append, List.foldl_cons, ← told, History.after, if_pos rfl]

/-- A history that goes on from another one. -/
structure Continues (h h' : History) : Prop where
  size : h.size ≤ h'.size
  snapshot : ∀ n < h.size, h'.snapshot n = h.snapshot n
  beneath : ∀ n < h.size, h'.beneath n = h.beneath n

theorem Continues.after (goes : h.Continues h') (t : ThreadId) (op : Operation) :
    h.Continues (h'.after t op) := by
  cases op with
  | install u s =>
    simp only [History.after]
    split
    · refine ⟨Nat.le_trans goes.size (by simp), fun n old => ?_, fun n old => ?_⟩
      · rw [snapshot_install (Nat.lt_of_lt_of_le old goes.size), goes.snapshot n old]
      · rw [beneath_install (Nat.lt_of_lt_of_le old goes.size), goes.beneath n old]
    · exact goes
  | dropGuard u g =>
    simp only [History.after]
    split
    · exact ⟨goes.size, goes.snapshot, goes.beneath⟩
    · exact goes
  | _ => exact goes

theorem Continues.foldl (goes : h.Continues h') (t : ThreadId) (ops : List Operation) :
    h.Continues (ops.foldl (History.after t) h') := by
  induction ops generalizing h' with
  | nil => exact goes
  | cons op ops ih => exact ih (goes.after t op)

/-- A guard stays the one of its install. -/
theorem Continues.guard_eq (goes : h.Continues h') (nested : h.Nested) (old : n < h.size) :
    h'.guard n = h.guard n := by
  have same : h'.top (h.beneath n) = h.top (h.beneath n) := by
    match lower : h.beneath n with
    | [] => rfl
    | k :: _ =>
      have earlier := nested.earlier n old k (lower ▸ List.mem_cons_self ..)
      simp only [top, List.head?_cons, Option.map_some,
        goes.snapshot k (Nat.lt_trans earlier old)]
  rw [guard, guard, goes.beneath n old, same]

/-- Every install of a history was made at some point of what is told. -/
theorem exists_install {t : ThreadId} {ops : List Operation} (known : n < (told t ops).size) :
    ∃ before s after, ops = before ++ .install t s :: after ∧ (told t before).size = n := by
  induction ops using List.reverseRecOn with
  | nil => exact absurd known (Nat.not_lt_zero n)
  | append_singleton ops op ih =>
    by_cases old : n < (told t ops).size
    · obtain ⟨before, s, after, rfl, size⟩ := ih old
      exact ⟨before, s, after ++ [op], by simp, size⟩
    · rw [told, List.foldl_append, ← told] at known
      -- Only an install of the thread makes the history longer.
      cases op with
      | install u s =>
        simp only [List.foldl_cons, List.foldl_nil, after] at known
        split at known
        · next same =>
          subst same
          rw [size_install] at known
          exact ⟨ops, s, [], rfl, by omega⟩
        · contradiction
      | dropGuard u g =>
        simp only [List.foldl_cons, List.foldl_nil, after] at known
        split at known
        · contradiction
        · contradiction
      | _ => contradiction

end History

/-! ## Giving up guards on a thread -/

namespace World

variable {w : World} {t : ThreadId}

/-- Gives up several guards, one after another. -/
def dropGuards (w : World) (t : ThreadId) (gs : List Guard) : World :=
  gs.foldl (fun w g => w.dropGuard t g) w

theorem contextStack_dropGuards {gs : List Guard} : (w.dropGuards t gs).contextStack t =
    gs.foldl (fun s g => (s.dropGuard g).stack) (w.contextStack t) := by
  induction gs generalizing w with
  | nil => rfl
  | cons g gs ih =>
    have first : (w.dropGuard t g).contextStack t = ((w.contextStack t).dropGuard g).stack := by
      rcases Nat.lt_or_ge t.index w.threads.size with inside | outside
      · exact contextStack_dropGuard inside
      · rw [contextStack_of_outside outside, contextStack_of_outside]
        · rfl
        · rwa [size_threads_dropGuard]
    rw [List.foldl_cons, ← first]
    exact ih

end World

section Courses

variable {m m' : Moment} {ops : List Operation} {t : ThreadId}

/-- A course in which a snapshot is installed goes through the moments before and after that. -/
theorem Course.at_install (h : m.Consistent) (course : Course m ops m') {s : Snapshot}
    {before after : List Operation} (told : ops = before ++ .install t s :: after) :
    ∃ m₀ m₁, Course m before m₀ ∧ Step m₀ [.install t s] m₁ ∧ Course m₁ after m' := by
  induction course generalizing after with
  | refl => simp at told
  | @step k k' ops more earlier last ih =>
    -- Nothing else is told of a step in which something is installed.
    have final (c : List Operation) (whole : before = ops ++ c)
        (rest : more = c ++ .install t s :: after) :
        ∃ m₀ m₁, Course m before m₀ ∧ Step m₀ [.install t s] m₁ ∧ Course m₁ after k' := by
      have member : Operation.install t s ∈ more := by simp [rest]
      have alone : more = [.install t s] := by
        rcases last.guards (earlier.consistent h) t with ⟨s', rfl, _⟩ | ⟨g, rfl, _⟩ | ⟨spares, _⟩
        · rw [List.mem_singleton.mp member]
        · simp at member
        · exact absurd rfl (spares _ member)
      subst alone
      cases c with
      | nil =>
        obtain rfl : after = [] := by simpa using rest.symm
        rw [whole, List.append_nil]
        exact ⟨k, k', earlier, last, .refl _⟩
      | cons => simp at rest
    rcases List.append_eq_append_iff.mp told with ⟨c, whole, rest⟩ | ⟨c, earlierTold, rest⟩
    · exact final c whole rest
    cases c with
    | nil => exact final [] (by simpa using earlierTold.symm) rest.symm
    | cons op c =>
      obtain ⟨rfl, rfl⟩ := List.cons.inj rest
      obtain ⟨m₀, m₁, first, install, others⟩ := ih earlierTold
      exact ⟨m₀, m₁, first, install, others.step last⟩

/-- An install that was made, and the moment before: what was ambient then, and which installs were
active. -/
theorem Course.before_install {verbosity : Verbosity} (course : Course (.start verbosity) ops m)
    (few : (History.told t ops).size ≤ 2 ^ 64) {n : Nat} (known : n < (History.told t ops).size) :
    ∃ before s after m₀, ops = before ++ .install t s :: after ∧
      Course (.start verbosity) before m₀ ∧
      (History.told t ops).guard n = (m₀.world.contextStack t).nextGuard ∧
      (m₀.world.contextStack t).active = ((History.told t ops).beneath n).map .ofNat := by
  obtain ⟨before, s, after, rfl, rfl⟩ := History.exists_install known
  obtain ⟨m₀, _, first, _, _⟩ := course.at_install (consistent_start verbosity) rfl
  have earlier := Nat.le_trans (Nat.le_of_lt known) few
  have fits := first.matches t earlier
  have goes := (History.Continues.mk (Nat.le_refl _) (fun _ _ => rfl) fun _ _ => rfl :
    ((History.told t before).install s).Continues _).foldl t after
  have newest : (History.told t before).size < ((History.told t before).install s).size := by simp
  rw [← History.told_install] at goes
  refine ⟨before, s, after, m₀, rfl, first, ?_, ?_⟩
  · rw [goes.guard_eq fits.nested.install newest, History.guard_install_size,
      ContextStack.nextGuard, ContextStack.nextToken, fits.ambient, fits.installs]
  · rw [goes.beneath _ newest, History.beneath_install_size, fits.active]

end Courses

/-- Guards of a thread that exist can be given up in any order: with no install in between, the
stack of contexts that they leave is the same. It is what it was just before the install was made
that is the outermost one among those of the guards that are still active; and if none of them is
active any more, it stays as it is. -/
theorem guards_in_any_order {verbosity : Verbosity} {ops : List Operation} {m : Moment}
    (course : Course (.start verbosity) ops m) (t : ThreadId)
    (few : (History.told t ops).size < 2 ^ 64) {gs gs' : List Guard}
    (live : (gs : Multiset Guard) ≤ m.guards t) (order : gs.Perm gs') :
    let stack := m.world.contextStack t
    let left := (m.world.dropGuards t gs).contextStack t
    (m.world.dropGuards t gs').contextStack t = left ∧
    ((∀ g ∈ gs, g.token ∉ stack.active) → left = stack) ∧
    ∀ above g below, g ∈ gs → stack.active = above ++ g.token :: below →
      (∀ g' ∈ gs, g'.token ∉ below) →
      ∃ before s after m₀, ops = before ++ .install t s :: after ∧
        Course (.start verbosity) before m₀ ∧ g = (m₀.world.contextStack t).nextGuard ∧
        left.ambient = m₀.world.ambient t ∧
        left.active = (m₀.world.contextStack t).active := by
  intro stack left
  have few := Nat.le_of_lt few
  have fits := course.matches t few
  have exists_ : ∀ g ∈ gs, g ∈ m.guards t := fun g member =>
    Multiset.mem_of_le live (Multiset.mem_coe.mpr member)
  have dropped {hs : List Guard} (same : hs.Perm gs) : ∃ rest,
      ((History.told t ops).finishAll (hs.map (·.token.toNat))).Matches
        ((m.world.dropGuards t hs).contextStack t) rest := by
    obtain ⟨rest, parts⟩ := Multiset.le_iff_exists_add.mp live
    rw [parts, ← Multiset.coe_eq_coe.mpr same] at fits
    rw [World.contextStack_dropGuards]
    exact ⟨rest, fits.dropGuards few⟩
  obtain ⟨rest, after⟩ := dropped (.refl gs)
  obtain ⟨rest', after'⟩ := dropped order.symm
  refine ⟨?_, ?_, ?_⟩
  · refine after'.stack_eq after ?_ (History.active_finishAll_perm (order.symm.map _))
    rw [History.installs_finishAll, History.installs_finishAll]
  · intro stale
    refine after.stack_eq fits History.installs_finishAll ?_
    refine fits.nested.active_finishAll_of_stale fun n member => ?_
    obtain ⟨g, given, rfl⟩ := List.mem_map.mp member
    exact fun active => stale g given ((fits.token_mem_active few (exists_ g given)).mpr active)
  · intro above g below given split lowest
    obtain ⟨n, known, _, rfl⟩ := fits.exists_guard (exists_ g given)
    have number : (History.guard (History.told t ops) n).token.toNat = n :=
      History.token_guard few known
    -- The installs above and beneath, by their numbers.
    obtain ⟨above, n', below, active, same, rfl⟩ : ∃ above' n' below',
        (History.told t ops).active = above' ++ n' :: below' ∧
        UInt64.ofNat n' = ((History.told t ops).guard n).token ∧
        below'.map UInt64.ofNat = below := by
      obtain ⟨above', rest, eq, _, upper⟩ :=
        List.map_eq_append_iff.mp (fits.active.symm.trans split)
      obtain ⟨n', below', rfl, same, beneath⟩ := List.map_eq_cons_iff.mp upper
      exact ⟨above', n', below', eq, same, beneath⟩
    have active' : n' ∈ (History.told t ops).active := by simp [active]
    obtain rfl : n' = n := by
      rw [← number, ← same]
      exact (History.token_guard few (History.lt_size_of_mem_active active')).symm
    have layer : (History.told t ops).beneath n' = below := fits.nested.layers above n' below active
    have left_active := fits.nested.active_finishAll
      (List.mem_map.mpr ⟨_, given, number⟩) active fun k ended inside => by
        obtain ⟨g', given', rfl⟩ := List.mem_map.mp ended
        exact lowest g' given' (List.mem_map.mpr ⟨_, inside, UInt64.ofNat_toNat⟩)
    obtain ⟨before, s, later, m₀, told, earlier, guard, tokens⟩ := course.before_install few known
    refine ⟨before, s, later, m₀, told, earlier, guard, ?_, ?_⟩
    · have previous := congrArg Guard.previous guard
      change (History.told t ops).top ((History.told t ops).beneath n') = m₀.world.ambient t
        at previous
      rw [layer] at previous
      rw [after.ambient, History.ambient, left_active, History.top_finishAll, previous]
    · rw [after.active, left_active, tokens, layer]

/-- Of three installs, the guards of the second and the third are given up, the inner one first or
the outer one first: the first install is the only one that is left. -/
theorem stack_after_two_orders : ∃ m,
    Course (.start none)
      [.install Session.driver (.of ⟨0⟩), .install Session.driver (.of ⟨1⟩),
        .install Session.driver (.of ⟨0⟩)] m ∧
    (m.world.dropGuards Session.driver [⟨.of ⟨1⟩, 2⟩, ⟨.of ⟨0⟩, 1⟩]).contextStack Session.driver =
      (m.world.dropGuards Session.driver [⟨.of ⟨0⟩, 1⟩, ⟨.of ⟨1⟩, 2⟩]).contextStack Session.driver ∧
    ((m.world.dropGuards Session.driver [⟨.of ⟨0⟩, 1⟩, ⟨.of ⟨1⟩, 2⟩]).contextStack
      Session.driver).ambient = .of ⟨0⟩ := by
  have course : Course (.start none) [.install Session.driver (.of ⟨0⟩),
      .install Session.driver (.of ⟨1⟩), .install Session.driver (.of ⟨0⟩)] ⟨_, _⟩ :=
    .step (.step (.step (.step (.step (.refl _)
      (.newContext ⟨"hall", "hall"⟩))
      (.newContext ⟨"room", "room"⟩))
      (.install (t := Session.driver) (s := .of ⟨0⟩) (by decide) (by decide)))
      (.install (t := Session.driver) (s := .of ⟨1⟩) (by decide) (by decide)))
      (.install (t := Session.driver) (s := .of ⟨0⟩) (by decide) (by decide))
  have guards := (course.matches Session.driver (by decide)).guards
  have facts := guards_in_any_order course Session.driver (by decide)
    (show (([⟨.of ⟨0⟩, 1⟩, ⟨.of ⟨1⟩, 2⟩] : List Guard) : Multiset Guard) ≤ _ by
      rw [guards]
      decide)
    (.swap ..)
  obtain ⟨same, _, lowest⟩ := facts
  obtain ⟨_, _, _, _, _, _, guard, ambient, _⟩ := lowest [2] ⟨.of ⟨0⟩, 1⟩ [0]
    (List.mem_cons_self ..) (by decide) (by decide)
  exact ⟨_, course, same, ambient.trans (congrArg Guard.previous guard).symm⟩

end DeferredCalls
