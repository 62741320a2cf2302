import DeferredCalls.Proofs.Performing

/-!
# Runs restore the context

A callable is entered under the context that its call was bound to when it was built. Whatever the
callable and the sink do, the installs beneath the one of the run stay what they were for as long as
that one is active; so when the run leaves, it brings back the stack of contexts that it found. If
its install was ended in the meantime, the run leaves the stack alone.
-/

namespace DeferredCalls

open Holding Moment

namespace ContextStack

variable {s : ContextStack} {t : ThreadId} {op : Operation} {ops : List Operation} {n : Nat}
  {token : Token} {below : List Token} {g : Guard}

/-! ## Tokens are older than the number of installs -/

/-- Tokens were handed out by installs that were made. -/
def Numbered (s : ContextStack) : Prop :=
  ∀ x ∈ s.active, x.toNat < s.installs

theorem installs_le_after : s.installs ≤ (s.after t op).installs := by
  cases op with
  | install u snapshot =>
    simp only [after]
    split
    · exact Nat.le_succ _
    · exact Nat.le_refl _
  | dropGuard u g =>
    simp only [after]
    split
    · by_cases active : g.token ∈ s.active
      · obtain ⟨_, _, _, _, stack, _⟩ := dropGuard_of_mem active
        rw [stack]
      · rw [dropGuard_of_not_mem active]
    · exact Nat.le_refl _
  | _ => exact Nat.le_refl _

theorem installs_le_foldl : s.installs ≤ (ops.foldl (after t) s).installs := by
  induction ops generalizing s with
  | nil => exact Nat.le_refl _
  | cons op ops ih => exact Nat.le_trans installs_le_after ih

theorem Numbered.after (numbered : s.Numbered) : (s.after t op).Numbered := by
  cases op with
  | install u snapshot =>
    simp only [ContextStack.after]
    split
    · intro x member
      rcases List.mem_cons.mp member with rfl | old
      · rw [nextToken, UInt64.toNat_ofNat']
        exact Nat.lt_succ_of_le (Nat.mod_le _ _)
      · exact Nat.lt_succ_of_lt (numbered x old)
    · exact numbered
  | dropGuard u g =>
    simp only [ContextStack.after]
    split
    · by_cases active : g.token ∈ s.active
      · obtain ⟨above, below, split, _, stack, _⟩ := dropGuard_of_mem active
        rw [stack]
        intro x member
        refine numbered x ?_
        rw [split]
        exact List.mem_append_right _ (List.mem_cons_of_mem _ member)
      · rw [dropGuard_of_not_mem active]
        exact numbered
    · exact numbered
  | _ => exact numbered

theorem Numbered.foldl (numbered : s.Numbered) : (ops.foldl (ContextStack.after t) s).Numbered := by
  induction ops generalizing s with
  | nil => exact numbered
  | cons op ops ih => exact ih numbered.after

theorem Numbered.fresh (numbered : s.Numbered) (few : s.installs < 2 ^ 64) :
    s.nextToken ∉ s.active := by
  intro member
  have older := numbered _ member
  rw [nextToken, UInt64.toNat_ofNat', Nat.mod_eq_of_lt few] at older
  exact Nat.lt_irrefl _ older

/-! ## What lies beneath an install -/

/-- As long as a token is active, these are the ones beneath it. -/
def Rests (s : ContextStack) (token : Token) (below : List Token) : Prop :=
  token ∈ s.active → ∃ above, token ∉ above ∧ s.active = above ++ token :: below

theorem Rests.install (rests : s.Rests (.ofNat n) below) (older : n < s.installs)
    (few : s.installs < 2 ^ 64) (snapshot : Snapshot) :
    (s.install snapshot).Rests (.ofNat n) below := by
  have other : UInt64.ofNat n ≠ s.nextToken := by
    intro same
    have numbers := congrArg UInt64.toNat same
    rw [nextToken, UInt64.toNat_ofNat', UInt64.toNat_ofNat', Nat.mod_eq_of_lt few,
      Nat.mod_eq_of_lt (Nat.lt_trans older few)] at numbers
    exact Nat.ne_of_lt older numbers
  intro active
  have before : UInt64.ofNat n ∈ s.active := (List.mem_cons.mp active).resolve_left other
  obtain ⟨above, apart, split⟩ := rests before
  refine ⟨s.nextToken :: above, ?_, congrArg _ split⟩
  exact fun member => (List.mem_cons.mp member).elim other apart

theorem Rests.dropGuard (rests : s.Rests token below) (fresh : token ∉ below) (g : Guard) :
    (s.dropGuard g).stack.Rests token below := by
  by_cases active : g.token ∈ s.active
  · obtain ⟨above', below', split', _, stack, _⟩ := dropGuard_of_mem active
    rw [stack]
    intro member
    have inner : token ∈ below' := member
    obtain ⟨above, apart, split⟩ := rests (by
      rw [split']
      exact List.mem_append_right _ (List.mem_cons_of_mem _ inner))
    rw [split] at split'
    -- The dropped install lies above the token, since the token is still active.
    rcases List.append_eq_append_iff.mp split' with ⟨c, rfl, tail⟩ | ⟨c, rfl, tail⟩
    · cases c with
      | nil =>
        obtain ⟨_, rfl⟩ := List.cons.inj tail
        exact absurd inner fresh
      | cons x c =>
        have under : below = c ++ g.token :: below' := (List.cons.inj tail).2
        rw [under] at fresh
        exact absurd (List.mem_append_right _ (List.mem_cons_of_mem _ inner)) fresh
    · cases c with
      | nil =>
        obtain ⟨_, rfl⟩ := List.cons.inj tail
        exact absurd inner fresh
      | cons x c =>
        have under : below' = c ++ token :: below := (List.cons.inj tail).2
        refine ⟨c, fun inside => apart ?_, under⟩
        exact List.mem_append_right _ (List.mem_cons_of_mem _ inside)
  · rw [dropGuard_of_not_mem active]
    exact rests

theorem Rests.after (rests : s.Rests (.ofNat n) below) (older : n < s.installs)
    (fresh : UInt64.ofNat n ∉ below) (few : (s.after t op).installs ≤ 2 ^ 64) :
    (s.after t op).Rests (.ofNat n) below := by
  cases op with
  | install u snapshot =>
    simp only [ContextStack.after] at few ⊢
    split at few
    · next same =>
      rw [if_pos same]
      exact rests.install older few snapshot
    · next other =>
      rw [if_neg other]
      exact rests
  | dropGuard u g =>
    simp only [ContextStack.after]
    split
    · exact rests.dropGuard fresh g
    · exact rests
  | _ => exact rests

/-- Whatever operations are performed, the installs beneath an active one stay what they were. -/
theorem Rests.foldl (rests : s.Rests (.ofNat n) below) (older : n < s.installs)
    (fresh : UInt64.ofNat n ∉ below)
    (few : (ops.foldl (ContextStack.after t) s).installs ≤ 2 ^ 64) :
    (ops.foldl (ContextStack.after t) s).Rests (.ofNat n) below := by
  induction ops generalizing s with
  | nil => exact rests
  | cons op ops ih =>
    have first := rests.after older fresh (Nat.le_trans installs_le_foldl few)
    exact ih first (Nat.lt_of_lt_of_le older installs_le_after) few

/-- Giving up the guard of an active install leaves the installs beneath it. -/
theorem Rests.dropGuard_eq (rests : s.Rests g.token below) (fresh : g.token ∉ below)
    (active : g.token ∈ s.active) :
    (s.dropGuard g).stack = { s with ambient := g.previous, active := below } := by
  obtain ⟨above, apart, split⟩ := rests active
  obtain ⟨above', below', split', _, stack, _⟩ := dropGuard_of_mem active
  rw [split] at split'
  obtain ⟨_, _, rfl⟩ := (List.append_cons_inj_of_notMem apart fresh).mp split'
  exact stack

end ContextStack

/-! ## Entering and leaving -/

section Runs

variable {w w' w₁ : World} {t : ThreadId} {c : CallId} {H : Multiset Holding}

theorem contextStack_entered (ready : Ready ⟨w, H⟩ t) (used : 0 < w.calls.shares c)
    (there : w.callExists c = true) : (w.entered t c).contextStack t =
      (w.contextStack t).install (w.calls.get c).context := by
  rw [((course_entered ready used there).follows ready.consistent).contextStack t]
  exact if_pos rfl

theorem contextStack_exited (ready : Ready ⟨w, H⟩ t) (used : 0 < w.calls.shares c)
    (there : w.callExists c = true) (after : Ready ⟨w₁, w.runHeld t c H⟩ t) :
    (w.exited w₁ t c).contextStack t = ((w₁.contextStack t).dropGuard (w.runGuard t)).stack := by
  rw [((course_exited ready used there after).follows after.consistent).contextStack t]
  exact if_pos rfl

/-- A call is bound to the context that its builder was given, or else to the ambient one. -/
theorem context_build {b : CallBuilder} (handle : ∀ k ∈ b.handle.shares, 0 < w.shareCount k)
    (context : ∀ k ∈ (b.context.getD (w.ambient t)).shares, 0 < w.shareCount k) :
    (w.build t b).1.index < (w.build t b).2.calls.size ∧
    ((w.build t b).2.calls.get (w.build t b).1).context = b.context.getD (w.ambient t) := by
  have alive : ∀ k ∈ b.handle.shares ++ (b.context.getD (w.ambient t)).shares,
      0 < w.shareCount k := fun k member => (List.mem_append.mp member).elim (handle k) (context k)
  have count := (World.keeps_acquireAll alive).callCount
  have next : (w.acquireAll (b.handle.shares ++ (b.context.getD (w.ambient t)).shares)).calls.next =
      w.calls.next := congrArg Ref.mk count
  simp only [World.build, Call.shares]
  rw [(World.keeps_log ..).callCount, (World.keeps_log ..).call, Arena.size_push, Arena.get_push,
    if_pos next.symm]
  refine ⟨?_, rfl⟩
  rw [count]
  exact Nat.lt_succ_self _

/-- Calls stay bound to their contexts. -/
theorem Course.context_eq {m m' : Moment} {ops : List Operation} (h : m.Consistent)
    (course : Course m ops m') (known : c.index < m.world.calls.size) :
    (m'.world.calls.get c).context = (m.world.calls.get c).context := by
  obtain ⟨dead, same, _⟩ := (course.follows h).call c known
  rw [same]

theorem Course.numbered {verbosity : Verbosity} {m : Moment} {ops : List Operation}
    (course : Course (.start verbosity) ops m) (t : ThreadId) :
    (m.world.contextStack t).Numbered := by
  rw [course.contextStack_eq t]
  apply ContextStack.Numbered.foldl
  intro x member
  contradiction

theorem contextStack_build {b : CallBuilder} (handle : ∀ k ∈ b.handle.shares, 0 < w.shareCount k)
    (context : ∀ k ∈ (b.context.getD (w.ambient t)).shares, 0 < w.shareCount k) (u : ThreadId) :
    (w.build t b).2.contextStack u = w.contextStack u := by
  have alive : ∀ k ∈ b.handle.shares ++ (b.context.getD (w.ambient t)).shares,
      0 < w.shareCount k := fun k member => (List.mem_append.mp member).elim (handle k) (context k)
  simp only [World.build, Call.shares]
  rw [(World.keeps_log ..).contextStack]
  exact (World.keeps_acquireAll alive).contextStack

/-- Wherever and whenever a call is run, it is still bound to what its builder bound it to. -/
theorem bound_of_build {verbosity : Verbosity} {before later : List Operation} {w₀ : World}
    {H₀ : Multiset Holding} {u : ThreadId} {b : CallBuilder}
    (course : Course (.start verbosity) before ⟨w₀, H₀⟩) (inside₀ : u.index < w₀.threads.size)
    (handle : ∀ k ∈ b.handle.shares, 0 < w₀.shareCount k)
    (context : ∀ s, b.context = some s → ∀ k ∈ s.shares, 0 < w₀.shareCount k)
    (built : (w₀.build u b).1 = c)
    (lasting : Course ⟨(w₀.build u b).2, share (.call c) ::ₘ H₀⟩ later ⟨w, H⟩)
    (inside : t.index < w.threads.size) :
    Ready ⟨w, H⟩ t ∧ (w.contextStack t).Numbered ∧
      (w.calls.get c).context = b.context.getD (w₀.ambient u) := by
  have atBuild : Ready ⟨w₀, H₀⟩ u := ⟨course.consistent (consistent_start verbosity), inside₀⟩
  have alive := Act.alive_of_builder atBuild context
  have after : Moment.Consistent ⟨(w₀.build u b).2, share (.call c) ::ₘ H₀⟩ :=
    built ▸ atBuild.consistent.build handle alive
  obtain ⟨known, bound⟩ := context_build (t := u) handle alive
  rw [built] at known bound
  refine ⟨⟨lasting.consistent after, inside⟩, ?_, (lasting.context_eq after known).trans bound⟩
  have numbered : ((w₀.build u b).2.contextStack t).Numbered := by
    rw [contextStack_build handle alive]
    exact course.numbered t
  rw [(lasting.follows after).contextStack t]
  exact numbered.foldl

/-- While the install of a run is active, the installs beneath it are those that the run found. -/
theorem rests_of_course {ops : List Operation} {w₁ : World} {K : Multiset Holding}
    (ready : Ready ⟨w, H⟩ t) (numbered : (w.contextStack t).Numbered)
    (used : 0 < w.calls.shares c) (there : w.callExists c = true)
    (course : Course ⟨w.entered t c, w.runHeld t c H⟩ ops ⟨w₁, K⟩)
    (few : (w₁.contextStack t).installs < 2 ^ 64) :
    (w.runGuard t).token ∉ (w.contextStack t).active ∧
    (w₁.contextStack t).Rests (w.runGuard t).token (w.contextStack t).active := by
  have entered := ready.after (course_entered ready used there)
  have eq := (course.follows entered.consistent).contextStack t
  rw [contextStack_entered ready used there] at eq
  have earlier : (w.contextStack t).installs + 1 ≤ (w₁.contextStack t).installs := by
    rw [eq]
    exact ContextStack.installs_le_foldl (s := (w.contextStack t).install _)
  have fresh := numbered.fresh (Nat.lt_trans earlier few)
  refine ⟨fresh, ?_⟩
  rw [eq] at few ⊢
  refine ContextStack.Rests.foldl ?_ (Nat.lt_succ_self _) fresh (Nat.le_of_lt few)
  intro _
  exact ⟨[], List.not_mem_nil, rfl⟩

end Runs

open Act

/-- Whatever context is ambient when a call is run, its callable is entered under the context that
the call was bound to when it was built, one level deeper. However the run ends, and whatever
callable and sink did, the run leaves the context and the installs that it found, provided that its
own install is still active; and if that was ended in the meantime, the run leaves the stack of
contexts as it is. -/
theorem run_restores_context {verbosity : Verbosity} {before later : List Operation}
    {w₀ w w₁ : World} {H₀ H : Multiset Holding} {u t : ThreadId} {b : CallBuilder} {c : CallId}
    {code : Embedder} (args : Option CallArgs) (lawful : code.Lawful)
    (course : Course (.start verbosity) before ⟨w₀, H₀⟩) (inside₀ : u.index < w₀.threads.size)
    (handle : ∀ k ∈ b.handle.shares, 0 < w₀.shareCount k)
    (context : ∀ s, b.context = some s → ∀ k ∈ s.shares, 0 < w₀.shareCount k)
    (built : (w₀.build u b).1 = c)
    (lasting : Course ⟨(w₀.build u b).2, share (.call c) ::ₘ H₀⟩ later ⟨w, H⟩)
    (inside : t.index < w.threads.size) (used : 0 < w.calls.shares c)
    (there : w.callExists c = true)
    (invoked : (invokeFor code c (w.callableOf c) args t (w.entered t c)).2 = w₁)
    (few : (w₁.contextStack t).installs < 2 ^ 64) :
    (w.entered t c).ambient t = b.context.getD (w₀.ambient u) ∧
    ((w.entered t c).contextStack t).depth = (w.contextStack t).depth + 1 ∧
    (run code c args t w).1 = (invokeFor code c (w.callableOf c) args t (w.entered t c)).1 ∧
    if (w.runGuard t).token ∈ (w₁.contextStack t).active then
      (run code c args t w).2.ambient t = w.ambient t ∧
      ((run code c args t w).2.contextStack t).active = (w.contextStack t).active
    else
      (run code c args t w).2.contextStack t = w₁.contextStack t := by
  obtain ⟨ready, numbered, context⟩ :=
    bound_of_build course inside₀ handle context built lasting inside
  have after := ready_invoked lawful args ready used there
  rw [invoked] at after
  obtain ⟨ops, invocation⟩ := lawful_invokeFor lawful (w.callableOf c) args (c := c)
    (ready.after (course_entered ready used there))
  rw [invoked] at invocation
  obtain ⟨fresh, rests⟩ := rests_of_course ready numbered used there invocation few
  have entered := contextStack_entered ready used there
  have exited := contextStack_exited ready used there after
  rw [run_of_exists there, invoked]
  refine ⟨?_, ?_, rfl, ?_⟩
  · rw [World.ambient, entered, ContextStack.ambient_install, context]
  · rw [entered, ContextStack.depth_install]
  split
  · next active =>
    rw [rests.dropGuard_eq fresh active] at exited
    rw [World.ambient, exited]
    exact ⟨rfl, rfl⟩
  · next ended =>
    rw [exited, ContextStack.dropGuard_of_not_mem ended]

namespace Visit

/-- A context is ambient. There is another one, a callable that installs it, keeps the guard and
fails, and a sink that refuses what it is handed. -/
def prepare : Act Unit := do
  let _ ← newContext "hall" "hall"
  let _ ← newContext "room" "room"
  let _ ← newCallable "visit" none [("install", .install "room" "door")] 1
    [.fail { description := "lost" }]
  let _ ← newSink "wall" .refusing
  let _ ← installNamed "hall" "gate"

/-- The call is bound to the context that is not ambient. -/
def builder : CallBuilder where
  handle := .strong ⟨0⟩
  context := some (.of ⟨1⟩)
  sink := some ⟨0⟩

/-- The world in which the call has been built. -/
def world : World :=
  ((prepare Session.driver (Session.start none)).2.build Session.driver builder).2

theorem prepare_lawful : prepare.Lawful := by
  apply (lawful_newContext _ _).bind
  intro _
  apply (lawful_newContext _ _).bind
  intro _
  apply (lawful_newCallable _ _ _ _ _).bind
  intro _
  apply (lawful_newSink _ _).bind
  intro _
  exact (lawful_installNamed _ _).bind fun _ => .pure ()

/-- The sink panics, and the callable leaves its guard behind: what was ambient is ambient again. -/
theorem context_after_panic :
    (run (embedder (performer 2)) ⟨0⟩ none Session.driver world).1.isOk = false ∧
    (run (embedder (performer 2)) ⟨0⟩ none Session.driver world).2.ambient Session.driver =
      .of ⟨0⟩ ∧
    ((run (embedder (performer 2)) ⟨0⟩ none Session.driver world).2.contextStack
      Session.driver).active = [0] := by
  obtain ⟨before, course⟩ := prepare_lawful (Session.ready_start none)
  have facts := run_restores_context (c := ⟨0⟩) (b := builder) none
    (embedder_lawful (performer_lawful 2)) course (u := Session.driver) (by decide) (by decide)
    (fun s given => by
      obtain rfl := Option.some.inj given
      decide) rfl (.refl _) (t := Session.driver) (by decide) (by decide) (by decide)
      rfl (by decide)
  obtain ⟨_, _, result, stack⟩ := facts
  rw [if_pos (by decide)] at stack
  exact ⟨by rw [world, result]; decide, stack.1, stack.2⟩

end Visit

end DeferredCalls
