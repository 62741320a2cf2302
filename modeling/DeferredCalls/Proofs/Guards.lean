import DeferredCalls.Proofs.History

/-!
# Guards in existence

Every install hands out a guard, and a guard is given up at most once, by who has it. In between it
is in somebody's hands or kept under a name. So the guards that exist on a thread are those that its
history says were not given up, and what is ambient is what the innermost active install made
ambient.
-/

namespace DeferredCalls

open Holding

/-- The guard of a thread that a holding is, if it is one. -/
def Holding.guard? (t : ThreadId) : Holding → Option Guard
  | guard u g => if u = t then some g else none
  | _ => none

/-- The guards of a thread that exist. -/
def Moment.guards (m : Moment) (t : ThreadId) : Multiset Guard :=
  (m.world.named + m.held).filterMap (guard? t)

/-- Whether an operation is not about the contexts of a thread. -/
def Operation.Spares (t : ThreadId) : Operation → Prop
  | .install u _ => u ≠ t
  | .dropGuard u _ => u ≠ t
  | _ => True

namespace World

variable {w w' : World} {t : ThreadId} {H H' : Multiset Holding}

/-! ## What is kept under names -/

theorem named_acquireAll {shares : List Share} (alive : ∀ k ∈ shares, 0 < w.shareCount k) :
    (w.acquireAll shares).named = w.named :=
  (keeps_acquireAll alive).named

theorem named_setContextStack {s : ContextStack} : (w.setContextStack t s).named = w.named := by
  apply named_onThread
  exact fun _ => rfl

theorem named_dropGuard {g : Guard} : (w.dropGuard t g).named = w.named := by
  rw [dropGuard, (keeps_releaseSnapshot ..).named, unguarded, named_setContextStack,
    (keeps_warnGuard ..).named]

theorem named_install {s : Snapshot} (alive : ∀ k ∈ s.shares, 0 < w.shareCount k) :
    (w.install t s).named = w.named := by
  rw [install, named_setContextStack, named_acquireAll alive]

theorem named_enterCall {c : CallId} : (w.enterCall t c).named = w.named := by
  rw [enterCall, named_onThread]
  · rfl
  · exact fun _ => rfl

theorem named_leaveCalls {level : Nat} : (w.leaveCalls t level).named = w.named := by
  rw [leaveCalls, (keeps_releaseCalls ..).named, shortened, named_onThread]
  exact fun _ => rfl

theorem named_pushThread (th : Thread) (bare : ∀ t, th.holdings t = 0) :
    { w with threads := w.threads.push th }.named = w.named := by
  simp only [named, Arena.total_push, bare, add_zero]

theorem named_build {b : CallBuilder} (handle : ∀ k ∈ b.handle.shares, 0 < w.shareCount k)
    (context : ∀ k ∈ (b.context.getD (w.ambient t)).shares, 0 < w.shareCount k) :
    (w.build t b).2.named = w.named := by
  have alive : ∀ k ∈ b.handle.shares ++ (b.context.getD (w.ambient t)).shares,
      0 < w.shareCount k := fun k member => (List.mem_append.mp member).elim (handle k) (context k)
  simp only [build, (keeps_log ..).named]
  exact named_acquireAll alive

theorem named_markDead {c : CallId} : (w.markDead t c).named = w.named := by
  rw [markDead]
  split
  · rfl
  · exact (keeps_log ..).named

theorem named_createLoop {settings : LoopSettings} :
    (w.createLoop t settings).2.named = w.named := by
  simp only [createLoop, (keeps_log ..).named]
  rw [named_onThread]
  · rfl
  · exact fun _ => rfl

theorem named_startLoopThread {settings : LoopSettings} :
    (w.startLoopThread settings).2.named = w.named := by
  simp only [startLoopThread, (keeps_log ..).named, named_createLoop]
  exact named_pushThread _ fun _ => rfl

theorem named_release {s : Share} (used : 0 < w.shareCount s) :
    (w.release t s).named = w.named := by
  by_cases lastLoop : ∃ l, s = .loop l ∧ w.loops.shares l = 1
  · obtain ⟨l, rfl, last⟩ := lastLoop
    obtain ⟨w', keeps, eq⟩ := w.release_last_loop t last
    rw [eq, named_onThread, keeps.named]
    · rfl
    · exact fun _ => rfl
  by_cases lastManual : ∃ m, s = .manual m ∧ w.manuals.shares m = 1
  · obtain ⟨m, rfl, last⟩ := lastManual
    exact (w.release_last_manual t last).named
  · exact (w.keeps_release t (fun l eq last => lastLoop ⟨l, eq, last⟩)
      (fun m eq last => lastManual ⟨m, eq, last⟩) used).named

theorem named_post {s : Scheduler} {task : Task} : (w.post t s task).2.named = w.named := by
  cases s with
  | loop l =>
    simp only [post, postToLoop]
    split
    · exact (keeps_releaseTask ..).named
    · exact (keeps_log ..).named
  | manual m =>
    simp only [post, postToManual]
    split
    · exact (keeps_releaseTask ..).named
    · rfl

theorem named_dequeue {l : LoopId} {task : Task} (taken : w.dequeue? l = some (task, w')) :
    w'.named = w.named := by
  obtain ⟨_, rest, _, rfl⟩ := of_dequeue? taken
  rfl

end World

/-! ## What steps do to guards -/

section Guards

variable {w w' : World} {m m' : Moment} {t u : ThreadId} {g : Guard} {H H' : Multiset Holding}
  {ops : List Operation}

theorem guards_of_named (named : w'.named = w.named)
    (held : H'.filterMap (guard? t) = H.filterMap (guard? t)) :
    Moment.guards ⟨w', H'⟩ t = Moment.guards ⟨w, H⟩ t := by
  simp only [Moment.guards, Multiset.filterMap_add, named, held]

/-- What is not a guard is of no account. -/
theorem guards_cons {h : Holding} (other : guard? t h = none) :
    Moment.guards ⟨w, h ::ₘ H⟩ t = Moment.guards ⟨w, H⟩ t := by
  simp only [Moment.guards, Multiset.filterMap_add, Multiset.filterMap_cons_none _ _ other]

theorem guards_cons_guard :
    Moment.guards ⟨w, guard t g ::ₘ H⟩ t = g ::ₘ Moment.guards ⟨w, H⟩ t := by
  have mine : guard? t (guard t g) = some g := if_pos rfl
  simp only [Moment.guards, Multiset.filterMap_add, Multiset.filterMap_cons_some _ _ _ mine,
    Multiset.add_cons]

theorem guards_cons_guard_of_ne (other : u ≠ t) :
    Moment.guards ⟨w, guard u g ::ₘ H⟩ t = Moment.guards ⟨w, H⟩ t :=
  guards_cons (if_neg other)

theorem guards_add_ofShares {shares : List Share} :
    Moment.guards ⟨w, ofShares shares + H⟩ t = Moment.guards ⟨w, H⟩ t := by
  induction shares with
  | nil => rw [ofShares_nil, zero_add]
  | cons s shares ih =>
    rw [ofShares_cons, Multiset.cons_add, guards_cons rfl, ih]

theorem guards_congr (named : w'.named = w.named) :
    Moment.guards ⟨w', H⟩ t = Moment.guards ⟨w, H⟩ t :=
  guards_of_named named rfl

theorem spares_releasing {s : Share} : ∀ op ∈ w.releasing s, op.Spares t := by
  intro op member
  unfold World.releasing at member
  split at member
  · split at member
    · obtain rfl := List.mem_singleton.mp member
      trivial
    · contradiction
  · split at member
    · obtain rfl := List.mem_singleton.mp member
      trivial
    · contradiction
  · contradiction

/-- What a step does to the guards of a thread: an install hands one out, giving one up takes it
away, and nothing else touches them. -/
theorem Step.guards (h : m.Consistent) (step : Step m ops m') (t : ThreadId) :
    (∃ s, ops = [.install t s] ∧
      m'.guards t = (m.world.contextStack t).nextGuard ::ₘ m.guards t) ∨
    (∃ g, ops = [.dropGuard t g] ∧ m.guards t = g ::ₘ m'.guards t) ∨
    ((∀ op ∈ ops, op.Spares t) ∧ m'.guards t = m.guards t) := by
  have aside : ∀ op ∈ ([] : List Operation), op.Spares t := fun _ member => nomatch member
  cases step with
  | quiet agrees moved => exact .inr (.inr ⟨aside, by rw [Moment.guards, moved]; rfl⟩)
  | acquire alive =>
    exact .inr (.inr
      ⟨aside, (guards_cons rfl).trans (guards_congr (World.keeps_acquire alive).named)⟩)
  | @release w H u k inside =>
    have named := World.named_release (t := u) h.balanced.shareCount_pos
    exact .inr (.inr ⟨spares_releasing, (guards_congr named).trans (guards_cons rfl).symm⟩)
  | @install w H u s inside alive =>
    have named := World.named_install (t := u) alive
    by_cases same : u = t
    · subst same
      exact .inl ⟨s, rfl, guards_cons_guard.trans (congrArg _ (guards_congr named))⟩
    · refine .inr (.inr ⟨fun op member => ?_, ?_⟩)
      · obtain rfl := List.mem_singleton.mp member
        exact same
      · exact (guards_cons_guard_of_ne same).trans (guards_congr named)
  | @dropGuard w H u g inside =>
    have named := World.named_dropGuard (w := w) (t := u) (g := g)
    by_cases same : u = t
    · subst same
      exact .inr (.inl ⟨g, rfl, guards_cons_guard.trans (congrArg _ (guards_congr named).symm)⟩)
    · refine .inr (.inr ⟨fun op member => ?_, ?_⟩)
      · obtain rfl := List.mem_singleton.mp member
        exact same
      · exact (guards_congr named).trans (guards_cons_guard_of_ne same).symm
  | enter inside alive =>
    exact .inr (.inr ⟨aside, (guards_cons rfl).trans (guards_congr World.named_enterCall)⟩)
  | leave inside top =>
    exact .inr (.inr ⟨aside, (guards_congr World.named_leaveCalls).trans (guards_cons rfl).symm⟩)
  | newContext x => exact .inr (.inr ⟨aside, (guards_cons rfl).trans (guards_congr rfl)⟩)
  | newCallable x => exact .inr (.inr ⟨aside, (guards_cons rfl).trans (guards_congr rfl)⟩)
  | newManual empty => exact .inr (.inr ⟨aside, (guards_cons rfl).trans (guards_congr rfl)⟩)
  | newThread name =>
    exact .inr (.inr ⟨aside, guards_congr (World.named_pushThread { name } fun _ => rfl)⟩)
  | build made handle context =>
    have named := World.named_build handle context
    exact .inr (.inr ⟨aside, (guards_cons rfl).trans (guards_congr named)⟩)
  | markDead u c => exact .inr (.inr ⟨aside, guards_congr World.named_markDead⟩)
  | createLoop settings inside =>
    exact .inr (.inr ⟨aside, (guards_cons rfl).trans (guards_congr World.named_createLoop)⟩)
  | startLoopThread settings =>
    exact .inr (.inr ⟨aside, guards_congr World.named_startLoopThread⟩)
  | beginTurn inside idle working =>
    refine .inr (.inr ⟨aside, (guards_cons rfl).trans (guards_congr (World.named_onThread ?_))⟩)
    exact fun _ => rfl
  | endTurn inside =>
    refine .inr (.inr
      ⟨aside, (guards_congr (World.named_onThread ?_)).trans (guards_cons rfl).symm⟩)
    exact fun _ => rfl
  | finish inside serves idle working =>
    refine .inr (.inr ⟨aside, (guards_cons rfl).trans (guards_congr (World.named_onThread ?_))⟩)
    exact fun _ => rfl
  | post there =>
    refine .inr (.inr ⟨fun op member => ?_, ?_⟩)
    · obtain rfl := List.mem_singleton.mp member
      trivial
    · exact (guards_congr World.named_post).trans guards_add_ofShares.symm
  | start taken =>
    refine .inr (.inr ⟨fun op member => ?_, ?_⟩)
    · obtain rfl := List.mem_singleton.mp member
      trivial
    · exact guards_add_ofShares.trans (guards_congr (World.named_dequeue taken))
  | takeAll alive =>
    refine .inr (.inr ⟨fun op member => ?_, ?_⟩)
    · obtain ⟨task, _, rfl⟩ := List.mem_map.mp member
      trivial
    · exact guards_add_ofShares.trans (guards_congr rfl)
  | shutdown u l =>
    refine .inr (.inr ⟨fun op member => ?_, ?_⟩)
    · obtain rfl := List.mem_singleton.mp member
      trivial
    · exact guards_congr (World.keeps_log ..).named

/-! ## Courses and histories -/

theorem History.after_of_spares {op : Operation} (spares : op.Spares t) (h : History) :
    h.after t op = h := by
  cases op with
  | install u s => exact if_neg spares
  | dropGuard u g => exact if_neg spares
  | _ => rfl

theorem ContextStack.after_of_spares {op : Operation} (spares : op.Spares t) (s : ContextStack) :
    s.after t op = s := by
  cases op with
  | install u snapshot => exact if_neg spares
  | dropGuard u g => exact if_neg spares
  | _ => rfl

theorem foldl_of_fixed {α β : Type} {f : β → α → β} {l : List α} {b : β}
    (fixed : ∀ a ∈ l, f b a = b) : l.foldl f b = b := by
  induction l with
  | nil => rfl
  | cons a l ih =>
    rw [List.foldl_cons, fixed a (List.mem_cons_self ..)]
    exact ih fun c member => fixed c (List.mem_cons_of_mem a member)

/-- Installs are never forgotten. -/
theorem History.size_after_le (h : History) (op : Operation) : h.size ≤ (h.after t op).size := by
  cases op with
  | install u s =>
    simp only [after]
    split
    · rw [size_install]
      exact Nat.le_succ _
    · exact Nat.le_refl _
  | dropGuard u g =>
    simp only [after]
    split
    · exact Nat.le_refl _
    · exact Nat.le_refl _
  | _ => exact Nat.le_refl _

theorem History.size_le_foldl (h : History) (ops : List Operation) :
    h.size ≤ (ops.foldl (after t) h).size := by
  induction ops generalizing h with
  | nil => exact Nat.le_refl _
  | cons op ops ih => exact Nat.le_trans (h.size_after_le op) (ih _)

/-- A stack of contexts counts the installs of its history. -/
theorem History.size_after {h : History} {s : ContextStack} (same : h.size = s.installs)
    (op : Operation) : (h.after t op).size = (s.after t op).installs := by
  cases op with
  | install u x =>
    simp only [after, ContextStack.after]
    split
    · rw [size_install, same]
      rfl
    · exact same
  | dropGuard u g =>
    simp only [after, ContextStack.after]
    split
    · by_cases active : g.token ∈ s.active
      · obtain ⟨_, _, _, _, stack, _⟩ := ContextStack.dropGuard_of_mem active
        rw [stack]
        exact same
      · rw [ContextStack.dropGuard_of_not_mem active]
        exact same
    · exact same
  | _ => exact same

theorem History.size_foldl {h : History} {s : ContextStack} (same : h.size = s.installs)
    (ops : List Operation) :
    (ops.foldl (after t) h).size = (ops.foldl (ContextStack.after t) s).installs := by
  induction ops generalizing h s with
  | nil => exact same
  | cons op ops ih => exact ih (size_after same op)

/-- What a step does to contexts and guards is what it does to the history. -/
theorem Step.matches {past : History} (h : m.Consistent) (step : Step m ops m') (t : ThreadId)
    (few : past.size ≤ 2 ^ 64) (fits : past.Matches (m.world.contextStack t) (m.guards t)) :
    (ops.foldl (History.after t) past).Matches (m'.world.contextStack t) (m'.guards t) := by
  rw [(step.follows h).contextStack t]
  rcases step.guards h t with ⟨s, rfl, guards⟩ | ⟨g, rfl, guards⟩ | ⟨spares, guards⟩
  · rw [guards]
    simpa [History.after, ContextStack.after] using fits.install s
  · rw [guards] at fits
    simpa [History.after, ContextStack.after] using fits.dropGuard few
  · rw [guards, foldl_of_fixed fun op member => History.after_of_spares (spares op member) past,
      foldl_of_fixed fun op member => ContextStack.after_of_spares (spares op member) _]
    exact fits

/-- At the start of a session no guard exists. -/
theorem guards_start (verbosity : Verbosity) : (Moment.start verbosity).guards t = 0 := by
  have bare : ∀ u, ({ name := some "driver" } : Thread).holdings u = 0 := fun _ => rfl
  have named : (Session.start verbosity).named = 0 := by
    simp only [World.named, Session.start, Arena.total_push, bare]
    rfl
  simp only [Moment.guards, Moment.start, named, add_zero, Multiset.filterMap_zero]

/-- The stack of contexts and the guards of a thread are what its history says, as long as fewer
installs were made than there are tokens. -/
theorem Course.matches {verbosity : Verbosity} (course : Course (.start verbosity) ops m)
    (t : ThreadId) (few : (History.told t ops).size ≤ 2 ^ 64) :
    (History.told t ops).Matches (m.world.contextStack t) (m.guards t) := by
  induction course with
  | refl =>
    rw [guards_start]
    exact (contextStack_start verbosity t).symm ▸ .empty
  | step before last ih =>
    rw [History.told, List.foldl_append] at few ⊢
    have earlier := Nat.le_trans (History.size_le_foldl _ _) few
    have consistent := before.consistent (consistent_start verbosity)
    exact last.matches consistent t earlier (ih earlier)

end Guards

end DeferredCalls
