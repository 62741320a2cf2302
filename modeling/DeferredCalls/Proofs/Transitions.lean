import DeferredCalls.Proofs.Ambient
import DeferredCalls.Proofs.Partings
import DeferredCalls.Proofs.Restoring

/-!
# Releases find finished transitions

Code of an embedder that runs when an object is released can look at everything, so the operation in
whose course the object goes must have done its part by then. A guard that is given up has brought
back what was ambient before. A run that leaves has done the same, then it has taken its call off
the stack, and then it gives up its callable. A loop that goes is closed and empty when its tasks
are given up, and its thread has its former current loop back only after them. And a scheduler that
rejects a task is as it was before.

Each of these operations is a change without releases, followed by a chain of shares that are given
up. The partings of the chain are looked at in the world that the change has left.
-/

namespace DeferredCalls

open Holding Moment Act

/-- An install with a token is active, and these tokens are beneath the innermost such one. -/
def ContextStack.StandsOn (s : ContextStack) (token : Token) (below : List Token) : Prop :=
  ∃ above, token ∉ above ∧ s.active = above ++ token :: below

/-- Giving up the guard of an active install leaves what it stands on. -/
theorem ContextStack.StandsOn.dropGuard_eq {s : ContextStack} {g : Guard} {below : List Token}
    (stands : s.StandsOn g.token below) :
    (s.dropGuard g).stack = { s with ambient := g.previous, active := below } := by
  obtain ⟨above, apart, split⟩ := stands
  rw [ContextStack.dropGuard, ContextStack.fromToken_of_split split apart]

namespace World

/-- A guard is given up: what it frees finds the stack of contexts as it is after that. -/
def DropsLate (w : World) (t : ThreadId) (g : Guard) (partings : List Parting) : Prop :=
  w.SameShares (w.unguarded t g) ∧
  (w.unguarded t g).GivesUp t ((w.contextStack t).dropGuard g).released.shares partings
    (w.dropGuard t g) ∧
  ∀ p ∈ partings, p.world.contextStack t = (w.dropGuard t g).contextStack t

/-- A run that began in one world leaves another one. It brings back the context, takes its call off
the stack, and gives up its callable. If its install is still active, whatever goes finds the
context and the depth of before the run; and what goes with the call or with the callable finds the
stack of calls of before the run. -/
def LeavesLate (w inner : World) (t : ThreadId) (c : CallId) : Prop :=
  let g := w.runGuard t
  let restored := inner.dropGuard t g
  let left := restored.leaveCalls t (w.callStack t).length
  ((inner.contextStack t).installs < 2 ^ 64 → (g.token ∈ (inner.contextStack t).active ↔
    (inner.contextStack t).StandsOn g.token (w.contextStack t).active)) ∧
  ∃ context calls callable, inner.DropsLate t g context ∧
    restored.SameShares (restored.shortened t (w.callStack t).length) ∧
    (restored.shortened t (w.callStack t).length).GivesUp t [.call c] calls left ∧
    left.GivesUp t [.callable (w.callableOf c)] callable (w.exited inner t c) ∧
    ((inner.contextStack t).StandsOn g.token (w.contextStack t).active →
      ∀ p ∈ context ++ calls ++ callable, p.world.ambient t = w.ambient t ∧
        (p.world.contextStack t).active = (w.contextStack t).active) ∧
    ∀ p ∈ calls ++ callable, p.world.callStack t = w.callStack t

/-- At some moment, whatever a thread can do that releases objects lets them go late: when the
transition in whose course they go is finished. -/
structure ReleasesLate (w : World) (H : Multiset Holding) (t : ThreadId) : Prop where
  /-- Whatever guard it is, and however late it is given up. -/
  guard : ∀ g, Holding.guard t g ∈ H → ∃ partings, w.DropsLate t g partings
  /-- Whatever callables and sinks do, and however the run ends. -/
  run : ∀ code c args, Embedder.Lawful code → 0 < w.calls.shares c → w.callExists c = true →
    let inner := (invokeFor code c (w.callableOf c) args t (w.entered t c)).2
    (Act.run code c args t w).2 = w.exited inner t c ∧ w.LeavesLate inner t c
  /-- A call that goes gives up its callable before its context. -/
  call : ∀ c, share (.call c) ∈ H → w.calls.shares c = 1 → ∃ callable context between,
    (w.without (.call c)).GivesUp t (w.calls.get c).handle.shares callable between ∧
    between.GivesUp t (w.calls.get c).context.shares context (w.release t (.call c))
  /-- When the tasks of a loop go, in the order of its queue, the loop is closed and empty, and the
  current loop is still what it was. -/
  loop : ∀ l, share (.loop l) ∈ H → w.loops.shares l = 1 → ∃ partings given,
    (w.without (.loop l)).SameShares ((w.without (.loop l)).abandoned t l) ∧
    ((w.without (.loop l)).abandoned t l).GivesUp t (queueShares (w.loop l).queue) partings given ∧
    w.release t (.loop l) = given.onThread t (fun th =>
      { th with currentLoop := (w.loop l).previous }) ∧
    ∀ p ∈ partings, (p.world.loop l).closed = true ∧ (p.world.loop l).queue = [] ∧
      (p.world.thread t).currentLoop = (w.thread t).currentLoop
  /-- When a rejected task goes, all queues are as they were, and none is closed that was not. -/
  rejected : ∀ s task e, ofShares task.shares ≤ H → (w.post t s task).1 = .error e → ∃ partings,
    w.GivesUp t task.shares partings (w.post t s task).2 ∧
    ∀ p ∈ partings, (∀ l, p.world.loop l = w.loop l) ∧
      ∀ m, p.world.manuals.get m = w.manuals.get m

variable {w : World} {t : ThreadId} {g : Guard} {held : Multiset Holding}

/-! ## The changes -/

theorem sameShares_onThread {f : Thread → Thread} : w.SameShares (w.onThread t f) := by
  intro k
  cases k <;> rfl

theorem sameShares_unguarded : w.SameShares (w.unguarded t g) := by
  intro k
  rw [unguarded, setContextStack, sameShares_onThread]
  unfold warnGuard
  split
  · rfl
  · exact shareCount_log
  · exact shareCount_log

/-! ## The operations -/

theorem Balanced.dropsLate (h : w.Balanced (Holding.guard t g ::ₘ held))
    (inside : t.index < w.threads.size) : ∃ partings, w.DropsLate t g partings := by
  obtain ⟨partings, chain⟩ := (h.restoreContext inside).givesUp_releaseSnapshot (t := t)
  refine ⟨partings, sameShares_unguarded, chain, fun p member => ?_⟩
  have alike := chain.keeps
  rw [(alike.2 p member).contextStack]
  exact alike.1.contextStack.symm

/-- A rejected task is all that goes. -/
theorem Balanced.givesUp_rejected {s : Scheduler} {task : Task} {e : Error}
    (h : w.Balanced (ofShares task.shares + held)) (refused : (w.post t s task).1 = .error e) :
    ∃ partings, w.GivesUp t task.shares partings (w.post t s task).2 := by
  have chain := h.givesUp_releaseCalls (t := t)
  cases s with
  | loop l =>
    simp only [World.post, World.postToLoop] at refused ⊢
    split at refused
    · next closed =>
      rw [if_pos closed]
      exact chain
    · contradiction
  | manual m =>
    simp only [World.post, World.postToManual] at refused ⊢
    split at refused
    · next rejects =>
      rw [if_pos rejects]
      exact chain
    · contradiction

theorem contextStack_shortened {depth : Nat} :
    (w.shortened t depth).contextStack t = w.contextStack t := by
  rw [contextStack, shortened, onThread_congr Thread.context]
  · rfl
  · exact fun _ => rfl

theorem callStack_shortened {depth : Nat} (inside : t.index < w.threads.size) :
    (w.shortened t depth).callStack t = (w.callStack t).take depth := by
  rw [callStack, shortened, thread_onThread_self inside]
  rfl

end World

section Runs

variable {w inner : World} {t : ThreadId} {c : CallId} {H : Multiset Holding}

/-- A run takes its call off the stack, and gives it up when the stack is already as it was
before. -/
theorem givesUp_leaveCalls (ready : Ready ⟨w, H⟩ t) (used : 0 < w.calls.shares c)
    (there : w.callExists c = true) (after : Ready ⟨inner, w.runHeld t c H⟩ t) :
    ∃ calls, ((inner.dropGuard t (w.runGuard t)).shortened t (w.callStack t).length).GivesUp t
        [.call c] calls
        ((inner.dropGuard t (w.runGuard t)).leaveCalls t (w.callStack t).length) ∧
      ((inner.dropGuard t (w.runGuard t)).shortened t (w.callStack t).length).callStack t =
        w.callStack t := by
  have restored := after.after (.single (.dropGuard after.inside))
  have stack := callStack_restored ready used there after
  have above : (w.callStack t ++ [c]).drop (w.callStack t).length = [c] := List.drop_left
  have below : (w.callStack t ++ [c]).take (w.callStack t).length = w.callStack t := List.take_left
  have shortened := restored.consistent.balanced.shortenStack restored.inside
  rw [stack, above] at shortened
  obtain ⟨calls, chain⟩ := shortened.givesUp_releaseCalls (t := t)
  refine ⟨calls, ?_, ?_⟩
  · rw [World.leaveCalls, stack, above]
    exact chain
  · rw [World.callStack_shortened restored.inside, stack, below]

theorem leavesLate (ready : Ready ⟨w, H⟩ t) (used : 0 < w.calls.shares c)
    (there : w.callExists c = true) (after : Ready ⟨inner, w.runHeld t c H⟩ t)
    (rests : (inner.contextStack t).installs < 2 ^ 64 →
      (inner.contextStack t).Rests (w.runGuard t).token (w.contextStack t).active) :
    w.LeavesLate inner t c := by
  have restored := after.after (.single (.dropGuard after.inside))
  have taken := restored.consistent.balanced.leaveCalls restored.inside
  obtain ⟨context, first⟩ := after.consistent.balanced.dropsLate after.inside
  obtain ⟨calls, second, stack⟩ := givesUp_leaveCalls ready used there after
  obtain ⟨callable, third⟩ := taken.givesUp_releaseCallable (t := t)
  have calls' := second.keeps
  have callable' := third.keeps
  refine ⟨fun few => ⟨rests few, ?_⟩, context, calls, callable, first, World.sameShares_onThread,
    second, third, fun stands => ?_, ?_⟩
  · rintro ⟨above, _, split⟩
    rw [split]
    exact List.mem_append_right _ (List.mem_cons_self ..)
  · -- All partings find the stack of contexts that the guard of the run has left.
    have settled : ∀ p ∈ context ++ calls ++ callable, p.world.contextStack t =
        ((inner.contextStack t).dropGuard (w.runGuard t)).stack := by
      intro p member
      rw [← World.contextStack_dropGuard after.inside]
      rcases List.mem_append.mp member with early | late
      · rcases List.mem_append.mp early with early | late
        · exact first.2.2 p early
        · rw [(calls'.2 p late).contextStack, World.contextStack_shortened]
      · rw [(callable'.2 p late).contextStack, calls'.1.contextStack, World.contextStack_shortened]
    intro p member
    rw [World.ambient, settled p member, stands.dropGuard_eq]
    exact ⟨rfl, rfl⟩
  · intro p member
    rcases List.mem_append.mp member with early | late
    · rw [(calls'.2 p early).callStack, stack]
    · rw [(callable'.2 p late).callStack, calls'.1.callStack, stack]

end Runs

/-- At every moment of an execution, what is released finds the transition finished in whose course
it goes. The guard that is given up has brought back what was ambient before it. The run that leaves
has brought back the context and the depth that it found, if its install was still active, and the
call is off the stack before its callable is given up. A call that goes gives up its callable before
its context. The loop that goes is closed and empty while its tasks go in their order, and its
thread gets its former current loop back afterwards. And a task that is rejected goes while all
queues are as they were. -/
theorem transitions_finish_before_releases {verbosity : Verbosity} {ops : List Operation}
    {w : World} {H : Multiset Holding} {t : ThreadId}
    (course : Course (.start verbosity) ops ⟨w, H⟩) (inside : t.index < w.threads.size) :
    w.ReleasesLate H t where
  guard g member := by
    have balanced := (course.consistent (consistent_start verbosity)).balanced
    obtain ⟨K, rfl⟩ := Multiset.exists_cons_of_mem member
    exact balanced.dropsLate inside
  run code c args lawful used there := by
    have ready : Ready ⟨w, H⟩ t := ⟨course.consistent (consistent_start verbosity), inside⟩
    have after := ready_invoked lawful args ready used there
    obtain ⟨more, invocation⟩ := lawful_invokeFor lawful (w.callableOf c) args (c := c)
      (ready.after (course_entered ready used there))
    refine ⟨by rw [run_of_exists there], leavesLate ready used there after fun few => ?_⟩
    exact (rests_of_course ready (course.numbered t) used there invocation few).2
  call c member last := by
    have balanced := (course.consistent (consistent_start verbosity)).balanced
    obtain ⟨K, rfl⟩ := Multiset.exists_cons_of_mem member
    exact balanced.givesUp_lastCall last
  loop l member last := by
    have balanced := (course.consistent (consistent_start verbosity)).balanced
    obtain ⟨K, rfl⟩ := Multiset.exists_cons_of_mem member
    obtain ⟨partings, given, chain⟩ := balanced.givesUp_lastLoop (t := t) last
    exact ⟨partings, given, World.sameShares_abandoned, chain⟩
  rejected s task e held refused := by
    have balanced := (course.consistent (consistent_start verbosity)).balanced
    obtain ⟨K, rfl⟩ := Multiset.le_iff_exists_add.mp held
    obtain ⟨partings, chain⟩ := balanced.givesUp_rejected refused
    refine ⟨partings, chain, fun p member => ?_⟩
    have alike := chain.keeps.2 p member
    exact ⟨alike.loop, alike.manual⟩

namespace Leave

/-- A context is ambient, and a call is bound to another one that nobody keeps. When its callable is
invoked, it gives up the names of the call and of itself. -/
def prepare : Act Unit := script (performer 1)
  [("hall", .newContext "hall" "hall"), ("install", .install "hall" "gate"),
    ("room", .newContext "room" "room"),
    ("callable", .newCallable "leave" none
      [("call", .dropCall "call"), ("callable", .dropCallable "leave")] 1 []),
    ("handle", .newHandle "handle" "leave" .weak),
    ("call", .newCall "call" (.handle "handle") (some { context := some "room" })),
    ("forget", .dropContext "room")]

/-- The world in which the call is about to be run. -/
def world : World :=
  (prepare Session.driver (Session.start none)).2

/-- The world that the run has left when the context is back and the call off the stack. -/
def restored : World :=
  ((invokeFor (embedder (performer 2)) ⟨0⟩ (world.callableOf ⟨0⟩) none Session.driver
    (world.entered Session.driver ⟨0⟩)).2.dropGuard Session.driver
      (world.runGuard Session.driver)).shortened Session.driver
        (world.callStack Session.driver).length

/-- The run has the last shares of the call, of the context and of the callable. When it is over
they go, and what goes finds the context of before, and no call on the stack. -/
theorem partings_of_leave : ∃ partings,
    restored.GivesUp Session.driver [.call ⟨0⟩, .callable (world.callableOf ⟨0⟩)] partings
      (run (embedder (performer 2)) ⟨0⟩ none Session.driver world).2 ∧
    (∀ k ∈ [.call ⟨0⟩, .context ⟨1⟩, .callable ⟨0⟩], k ∈ partings.map Parting.object) ∧
    ∀ p ∈ partings, p.world.ambient Session.driver = .of ⟨0⟩ ∧
      p.world.callStack Session.driver = [] := by
  obtain ⟨_, course⟩ := lawful_script (performer_lawful 1) _ (Session.ready_start none)
  obtain ⟨ran, active, context, calls, callable, _, _, second, third, settled, stack⟩ :=
    (transitions_finish_before_releases (w := world) course (t := Session.driver)
      (by decide +kernel)).run (embedder (performer 2)) ⟨0⟩ none
      (embedder_lawful (performer_lawful 2)) (by decide +kernel) (by decide +kernel)
  have stands := (active (by decide +kernel)).mp (by decide +kernel)
  have chain := second.append third
  rw [← ran] at chain
  refine ⟨calls ++ callable, chain, fun k member => ?_, fun p member => ⟨?_, ?_⟩⟩
  · refine (chain.frees.mem_iff k).mpr ?_
    revert k
    decide +kernel
  · have seen := settled stands p (by
      rw [List.append_assoc]
      exact List.mem_append_right _ member)
    exact seen.1.trans (by decide +kernel)
  · exact (stack p member).trans (by decide +kernel)

end Leave

end DeferredCalls
