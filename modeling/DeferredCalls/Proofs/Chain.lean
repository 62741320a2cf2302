import DeferredCalls.Proofs.Activity
import DeferredCalls.Proofs.Performing
import DeferredCalls.Proofs.Releasing
import DeferredCalls.Proofs.Scheduling

/-!
# The chain of calls

What code of an embedder sees of the runs in progress. The chain of calls of a thread lists the runs
that were entered on it and not left yet, outermost first, its depth is their number, and the
current call is that of the innermost one. This is so for callables and sinks at any nesting, for
tasks, and for what is done when a last share is given up. A run leaves every stack of calls as it
found it, on every way out.
-/

namespace DeferredCalls

open Holding Moment Act

variable {a : Activity} {w : World} {t : ThreadId} {c : CallId} {r : Run}

namespace AtWork

theorem callChain_eq (work : AtWork a w) (t : ThreadId) :
    w.callChain t = (a.on t).map fun r => w.describeCall r.call := by
  rw [World.callChain, work.sound.callStack, List.map_map]
  rfl

theorem getLast?_callStack (work : AtWork a w) (t : ThreadId) :
    (w.callStack t).getLast? = (a.on t).getLast?.map Run.call := by
  rw [work.sound.callStack, List.getLast?_map]

/-- What is released while a run is left is released where the thread is: the guard is given up
while the call of the run is still on the stack, everything else when it is off it. -/
theorem leaving (work : AtWork a w) {inner outer : List Run} (runs : a.runs = inner ++ r :: outer)
    (innermost : ∀ x ∈ inner, x.thread ≠ r.thread) :
    ∃ w₁ w₂ gone₁ gone₂ gone₃,
      w₁ = w.dropGuard r.thread r.guard ∧ w₂ = w₁.leaveCalls r.thread r.level ∧
      w.Frees r.thread (w₁.position r.thread) gone₁ w₁ ∧
      w₁.Frees r.thread (w₂.position r.thread) gone₂ w₂ ∧
      w₂.Frees r.thread (w₂.position r.thread) gone₃ (r.leave w) ∧
      (∀ u, w₁.callStack u = (a.on u).map Run.call) ∧
      (∀ u, w₂.callStack u = ({ a with runs := inner ++ outer }.on u).map Run.call) := by
  have inside := work.sound.inside runs innermost
  have balanced := work.sound.consistent.balanced
  rw [Activity.held_leave runs] at balanced
  have inside₁ : r.thread.index < (w.dropGuard r.thread r.guard).threads.size := by
    rwa [World.size_threads_dropGuard]
  have dropped := balanced.dropGuard inside
  have same (u : ThreadId) : (w.dropGuard r.thread r.guard).callStack u = w.callStack u :=
    congrArg Prod.fst (World.steady_dropGuard.duties u)
  obtain ⟨gone₁, first⟩ := balanced.frees_dropGuard inside
  obtain ⟨gone₂, second⟩ := dropped.frees_leaveCalls inside₁
  obtain ⟨gone₃, third⟩ := (dropped.leaveCalls inside₁).frees_release (t := r.thread)
  refine ⟨_, _, gone₁, gone₂, gone₃, rfl, rfl, first, second, third, fun u => ?_, fun u => ?_⟩
  · rw [same, work.sound.callStack]
  · rw [World.callStack_leaveCalls inside₁, same, work.sound.take_callStack runs innermost]

end AtWork

/-- What can be seen of the runs in progress at a moment, and how they come and go. -/
structure Traced (a : Activity) (w : World) : Prop where
  stack : ∀ t, w.callStack t = (a.on t).map Run.call
  chain : ∀ t, w.callChain t = (a.on t).map fun r => w.describeCall r.call
  depth : ∀ t, (w.position t).callDepth = (a.on t).length
  current : ∀ t, (w.callStack t).getLast? = (a.on t).getLast?.map Run.call
  observed : ∀ self t, interpret self .observe t w =
    (.ok (.observed (w.position t) ((a.on t).map fun r => w.describeCall r.call)
      ((a.on t).getLast?.map fun r => w.describeCall r.call)), w)
  /-- Whatever lawful code does, on whatever thread, the same runs are in progress afterwards. -/
  acts : ∀ {α : Type} (m : Act α), m.Lawful → ∀ t, t.index < w.threads.size → AtWork a (m t w).2
  /-- A callable finds its own run in progress, as the innermost one of its thread; no other thread
  has a run more. -/
  enters : ∀ t c, t.index < w.threads.size → 0 < w.calls.shares c → w.callExists c = true →
    AtWork { a with runs := w.runOf t c :: a.runs } (w.entered t c) ∧
    ∀ u, { a with runs := w.runOf t c :: a.runs }.on u =
      if u = t then a.on u ++ [w.runOf t c] else a.on u
  /-- So does the sink, which is handed the chain that it sees. A run ends by leaving. -/
  invokes : ∀ code : Embedder, code.Lawful → ∀ c args t, t.index < w.threads.size →
    0 < w.calls.shares c → w.callExists c = true →
    let ended := code.invoke (w.callableOf c) args t (w.entered t c)
    let concluded := conclude code.emit c ended.1 t ended.2
    AtWork { a with runs := w.runOf t c :: a.runs } ended.2 ∧
    AtWork { a with runs := w.runOf t c :: a.runs } concluded.2 ∧
    (∀ e traceback, (ended.2.failureReport t c e traceback).chain =
      (a.on t).map (fun r => ended.2.describeCall r.call) ++ [ended.2.describeCall c]) ∧
    run code c args t w = (concluded.1, (w.runOf t c).leave concluded.2)
  /-- A run that is skipped enters nothing. -/
  skips : ∀ code c args t, w.callExists c = false → run code c args t w = skipped c t w
  /-- However a run ends, and whatever callable and sink did, it leaves the stacks of all threads as
  it found them. -/
  runs : ∀ code : Embedder, code.Lawful → ∀ c args t, t.index < w.threads.size →
    0 < w.calls.shares c → AtWork a (run code c args t w).2 ∧
    ∀ u, (run code c args t w).2.callStack u = w.callStack u
  /-- Leaving takes place in three stages, each of which releases things at its own position. -/
  leaves : ∀ {inner outer : List Run} {r : Run}, a.runs = inner ++ r :: outer →
    (∀ x ∈ inner, x.thread ≠ r.thread) →
    ∃ w₁ w₂ gone₁ gone₂ gone₃,
      w₁ = w.dropGuard r.thread r.guard ∧ w₂ = w₁.leaveCalls r.thread r.level ∧
      w.Frees r.thread (w₁.position r.thread) gone₁ w₁ ∧
      w₁.Frees r.thread (w₂.position r.thread) gone₂ w₂ ∧
      w₂.Frees r.thread (w₂.position r.thread) gone₃ (r.leave w) ∧
      (∀ u, w₁.callStack u = (a.on u).map Run.call) ∧
      (∀ u, w₂.callStack u = ({ a with runs := inner ++ outer }.on u).map Run.call)
  /-- Whatever an operation releases is released at the position at which the thread is then; only
  the current loop may come back afterwards. -/
  frees : ∀ ops m', Step ⟨w, a.held⟩ ops m' →
    (∃ t loop gone, w.Frees t { m'.world.position t with loop } gone m'.world) ∨
      w.Retains m'.world

/-- At every moment of an execution at which code of an embedder is at work, the chain of calls of a
thread, its depth and the current call describe exactly the runs that were entered on that thread
and not left yet. -/
theorem chain_of_runs_in_progress (work : AtWork a w) : Traced a w where
  stack := work.sound.callStack
  chain := work.callChain_eq
  depth t := by
    show (w.callStack t).length = _
    rw [work.sound.callStack, List.length_map]
  current := work.getLast?_callStack
  observed self t := by
    show (Except.ok (Reply.observed _ (w.callChain t) ((w.callStack t).getLast?.map _)), w) = _
    rw [work.callChain_eq, work.getLast?_callStack, Option.map_map]
    rfl
  acts m lawful t inside := work.lawful lawful inside
  enters t c inside used there :=
    ⟨work.enter inside used there, fun u => Activity.on_enter⟩
  invokes code lawful c args t inside used there := by
    have entered := work.enter inside used there
    have inside₁ := ((work.ready inside).after
      (course_entered (work.ready inside) used there)).inside
    have ended := work.invoke lawful args inside used there
    have inside₂ := ((entered.ready inside₁).reaches
      (lawful.invoke (w.callableOf c) args (entered.ready inside₁))).inside
    refine ⟨ended, ended.lawful (lawful_conclude lawful.emit _) inside₂, fun e traceback => ?_, ?_⟩
    · have on := Activity.on_enter (a := a) (r := w.runOf t c) (u := t)
      rw [if_pos (show t = (w.runOf t c).thread from rfl)] at on
      show World.callChain _ t = _
      rw [ended.callChain_eq, on, List.map_append]
      rfl
    · rw [run_eq, if_pos there]
      rfl
  skips code c args t gone := by
    rw [run_eq, if_neg (by simp [gone])]
  runs code lawful c args t inside used := by
    have after := work.run lawful args inside used
    refine ⟨after, fun u => ?_⟩
    rw [after.sound.callStack, work.sound.callStack]
  leaves runs innermost := work.leaving runs innermost
  frees _ _ step := step.frees work.sound.consistent

namespace Walk

/-- A callable runs its own call again and then panics, and its sink refuses what it is handed. -/
def prepare : Act Unit := script (performer 1)
  [("sink", .newSink "wall" .refusing),
    ("callable", .newCallable "walk" none [("again", .run "call" none)] 2 [.panic ⟨none⟩]),
    ("call", .newCall "call" (.callable "walk") (some { sink := some "wall" }))]

/-- The world in which the call is about to be run. -/
def world : World :=
  (prepare Session.driver (Session.start none)).2

/-- The world in which the callable is invoked for the second time, from the first one. -/
def inner : World :=
  (world.entered Session.driver ⟨0⟩).entered Session.driver ⟨0⟩

/-- The same call stands twice on the stack; when both runs have panicked, it is off the stack. -/
theorem chain_of_walk :
    inner.callChain Session.driver =
      [inner.describeCall ⟨0⟩, inner.describeCall ⟨0⟩] ∧
    (inner.position Session.driver).callDepth = 2 ∧
    (run (embedder (performer 3)) ⟨0⟩ none Session.driver world).1.isOk = false ∧
    (run (embedder (performer 3)) ⟨0⟩ none Session.driver world).2.callStack Session.driver =
      [] := by
  have outside : AtWork {} world :=
    (AtWork.start none).lawful (lawful_script (performer_lawful 1) _) (by decide)
  have outer := outside.enter (t := Session.driver) (c := ⟨0⟩) (by decide +kernel)
    (by decide +kernel) (by decide +kernel)
  have twice := chain_of_runs_in_progress (outer.enter (t := Session.driver) (c := ⟨0⟩)
    (by decide +kernel) (by decide +kernel) (by decide +kernel))
  have once := chain_of_runs_in_progress outside
  obtain ⟨_, same⟩ := once.runs (embedder (performer 3)) (embedder_lawful (performer_lawful 3)) ⟨0⟩
    none Session.driver (by decide +kernel) (by decide +kernel)
  exact ⟨twice.chain Session.driver, twice.depth Session.driver, by decide +kernel,
    (same Session.driver).trans (by decide +kernel)⟩

end Walk

end DeferredCalls
