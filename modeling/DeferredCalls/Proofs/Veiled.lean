import DeferredCalls.Proofs.Veil
import DeferredCalls.Loop.Manual

/-!
# Operations under a veil

Every operation of the library, performed by a thread that is not hidden, does under the veil what
it does without it.
-/

namespace DeferredCalls.World

variable {V : Veil} {t : ThreadId} {w : World}

theorem ite_under {p : Prop} [Decidable p] {x y : World} :
    (if p then x else y).under V = if p then x.under V else y.under V :=
  apply_ite (·.under V) p x y

/-! ## Making shares -/

theorem acquire_under (s : Share) : (w.under V).acquire s = (w.acquire s).under V := by
  cases s <;> rfl

theorem acquireAll_under (shares : List Share) :
    (w.under V).acquireAll shares = (w.acquireAll shares).under V := by
  induction shares generalizing w with
  | nil => rfl
  | cons s shares ih =>
    have rest := ih (w := w.acquire s)
    rw [← acquire_under] at rest
    exact rest

/-! ## Objects that threads share -/

theorem enqueue_under (l : LoopId) (task : Task) :
    (w.under V).enqueue l task = (w.enqueue l task).under V := rfl

theorem dequeue?_under (l : LoopId) :
    (w.under V).dequeue? l = (w.dequeue? l).map fun p => (p.1, p.2.under V) := by
  have same : (w.under V).loop l = w.loop l := rfl
  rw [dequeue?, dequeue?, same]
  split <;> rfl

theorem keep_under (sink : Option SinkId) (d : Diagnostic) :
    (w.under V).keep sink d = (w.keep sink d).under V := by
  cases sink <;> rfl

section Own

variable (own : V.hidden t = none)

include own

/-! ## Giving up shares -/

theorem releaseContext_under (c : ContextId) :
    (w.under V).releaseContext t c = (w.releaseContext t c).under V := by
  let dropped : World := { w with contexts := w.contexts.dropShare c }
  have seen : (dropped.under V).position t = dropped.position t := position_under own
  simp only [releaseContext]
  rw [ite_under, ← note_under own rfl]
  refine ite_congr rfl (fun _ => ?_) fun _ => rfl
  exact congrArg (fun p => (dropped.under V).note t (.freedContext (dropped.contexts.get c).name p))
    seen

theorem releaseCallable_under (c : CallableId) :
    (w.under V).releaseCallable t c = (w.releaseCallable t c).under V := by
  let dropped : World := { w with callables := w.callables.dropShare c }
  have seen : (dropped.under V).position t = dropped.position t := position_under own
  simp only [releaseCallable]
  rw [ite_under, ← note_under own rfl]
  refine ite_congr rfl (fun _ => ?_) fun _ => rfl
  exact congrArg
    (fun p => (dropped.under V).note t (.freedCallable (dropped.callables.get c).name p)) seen

theorem releaseSnapshot_under (s : Snapshot) :
    (w.under V).releaseSnapshot t s = (w.releaseSnapshot t s).under V := by
  obtain ⟨_ | c⟩ := s
  · rfl
  · exact releaseContext_under own c

theorem releaseHandle_under (h : Handle) :
    (w.under V).releaseHandle t h = (w.releaseHandle t h).under V := by
  cases h with
  | strong c => exact releaseCallable_under own c
  | weak c => rfl

theorem releaseCall_under (c : CallId) :
    (w.under V).releaseCall t c = (w.releaseCall t c).under V := by
  simp only [releaseCall]
  rw [ite_under, ← releaseSnapshot_under own, ← releaseHandle_under own]
  exact ite_congr rfl (fun _ => rfl) fun _ => rfl

theorem releaseCalls_under (cs : List CallId) :
    (w.under V).releaseCalls t cs = (w.releaseCalls t cs).under V := by
  induction cs generalizing w with
  | nil => rfl
  | cons c cs ih =>
    have rest := ih (w := w.releaseCall t c)
    rw [← releaseCall_under own] at rest
    exact rest

theorem releaseTasks_under (tasks : List Task) :
    (w.under V).releaseTasks t tasks = (w.releaseTasks t tasks).under V := by
  induction tasks generalizing w with
  | nil => rfl
  | cons task tasks ih =>
    have rest := ih (w := w.releaseTask t task)
    rw [releaseTask, ← releaseCalls_under own] at rest
    exact rest

theorem discardLoop_under (l : LoopId) :
    (w.under V).discardLoop t l = (w.discardLoop t l).under V := by
  simp only [discardLoop, abandoned]
  rw [← onThread_under own, ← releaseTasks_under own, ite_under, ← log_under own]
  rfl

theorem release_under (s : Share) : (w.under V).release t s = (w.release t s).under V := by
  cases s with
  | context c => exact releaseContext_under own c
  | callable c => exact releaseCallable_under own c
  | call c => exact releaseCall_under own c
  | loop l =>
    simp only [release, releaseLoop]
    rw [ite_under, ← discardLoop_under own]
    exact ite_congr rfl (fun _ => rfl) fun _ => rfl
  | manual m =>
    simp only [release, releaseManual]
    rw [ite_under, ← releaseTasks_under own]
    exact ite_congr rfl (fun _ => rfl) fun _ => rfl

/-! ## Contexts and calls -/

theorem install_under (s : Snapshot) : (w.under V).install t s = (w.install t s).under V := by
  rw [install, contextStack_under own, acquireAll_under, setContextStack, onThread_under own]
  rfl

theorem warnGuard_under (warning : Option GuardWarning) :
    (w.under V).warnGuard t warning = (w.warnGuard t warning).under V := by
  match warning with
  | none => rfl
  | some (.outOfOrder ..) => exact log_under own ..
  | some (.unwound _) => exact log_under own ..

theorem dropGuard_under (g : Guard) : (w.under V).dropGuard t g = (w.dropGuard t g).under V := by
  simp only [dropGuard, unguarded, contextStack_under own, warnGuard_under own, setContextStack,
    onThread_under own, releaseSnapshot_under own]

theorem enterCall_under (c : CallId) : (w.under V).enterCall t c = (w.enterCall t c).under V := by
  rw [enterCall, acquire_under, onThread_under own]
  rfl

theorem leaveCalls_under (depth : Nat) :
    (w.under V).leaveCalls t depth = (w.leaveCalls t depth).under V := by
  simp only [leaveCalls, shortened, callStack_under own, onThread_under own, releaseCalls_under own]

theorem build_under (b : CallBuilder) :
    (w.under V).build t b = ((w.build t b).1, (w.build t b).2.under V) := by
  simp only [build, ambient_under own, acquireAll_under]
  rw [← log_under own]
  rfl

theorem markDead_under (c : CallId) : (w.under V).markDead t c = (w.markDead t c).under V := by
  rw [markDead, markDead, ite_under, ← log_under own]
  exact ite_congr rfl (fun _ => rfl) fun _ => rfl

/-! ## Queues -/

theorem createLoop_under (settings : LoopSettings) :
    (w.under V).createLoop t settings =
      ((w.createLoop t settings).1, (w.createLoop t settings).2.under V) := by
  simp only [createLoop, thread_under own]
  rw [← log_under own, ← onThread_under own]
  rfl

theorem shutdownLoop_under (l : LoopId) :
    (w.under V).shutdownLoop t l = (w.shutdownLoop t l).under V := by
  simp only [shutdownLoop]
  rw [← log_under own]
  rfl

theorem post_under (s : Scheduler) (task : Task) :
    (w.under V).post t s task = ((w.post t s task).1, (w.post t s task).2.under V) := by
  cases s with
  | loop l =>
    have same : (w.under V).loop l = w.loop l := rfl
    simp only [post, postToLoop, same]
    split
    · rw [releaseTask, releaseCalls_under own]
      rfl
    · rw [← log_under own, ← enqueue_under]
      rfl
  | manual m =>
    have same : (w.under V).manuals = w.manuals := rfl
    simp only [post, postToManual, same]
    split
    · rw [releaseTask, releaseCalls_under own]
      rfl
    · rfl

end Own

/-! ## New threads -/

/-- A thread that is not there yet is not hidden. -/
theorem own_next (fits : V.Fits w) : V.hidden w.threads.next = none := by
  by_contra hidden
  exact Nat.lt_irrefl _ (fits.known _ hidden)

theorem pushThread_under (fits : V.Fits w) (th : Thread) :
    { w.under V with threads := (w.under V).threads.push th } =
      { w with threads := w.threads.push th }.under V := by
  have pushed : (w.under V).threads.push th = (w.threads.push th).mapRefs V.cover :=
    Arena.push_mapRefs (cover_own (own_next fits))
  rw [pushed]
  rfl

theorem startLoopThread_under (fits : V.Fits w) (settings : LoopSettings) :
    (w.under V).startLoopThread settings =
      ((w.startLoopThread settings).1, (w.startLoopThread settings).2.under V) := by
  have next : (w.under V).threads.next = w.threads.next := Arena.next_mapRefs
  simp only [startLoopThread, next]
  rw [pushThread_under fits, createLoop_under (own_next fits)]
  exact Prod.ext rfl (log_under (own_next fits) ..)

end DeferredCalls.World
