import DeferredCalls.Proofs.Lawful

/-!
# Runs are courses

A run that is not skipped goes through three stages: it enters its callable, with the call on the
stack of calls and its context ambient; then the callable and perhaps a sink do what they do; and
then it leaves, on every way out in the same order. If callables and sinks are lawful, so is the
run of a call that is in use.
-/

namespace DeferredCalls

open Holding Moment

/-- Code of an embedder that only acts by way of the library. -/
structure Embedder.Lawful (code : Embedder) (M : Manner := .course) : Prop where
  invoke : ∀ f args, (code.invoke f args).Lawful M
  emit : ∀ sink d, (code.emit sink d).Lawful M

namespace World

variable {w : World} {t : ThreadId} {c : CallId} {H : Multiset Holding} {k : Share}

/-! ## What is in use -/

theorem Balanced.alive_of_mem {h : Holding} (balanced : w.Balanced H) (member : h ∈ w.named + H)
    (mine : k ∈ h.shares) : 0 < w.shareCount k := by
  have count := balanced k
  have one := List.count_pos_iff.mpr mine
  have some := le_tally (s := k) member
  omega

theorem Balanced.alive_of_call (balanced : w.Balanced H) (used : 0 < w.calls.shares c)
    (mine : k ∈ (w.calls.get c).shares) : 0 < w.shareCount k := by
  have count := balanced k
  have one := List.count_pos_iff.mpr mine
  have some := Arena.le_total (Arena.lt_size_of_shares_pos used)
    fun _ x => if x.shares = 0 then 0 else x.value.shares.count k
  simp only [Arena.cell_shares, Arena.cell_value, Nat.ne_of_gt used, if_false] at some
  rw [holders] at count
  omega

theorem Balanced.alive_of_thread (balanced : w.Balanced H) (inside : t.index < w.threads.size)
    (mine : k ∈ (w.thread t).shares) : 0 < w.shareCount k := by
  have count := balanced k
  have some := Arena.le_total inside fun _ x => x.value.shares.count k
  have one := List.count_pos_iff.mpr mine
  simp only [thread] at one
  simp only [Arena.cell_value] at some
  rw [holders] at count
  omega

theorem Balanced.alive_of_ambient (balanced : w.Balanced H) (inside : t.index < w.threads.size)
    (mine : k ∈ (w.ambient t).shares) : 0 < w.shareCount k := by
  apply balanced.alive_of_thread inside
  exact List.mem_append_left _ (List.mem_append_left _ mine)

theorem callExists_iff : w.callExists c = true ↔
    (w.calls.get c).dead = false ∧ w.handleAlive (w.calls.get c).handle = true := by
  simp [callExists]

/-- A call that exists and is in use has its callable in use. -/
theorem Balanced.callable_alive (balanced : w.Balanced H) (used : 0 < w.calls.shares c)
    (alive : w.handleAlive (w.calls.get c).handle = true) :
    0 < w.shareCount (.callable (w.calls.get c).handle.callable) := by
  match handle : (w.calls.get c).handle with
  | .strong f =>
    refine balanced.alive_of_call used ?_
    rw [Call.shares, handle]
    exact List.mem_append_left _ (List.mem_singleton_self _)
  | .weak f =>
    rw [handle] at alive
    exact of_decide_eq_true alive

/-! ## The stages of a run -/

theorem contextStack_enterCall (u : ThreadId) :
    (w.enterCall t c).contextStack u = w.contextStack u := by
  rw [contextStack, enterCall, onThread_congr Thread.context]
  · rfl
  · exact fun _ => rfl

/-- The callable that a call invokes. -/
def callableOf (w : World) (c : CallId) : CallableId :=
  (w.calls.get c).handle.callable

/-- The world that a callable finds when it is invoked for a call. -/
def entered (w : World) (t : ThreadId) (c : CallId) : World :=
  let w :=
    ((w.acquire (.callable (w.callableOf c))).enterCall t c).install t (w.calls.get c).context
  w.log t .trace "running deferred call" [callField c, ("depth", .number (w.callStack t).length)]

/-- The guard of the install that a run makes. -/
def runGuard (w : World) (t : ThreadId) : Guard :=
  (w.contextStack t).nextGuard

/-- What a run has in its hands while its callable and its sink are at work. -/
def runHeld (w : World) (t : ThreadId) (c : CallId) (H : Multiset Holding) : Multiset Holding :=
  guard t (w.runGuard t) ::ₘ entry t (w.callStack t).length c ::ₘ
    share (.callable (w.callableOf c)) ::ₘ H

/-- What a run that began in one world makes of another one when it is over. -/
def exited (w w' : World) (t : ThreadId) (c : CallId) : World :=
  ((w'.dropGuard t (w.runGuard t)).leaveCalls t (w.callStack t).length).release t
    (.callable (w.callableOf c))

end World

section Stages

variable {w w' : World} {t : ThreadId} {c : CallId} {H : Multiset Holding}

/-- On its way in, a run goes from the callable to the stack of calls and then to the context. -/
theorem course_stacked (ready : Ready ⟨w, H⟩ t) (used : 0 < w.calls.shares c)
    (there : w.callExists c = true) :
    Course ⟨w, H⟩ [] ⟨(w.acquire (.callable (w.callableOf c))).enterCall t c,
      entry t (w.callStack t).length c ::ₘ share (.callable (w.callableOf c)) ::ₘ H⟩ := by
  obtain ⟨_, alive⟩ := World.callExists_iff.mp there
  have callable := ready.consistent.balanced.callable_alive used alive
  have first : Course ⟨w, H⟩ [] ⟨w.acquire (.callable (w.callableOf c)), _⟩ :=
    .single (.acquire callable)
  exact first.step (.enter ready.inside used)

theorem context_alive (ready : Ready ⟨w, H⟩ t) (used : 0 < w.calls.shares c)
    (there : w.callExists c = true) {k : Share} (member : k ∈ (w.calls.get c).context.shares) :
    0 < ((w.acquire (.callable (w.callableOf c))).enterCall t c).shareCount k := by
  have stacked := ready.after (course_stacked ready used there)
  have stillUsed : 0 < (w.calls.addShare c).shares c := by
    rw [Arena.shares_addShare (Arena.lt_size_of_shares_pos used), if_pos rfl]
    exact Nat.succ_pos _
  have same : (w.calls.addShare c).get c = w.calls.get c := Arena.get_addShare
  refine stacked.consistent.balanced.alive_of_call (c := c) stillUsed ?_
  show k ∈ ((w.calls.addShare c).get c).shares
  rw [same]
  exact List.mem_append_right _ member

/-- Entering is the first part of a run. -/
theorem course_entered (ready : Ready ⟨w, H⟩ t) (used : 0 < w.calls.shares c)
    (there : w.callExists c = true) :
    Course ⟨w, H⟩ [.install t (w.calls.get c).context] ⟨w.entered t c, w.runHeld t c H⟩ := by
  have stacked := course_stacked ready used there
  have inside := (ready.after stacked).inside
  have installed := stacked.step (.install inside fun _ => context_alive ready used there)
  rw [World.contextStack_enterCall] at installed
  have consistent := installed.consistent ready.consistent
  exact installed.trans (consistent.log ..)

/-- Entering puts the call on the stack of the thread that enters it, and leaves all others
alone. -/
theorem callStacks_entered (ready : Ready ⟨w, H⟩ t) (used : 0 < w.calls.shares c)
    (there : w.callExists c = true) (u : ThreadId) :
    (w.entered t c).callStack u = if u = t then w.callStack u ++ [c] else w.callStack u := by
  have steady := World.steady_install (t := t) fun _ => context_alive ready used there
  have installed := congrArg Prod.fst (steady.duties u)
  have callable : 0 < (w.acquire (.callable (w.callableOf c))).calls.shares c := used
  have stacked := World.callStack_enterCall (w := w.acquire (.callable (w.callableOf c)))
    ready.inside callable u
  rw [World.entered, (World.keeps_log ..).callStack]
  exact installed.trans stacked

theorem callStack_entered (ready : Ready ⟨w, H⟩ t) (used : 0 < w.calls.shares c)
    (there : w.callExists c = true) : (w.entered t c).callStack t = w.callStack t ++ [c] := by
  rw [callStacks_entered ready used there, if_pos rfl]

/-- When a run brings back the context, its call is still on the stack, above those that were
there. -/
theorem callStack_restored (ready : Ready ⟨w, H⟩ t) (used : 0 < w.calls.shares c)
    (there : w.callExists c = true) (after : Ready ⟨w', w.runHeld t c H⟩ t) :
    (w'.dropGuard t (w.runGuard t)).callStack t = w.callStack t ++ [c] := by
  have entered := ready.after (course_entered ready used there)
  have same : (w'.dropGuard t (w.runGuard t)).callStack t = w'.callStack t :=
    congrArg Prod.fst (World.steady_dropGuard.duties t)
  rw [same, entered.consistent.callStack_eq after.consistent, callStack_entered ready used there]

/-- Leaving is the last part of a run, whatever was done in between. -/
theorem course_exited (ready : Ready ⟨w, H⟩ t) (used : 0 < w.calls.shares c)
    (there : w.callExists c = true) (after : Ready ⟨w', w.runHeld t c H⟩ t) :
    Course ⟨w', w.runHeld t c H⟩ [.dropGuard t (w.runGuard t)] ⟨w.exited w' t c, H⟩ := by
  have first : Course ⟨w', w.runHeld t c H⟩ [.dropGuard t (w.runGuard t)] _ :=
    .single (.dropGuard after.inside)
  have dropped := after.after first
  have top : ((w'.dropGuard t (w.runGuard t)).callStack t).length =
      (w.callStack t).length + 1 := by
    rw [callStack_restored ready used there after, List.length_append, List.length_singleton]
  have second := first.step (.leave dropped.inside top)
  have left := after.after second
  exact second.step (.release left.inside)

end Stages

namespace Act

variable {M : Manner} {code : Embedder} {c : CallId} {args : Option CallArgs} {t : ThreadId}
  {w : World} {H : Multiset Holding}

theorem run_of_dead (dead : (w.calls.get c).dead = true) :
    run code c args t w =
      (.ok (.skipped .dead), w.log t .trace "skipping dead deferred call" [World.callField c]) := by
  simp only [run, bind_apply, read_apply, dead, if_true]
  rfl

theorem run_of_released (living : (w.calls.get c).dead = false)
    (released : w.handleAlive (w.calls.get c).handle = false) :
    run code c args t w =
      (.ok (.skipped .unavailable),
        w.log t .debug "callable released before run" [World.callField c]) := by
  simp only [run, bind_apply, read_apply, living]
  rw [if_neg Bool.false_ne_true]
  simp only [bind_apply, read_apply, World.obtain?, released]
  rfl

/-- A run of a call that exists invokes its callable once, at the moment it has entered. -/
theorem run_of_exists (there : w.callExists c = true) :
    run code c args t w =
      ((invokeFor code c (w.callableOf c) args t (w.entered t c)).1,
        w.exited (invokeFor code c (w.callableOf c) args t (w.entered t c)).2 t c) := by
  obtain ⟨living, alive⟩ := World.callExists_iff.mp there
  simp only [run, bind_apply, read_apply, living]
  rw [if_neg Bool.false_ne_true]
  simp only [bind_apply, read_apply, World.obtain?, alive, if_true]
  have stack : ((w.acquire (.callable (w.callableOf c))).enterCall t c).contextStack t =
      w.contextStack t := World.contextStack_enterCall t
  simp only [holding, ensuring_apply, entering_apply, installing_apply, bind_apply, change_apply]
  rw [World.exited, World.runGuard, ← stack]
  rfl

/-! ## Runs are lawful -/

section Emitting

variable (emits : ∀ sink d, (code.emit sink d).Lawful M)

include emits

theorem lawful_conclude (ended : Except Panic (Except CallError Unit)) :
    (conclude code.emit c ended).Lawful M := by
  have reported (e : Error) (traceback : Option String) :
      (reportFailure code.emit c e traceback).Lawful M := by
    apply (Lawful.read _).bind
    intro report
    apply (Lawful.read _).bind
    intro sink
    exact (emits sink report).bind fun _ => .pure _
  match ended with
  | .ok (.ok ()) => exact .pure _
  | .ok (.error e) => exact reported _ _
  | .error p => exact reported _ _

/-- What the callable does is followed by what the sink does. -/
theorem reaches_invokeFor {f : CallableId} (ready : Ready ⟨w, H⟩ t)
    (invoked : Reaches ⟨w, H⟩ ⟨(code.invoke f args t w).2, H⟩ M) :
    Reaches ⟨w, H⟩ ⟨(invokeFor code c f args t w).2, H⟩ M :=
  reaches_bind (m := attempt (code.invoke f args)) invoked
    (fun ended _ => lawful_conclude emits ended (ready.reaches invoked)) fun _ _ => rfl

/-- A run is lawful if its callable is, at the moment at which it is invoked. -/
theorem reaches_runInvoking (ready : Ready ⟨w, H⟩ t) (used : 0 < w.calls.shares c)
    (invokes : ∀ K, Ready ⟨w.entered t c, K⟩ t → Reaches ⟨w.entered t c, K⟩
      ⟨(code.invoke (w.callableOf c) args t (w.entered t c)).2, K⟩ M) :
    Reaches ⟨w, H⟩ ⟨(run code c args t w).2, H⟩ M := by
  by_cases there : w.callExists c = true
  · have entered : Reaches ⟨w, H⟩ ⟨w.entered t c, w.runHeld t c H⟩ M :=
      reaches_of_course (course_entered ready used there) (by simp)
    have inside := ready.reaches entered
    have invoked := reaches_invokeFor (c := c) emits inside (invokes _ inside)
    have exited := course_exited ready used there (inside.reaches invoked)
    simp only [run_of_exists there]
    exact (entered.trans invoked).trans (reaches_of_course exited (by simp))
  · have skipped (level : Level) (message : String) :
        Reaches ⟨w, H⟩ ⟨w.log t level message [World.callField c], H⟩ M :=
      reaches_of_course (ready.consistent.log t level message _) (by simp)
    cases dead : (w.calls.get c).dead with
    | true =>
      rw [run_of_dead dead]
      exact skipped _ _
    | false =>
      have released : w.handleAlive (w.calls.get c).handle = false := by
        by_contra alive
        exact there (World.callExists_iff.mpr ⟨dead, by simpa using alive⟩)
      rw [run_of_released dead released]
      exact skipped _ _

end Emitting

theorem lawful_invokeFor (lawful : code.Lawful M) (f : CallableId) (args : Option CallArgs) :
    (invokeFor code c f args).Lawful M :=
  fun _ _ _ ready => reaches_invokeFor lawful.emit ready (lawful.invoke f args ready)

/-- What the callable and the sink do lies between the first and the last part of a run. -/
theorem ready_invoked (lawful : code.Lawful M) (args : Option CallArgs) (ready : Ready ⟨w, H⟩ t)
    (used : 0 < w.calls.shares c) (there : w.callExists c = true) :
    Ready ⟨(invokeFor code c (w.callableOf c) args t (w.entered t c)).2, w.runHeld t c H⟩ t := by
  have entered := ready.after (course_entered ready used there)
  exact entered.reaches (lawful_invokeFor lawful _ args entered)

theorem reaches_run (lawful : code.Lawful M) (args : Option CallArgs) (ready : Ready ⟨w, H⟩ t)
    (used : 0 < w.calls.shares c) : Reaches ⟨w, H⟩ ⟨(run code c args t w).2, H⟩ M :=
  reaches_runInvoking lawful.emit ready used fun _ inside => lawful.invoke _ args inside

/-! ## Scheduled runs -/

/-- A task that was scheduled strongly is a run, after which the share of the call that was taken
for the task is given up. -/
theorem runStrong_apply : runStrong code c args t w =
    ((run code c args t w).1.map fun _ => (), (run code c args t w).2.releaseCall t c) := by
  simp only [runStrong, ensuring_apply, bind_apply]
  rcases run code c args t w with ⟨_ | _, _⟩ <;> rfl

/-- A task that was scheduled weakly is a run while a share is held, if its call is in use. -/
theorem runWeak_of_alive (alive : w.callAlive c = true) : runWeak code c args t w =
    ((run code c args t (w.acquire (.call c))).1.map fun _ => (),
      (run code c args t (w.acquire (.call c))).2.releaseCall t c) := by
  simp only [runWeak, bind_apply, read_apply, alive, if_true, holding, ensuring_apply]
  rcases run code c args t (w.acquire (.call c)) with ⟨_ | _, _⟩ <;> rfl

theorem runWeak_of_released (released : w.callAlive c = false) : runWeak code c args t w =
    (.ok (), w.log t .debug "weakly scheduled call released before firing"
      [World.callField c]) := by
  simp only [runWeak, bind_apply, read_apply, released, Bool.false_eq_true, if_false]
  rfl

/-- A task that was scheduled strongly uses up its share of the call. -/
theorem reaches_releaseRun (ready : Ready ⟨w, share (.call c) ::ₘ H⟩ t)
    (ran : Reaches ⟨w, share (.call c) ::ₘ H⟩ ⟨(run code c args t w).2, share (.call c) ::ₘ H⟩ M) :
    Reaches ⟨w, share (.call c) ::ₘ H⟩ ⟨(runStrong code c args t w).2, H⟩ M := by
  have released : Reaches ⟨(run code c args t w).2, share (.call c) ::ₘ H⟩
      ⟨(run code c args t w).2.release t (.call c), H⟩ M :=
    reaches_release (ready.reaches ran)
  rw [runStrong_apply]
  exact ran.trans released

/-- A task that was scheduled weakly is lawful if it would be so had it been scheduled strongly. -/
theorem reaches_runWeakly (ready : Ready ⟨w, H⟩ t)
    (strongly : Ready ⟨w.acquire (.call c), share (.call c) ::ₘ H⟩ t →
      Reaches ⟨w.acquire (.call c), share (.call c) ::ₘ H⟩
        ⟨(runStrong code c args t (w.acquire (.call c))).2, H⟩ M) :
    Reaches ⟨w, H⟩ ⟨(runWeak code c args t w).2, H⟩ M := by
  cases alive : w.callAlive c with
  | true =>
    have used : 0 < w.calls.shares c := of_decide_eq_true alive
    have held : Reaches ⟨w, H⟩ ⟨w.acquire (.call c), share (.call c) ::ₘ H⟩ M :=
      reaches_of_step (.acquire used) (by simp)
    have ran := strongly (ready.reaches held)
    rw [runStrong_apply] at ran
    rw [runWeak_of_alive alive]
    exact held.trans ran
  | false =>
    rw [runWeak_of_released alive]
    exact reaches_of_course (ready.consistent.log ..) (by simp)

theorem reaches_runStrong (lawful : code.Lawful M) (args : Option CallArgs)
    (ready : Ready ⟨w, share (.call c) ::ₘ H⟩ t) :
    Reaches ⟨w, share (.call c) ::ₘ H⟩ ⟨(runStrong code c args t w).2, H⟩ M :=
  reaches_releaseRun ready
    (reaches_run lawful args ready ready.consistent.balanced.shareCount_pos)

theorem lawful_runWeak (lawful : code.Lawful M) : (runWeak code c args).Lawful M :=
  fun _ _ _ ready => reaches_runWeakly ready (reaches_runStrong lawful args)

end Act

end DeferredCalls
