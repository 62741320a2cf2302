import DeferredCalls.Proofs.Ambient
import DeferredCalls.Proofs.Restoring
import DeferredCalls.Proofs.Scheduling

/-!
# Outcomes and reports

What comes of a run depends on how the invocation of its callable ended. A failure and a panic
become the error of the outcome, and the sink is handed one diagnostic about it, while the call is
still on the stack of calls; of a success it is told nothing. Only a sink can make a run panic. Such
a panic goes on through the code that the run was made from, up to an enclosing run or to the loop.
-/

namespace DeferredCalls

open Holding Moment

/-- How an invocation ended: the callable returned, returned a failure, or panicked. -/
abbrev Ended := Except Panic (Except CallError Unit)

namespace Ended

variable {r : Ended}

/-- The error of a run whose callable failed or panicked, and the traceback that is shown with
it. -/
def failure? : Ended → Option (Error × Option String)
  | .ok (.ok ()) => none
  | .ok (.error e) =>
    some ({ kind := .invocation, message := some e.description, causes := [.call e] }, e.traceback)
  | .error p => some ({ kind := .panicked, message := some (p.text?.getD "unknown panic") }, none)

/-- What a run amounts to whose callable ended so. -/
def outcome (r : Ended) : RunOutcome :=
  match r.failure? with
  | none => .completed
  | some (e, _) => .failed e

theorem outcome_eq_completed : r.outcome = .completed ↔ r = .ok (.ok ()) := by
  rcases r with p | e | _ <;> simp [outcome, failure?]

theorem outcome_invocation :
    (∃ error, r.outcome = .failed error ∧ error.kind = .invocation) ↔ ∃ e, r = .ok (.error e) := by
  rcases r with p | e | _ <;> simp [outcome, failure?]

theorem outcome_panicked :
    (∃ error, r.outcome = .failed error ∧ error.kind = .panicked) ↔ ∃ p, r = .error p := by
  rcases r with p | e | _ <;> simp [outcome, failure?]

end Ended

/-! ## What is reported -/

namespace World

/-- The diagnostic of a run that began in one world, about a failure of its callable that ended in
another one. -/
def diagnosticOf (w w₁ : World) (t : ThreadId) (c : CallId) (failure : Error × Option String) :
    Diagnostic where
  call := w.describeCall c
  provenance := (w.calls.get c).provenance
  context := w₁.describeSnapshot (w₁.ambient t)
  chain := w.callChain t ++ [w.describeCall c]
  error := some failure.1.text
  traceback := failure.2

/-- What a run reports when its callable has ended: nothing of a success, and one diagnostic of
anything else. -/
def reports (w w₁ : World) (t : ThreadId) (c : CallId) (r : Ended) : List Diagnostic :=
  r.failure?.toList.map (w.diagnosticOf w₁ t c)

variable {w w₁ : World} {t : ThreadId} {c : CallId} {r : Ended}

theorem length_reports (unsuccessful : r ≠ .ok (.ok ())) : (w.reports w₁ t c r).length = 1 := by
  rcases r with p | e | _
  · rfl
  · rfl
  · contradiction

theorem length_reports_le : (w.reports w₁ t c r).length ≤ 1 := by
  by_cases success : r = .ok (.ok ())
  · rw [success]
    exact Nat.zero_le 1
  · exact Nat.le_of_eq (length_reports success)

end World

section Reports

variable {w w₁ : World} {t : ThreadId} {c : CallId} {H : Multiset Holding} {ops : List Operation}

/-- Calls are described alike for good. -/
theorem Course.describeCall_eq {m m' : Moment} (consistent : m.Consistent)
    (course : Course m ops m') (known : c.index < m.world.calls.size) :
    m'.world.describeCall c = m.world.describeCall c := by
  obtain ⟨dead, same, _⟩ := (course.follows consistent).call c known
  simp only [World.describeCall, same]

/-- The calls on a stack are in use. -/
theorem Moment.Ready.known_of_callStack (ready : Ready ⟨w, H⟩ t) {d : CallId}
    (executing : d ∈ w.callStack t) : d.index < w.calls.size := by
  have alive := ready.consistent.balanced.callAlive_iff.mpr (.inr (.inl ⟨t, executing⟩))
  exact Arena.lt_size_of_shares_pos (of_decide_eq_true alive)

/-- A report about the callable tells of the run as it found things when it began, and of the
context that the callable left. -/
theorem failureReport_eq (ready : Ready ⟨w, H⟩ t) (used : 0 < w.calls.shares c)
    (course : Course ⟨w, H⟩ ops ⟨w₁, w.runHeld t c H⟩)
    (stack : w₁.callStack t = w.callStack t ++ [c]) (failure : Error × Option String) :
    w₁.failureReport t c failure.1 failure.2 = w.diagnosticOf w₁ t c failure := by
  have known := Arena.lt_size_of_shares_pos used
  have described : w₁.describeCall c = w.describeCall c :=
    course.describeCall_eq ready.consistent known
  have provenance : (w₁.calls.get c).provenance = (w.calls.get c).provenance := by
    obtain ⟨dead, same, _⟩ := (course.follows ready.consistent).call c known
    rw [same]
  have chain : w₁.callChain t = w.callChain t ++ [w.describeCall c] := by
    have others : (w.callStack t).map w₁.describeCall = w.callChain t :=
      List.map_congr_left fun d executing =>
        course.describeCall_eq ready.consistent (ready.known_of_callStack executing)
    rw [World.callChain, stack, List.map_append, others, List.map_singleton, described]
  rw [World.failureReport, described, provenance, chain]
  rfl

end Reports

/-! ## The context of a report -/

namespace History

variable {h : History} {n : Nat} {t : ThreadId} {ops : List Operation} {stack : ContextStack}
  {guards : Multiset Guard}

theorem snapshot_after (old : n < h.size) (op : Operation) :
    (h.after t op).snapshot n = h.snapshot n := by
  cases op with
  | install u s =>
    simp only [after]
    split
    · exact snapshot_install old
    · rfl
  | dropGuard u g =>
    simp only [after]
    split
    · exact snapshot_finish
    · rfl
  | _ => rfl

/-- What an install made ambient is remembered. -/
theorem snapshot_foldl (old : n < h.size) : (ops.foldl (after t) h).snapshot n = h.snapshot n := by
  induction ops generalizing h with
  | nil => rfl
  | cons op ops ih =>
    rw [List.foldl_cons, ih (Nat.lt_of_lt_of_le old (h.size_after_le op)), snapshot_after old]

/-- What is ambient is what the innermost active install made so. -/
theorem Matches.ambient_of_head? (fits : h.Matches stack guards) (few : h.size ≤ 2 ^ 64)
    (known : n < h.size) (head : stack.active.head? = some (.ofNat n)) :
    stack.ambient = h.snapshot n := by
  have member : UInt64.ofNat n ∈ stack.active := List.mem_of_head? head
  have active := (fits.mem_active_iff few known).mp member
  rw [fits.active, List.head?_map, Option.map_eq_some_iff] at head
  obtain ⟨k, first, same⟩ := head
  have distinct := List.inj_on_of_nodup_map (nodup_tokens few)
  obtain rfl : k = n := distinct (List.mem_of_head? first) active same
  rw [fits.ambient, History.ambient, top, first]
  rfl

end History

section Innermost

variable {verbosity : Verbosity} {w w₁ : World} {t : ThreadId} {c : CallId}
  {H K : Multiset Holding} {before between : List Operation} {m : Moment}

theorem Course.size_told (course : Course (.start verbosity) before m) (t : ThreadId) :
    (History.told t before).size = (m.world.contextStack t).installs := by
  rw [course.contextStack_eq t]
  exact History.size_foldl rfl before

/-- While the install of a run is the innermost active one, the context of the call is ambient. -/
theorem ambient_of_innermost_run (course : Course (.start verbosity) before ⟨w, H⟩)
    (inside : t.index < w.threads.size) (used : 0 < w.calls.shares c)
    (there : w.callExists c = true)
    (running : Course ⟨w.entered t c, w.runHeld t c H⟩ between ⟨w₁, K⟩)
    (few : (w₁.contextStack t).installs < 2 ^ 64)
    (innermost : (w₁.contextStack t).active.head? = some (w.runGuard t).token) :
    w₁.ambient t = (w.calls.get c).context := by
  have ready : Ready ⟨w, H⟩ t := ⟨course.consistent (consistent_start verbosity), inside⟩
  have whole := (course.trans (course_entered ready used there)).trans running
  have fewTold : (History.told t _).size ≤ 2 ^ 64 := (whole.size_told t).trans_le (Nat.le_of_lt few)
  have token : (w.runGuard t).token = .ofNat (History.told t before).size := by
    rw [course.size_told t]
    rfl
  -- The history goes on from the install that the run made, which has the next number.
  have told : History.told t (before ++ [.install t (w.calls.get c).context] ++ between) =
      between.foldl (History.after t)
        ((History.told t before).install (w.calls.get c).context) := by
    simp only [History.told, List.foldl_append, List.foldl_cons, List.foldl_nil, History.after,
      if_true]
  have made : (History.told t before).size <
      ((History.told t before).install (w.calls.get c).context).size := by
    rw [History.size_install]
    exact Nat.lt_succ_self _
  have fits := whole.matches t fewTold
  rw [token] at innermost
  rw [told] at fits fewTold
  rw [World.ambient, fits.ambient_of_head? fewTold
    (Nat.lt_of_lt_of_le made (History.size_le_foldl _ _)) innermost, History.snapshot_foldl made,
    History.snapshot_install_size]

end Innermost

/-! ## What comes of a run -/

namespace Act

variable {code : Embedder} {c : CallId} {args : Option CallArgs} {t : ThreadId} {w w₁ : World}
  {H : Multiset Holding} {r : Ended}

/-- A run is concluded by handing over what there is to report, one diagnostic at most. -/
theorem conclude_eq_each (emit : Emit) : conclude emit c r t w₁ =
    let handed := each (emit (w₁.sinkOf c))
      (r.failure?.toList.map fun failure => w₁.failureReport t c failure.1 failure.2) t w₁
    (handed.1.map fun _ => r.outcome, handed.2) := by
  have reported (e : Error) (traceback : Option String) :
      reportFailure emit c e traceback t w₁ =
        let handed := each (emit (w₁.sinkOf c)) [w₁.failureReport t c e traceback] t w₁
        (handed.1.map fun _ => .failed e, handed.2) := by
    simp only [reportFailure, bind_apply, read_apply, each]
    rcases emit (w₁.sinkOf c) (w₁.failureReport t c e traceback) t w₁ with ⟨_ | _, _⟩ <;> rfl
  rcases r with p | e | _
  · exact reported _ _
  · exact reported _ _
  · rfl

/-- Handing over at most one thing panics if and only if that one does. -/
theorem each_error {α : Type} {f : α → Act Unit} {l : List α} (few : l.length ≤ 1) (p : Panic) :
    (each f l t w).1 = .error p ↔ ∃ a ∈ l, (f a t w).1 = .error p := by
  match l with
  | [] => simp [each]
  | [a] =>
    simp only [each, bind_apply, List.mem_singleton, exists_eq_left]
    rcases f a t w with ⟨_ | _, _⟩ <;> simp

end Act

open Act

/-- How a panic goes on that comes out of a run. -/
structure Unwinds (code : Embedder) (w : World) (t : ThreadId) (c : CallId) (args : Option CallArgs)
    (p : Panic) : Prop where
  /-- Code that does not catch it does nothing any more. -/
  through : ∀ {β : Type} (rest : RunOutcome → Act β),
    (run code c args >>= rest) t w = (.error p, (run code c args t w).2)
  strong : runStrong code c args t w = (.error p, (run code c args t w).2.releaseCall t c)
  weak : ∀ w', w'.callAlive c = true → w'.acquire (.call c) = w →
    runWeak code c args t w' = (.error p, (run code c args t w).2.releaseCall t c)
  /-- If it comes out of the callable of an enclosing run, it is what that run makes of it. -/
  enclosing : ∀ outer args' w', w'.callExists outer = true →
    code.invoke (w'.callableOf outer) args' t (w'.entered t outer) =
      (.error p, (run code c args t w).2) →
    ∀ o, (run code outer args' t w').1 = .ok o →
      o = .failed { kind := .panicked, message := some (p.text?.getD "unknown panic") }
  /-- A loop logs the panic of a task, and goes on with the next one. -/
  cycle : ∀ (runTask : RunTask) l limit w₀ task w' w₂, w₀.dequeue? l = some (task, w') →
    runTask task t w' = (.error p, w₂) →
    let logged := w₂.log t .warn "posted task panicked"
      [w₂.loopField l, ("panic", .text (p.text?.getD "unknown panic"))]
    let rest := runTasks runTask l limit t logged
    runTasks runTask l (limit + 1) t w₀ = (rest.1.map (· + 1), rest.2)

/-- What comes of a run that invokes its callable, given how the callable ended and in what
world. -/
structure Concluded (code : Embedder) (w : World) (t : ThreadId) (c : CallId)
    (args : Option CallArgs) (r : Ended) (w₁ : World) : Prop where
  /-- When the callable has ended, the reports are handed to the sink of the call, and then the run
  leaves. -/
  told : let handed := each (code.emit (w.calls.get c).sink) (w.reports w₁ t c r) t w₁
    run code c args t w = (handed.1.map fun _ => r.outcome, w.exited handed.2 t c)
  /-- There is one report of a failure or a panic, and none of a success. -/
  once : r ≠ .ok (.ok ()) → (w.reports w₁ t c r).length = 1
  silent : r = .ok (.ok ()) → w.reports w₁ t c r = []
  completed : ∀ o, (run code c args t w).1 = .ok o → (o = .completed ↔ r = .ok (.ok ()))
  invocation : ∀ o, (run code c args t w).1 = .ok o →
    ((∃ error, o = .failed error ∧ error.kind = .invocation) ↔ ∃ e, r = .ok (.error e))
  panicked : ∀ o, (run code c args t w).1 = .ok o →
    ((∃ error, o = .failed error ∧ error.kind = .panicked) ↔ ∃ p, r = .error p)
  /-- The error carries what the callable said. -/
  carried : ∀ o, (run code c args t w).1 = .ok o → o = r.outcome
  /-- The call is still on the stack of calls when the sink is told, and until the sink is done. -/
  entered : w₁.callStack t = w.callStack t ++ [c]
  handing : ∀ d, (code.emit (w.calls.get c).sink d t w₁).2.callStack t = w.callStack t ++ [c]
  /-- The context that is reported is that of the call, if the install of the run is the innermost
  active one by then. -/
  context : (w₁.contextStack t).installs < 2 ^ 64 →
    (w₁.contextStack t).active.head? = some (w.runGuard t).token →
    w₁.ambient t = (w.calls.get c).context
  /-- Unless the sink panics, whoever made the run goes on with its outcome, even if the callable
  panicked. -/
  caught : (∀ d ∈ w.reports w₁ t c r, (code.emit (w.calls.get c).sink d t w₁).1.isOk) →
    ∀ {β : Type} (rest : RunOutcome → Act β),
      (run code c args >>= rest) t w = rest r.outcome t (run code c args t w).2
  /-- A run panics only if its sink does. -/
  panics : ∀ p, (run code c args t w).1 = .error p ↔
    ∃ d ∈ w.reports w₁ t c r, (code.emit (w.calls.get c).sink d t w₁).1 = .error p
  unwinds : ∀ p, (run code c args t w).1 = .error p → Unwinds code w t c args p

namespace Act

variable {code : Embedder} {c : CallId} {args : Option CallArgs} {t : ThreadId} {w w₁ : World}
  {H : Multiset Holding} {r : Ended} {p : Panic}

/-- The outcome of a run that returns says how its callable ended. -/
theorem outcome_of_run (there : w.callExists c = true)
    (invoked : code.invoke (w.callableOf c) args t (w.entered t c) = (r, w₁)) (o : RunOutcome)
    (returned : (run code c args t w).1 = .ok o) : o = r.outcome := by
  rw [run_eq, if_pos there] at returned
  simp only [Act.invoked, invoked, conclude_eq_each] at returned
  revert returned
  generalize (each _ _ t w₁).1 = handed
  intro returned
  cases handed with
  | ok _ => exact (Except.ok.inj returned).symm
  | error p => exact nomatch returned

/-- However a panic came out of a run, it goes on as any other one. -/
theorem unwinds_of_error (panicked : (run code c args t w).1 = .error p) :
    Unwinds code w t c args p where
  through rest := by
    rw [bind_apply]
    generalize run code c args t w = ended at panicked ⊢
    obtain ⟨_, _⟩ := ended
    obtain rfl := panicked
    rfl
  strong := by
    rw [runStrong_apply, panicked]
    rfl
  weak w' alive same := by
    rw [runWeak_eq, if_pos alive, same, runStrong_apply, panicked]
    rfl
  enclosing outer args' w' there invoked o returned := outcome_of_run there invoked o returned
  cycle runTask l limit w₀ task w' w₂ taken ran := by
    rw [runTasks_succ, taken]
    simp only [World.ran, ran]
    rfl

/-- What the callable does lies between entering and reporting, and afterwards its call is the
innermost one again. -/
theorem course_invoke (ready : Ready ⟨w, H⟩ t) (used : 0 < w.calls.shares c)
    (there : w.callExists c = true) (lawful : code.Lawful)
    (invoked : code.invoke (w.callableOf c) args t (w.entered t c) = (r, w₁)) :
    (∃ between, Course ⟨w.entered t c, w.runHeld t c H⟩ between ⟨w₁, w.runHeld t c H⟩) ∧
      Ready ⟨w₁, w.runHeld t c H⟩ t ∧ w₁.callStack t = w.callStack t ++ [c] := by
  have entered := ready.after (course_entered ready used there)
  have reached := lawful.invoke (w.callableOf c) args entered
  rw [invoked] at reached
  have after := entered.reaches reached
  refine ⟨reached, after, ?_⟩
  rw [entered.consistent.callStack_eq after.consistent, callStack_entered ready used there]

/-- A run hands over its reports when its callable has ended, and leaves when that is done. -/
theorem told_of_run (ready : Ready ⟨w, H⟩ t) (used : 0 < w.calls.shares c)
    (there : w.callExists c = true) (lawful : code.Lawful)
    (invoked : code.invoke (w.callableOf c) args t (w.entered t c) = (r, w₁)) :
    let handed := each (code.emit (w.calls.get c).sink) (w.reports w₁ t c r) t w₁
    run code c args t w = (handed.1.map fun _ => r.outcome, w.exited handed.2 t c) := by
  obtain ⟨⟨between, running⟩, _, stack⟩ := course_invoke ready used there lawful invoked
  have whole := (course_entered ready used there).trans running
  have sink : w₁.sinkOf c = (w.calls.get c).sink := by
    obtain ⟨dead, same, _⟩ :=
      (whole.follows ready.consistent).call c (Arena.lt_size_of_shares_pos used)
    rw [World.sinkOf, same]
  have reports : (r.failure?.toList.map fun failure => w₁.failureReport t c failure.1 failure.2) =
      w.reports w₁ t c r :=
    List.map_congr_left fun failure _ => failureReport_eq ready used whole stack failure
  rw [run_eq, if_pos there]
  simp only [Act.invoked, invoked, conclude_eq_each, sink, reports]

/-- A sink is told while the call is on the stack of calls, and finds and leaves it there. -/
theorem callStack_handing (lawful : code.Lawful) (after : Ready ⟨w₁, H⟩ t)
    (sink : Option SinkId) (d : Diagnostic) :
    (code.emit sink d t w₁).2.callStack t = w₁.callStack t := by
  have handed := after.reaches (lawful.emit sink d after)
  exact after.consistent.callStack_eq handed.consistent t

end Act

/-- What comes of a run is what came of its callable. A success is not reported. Of a failure and of
a panic the sink of the call is told once, after the callable has ended and before the run leaves;
and only if the sink panics does the run, which goes on through whatever does not catch it, to an
enclosing run, which takes it for a panic of its callable, or to the loop, which logs it. -/
theorem runs_report_failures {verbosity : Verbosity} {before : List Operation} {w w₁ : World}
    {H : Multiset Holding} (course : Course (.start verbosity) before ⟨w, H⟩) {t : ThreadId}
    (inside : t.index < w.threads.size) {c : CallId} (used : 0 < w.calls.shares c)
    (there : w.callExists c = true) {code : Embedder} (lawful : code.Lawful)
    {args : Option CallArgs} {r : Ended}
    (invoked : code.invoke (w.callableOf c) args t (w.entered t c) = (r, w₁)) :
    Concluded code w t c args r w₁ := by
  have ready : Ready ⟨w, H⟩ t := ⟨course.consistent (consistent_start verbosity), inside⟩
  obtain ⟨⟨between, running⟩, after, stack⟩ := course_invoke ready used there lawful invoked
  have told := told_of_run ready used there lawful invoked
  have carried := outcome_of_run there invoked
  have panics (p : Panic) : (run code c args t w).1 = .error p ↔
      ∃ d ∈ w.reports w₁ t c r, (code.emit (w.calls.get c).sink d t w₁).1 = .error p := by
    rw [← each_error World.length_reports_le, told]
    generalize (each _ _ t w₁).1 = handed
    cases handed <;> simp [Except.map]
  constructor
  case told => exact told
  case once => exact World.length_reports
  case silent =>
    rintro rfl
    rfl
  case completed =>
    intro o returned
    rw [carried o returned, Ended.outcome_eq_completed]
  case invocation =>
    intro o returned
    rw [carried o returned, Ended.outcome_invocation]
  case panicked =>
    intro o returned
    rw [carried o returned, Ended.outcome_panicked]
  case carried => exact carried
  case entered => exact stack
  case handing => exact fun d => (callStack_handing lawful after _ d).trans stack
  case context =>
    intro few innermost
    exact ambient_of_innermost_run course inside used there running few innermost
  case caught =>
    intro returns β rest
    match ended : run code c args t w with
    | (.ok o, w') =>
      rw [bind_of_ok ended, carried o (by rw [ended])]
    | (.error p, w') =>
      obtain ⟨d, member, refused⟩ := (panics p).mp (by rw [ended])
      have returned := returns d member
      rw [refused] at returned
      contradiction
  case panics => exact panics
  case unwinds => exact fun p => unwinds_of_error

namespace Relay

/-- The callable of the second call runs the first one, whose callable fails and whose sink refuses
what it is handed. The second call has a context and a sink that keeps what it is handed. -/
def prepare : Act Unit := script (performer 1)
  [("hall", .newContext "hall" "hall"), ("wall", .newSink "wall" .refusing),
    ("shelf", .newSink "shelf" .memory),
    ("inner", .newCallable "inner" none [] 0 [.fail { description := "lost" }]),
    ("outer", .newCallable "outer" none [("relay", .run "first" none)] 1 [.normal]),
    ("first", .newCall "first" (.callable "inner")
      (some { provenance := none, sink := some "wall" })),
    ("second", .newCall "second" (.callable "outer")
      (some { context := some "hall", provenance := none, sink := some "shelf" }))]

/-- The world in which the calls have been built. -/
def world : World :=
  (prepare Session.driver (Session.start none)).2

/-- The panic of the sink of the first call. -/
def refusal : Panic :=
  ⟨some "sink refused <DeferredCall #1>"⟩

/-- The world in which the panic comes out of the callable of the second call. -/
def relayed : World :=
  ((embedder (performer 2)).invoke (world.callableOf ⟨1⟩) none Session.driver
    (world.entered Session.driver ⟨1⟩)).2

theorem invoke_outer : (embedder (performer 2)).invoke (world.callableOf ⟨1⟩) none Session.driver
    (world.entered Session.driver ⟨1⟩) = (.error refusal, relayed) := by
  have ended : ((embedder (performer 2)).invoke (world.callableOf ⟨1⟩) none Session.driver
      (world.entered Session.driver ⟨1⟩)).1 = .error refusal := by decide +kernel
  rw [relayed, ← ended]

/-- The panic of one sink is a panic of the callable that made the run. It is reported to the other
sink, under the context of its call, and stays there. -/
theorem report_of_refusal :
    (run (embedder (performer 2)) ⟨1⟩ none Session.driver world).1 =
      .ok (.failed { kind := .panicked, message := refusal.text? }) ∧
    world.reports relayed Session.driver ⟨1⟩ (.error refusal) =
      [{ call := "<DeferredCall #2>"
         provenance := none
         context := "scene 'hall'"
         chain := ["<DeferredCall #2>"]
         error := some "Panicked: sink refused <DeferredCall #1>" }] ∧
    relayed.ambient Session.driver = .of ⟨0⟩ ∧
    ((run (embedder (performer 2)) ⟨1⟩ none Session.driver world).2.sinks.get ⟨1⟩).entries =
      world.reports relayed Session.driver ⟨1⟩ (.error refusal) := by
  obtain ⟨_, course⟩ := lawful_script (performer_lawful 1) _ (Session.ready_start none)
  have facts := runs_report_failures (w := world) course (t := Session.driver) (by decide +kernel)
    (by decide +kernel) (by decide +kernel) (embedder_lawful (performer_lawful 2)) invoke_outer
  have own := facts.context (by decide +kernel) (by decide +kernel)
  have returned := congrArg Prod.fst facts.told
  exact ⟨returned.trans (by decide +kernel), by decide +kernel, own.trans (by decide +kernel),
    by decide +kernel⟩

end Relay

end DeferredCalls
