import DeferredCalls.Proofs.Veiled
import DeferredCalls.Session.Nested
import DeferredCalls.Session.Naming

/-!
# Actions that are unaware of a veil

An action is unaware of a veil if it does under the veil what it does without it: it has the same
result, except for the events in the journals that the result contains, and it leaves the same world
as seen under the veil. Whatever is composed of such actions is one itself; this covers runs of
calls, whatever their callables and sinks do as long as that is unaware of the veil as well, tasks,
and what is kept under names.
-/

namespace DeferredCalls

open World

/-- A change of the world by a thread that is the same under a veil, and touches no other thread. -/
def Veil.Passes (V : Veil) (g : ThreadId → World → World) : Prop :=
  ∀ ⦃t : ThreadId⦄ ⦃w : World⦄, V.hidden t = none → V.Fits w →
    g t (w.under V) = (g t w).under V ∧ w.Touches t (g t w)

/-- What an action does is seen under a veil as what another action does there, with another view of
the result. -/
def Act.Shows {α β : Type} (V : Veil) (seen : α → β) (m : Act α) (m' : Act β) : Prop :=
  ∀ ⦃t : ThreadId⦄ ⦃w : World⦄, V.hidden t = none → V.Fits w →
    m' t (w.under V) = ((m t w).1.map seen, (m t w).2.under V) ∧ V.Fits (m t w).2

/-- An action that is unaware of a veil, and whose result contains no journals. -/
abbrev Act.Unaware {α : Type} (V : Veil) (m : Act α) : Prop :=
  m.Shows V id m

/-- An action that is unaware of a veil and replies to a command. -/
abbrev Act.Answers (V : Veil) (m : Act Reply) : Prop :=
  m.Shows V (·.upTo V.limit) m

/-- Code of an embedder that is unaware of a veil. -/
structure Embedder.Unaware (V : Veil) (code : Embedder) : Prop where
  invoke : ∀ f args, (code.invoke f args).Unaware V
  emit : ∀ sink d, (code.emit sink d).Unaware V

/-- A way of running tasks that is unaware of a veil. -/
def RunTask.Unaware (V : Veil) (runTask : RunTask) : Prop :=
  ∀ task, Act.Unaware V (runTask task)

/-- A way of performing commands that is unaware of a veil. -/
def Performer.Unaware (V : Veil) (self : Performer) : Prop :=
  ∀ command, Act.Answers V (self command)

namespace Act

variable {V : Veil} {α β γ δ : Type} {seen : α → γ} {seen' : β → δ} {m : Act α} {m' : Act γ}
  {f : α → Act β} {t : ThreadId} {w : World}

/-! ## Composing actions -/

namespace Shows

protected theorem bind {f' : γ → Act δ} (first : m.Shows V seen m')
    (rest : ∀ a, (f a).Shows V seen' (f' (seen a))) : (m >>= f).Shows V seen' (m' >>= f') := by
  intro t w own fits
  obtain ⟨eq, fits'⟩ := first own fits
  rw [bind_apply, bind_apply, eq]
  match result : m t w with
  | (.ok a, w') =>
    rw [result] at fits'
    exact rest a own fits'
  | (.error p, w') =>
    rw [result] at fits'
    exact ⟨rfl, fits'⟩

/-- After an action whose result is shown as it is. -/
theorem andThen {f' : α → Act δ} (first : m.Unaware V)
    (rest : ∀ a, (f a).Shows V seen' (f' a)) : (m >>= f).Shows V seen' (m >>= f') :=
  first.bind rest

protected theorem pure {a : α} {c : γ} (same : c = seen a) :
    (pure a : Act α).Shows V seen (pure c) := by
  intro t w own fits
  rw [same]
  exact ⟨rfl, fits⟩

protected theorem read {g : ThreadId → World → α} {g' : ThreadId → World → γ}
    (same : ∀ ⦃t : ThreadId⦄ ⦃w : World⦄, V.hidden t = none → g' t (w.under V) = seen (g t w)) :
    (read g).Shows V seen (read g') := by
  intro t w own fits
  rw [read_apply, same own]
  exact ⟨rfl, fits⟩

protected theorem panic (p : Panic) : (panic p : Act α).Shows V seen (panic p) :=
  fun _ _ _ fits => ⟨rfl, fits⟩

protected theorem ite {p : Prop} [Decidable p] {k : Act α} {k' : Act γ} (yes : m.Shows V seen m')
    (no : k.Shows V seen k') : (if p then m else k).Shows V seen (if p then m' else k') := by
  split
  · exact yes
  · exact no

protected theorem update {g : ThreadId → World → α × World} {g' : ThreadId → World → γ × World}
    (same : ∀ ⦃t : ThreadId⦄ ⦃w : World⦄, V.hidden t = none → V.Fits w →
      g' t (w.under V) = (seen (g t w).1, (g t w).2.under V) ∧ w.Touches t (g t w).2) :
    (update g).Shows V seen (update g') := by
  intro t w own fits
  obtain ⟨eq, touches⟩ := same own fits
  rw [update_apply, eq]
  exact ⟨rfl, fits.touches own touches⟩

protected theorem attempt (h : m.Shows V seen m') :
    (attempt m).Shows V (Except.map seen) (attempt m') := by
  intro t w own fits
  obtain ⟨eq, fits'⟩ := h own fits
  rw [attempt_apply, eq]
  exact ⟨rfl, fits'⟩

protected theorem on (h : m.Shows V seen m') {u : ThreadId} (own : V.hidden u = none) :
    (on u m).Shows V seen (on u m') :=
  fun _ _ _ fits => h own fits

/-- Before and after an action, the same is done under the veil as without it. -/
theorem between (after : World → World) {before : World} (own : V.hidden t = none)
    (fits : V.Fits w) (first : w.Touches t before) (h : m.Shows V seen m')
    (last : ∀ w, after (w.under V) = (after w).under V ∧ w.Touches t (after w)) :
    ((m' t (before.under V)).1, after (m' t (before.under V)).2) =
        ((m t before).1.map seen, (after (m t before).2).under V) ∧
      V.Fits (after (m t before).2) := by
  obtain ⟨eq, fits'⟩ := h own (fits.touches own first)
  obtain ⟨same, touches⟩ := last (m t before).2
  rw [eq, same]
  exact ⟨rfl, fits'.touches own touches⟩

protected theorem ensuring {cleanup : ThreadId → World → World} (h : m.Shows V seen m')
    (passes : V.Passes cleanup) : (ensuring cleanup m).Shows V seen (ensuring cleanup m') := by
  intro t w own fits
  obtain ⟨eq, fits'⟩ := h own fits
  obtain ⟨same, touches⟩ := passes own fits'
  rw [ensuring_apply, eq, same]
  exact ⟨rfl, fits'.touches own touches⟩

protected theorem holding (s : Share) (h : m.Shows V seen m') :
    (holding s m).Shows V seen (holding s m') := by
  intro t w own fits
  simp only [holding, ensuring_apply, acquire_under]
  exact between (·.release t s) own fits (.of_threads (w.threads_acquire s)) h fun w =>
    ⟨release_under own s, w.touches_release t s⟩

protected theorem holdingAll (shares : List Share) (h : m.Shows V seen m') :
    (holdingAll shares m).Shows V seen (holdingAll shares m') := by
  induction shares with
  | nil => exact h
  | cons s shares ih => exact ih.holding s

protected theorem installing (s : Snapshot) (h : m.Shows V seen m') :
    (installing s m).Shows V seen (installing s m') := by
  intro t w own fits
  rw [installing_apply, installing_apply, install_under own, contextStack_under own]
  exact between (·.dropGuard t _) own fits (w.touches_install t s) h fun w =>
    ⟨dropGuard_under own _, w.touches_dropGuard t _⟩

protected theorem entering (c : CallId) (h : m.Shows V seen m') :
    (entering c m).Shows V seen (entering c m') := by
  intro t w own fits
  rw [entering_apply, entering_apply, enterCall_under own, callStack_under own]
  exact between (·.leaveCalls t _) own fits (w.touches_enterCall t c) h fun w =>
    ⟨leaveCalls_under own _, w.touches_leaveCalls t _⟩

/-! Actions whose result is shown as it is -/

/-- What is caught is shown as it is, too. -/
theorem attemptPlain (h : m.Unaware V) : (attempt m).Unaware V := by
  intro t w own fits
  obtain ⟨eq, fits'⟩ := h own fits
  have same : (m t w).1.map id = (m t w).1 := by cases (m t w).1 <;> rfl
  rw [attempt_apply, eq, same]
  exact ⟨rfl, fits'⟩

protected theorem change {g : ThreadId → World → World} (passes : V.Passes g) :
    (change g).Unaware V := by
  intro t w own fits
  obtain ⟨eq, touches⟩ := passes own fits
  rw [change_apply, eq]
  exact ⟨rfl, fits.touches own touches⟩

protected theorem log {level : Level} {message : String}
    {fields : World → List (String × FieldValue)}
    (same : ∀ w : World, fields (w.under V) = fields w) :
    (log level message fields).Unaware V := by
  refine .change fun t w own fits => ?_
  rw [same, log_under own]
  exact ⟨rfl, (Touches.refl w).log⟩

/-- A note of something else than an event. -/
theorem noteSeen {e e' : ThreadId → World → Entry} (plain : ∀ t w, (e t w).isEvent = false)
    (same : ∀ ⦃t : ThreadId⦄ ⦃w : World⦄, V.hidden t = none →
      e' t (w.under V) = (e t w).upTo V.limit) : (note e).Shows V id (note e') := by
  intro t w own fits
  have within := Entry.isWithin_of_not_event (v := V.limit) (plain t w)
  rw [note, note, change_apply, change_apply, same own, note_under own within]
  exact ⟨rfl, fits.touches own ((Touches.refl w).sheds (w.sheds_note t _))⟩

protected theorem note {e : ThreadId → World → Entry} (plain : ∀ t w, (e t w).isEvent = false)
    (same : ∀ ⦃t : ThreadId⦄ ⦃w : World⦄, V.hidden t = none →
      e t (w.under V) = (e t w).upTo V.limit) : (note e).Unaware V :=
  noteSeen plain same

protected theorem each {f : α → Act Unit} (h : ∀ a, (f a).Unaware V) (as : List α) :
    (each f as).Unaware V := by
  induction as with
  | nil => exact .pure rfl
  | cons a as ih => exact (h a).andThen fun _ => ih

end Shows

/-- A change by which no thread is touched. -/
theorem passes_of_threads {g : ThreadId → World → World}
    (same : ∀ t w, g t (w.under V) = (g t w).under V)
    (threads : ∀ t w, (g t w).threads = w.threads) :
    V.Passes g :=
  fun t w _ _ => ⟨same t w, .of_threads (threads t w)⟩

theorem unaware_acquireAll (shares : List Share) : (acquireAll shares).Unaware V :=
  .change (passes_of_threads (fun _ _ => acquireAll_under shares) fun _ w =>
    w.threads_acquireAll shares)

theorem passes_release (s : Share) : V.Passes fun t w => w.release t s :=
  fun t w own _ => ⟨release_under own s, w.touches_release t s⟩

theorem passes_releaseCalls (cs : List CallId) : V.Passes fun t w => w.releaseCalls t cs :=
  fun t w own _ => ⟨releaseCalls_under own cs, (Touches.refl w).sheds (w.sheds_releaseCalls t cs)⟩

/-! ## Calls -/

theorem unaware_emit (sink : Option SinkId) (d : Diagnostic) : (emit sink d).Unaware V := by
  refine .andThen (.read fun _ _ _ => rfl) fun kind => ?_
  cases kind with
  | memory =>
    exact .change fun t w _ _ => ⟨keep_under sink d, w.touches_keep t sink d⟩
  | probe =>
    refine .note (fun _ _ => rfl) fun t w own => ?_
    rw [position_under own]
    rfl
  | refusing => exact .panic _
  | logging =>
    exact .change fun t w own _ => ⟨log_under own .., (Touches.refl w).log⟩
  | console => exact .pure rfl

theorem unaware_printContext (c : CallId) : (printContext c).Unaware V := by
  refine .change fun t w own _ => ⟨?_, (Touches.refl w).log⟩
  rw [contextReport_under own, log_under own]

section Runs

variable {code : Embedder} (unaware : code.Unaware V)

include unaware

theorem unaware_reportFailure (c : CallId) (e : Error) (traceback : Option String) :
    (reportFailure code.emit c e traceback).Unaware V := by
  have report : (read fun t w => w.failureReport t c e traceback).Unaware V :=
    .read fun _ _ own => failureReport_under own c e traceback
  exact report.andThen fun d => .andThen (.read fun _ _ _ => rfl) fun sink =>
    (unaware.emit sink d).andThen fun _ => .pure rfl

theorem unaware_conclude (c : CallId) (ended : Except Panic (Except CallError Unit)) :
    (conclude code.emit c ended).Unaware V := by
  match ended with
  | .ok (.ok ()) => exact .pure rfl
  | .ok (.error e) => exact unaware_reportFailure unaware ..
  | .error p => exact unaware_reportFailure unaware ..

theorem unaware_run (c : CallId) (args : Option CallArgs) : (run code c args).Unaware V := by
  have body (f : CallableId) : (invokeFor code c f args).Unaware V :=
    (unaware.invoke f args).attemptPlain.andThen fun ended => unaware_conclude unaware c ended
  refine .andThen (.read fun _ _ _ => rfl) fun call => .ite ?_ ?_
  · exact (Shows.log fun _ => rfl).andThen fun _ => .pure rfl
  · refine .andThen (.read fun _ _ _ => rfl) fun obtained => ?_
    cases obtained with
    | none => exact (Shows.log fun _ => rfl).andThen fun _ => .pure rfl
    | some f =>
      have started : (change fun t w => w.log t .trace "running deferred call"
          [callField c, ("depth", .number (w.callStack t).length)]).Unaware V := by
        refine .change fun t w own _ => ⟨?_, (Touches.refl w).log⟩
        rw [callStack_under own, log_under own]
      exact .holding _ (.entering c (.installing _ (started.andThen fun _ => body f)))

theorem unaware_runStrong (c : CallId) (args : Option CallArgs) :
    (runStrong code c args).Unaware V :=
  .ensuring ((unaware_run unaware c args).andThen fun _ => .pure rfl) (passes_release (.call c))

theorem unaware_runWeak (c : CallId) (args : Option CallArgs) :
    (runWeak code c args).Unaware V := by
  refine .andThen (.read fun _ _ _ => rfl) fun alive => .ite ?_ (.log fun _ => rfl)
  exact .holding _ ((unaware_run unaware c args).andThen fun _ => .pure rfl)

end Runs

/-! ## Scheduling -/

theorem unaware_post (s : Scheduler) (task : Task) : (post s task).Unaware V := by
  refine .update fun t w own fits => ?_
  rw [acquireAll_under, post_under own]
  exact ⟨rfl, Touches.trans (.of_threads (w.threads_acquireAll _)) (touches_post ..)⟩

theorem isDesignated_under (s : Scheduler) :
    (w.under V).isDesignated t s = w.isDesignated t s := by
  cases s <;> rfl

theorem violationOf_under (s : Scheduler) : (w.under V).violationOf s = w.violationOf s := by
  cases s <;> rfl

theorem unaware_schedule (s : Scheduler) (c : CallId) (weakly : Bool) (args : Option CallArgs) :
    (schedule s c weakly args).Unaware V := by
  refine .andThen (.read fun _ _ _ => isDesignated_under s) fun designated => .ite ?_ ?_
  · refine (unaware_post s _).andThen fun answer => ?_
    cases answer with
    | error e => exact .pure rfl
    | ok _ => exact (Shows.log fun _ => rfl).andThen fun _ => .pure rfl
  · refine .andThen (.read fun _ _ _ => violationDetail_under c weakly) fun detail =>
      (Shows.log fun _ => rfl).andThen fun _ =>
        .andThen (.read fun _ _ _ => violationOf_under s) fun response => ?_
    cases response with
    | panic => exact .panic _
    | log => exact .pure rfl

/-! ## Nested scripts -/

theorem unaware_finish (ending : Ending) : (finish ending).Unaware V := by
  cases ending with
  | normal => exact .pure rfl
  | fail e => exact .pure rfl
  | panic p => exact .panic p

theorem passes_settleTicket (panicked : Bool) (ticket : Option Nat) :
    V.Passes fun _ w => settleTicket panicked ticket w := by
  cases ticket with
  | none => exact passes_of_threads (fun _ _ => rfl) fun _ _ => rfl
  | some i => exact passes_of_threads (fun _ _ => rfl) fun _ _ => rfl

section Nested

variable {self : Performer} (unaware : self.Unaware V)

include unaware

/-- The replies of nested commands are noted as they are seen. -/
theorem unaware_script (body : Script) : (script self body).Unaware V := by
  induction body with
  | nil => exact .pure rfl
  | cons first rest ih =>
    obtain ⟨verb, command⟩ := first
    refine (unaware command).bind fun reply => ?_
    have noted : (note fun _ _ => .did verb reply).Shows V id
        (note fun _ _ => .did verb (reply.upTo V.limit)) :=
      .noteSeen (fun _ _ => rfl) fun _ _ _ => rfl
    exact noted.bind fun _ => ih

theorem unaware_invoke (f : CallableId) (args : Option CallArgs) :
    (invoke self f args).Unaware V := by
  refine .andThen (.read fun _ _ _ => rfl) fun c => ?_
  have counted : (change fun _ w => { w with callables := w.callables.modify f fun x =>
      { x with invocations := c.invocations + 1 } }).Unaware V :=
    .change (passes_of_threads (fun _ _ => rfl) fun _ _ => rfl)
  have entered : (note fun t w => .entered c.name c.invocations args (w.position t)).Unaware V := by
    refine .note (fun _ _ => rfl) fun t w own => ?_
    rw [position_under own]
    rfl
  have left : (note fun t w => .left c.name c.invocations (w.position t)).Unaware V := by
    refine .note (fun _ _ => rfl) fun t w own => ?_
    rw [position_under own]
    rfl
  have ended := left.andThen fun _ => unaware_finish (c.ending c.invocations)
  refine counted.andThen fun _ => entered.andThen fun _ => .ite (unaware_finish _) ?_
  exact .ite ((unaware_script unaware c.body).andThen fun _ => ended) ended

theorem embedder_unaware : (embedder self).Unaware V :=
  ⟨unaware_invoke unaware, unaware_emit⟩

theorem unaware_runJob (j : Job) : (runJob self j).Unaware V := by
  have started : (note fun t w => .task j.tag (w.position t)).Unaware V := by
    refine .note (fun _ _ => rfl) fun t w own => ?_
    rw [position_under own]
    rfl
  have body := started.andThen fun _ => (unaware_script unaware j.body).andThen fun _ =>
    (unaware_finish j.ending).andThen fun _ => (Shows.pure rfl : Act.Unaware V (pure ()))
  refine body.attemptPlain.andThen fun ended => ?_
  cases ended with
  | ok _ => exact .change (passes_settleTicket false j.ticket)
  | error p => exact (Shows.change (passes_settleTicket true j.ticket)).andThen fun _ => .panic p

theorem runTask_unaware : RunTask.Unaware V (runTask self) := by
  intro task
  cases task with
  | strong c args => exact unaware_runStrong (embedder_unaware unaware) c args
  | weak c args => exact unaware_runWeak (embedder_unaware unaware) c args
  | job j => exact .ensuring (unaware_runJob unaware j) (passes_releaseCalls j.holds)

end Nested

end Act

end DeferredCalls
