import DeferredCalls.Proofs.Keeping
import DeferredCalls.Proofs.Service
import DeferredCalls.Session.Nested
import DeferredCalls.Session.Naming

/-!
# Respecting a loop thread

An action respects a loop thread if all it does to the thread and its loop is what others may do,
and what the thread does by itself. Then the service of the thread goes on while the action is
performed, by whatever thread; and if that happens while the thread runs a task, the thread is
still running it when the action is over.

What an action adds to the tasks that were accepted is paid for by commands that were still to be
performed, but for a number of posts that is part of the statement. So tasks that are queued and
commands that are still to be performed are together a bound for what a loop thread has to do.
-/

namespace DeferredCalls

open World

namespace Service

variable {t : ThreadId} {l : LoopId} {n k : Nat} {x y z : Service} {w w' : World}

/-- The tasks that were accepted, together with the commands that are still performed. -/
def means (x : Service) : Nat :=
  x.accepted.length + x.world.allowance

/-- The service goes on, with up to a number of posts that were not paid for. -/
structure Passes (t : ThreadId) (l : LoopId) (posts : Nat) (x y : Service) : Prop where
  sequel : x.Sequel t l y
  stage : x.stage.Within y.stage
  means : y.means ≤ x.means + posts

/-- The service goes on until the world is as given. -/
def Leads (t : ThreadId) (l : LoopId) (posts : Nat) (x : Service) (w : World) : Prop :=
  ∃ y, x.Passes t l posts y ∧ y.world = w

namespace Passes

protected theorem refl (x : Service) : x.Passes t l n x :=
  ⟨.refl, .same _, Nat.le_add_right ..⟩

protected theorem trans (first : x.Passes t l n y) (second : y.Passes t l k z) :
    x.Passes t l (n + k) z := by
  refine ⟨Relation.ReflTransGen.trans first.sequel second.sequel,
    first.stage.trans second.stage, ?_⟩
  have := first.means
  have := second.means
  omega

theorem mono (h : x.Passes t l n y) (more : n ≤ k) : x.Passes t l k y :=
  ⟨h.sequel, h.stage, Nat.le_trans h.means (Nat.add_le_add_left more _)⟩

theorem sound (h : x.Passes t l n y) (sound : x.Sound t l) : y.Sound t l :=
  h.sequel.path.sound sound

/-- Something elsewhere. -/
theorem others {new : List Task} (meanwhile : Meanwhile t l x.world new w)
    (allowance : w.allowance = x.world.allowance) :
    x.Passes t l new.length { x with world := w, accepted := x.accepted ++ new } := by
  refine ⟨.single (.others meanwhile), .same _, ?_⟩
  simp only [Service.means, List.length_append, allowance]
  omega

end Passes

theorem Leads.refl (x : Service) : x.Leads t l n x.world :=
  ⟨x, .refl x, rfl⟩

theorem Leads.aside (aside : Aside t l x.world w) : x.Leads t l n w :=
  ⟨_, (Passes.others aside.toMeanwhile aside.allowance).mono (Nat.zero_le n), rfl⟩

/-- One thing after another. The service is sound all the while. -/
theorem Leads.andThen (sound : x.Sound t l) (first : x.Leads t l n w)
    (rest : ∀ y : Service, y.Sound t l → y.world = w → y.Leads t l k w') :
    x.Leads t l (n + k) w' := by
  obtain ⟨y, passes, eq⟩ := first
  obtain ⟨z, passes', eq'⟩ := rest y (passes.sound sound) eq
  exact ⟨z, passes.trans passes', eq'⟩

theorem Leads.mono (h : x.Leads t l n w) (more : n ≤ k) : x.Leads t l k w := by
  obtain ⟨y, passes, eq⟩ := h
  exact ⟨y, passes.mono more, eq⟩

end Service

open Service

/-- Performing an action, by whatever thread, is something that can happen in the course of a
service. -/
def Act.Respects {α : Type} (t : ThreadId) (l : LoopId) (posts : Nat) (m : Act α) : Prop :=
  ∀ ⦃u : ThreadId⦄ ⦃x : Service⦄, x.Sound t l → x.Leads t l posts (m u x.world).2

/-- The way in which the program runs tasks, provided that it respects a loop thread. -/
structure RunTask.Respects (t : ThreadId) (l : LoopId) (runTask : RunTask) : Prop where
  task : ∀ task, (runTask task).Respects t l 0
  depth : ∃ depth, runTask = Act.runTask (Act.performer depth)

/-- The way in which the program performs commands, provided that they respect a loop thread and
post nothing that they do not pay for. -/
structure Performer.Respects (t : ThreadId) (l : LoopId) (performer : Performer) : Prop where
  command : ∀ command, (performer command).Respects t l 0
  depth : ∃ depth, performer = Act.performer depth

namespace Act

variable {α β : Type} {t u : ThreadId} {l : LoopId} {n : Nat} {x : Service} {w : World} {m : Act α}
  {f : α → Act β} {self : Performer}

/-! ## Composing actions -/

namespace Respects

theorem leads_bind (sound : x.Sound t l) {k : Nat} (first : x.Leads t l n (m u x.world).2)
    (rest : ∀ a (y : Service), y.Sound t l → m u x.world = (.ok a, y.world) →
      y.Leads t l k (f a u y.world).2) : x.Leads t l (n + k) ((m >>= f) u x.world).2 := by
  rw [bind_apply]
  match result : m u x.world with
  | (.error p, w) =>
    rw [result] at first
    exact first.mono (Nat.le_add_right n k)
  | (.ok a, w) =>
    rw [result] at first
    refine first.andThen sound fun y sound' eq => ?_
    subst eq
    exact rest a y sound' result

/-- One action after another, of which only the second one may post without paying. -/
protected theorem bind (first : m.Respects t l 0) (rest : ∀ a, (f a).Respects t l n) :
    (m >>= f).Respects t l n := by
  intro u x sound
  exact (leads_bind sound (first sound) fun a _ sound' _ => rest a sound').mono (by omega)

/-- One action after another, of which only the first one may post without paying. -/
theorem followed (first : m.Respects t l n) (rest : ∀ a, (f a).Respects t l 0) :
    (m >>= f).Respects t l n := by
  intro u x sound
  exact leads_bind sound (first sound) fun a _ sound' _ => rest a sound'

protected theorem pure (a : α) : (pure a : Act α).Respects t l n :=
  fun _ x _ => .refl x

protected theorem read (g : ThreadId → World → α) : (read g).Respects t l n :=
  fun _ x _ => .refl x

/-- What is done about something that was seen may count on it. -/
theorem read_bind {g : ThreadId → World → α}
    (rest : ∀ ⦃u : ThreadId⦄ ⦃x : Service⦄, x.Sound t l →
      x.Leads t l n (f (g u x.world) u x.world).2) :
    (read g >>= f).Respects t l n :=
  fun _ _ sound => rest sound

protected theorem panic (p : Panic) : (panic p : Act α).Respects t l n :=
  fun _ x _ => .refl x

protected theorem ite {p : Prop} [Decidable p] {m k : Act α} (yes : m.Respects t l n)
    (no : k.Respects t l n) : (if p then m else k).Respects t l n := by
  split
  · exact yes
  · exact no

protected theorem change {g : ThreadId → World → World}
    (aside : ∀ ⦃u : ThreadId⦄ ⦃w : World⦄, w.Reserved t l → Aside t l w (g u w)) :
    (change g).Respects t l n :=
  fun _ _ sound => .aside (aside sound.reserved)

protected theorem update {g : ThreadId → World → α × World}
    (aside : ∀ ⦃u : ThreadId⦄ ⦃w : World⦄, w.Reserved t l → Aside t l w (g u w).2) :
    (update g).Respects t l n :=
  fun _ _ sound => .aside (aside sound.reserved)

protected theorem note (e : ThreadId → World → Entry) : (note e).Respects t l n :=
  .change fun _ _ => (spares_note ..).aside

protected theorem log (level : Level) (message : String)
    (fields : World → List (String × FieldValue)) : (log level message fields).Respects t l n :=
  .change fun _ _ => (spares_log ..).aside

protected theorem attempt (h : m.Respects t l n) : (attempt m).Respects t l n :=
  fun _ _ sound => h sound

protected theorem on (h : m.Respects t l n) (u : ThreadId) : (on u m).Respects t l n :=
  fun _ _ sound => h sound

/-- Before and after an action, something is done aside. -/
theorem leads_between (after : World → World) {before : World} (sound : x.Sound t l)
    (first : Aside t l x.world before) (h : m.Respects t l n)
    (last : ∀ ⦃w : World⦄, w.Reserved t l → Aside t l w (after w)) :
    x.Leads t l n (after (m u before).2) := by
  have inner : x.Leads t l (0 + n) (m u before).2 :=
    (Leads.aside first).andThen sound fun y sound' eq => by
      rw [← eq]
      exact h sound'
  rw [Nat.zero_add] at inner
  refine inner.andThen (k := 0) sound fun y sound' eq => .aside ?_
  rw [← eq]
  exact last sound'.reserved

protected theorem ensuring {cleanup : ThreadId → World → World} (h : m.Respects t l n)
    (aside : ∀ ⦃u : ThreadId⦄ ⦃w : World⦄, w.Reserved t l → Aside t l w (cleanup u w)) :
    (ensuring cleanup m).Respects t l n :=
  fun u _ sound => leads_between (cleanup u) sound (.refl sound.reserved) h fun _ => @aside u _

protected theorem holding {s : Share} (other : s ≠ .loop l) (h : m.Respects t l n) :
    (holding s m).Respects t l n :=
  fun u x sound => leads_between (fun w => w.release u s) sound
    ((x.world.spares_acquire s).aside sound.reserved) h fun _ reserved =>
      aside_release reserved u fun same => absurd same other

protected theorem holdingAll {shares : List Share} (other : .loop l ∉ shares)
    (h : m.Respects t l n) : (holdingAll shares m).Respects t l n := by
  induction shares with
  | nil => exact h
  | cons s shares ih =>
    rw [List.mem_cons, not_or] at other
    exact .holding (Ne.symm other.1) (ih other.2)

protected theorem installing (s : Snapshot) (h : m.Respects t l n) :
    (installing s m).Respects t l n :=
  fun u x sound => leads_between (fun w => w.dropGuard u (x.world.contextStack u).nextGuard)
    sound (aside_install sound.reserved u s) h fun _ reserved => aside_dropGuard reserved u _

protected theorem entering (c : CallId) (h : m.Respects t l n) : (entering c m).Respects t l n :=
  fun u x sound => leads_between (fun w => w.leaveCalls u (x.world.callStack u).length) sound
    (aside_enterCall sound.reserved u c) h fun _ reserved => aside_leaveCalls reserved u _

end Respects

theorem loop_notMem_snapshotShares (s : Snapshot) : Share.loop l ∉ s.shares := by
  simp [Snapshot.shares]

theorem respects_acquireAll (shares : List Share) : (acquireAll shares).Respects t l n :=
  .change fun _ _ => (spares_acquireAll ..).aside

/-! ## Calls -/

/-- A post is accepted by the loop at most once. -/
theorem respects_post (s : Scheduler) (task : Task) : (post s task).Respects t l 1 := by
  intro u x sound
  have acquired : x.Leads t l 0 (x.world.acquireAll task.shares) :=
    .aside ((spares_acquireAll ..).aside sound.reserved)
  change x.Leads t l (0 + 1) ((x.world.acquireAll task.shares).post u s task).2
  refine acquired.andThen sound fun y sound' eq => ?_
  rw [← eq]
  cases s with
  | manual m => exact .aside ((y.world.spares_postToManual u m task).aside sound'.reserved)
  | loop k =>
    by_cases same : k = l
    · subst same
      have posted := meanwhile_postToLoop sound'.reserved u task
      split at posted
      · exact .aside posted.2
      · exact ⟨_, .others posted.2.1 posted.2.2, rfl⟩
    · exact .aside (aside_postToLoop sound'.reserved u same task)

theorem respects_schedule (s : Scheduler) (c : CallId) (weakly : Bool) (args : Option CallArgs) :
    (schedule s c weakly args).Respects t l 1 := by
  refine (Respects.read _).bind fun designated => .ite ?_ ?_
  · refine (respects_post s _).followed fun answer => ?_
    cases answer with
    | error e => exact .pure _
    | ok _ => exact (Respects.log ..).bind fun _ => .pure _
  · refine (Respects.read _).bind fun detail => (Respects.log ..).bind fun _ =>
      (Respects.read _).bind fun response => ?_
    cases response with
    | panic => exact .panic _
    | log => exact .pure _

theorem respects_emit (sink : Option SinkId) (d : Diagnostic) : (emit sink d).Respects t l n := by
  refine (Respects.read _).bind fun kind => ?_
  cases kind with
  | memory => exact .change fun _ w => (w.spares_keep sink d).aside
  | probe => exact .note _
  | refusing => exact .panic _
  | logging => exact .change fun _ _ => (spares_log ..).aside
  | console => exact .pure ()

theorem respects_finish (ending : Ending) : (finish ending).Respects t l n := by
  cases ending with
  | normal => exact .pure _
  | fail e => exact .pure _
  | panic p => exact .panic p

theorem respects_script (respects : self.Respects t l) (body : Script) :
    (script self body).Respects t l n := by
  induction body with
  | nil => exact .pure ()
  | cons first rest ih =>
    obtain ⟨verb, command⟩ := first
    exact (respects.command command).bind fun _ => (Respects.note _).bind fun _ => ih

theorem respects_invoke (respects : self.Respects t l) (c : CallableId) (args : Option CallArgs) :
    (invoke self c args).Respects t l n := by
  have counted (f : Callable → Callable) : (change fun _ w =>
      { w with callables := w.callables.modify c f }).Respects t l 0 :=
    .change fun _ _ => Spares.aside ⟨rfl, rfl, fun _ => rfl, rfl⟩
  refine (Respects.read _).bind fun callable => (counted _).bind fun _ =>
    (Respects.note _).bind fun _ => .ite (respects_finish _) ?_
  have left := (Respects.note (t := t) (l := l) fun u w =>
    .left callable.name callable.invocations (w.position u)).bind fun _ =>
      respects_finish (n := n) (callable.ending callable.invocations)
  exact .ite ((respects_script respects callable.body).bind fun _ => left) left

theorem respects_run (respects : self.Respects t l) (c : CallId) (args : Option CallArgs) :
    (run (embedder self) c args).Respects t l n := by
  have report (e : Error) (traceback : Option String) :
      (reportFailure (embedder self).emit c e traceback).Respects t l n :=
    (Respects.read _).bind fun d => (Respects.read _).bind fun sink =>
      (respects_emit sink d).bind fun _ => .pure _
  have body (f : CallableId) : (invokeFor (embedder self) c f args).Respects t l n := by
    refine (respects_invoke respects f args).attempt.bind fun ended => ?_
    match ended with
    | .ok (.ok ()) => exact .pure _
    | .ok (.error e) => exact report ..
    | .error p => exact report ..
  refine (Respects.read _).bind fun call => .ite ?_ ?_
  · exact (Respects.log ..).bind fun _ => .pure _
  · refine (Respects.read _).bind fun obtained => ?_
    cases obtained with
    | none => exact (Respects.log ..).bind fun _ => .pure _
    | some f =>
      refine .holding (s := .callable f) nofun (.entering c (.installing call.context ?_))
      exact (Respects.change fun _ _ => (spares_log ..).aside).bind fun _ => body f

/-! ## Tasks -/

theorem respects_settleTicket (panicked : Bool) (ticket : Option Nat) :
    (change fun _ w => settleTicket panicked ticket w).Respects t l n := by
  refine .change fun _ w => Spares.aside ?_
  cases ticket with
  | none => exact .refl w
  | some i => exact ⟨rfl, rfl, fun _ => rfl, rfl⟩

theorem respects_runJob (respects : self.Respects t l) (j : Job) :
    (runJob self j).Respects t l n := by
  have body := (Respects.note (t := t) (l := l) fun u w => .task j.tag (w.position u)).bind fun _ =>
    (respects_script respects j.body).bind fun _ =>
      (respects_finish j.ending).bind fun _ => Respects.pure (n := 0) ()
  refine body.attempt.bind fun ended => ?_
  cases ended with
  | ok _ => exact respects_settleTicket false j.ticket
  | error p => exact (respects_settleTicket true j.ticket).bind fun _ => .panic p

theorem runTask_respects (respects : self.Respects t l) :
    RunTask.Respects t l (runTask self) := by
  obtain ⟨depth, rfl⟩ := respects.depth
  refine ⟨fun task => ?_, depth, rfl⟩
  cases task with
  | strong c args =>
    exact .ensuring ((respects_run respects c args).bind fun _ => .pure _) fun _ _ =>
      (spares_releaseCall ..).aside
  | weak c args =>
    refine (Respects.read _).bind fun alive => .ite ?_ (.log ..)
    exact .holding (s := .call c) nofun ((respects_run respects c args).bind fun _ => .pure _)
  | job j =>
    exact .ensuring (respects_runJob respects j) fun _ _ => (spares_releaseCalls ..).aside

end Act

/-! ## Named objects -/

/-- A drawer in which nobody keeps what is reserved to a loop thread. -/
structure Drawer.Respects {α : Type} (t : ThreadId) (l : LoopId) (fit : α → Prop) (d : Drawer α) :
    Prop where
  look : ∀ ⦃u : ThreadId⦄ ⦃w : World⦄, w.Reserved t l → ∀ a ∈ (d.look u w).values, fit a
  fill : ∀ ⦃u : ThreadId⦄ ⦃w : World⦄, w.Reserved t l → ∀ table, (∀ a ∈ table.values, fit a) →
    Aside t l w (d.fill u w table)
  discard : ∀ ⦃u : ThreadId⦄ ⦃w : World⦄ ⦃a : α⦄, w.Reserved t l → fit a →
    Aside t l w (d.discard u w a)

namespace Drawer

variable {α : Type} {t u : ThreadId} {l : LoopId} {w : World} {d : Drawer α} {fit : α → Prop}

namespace Respects

variable (respects : d.Respects t l fit)

include respects

theorem fit_of_find? {name : String} {a : α} (reserved : w.Reserved t l)
    (found : d.find? u w name = some a) : fit a :=
  respects.look reserved a (NameTable.mem_values_of_get? found)

theorem aside_put (name : String) {a : α} (fits : fit a) (reserved : w.Reserved t l) :
    Aside t l w (d.put name a u w) := by
  have filled : Aside t l w (d.fill u w ((d.look u w).insert name a)) := by
    refine respects.fill reserved _ fun b member => ?_
    rcases NameTable.mem_values_insert member with rfl | old
    · exact fits
    · exact respects.look reserved b old
  rw [Drawer.put]
  cases found : d.find? u w name with
  | none => exact filled
  | some b =>
    exact filled.trans (respects.discard filled.reserved (respects.fit_of_find? reserved found))

theorem aside_drop (name : String) (reserved : w.Reserved t l) :
    Aside t l w (d.drop name u w) := by
  rw [Drawer.drop]
  cases found : d.find? u w name with
  | none => exact .refl reserved
  | some a =>
    have taken : Aside t l w (d.take name u w) :=
      respects.fill reserved _ fun b member =>
        respects.look reserved b (NameTable.mem_values_erase member)
    exact taken.trans (respects.discard taken.reserved (respects.fit_of_find? reserved found))

theorem aside_clear (reserved : w.Reserved t l) : Aside t l w (d.clear u w) := by
  rw [Drawer.clear]
  generalize (d.look u w).names = names
  induction names generalizing w with
  | nil => exact .refl reserved
  | cons name names ih =>
    have dropped := respects.aside_drop (u := u) name reserved
    exact dropped.trans (ih dropped.reserved)

end Respects

/-- Anything can be kept in this drawer. -/
def any (_ : α) : Prop := True

theorem respects_common {look : Names → NameTable α} {fill : Names → NameTable α → Names}
    {discard : ThreadId → World → α → World}
    (spares : ∀ (u : ThreadId) (w : World) a, w.Spares (discard u w a)) :
    (common look fill discard).Respects t l any where
  look _ _ _ _ _ := trivial
  fill _ _ reserved _ _ := Spares.aside ⟨rfl, rfl, fun _ => rfl, rfl⟩ reserved
  discard _ _ _ reserved _ := (spares ..).aside reserved

theorem respects_contexts : contexts.Respects t l any :=
  respects_common fun u w s => w.spares_releaseSnapshot u s

theorem respects_callables : callables.Respects t l any :=
  respects_common fun u w c => w.spares_releaseCallable u c

theorem respects_handles : handles.Respects t l any :=
  respects_common fun u w h => w.spares_releaseHandle u h

theorem respects_sinks : sinks.Respects t l any :=
  respects_common fun _ w _ => .refl w

theorem respects_calls : calls.Respects t l any :=
  respects_common fun u w c => w.spares_releaseCall u c

theorem respects_weaks : weaks.Respects t l any :=
  respects_common fun _ w _ => .refl w

/-- Handles of the loop can be kept. -/
theorem respects_loopHandles : loopHandles.Respects t l any :=
  respects_common fun _ w _ => .refl w

theorem respects_manuals : manuals.Respects t l any :=
  respects_common fun u w m => w.spares_releaseManual u m

theorem respects_guards : guards.Respects t l any where
  look _ _ _ _ _ := trivial
  fill _ _ reserved _ _ := aside_slots reserved fun _ => ⟨rfl, rfl, rfl, rfl⟩
  discard u _ g reserved _ := aside_dropGuard reserved u g

/-- The loop itself cannot be kept. -/
theorem respects_loops : loops.Respects t l (· ≠ l) where
  look u w reserved k member same := reserved.unkept u (same ▸ member)
  fill u w reserved table others := by
    refine aside_onThread reserved (fun _ => rfl) (fun _ _ member => ?_) fun _ _ => ⟨rfl, rfl⟩
    exact others l member rfl
  discard u w k reserved other := aside_releaseLoop reserved u fun same => absurd same other

end Drawer

namespace Act

variable {α : Type} {t u : ThreadId} {l : LoopId} {n : Nat} {d : Drawer α} {fit : α → Prop}
  {name : String}

/-- An action on a named object may count on what can be kept in its drawer. -/
theorem respects_withNamed {f : α → Act Reply} (respects : d.Respects t l fit)
    (rest : ∀ a, fit a → (f a).Respects t l n) : (withNamed d name f).Respects t l n := by
  intro u x sound
  rw [withNamed, bind_apply, read_apply]
  match found : d.find? u x.world name with
  | none => exact .refl x
  | some a => exact rest a (respects.fit_of_find? sound.reserved found) sound

theorem respects_withOptional {f : Option α → Act Reply} {name : Option String}
    (respects : d.Respects t l fit) (rest : ∀ a, (f a).Respects t l n) :
    (withOptional d name f).Respects t l n := by
  cases name with
  | none => exact rest none
  | some name => exact respects_withNamed respects fun a _ => rest (some a)

theorem respects_put {a : α} (respects : d.Respects t l fit) (fits : fit a) :
    (put d name a).Respects t l n :=
  .change fun _ _ => respects.aside_put name fits

theorem respects_dropNamed (respects : d.Respects t l fit) : (dropNamed d name).Respects t l n :=
  respects_withNamed respects fun _ _ =>
    (Respects.change fun _ _ => respects.aside_drop name).bind fun _ => .pure _

theorem respects_clear (respects : d.Respects t l fit) : (change d.clear).Respects t l n :=
  .change fun _ _ => respects.aside_clear

theorem respects_withScheduler {onlyHandle : Bool} {f : Scheduler → Act Reply}
    (rest : ∀ s, (f s).Respects t l n) : (withScheduler name onlyHandle f).Respects t l n := by
  refine (Respects.read _).bind fun found => ?_
  cases found with
  | none => exact .pure _
  | some s => exact rest s

end Act

end DeferredCalls
