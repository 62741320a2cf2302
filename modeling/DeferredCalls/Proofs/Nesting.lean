import DeferredCalls.Proofs.Settling
import DeferredCalls.Proofs.Keeping
import DeferredCalls.Session.Nested
import DeferredCalls.Session.Naming

/-!
# Nested scripts are courses

Callables, sinks and jobs act by way of commands. Given that commands are performed by operations of
the library only, the embedder that runs scripts is lawful, and so is running tasks.

An action on a named object is performed at a moment at which the object is kept. What it holds is
then in use, and may be used by the action.
-/

namespace DeferredCalls

open Holding Moment

/-- Commands are performed by operations of the library only, and tasks that run scripts of such
commands are run in a way that the manner knows. -/
structure Performer.Lawful (performer : Performer) (M : Manner := .course) : Prop where
  command : ∀ command, (performer command).Lawful M
  tasks : M.runs (Act.runTask performer)

namespace Act

variable {M : Manner} {α : Type} {t : ThreadId} {w w' : World} {H : Multiset Holding}
  {self : Performer}

/-! ## Changes that are of no account -/

theorem reaches_aside (agrees : w.Agrees w') (named : w'.named = w.named) :
    Reaches ⟨w, H⟩ ⟨w', H⟩ M :=
  reaches_of_step (.quiet agrees (by rw [named])) (by simp)

/-- A change of what neither holds shares nor has a part in what courses tell. -/
theorem lawful_change {f : ThreadId → World → World}
    (aside : ∀ ⦃t w H⦄, Ready ⟨w, H⟩ t → w.Agrees (f t w) ∧ (f t w).named = w.named) :
    (change f).Lawful M := by
  intro t w H ready
  obtain ⟨agrees, named⟩ := aside ready
  exact reaches_aside agrees named

theorem lawful_update {f : ThreadId → World → α × World}
    (aside : ∀ ⦃t w H⦄, Ready ⟨w, H⟩ t → w.Agrees (f t w).2 ∧ (f t w).2.named = w.named) :
    (update f).Lawful M := by
  intro t w H ready
  obtain ⟨agrees, named⟩ := aside ready
  exact reaches_aside agrees named

theorem agrees_modifyCallable (ready : Ready ⟨w, H⟩ t) (f : CallableId) (g : Callable → Callable) :
    w.Agrees { w with callables := w.callables.modify f g } := by
  refine ⟨fun s => ?_, Arena.size_modify, rfl, rfl, rfl, rfl, fun u => ⟨_, _, rfl⟩,
    ready.consistent.known.handle, ready.consistent.known.callable⟩
  cases s with
  | callable c => exact Arena.shares_modify
  | _ => rfl

/-! ## Scripts -/

/-- A script is lawful if its commands are. -/
theorem lawful_script_of_mem {body : Script} (lawful : ∀ p ∈ body, (self p.2).Lawful M) :
    (script self body).Lawful M := by
  induction body with
  | nil => exact .pure ()
  | cons first rest ih =>
    obtain ⟨verb, command⟩ := first
    have others := ih fun p member => lawful p (List.mem_cons_of_mem _ member)
    exact (lawful _ (List.mem_cons_self ..)).bind fun _ => (Lawful.note _).bind fun _ => others

theorem lawful_script (lawful : self.Lawful M) (body : Script) : (script self body).Lawful M :=
  lawful_script_of_mem fun p _ => lawful.command p.2

theorem lawful_finish (ending : Ending) : (finish ending).Lawful M := by
  cases ending with
  | normal => exact .pure _
  | fail e => exact .pure _
  | panic p => exact .panic p

/-- Invoking a callable is lawful if the commands of its script are. -/
theorem reaches_invoke_of_mem {f : CallableId} {args : Option CallArgs} (ready : Ready ⟨w, H⟩ t)
    (lawful : ∀ p ∈ (w.callables.get f).body, (self p.2).Lawful M) :
    Reaches ⟨w, H⟩ ⟨(invoke self f args t w).2, H⟩ M := by
  rw [invoke, bind_apply, read_apply]
  generalize w.callables.get f = c at lawful
  have counted (n : Nat) : (change fun _ w => { w with
      callables := w.callables.modify f fun c => { c with invocations := n + 1 } }).Lawful M :=
    lawful_change fun _ _ _ ready => ⟨agrees_modifyCallable ready f _, rfl⟩
  refine Lawful.bind (counted _) (fun _ => (Lawful.note _).bind fun _ => ?_) ready
  refine .ite (fun _ => lawful_finish _) fun _ => ?_
  have left := (Lawful.note (M := M) fun t w =>
    .left c.name c.invocations (w.position t)).bind fun _ => lawful_finish (c.ending c.invocations)
  exact .ite (fun _ => (lawful_script_of_mem lawful).bind fun _ => left) fun _ => left

theorem lawful_invoke (lawful : self.Lawful M) (f : CallableId) (args : Option CallArgs) :
    (invoke self f args).Lawful M :=
  fun _ _ _ ready => reaches_invoke_of_mem ready fun p _ => lawful.command p.2

theorem lawful_emit (sink : Option SinkId) (d : Diagnostic) : (emit sink d).Lawful M := by
  apply (Lawful.read _).bind
  intro kind
  cases kind with
  | memory =>
    apply lawful_change
    intro t w H ready
    cases sink with
    | none => exact ⟨ready.consistent.agrees_beside .., rfl⟩
    | some s => exact ⟨ready.consistent.agrees_beside .., rfl⟩
  | probe => exact .note _
  | refusing => exact .panic _
  | logging =>
    intro t w H ready
    exact reaches_of_course (ready.consistent.log ..) (by simp)
  | console => exact .pure ()

theorem embedder_lawful (lawful : self.Lawful M) : (embedder self).Lawful M where
  invoke := lawful_invoke lawful
  emit := lawful_emit

/-! ## Tasks -/

theorem lawful_settleTicket (panicked : Bool) (ticket : Option Nat) :
    (change fun _ w => settleTicket panicked ticket w).Lawful M := by
  apply lawful_change
  intro t w H ready
  cases ticket with
  | none => exact ⟨ready.consistent.agrees_beside .., rfl⟩
  | some i => exact ⟨ready.consistent.agrees_beside .., rfl⟩

theorem lawful_runJob_of_mem {j : Job} (lawful : ∀ p ∈ j.body, (self p.2).Lawful M) :
    (runJob self j).Lawful M := by
  have body := (Lawful.note (M := M) fun t w => .task j.tag (w.position t)).bind fun _ =>
    (lawful_script_of_mem lawful).bind fun _ =>
      (lawful_finish j.ending).bind fun _ => Lawful.pure ()
  apply body.attempt.bind
  intro ended
  cases ended with
  | ok u => exact lawful_settleTicket false j.ticket
  | error p => exact (lawful_settleTicket true j.ticket).bind fun _ => .panic p

/-- A job gives up the calls that it holds when it is over. -/
theorem reaches_job {j : Job} (ready : Ready ⟨w, ofShares (Task.job j).shares + H⟩ t)
    (lawful : ∀ p ∈ j.body, (self p.2).Lawful M) :
    Reaches ⟨w, ofShares (Task.job j).shares + H⟩ ⟨(runTask self (.job j) t w).2, H⟩ M := by
  have ran := lawful_runJob_of_mem lawful ready
  exact ran.trans (reaches_releaseCalls (ready.reaches ran))

theorem runTask_lawful (lawful : self.Lawful M) : RunTask.Lawful (runTask self) M := by
  refine ⟨lawful.tasks, fun task t w H ready => ?_⟩
  have code := embedder_lawful lawful
  cases task with
  | strong c args => exact reaches_runStrong code args ready
  | weak c args =>
    have nothing : ofShares (Task.weak c args).shares + H = H := zero_add H
    rw [nothing] at ready ⊢
    exact lawful_runWeak code ready
  | job j => exact reaches_job ready fun p _ => lawful.command p.2

/-! ## Named objects -/

/-- What a drawer's object holds is in use. -/
def Sustained (w : World) (held : Multiset Holding) : Prop :=
  ∀ k, 0 < tally k held → 0 < w.shareCount k

theorem Sustained.ofShares {l : List Share} (h : Sustained w (ofShares l)) :
    ∀ k ∈ l, 0 < w.shareCount k := by
  intro k member
  apply h
  rw [tally_ofShares]
  exact List.count_pos_iff.mpr member

theorem Sustained.share {s : Share} (h : Sustained w {Holding.share s}) : 0 < w.shareCount s := by
  apply Sustained.ofShares (l := [s]) h
  exact List.mem_singleton_self s

theorem sustained_of_held (balanced : w.Balanced H) {held : Multiset Holding}
    (part : ∀ h ∈ held, h ∈ w.named + H) : Sustained w held := by
  intro k some
  obtain ⟨h, member, mine⟩ := exists_of_tally_pos some
  exact balanced.alive_of_mem (part h member) mine

section Named

variable {d : Drawer α} {hold : ThreadId → α → Multiset Holding} {known : World → α → Prop}
  {name : String}

/-- An action on a named object may count on what is known of it while it is kept. -/
theorem reaches_withKept (acc : d.Accounted hold known) {f : α → Act Reply} (ready : Ready ⟨w, H⟩ t)
    (rest : ∀ a, Sustained w (hold t a) → known w a → Reaches ⟨w, H⟩ ⟨(f a t w).2, H⟩ M) :
    Reaches ⟨w, H⟩ ⟨(withNamed d name f t w).2, H⟩ M := by
  rw [withNamed, bind_apply, read_apply]
  match found : d.find? t w name with
  | none => exact .refl _
  | some a =>
    refine rest a (sustained_of_held ready.consistent.balanced ?_)
      (acc.known_of_find? ready found)
    intro h member
    exact Multiset.mem_add.mpr (.inl (acc.mem_named ready.inside found member))

theorem lawful_withKept (acc : d.Accounted hold known) {f : α → Act Reply}
    (rest : ∀ ⦃t w H a⦄, Ready ⟨w, H⟩ t → Sustained w (hold t a) → known w a →
      Reaches ⟨w, H⟩ ⟨(f a t w).2, H⟩ M) : (withNamed d name f).Lawful M := by
  intro t w H ready
  exact reaches_withKept acc ready fun a => rest ready

theorem reaches_withOptional (acc : d.Accounted hold known) {name : Option String}
    {f : Option α → Act Reply} (ready : Ready ⟨w, H⟩ t)
    (rest : ∀ a, (∀ b, a = some b → Sustained w (hold t b)) →
      Reaches ⟨w, H⟩ ⟨(f a t w).2, H⟩ M) :
    Reaches ⟨w, H⟩ ⟨(withOptional d name f t w).2, H⟩ M := by
  cases name with
  | none => exact rest none fun _ given => nomatch given
  | some name =>
    refine reaches_withKept acc ready fun a sustained _ => rest (some a) ?_
    intro b given
    obtain rfl := Option.some.inj given
    exact sustained

theorem lawful_withNamed {f : α → Act Reply} (rest : ∀ a, (f a).Lawful M) :
    (withNamed d name f).Lawful M := by
  apply (Lawful.read _).bind
  intro found
  cases found with
  | none => exact .pure _
  | some a => exact rest a

theorem lawful_dropNamed (acc : d.Accounted hold known) : (dropNamed d name).Lawful M := by
  refine lawful_withNamed fun _ => Lawful.bind ?_ fun _ => .pure _
  intro t w H ready
  exact acc.reaches_drop name ready

theorem lawful_clear (acc : d.Accounted hold known) : (change d.clear).Lawful M := by
  intro t w H ready
  exact acc.reaches_clear ready

end Named

/-- Who finds a scheduler can post to it. -/
theorem canPost_of_scheduler? {name : String} {onlyHandle : Bool} {s : Scheduler}
    (ready : Ready ⟨w, H⟩ t) (found : scheduler? name onlyHandle t w = some s) : w.CanPost s := by
  have handle {l : LoopId} (there : Drawer.loopHandles.find? t w name = some l) :
      l.index < w.loops.size := Drawer.accounted_loopHandles.known_of_find? ready there
  rw [scheduler?] at found
  split at found
  · obtain ⟨l, there, rfl⟩ := Option.map_eq_some_iff.mp found
    exact handle there
  split at found
  · next l there =>
    obtain rfl : Scheduler.loop l = s := Option.some.inj found
    have member :=
      Drawer.accounted_loops.mem_named ready.inside there (Multiset.mem_singleton_self _)
    have used : 0 < w.loops.shares l :=
      ready.consistent.balanced.alive_of_mem (Multiset.mem_add.mpr (.inl member))
        (List.mem_singleton_self (Share.loop l))
    exact Arena.lt_size_of_shares_pos used
  split at found
  · next l there =>
    obtain rfl : Scheduler.loop l = s := Option.some.inj found
    exact handle there
  · obtain ⟨m, there, rfl⟩ := Option.map_eq_some_iff.mp found
    have member := Drawer.accounted_manuals.mem_named ready.inside there
      (Multiset.mem_singleton_self _)
    exact ready.consistent.balanced.alive_of_mem (Multiset.mem_add.mpr (.inl member))
      (List.mem_singleton_self (Share.manual m))

theorem reaches_withScheduler {name : String} {onlyHandle : Bool} {f : Scheduler → Act Reply}
    (ready : Ready ⟨w, H⟩ t) (rest : ∀ s, w.CanPost s → Reaches ⟨w, H⟩ ⟨(f s t w).2, H⟩ M) :
    Reaches ⟨w, H⟩ ⟨(withScheduler name onlyHandle f t w).2, H⟩ M := by
  rw [withScheduler, bind_apply, read_apply]
  match found : scheduler? name onlyHandle t w with
  | none => exact .refl _
  | some s => exact rest s (canPost_of_scheduler? ready found)

/-- The calls that are found under names are in use. -/
theorem alive_of_callsNamed {names : List String} {cs : List CallId} (ready : Ready ⟨w, H⟩ t)
    (found : (callsNamed names t w).1 = .ok cs) {c : CallId} (member : c ∈ cs) :
    0 < w.calls.shares c := by
  obtain rfl : names.filterMap (Drawer.calls.find? t w) = cs := Except.ok.inj found
  obtain ⟨name, _, there⟩ := List.mem_filterMap.mp member
  have held := Drawer.accounted_calls.mem_named ready.inside there (Multiset.mem_singleton_self _)
  exact ready.consistent.balanced.alive_of_mem (Multiset.mem_add.mpr (.inl held))
    (List.mem_singleton_self (Share.call c))

end Act

end DeferredCalls
