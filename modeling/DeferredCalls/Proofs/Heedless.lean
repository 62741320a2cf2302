import DeferredCalls.Proofs.Unpaced

/-!
# Actions that do not heed the pace of a loop

An action does not heed the pace of a loop if it has the same result with the pace and without it,
and leaves the same world but for the pace. Whatever is composed of such actions is one itself.

The scripts of a session may contain anything, so this is shown for plain scripts: they post plain
scripts, schedule, close loops, run calls, mark calls dead and look around. If all callables, and
all tasks in the queue of the loop, have plain scripts, then it stays like that.
-/

namespace DeferredCalls

open World

/-! ## Plain scripts -/

mutual

/-- Whether a command neither drives a loop nor looks at a budget, nor brings anything about that
does, as far as that can be told from the command. -/
def Command.plain : Command → Bool
  | .post _ _ _ body _ _ => plainAll body
  | .schedule .. | .shutdown _ | .run .. | .markDead _ | .observe | .note _ => true
  | _ => false

/-- Whether a script consists of plain commands. -/
def plainAll : List (String × Command) → Bool
  | [] => true
  | first :: rest => plainPair first && plainAll rest

/-- Whether the command that comes with a verb is plain. -/
def plainPair : String × Command → Bool
  | (_, command) => command.plain

end

/-- Whether the script that a task brings along is plain. -/
def Task.plain : Task → Bool
  | .strong .. | .weak .. => true
  | .job j => plainAll j.body

/-- A world in which all callables, and all tasks in the queue of a loop, have plain scripts. -/
structure World.Plain (l : LoopId) (w : World) : Prop where
  scripts : ∀ f, plainAll (w.callables.get f).body = true
  tasks : ∀ task ∈ (w.loop l).queue, task.plain = true

namespace World.Plain

variable {l k : LoopId} {w w' : World} {t : ThreadId}

theorem sameWork (plain : w.Plain l) (same : w.SameWork l w') : w'.Plain l where
  scripts f := by
    rw [same.body]
    exact plain.scripts f
  tasks task queued := by
    rw [same.queue] at queued
    exact plain.tasks task queued

theorem enqueue {task : Task} (plain : w.Plain l) (mine : task.plain = true) :
    (w.enqueue k task).Plain l where
  scripts := plain.scripts
  tasks x queued := by
    rw [loop, World.enqueue] at queued
    by_cases same : l = k
    · subst same
      by_cases known : l.index < w.loops.size
      · rw [Arena.get_modify known, if_pos rfl] at queued
        obtain old | rfl := List.mem_append.mp queued |>.imp_right List.mem_singleton.mp
        · exact plain.tasks x old
        · exact mine
      · rw [Arena.get_of_size_le (by simpa using known)] at queued
        contradiction
    · rw [Arena.get_modify_of_ne same] at queued
      exact plain.tasks x queued

theorem post {task : Task} (plain : w.Plain l) (mine : task.plain = true) (s : Scheduler) :
    (w.post t s task).2.Plain l := by
  have released : (w.releaseTask t task).Plain l :=
    plain.sameWork ((SameWork.refl w).releaseCalls _)
  cases s with
  | loop k =>
    rw [World.post, postToLoop]
    split
    · exact released
    · exact (plain.enqueue mine).sameWork ((SameWork.refl _).log ..)
  | manual m =>
    rw [World.post, postToManual]
    split
    · exact released
    · exact ⟨plain.scripts, plain.tasks⟩

theorem dequeue {task : Task} (plain : w.Plain l) (taken : w.dequeue? l = some (task, w')) :
    task.plain = true ∧ w'.Plain l := by
  rw [dequeue?] at taken
  split at taken
  · contradiction
  · next first rest queue =>
    obtain ⟨rfl, rfl⟩ := Prod.mk.inj (Option.some.inj taken)
    have tasks := plain.tasks
    rw [queue] at tasks
    refine ⟨tasks first (List.mem_cons_self ..), plain.scripts, fun x queued => ?_⟩
    by_cases known : l.index < w.loops.size
    · rw [loop, Arena.get_modify known, if_pos rfl] at queued
      exact tasks x (List.mem_cons_of_mem _ queued)
    · rw [loop, Arena.get_of_size_le (by simpa using known)] at queued
      contradiction

end World.Plain

/-- Whether all is plain can be seen without the pace. -/
theorem World.plain_unpaced {l : LoopId} {w : World} : (w.unpaced l).Plain l ↔ w.Plain l := by
  constructor
  · rintro ⟨scripts, tasks⟩
    rw [queue_unpaced] at tasks
    exact ⟨scripts, tasks⟩
  · rintro ⟨scripts, tasks⟩
    refine ⟨scripts, ?_⟩
    rw [queue_unpaced]
    exact tasks

/-- An action that does not heed the pace of a loop if all that it runs is plain, and keeps it
so. -/
def Act.Heedless {α : Type} (l : LoopId) (m : Act α) : Prop :=
  ∀ ⦃t : ThreadId⦄ ⦃w : World⦄, w.Plain l →
    m t (w.unpaced l) = ((m t w).1, (m t w).2.unpaced l) ∧ (m t w).2.Plain l

/-- Code of an embedder that does not heed the pace of a loop. -/
structure Embedder.Heedless (l : LoopId) (code : Embedder) : Prop where
  invoke : ∀ f args, (code.invoke f args).Heedless l
  emit : ∀ sink d, (code.emit sink d).Heedless l

namespace Act

variable {l : LoopId} {α β : Type} {m : Act α} {f : α → Act β} {t : ThreadId} {w : World}

/-! ## Composing actions -/

namespace Heedless

protected theorem pure (a : α) : (pure a : Act α).Heedless l :=
  fun _ _ plain => ⟨rfl, plain⟩

protected theorem panic (p : Panic) : (panic p : Act α).Heedless l :=
  fun _ _ plain => ⟨rfl, plain⟩

protected theorem read {g : ThreadId → World → α} (same : ∀ t w, g t (w.unpaced l) = g t w) :
    (read g).Heedless l := by
  intro t w plain
  rw [read_apply, same]
  exact ⟨rfl, plain⟩

protected theorem bind (first : m.Heedless l) (rest : ∀ a, (f a).Heedless l) :
    (m >>= f).Heedless l := by
  intro t w plain
  obtain ⟨eq, plain'⟩ := first plain
  rw [bind_apply, bind_apply, eq]
  match result : m t w with
  | (.ok a, w') =>
    rw [result] at plain'
    exact rest a plain'
  | (.error p, w') =>
    rw [result] at plain'
    exact ⟨rfl, plain'⟩

protected theorem ite {p : Prop} [Decidable p] {k : Act α} (yes : m.Heedless l)
    (no : k.Heedless l) : (if p then m else k).Heedless l := by
  split
  · exact yes
  · exact no

protected theorem attempt (h : m.Heedless l) : (attempt m).Heedless l := by
  intro t w plain
  obtain ⟨eq, plain'⟩ := h plain
  rw [attempt_apply, eq]
  exact ⟨rfl, plain'⟩

/-- A change that leaves alone what is run. -/
protected theorem change {g : ThreadId → World → World}
    (same : ∀ t w, g t (w.unpaced l) = (g t w).unpaced l)
    (work : ∀ t (w : World), w.SameWork l (g t w)) : (change g).Heedless l := by
  intro t w plain
  rw [change_apply, same]
  exact ⟨rfl, plain.sameWork (work t w)⟩

protected theorem log {level : Level} {message : String}
    {fields : World → List (String × FieldValue)}
    (other : ∀ w, (Entry.event { level, message, fields := fields w }).isCycle = false)
    (same : ∀ w, fields (w.unpaced l) = fields w) : (log level message fields).Heedless l := by
  refine .change (fun t w => ?_) fun t w => (SameWork.refl w).log ..
  rw [same, log_unpaced (other w)]

protected theorem note {e : ThreadId → World → Entry} (other : ∀ t w, (e t w).isCycle = false)
    (same : ∀ t w, e t (w.unpaced l) = e t w) : (note e).Heedless l := by
  refine .change (fun t w => ?_) fun t w => (SameWork.refl w).note _
  rw [same, note_unpaced (other t w)]

/-- Before and after an action, something is done that leaves alone what is run. -/
theorem between {before : World} (after : World → World) (plain : w.Plain l)
    (first : w.SameWork l before) (h : m.Heedless l)
    (same : ∀ w, after (w.unpaced l) = (after w).unpaced l)
    (last : ∀ w : World, w.SameWork l (after w)) :
    ((m t (before.unpaced l)).1, after (m t (before.unpaced l)).2) =
        ((m t before).1, (after (m t before).2).unpaced l) ∧
      (after (m t before).2).Plain l := by
  obtain ⟨eq, plain'⟩ := h (plain.sameWork first)
  rw [eq, same]
  exact ⟨rfl, plain'.sameWork (last _)⟩

protected theorem ensuring {cleanup : ThreadId → World → World} (h : m.Heedless l)
    (same : ∀ t w, cleanup t (w.unpaced l) = (cleanup t w).unpaced l)
    (work : ∀ t (w : World), w.SameWork l (cleanup t w)) : (ensuring cleanup m).Heedless l :=
  fun t w plain => between (cleanup t) plain (.refl w) h (same t) (work t)

theorem holdingCallable (c : CallableId) (h : m.Heedless l) :
    (holding (.callable c) m).Heedless l := by
  intro t w plain
  simp only [holding, ensuring_apply, acquire_unpaced]
  exact between (·.releaseCallable t c) plain ((SameWork.refl w).acquire _) h
    (fun _ => releaseCallable_unpaced c) fun w => (SameWork.refl w).releaseCallable c

theorem holdingCall (c : CallId) (h : m.Heedless l) : (holding (.call c) m).Heedless l := by
  intro t w plain
  simp only [holding, ensuring_apply, acquire_unpaced]
  exact between (·.releaseCall t c) plain ((SameWork.refl w).acquire _) h
    (fun _ => releaseCall_unpaced c) fun w => (SameWork.refl w).releaseCall c

protected theorem installing (s : Snapshot) (h : m.Heedless l) : (installing s m).Heedless l := by
  intro t w plain
  rw [installing_apply, installing_apply, install_unpaced]
  exact between (·.dropGuard t _) plain (((SameWork.refl w).acquireAll _).onThread _) h
    (fun _ => dropGuard_unpaced _) fun w => (SameWork.refl w).dropGuard _

protected theorem entering (c : CallId) (h : m.Heedless l) : (entering c m).Heedless l := by
  intro t w plain
  have entered : (w.unpaced l).enterCall t c = (w.enterCall t c).unpaced l := rfl
  rw [entering_apply, entering_apply, entered]
  exact between (·.leaveCalls t _) plain (((SameWork.refl w).acquire _).onThread _) h
    (fun _ => leaveCalls_unpaced _) fun w => ((SameWork.refl w).onThread _).releaseCalls _

end Heedless

/-! ## Calls -/

theorem heedless_emit (sink : Option SinkId) (d : Diagnostic) : (emit sink d).Heedless l := by
  refine .bind (.read fun _ _ => rfl) fun kind => ?_
  cases kind with
  | memory =>
    refine .change (fun _ _ => keep_unpaced sink d) fun t w => ?_
    cases sink <;> exact ⟨fun _ => rfl, rfl⟩
  | probe =>
    refine .note (fun _ _ => rfl) fun t w => ?_
    rw [position_unpaced]
  | refusing => exact .panic _
  | logging => exact .change (fun _ _ => log_unpaced rfl) fun t w => (SameWork.refl w).log ..
  | console => exact .pure ()

section Runs

variable {code : Embedder} (heedless : code.Heedless l)

include heedless

theorem heedless_conclude (c : CallId) (ended : Except Panic (Except CallError Unit)) :
    (conclude code.emit c ended).Heedless l := by
  have reported (e : Error) (traceback : Option String) :
      (reportFailure code.emit c e traceback).Heedless l := by
    have report : (read fun t w => w.failureReport t c e traceback).Heedless l := by
      refine .read fun t w => ?_
      rw [failureReport, position_unpaced]
      rfl
    exact report.bind fun d => .bind (.read fun _ _ => rfl) fun sink =>
      (heedless.emit sink d).bind fun _ => .pure _
  match ended with
  | .ok (.ok ()) => exact .pure _
  | .ok (.error e) => exact reported _ _
  | .error p => exact reported _ _

theorem heedless_run (c : CallId) (args : Option CallArgs) : (run code c args).Heedless l := by
  have body (f : CallableId) : (invokeFor code c f args).Heedless l :=
    (heedless.invoke f args).attempt.bind fun ended => heedless_conclude heedless c ended
  refine .bind (.read fun _ _ => rfl) fun call => .ite ?_ ?_
  · exact (Heedless.log (fun _ => by rfl) fun _ => rfl).bind fun _ => .pure _
  · refine .bind (.read fun _ _ => rfl) fun obtained => ?_
    cases obtained with
    | none => exact (Heedless.log (fun _ => by rfl) fun _ => rfl).bind fun _ => .pure _
    | some f =>
      have started : (change fun t w => w.log t .trace "running deferred call"
          [callField c, ("depth", .number (w.callStack t).length)]).Heedless l :=
        .change (fun _ _ => log_unpaced (by rfl)) fun t w => (SameWork.refl w).log ..
      exact .holdingCallable f (.entering c (.installing _ (started.bind fun _ => body f)))

theorem heedless_runStrong (c : CallId) (args : Option CallArgs) :
    (runStrong code c args).Heedless l :=
  .ensuring ((heedless_run heedless c args).bind fun _ => .pure _)
    (fun _ _ => releaseCall_unpaced c) fun _ w => (SameWork.refl w).releaseCall c

theorem heedless_runWeak (c : CallId) (args : Option CallArgs) :
    (runWeak code c args).Heedless l := by
  refine .bind (.read fun _ _ => rfl) fun alive => .ite ?_ (.log (fun _ => by rfl) fun _ => rfl)
  exact .holdingCall c ((heedless_run heedless c args).bind fun _ => .pure _)

end Runs

/-! ## Scheduling -/

theorem heedless_post (s : Scheduler) {task : Task} (mine : task.plain = true) :
    (post s task).Heedless l := by
  intro t w plain
  have held := plain.sameWork ((SameWork.refl w).acquireAll task.shares)
  rw [post, update_apply, update_apply, acquireAll_unpaced, post_unpaced]
  exact ⟨rfl, held.post mine s⟩

theorem heedless_schedule (s : Scheduler) (c : CallId) (weakly : Bool) (args : Option CallArgs) :
    (schedule s c weakly args).Heedless l := by
  refine .bind (.read fun _ _ => isDesignated_unpaced s) fun designated => .ite ?_ ?_
  · have mine : (callTask c weakly args).plain = true := by cases weakly <;> rfl
    refine (heedless_post s mine).bind fun answer => ?_
    cases answer with
    | error e => exact .pure _
    | ok _ =>
      have logged : (log .trace (if weakly then "deferred call scheduled weakly"
          else "deferred call scheduled") fun _ => [callField c]).Heedless l :=
        .log (fun _ => by cases weakly <;> rfl) fun _ => rfl
      exact logged.bind fun _ => .pure _
  · refine .bind (.read fun _ _ => rfl) fun detail =>
      (Heedless.log (fun _ => rfl) fun _ => rfl).bind fun _ =>
        .bind (.read fun _ _ => violationOf_unpaced s) fun response => ?_
    cases response with
    | panic => exact .panic _
    | log => exact .pure _

/-! ## Scripts -/

theorem heedless_finish (ending : Ending) : (finish ending).Heedless l := by
  cases ending with
  | normal => exact .pure _
  | fail e => exact .pure _
  | panic p => exact .panic p

section Nested

variable {self : Performer} (heedless : ∀ command, command.plain = true → (self command).Heedless l)

include heedless

theorem heedless_script {body : Script} (plain : plainAll body = true) :
    (script self body).Heedless l := by
  induction body with
  | nil => exact .pure ()
  | cons first rest ih =>
    obtain ⟨verb, command⟩ := first
    rw [plainAll, Bool.and_eq_true] at plain
    refine (heedless command plain.1).bind fun reply => ?_
    exact (Heedless.note (fun _ _ => rfl) fun _ _ => rfl).bind fun _ => ih plain.2

/-- What a callable runs is plain. -/
theorem heedless_invoke (f : CallableId) (args : Option CallArgs) :
    (invoke self f args).Heedless l := by
  intro t w plain
  have scripted := heedless_script heedless (plain.scripts f)
  have looked : (w.unpaced l).callables.get f = w.callables.get f := rfl
  rw [invoke, bind_apply, bind_apply, read_apply, read_apply, looked]
  generalize w.callables.get f = c at scripted
  have counted : (change fun _ w => { w with callables := w.callables.modify f fun x =>
      { x with invocations := c.invocations + 1 } }).Heedless l :=
    .change (fun _ _ => rfl) fun _ w => (SameWork.refl w).modifyCallable f fun _ => rfl
  have entered : (note fun t w => .entered c.name c.invocations args (w.position t)).Heedless l :=
    .note (fun _ _ => rfl) fun _ _ => by rw [position_unpaced]
  have left : (note fun t w => .left c.name c.invocations (w.position t)).Heedless l :=
    .note (fun _ _ => rfl) fun _ _ => by rw [position_unpaced]
  have ended := left.bind fun _ => heedless_finish (c.ending c.invocations)
  refine (counted.bind fun _ => entered.bind fun _ => Heedless.ite (heedless_finish _) ?_) plain
  exact .ite (scripted.bind fun _ => ended) ended

theorem embedder_heedless : (embedder self).Heedless l :=
  ⟨heedless_invoke heedless, heedless_emit⟩

theorem heedless_runJob {j : Job} (plain : plainAll j.body = true) :
    (runJob self j).Heedless l := by
  have settled (panicked : Bool) :
      (change fun _ w => settleTicket panicked j.ticket w).Heedless l := by
    cases j.ticket with
    | none => exact .change (fun _ _ => rfl) fun _ w => .refl w
    | some i => exact .change (fun _ _ => rfl) fun _ w => ⟨fun _ => rfl, rfl⟩
  have started : (note fun t w => .task j.tag (w.position t)).Heedless l :=
    .note (fun _ _ => rfl) fun _ _ => by rw [position_unpaced]
  have body := started.bind fun _ => (heedless_script heedless plain).bind fun _ =>
    (heedless_finish j.ending).bind fun _ => Heedless.pure ()
  refine body.attempt.bind fun ended => ?_
  cases ended with
  | ok _ => exact settled false
  | error p => exact (settled true).bind fun _ => .panic p

theorem heedless_runTask {task : Task} (plain : task.plain = true) :
    (runTask self task).Heedless l := by
  cases task with
  | strong c args => exact heedless_runStrong (embedder_heedless heedless) c args
  | weak c args => exact heedless_runWeak (embedder_heedless heedless) c args
  | job j =>
    exact .ensuring (heedless_runJob heedless plain) (fun _ _ => releaseCalls_unpaced j.holds)
      fun _ w => (SameWork.refl w).releaseCalls j.holds

theorem heedless_interpret {command : Command} (plain : command.plain = true) :
    (interpret self command).Heedless l := by
  have named (name : String) {f : CallId → Act Reply} (rest : ∀ c, (f c).Heedless l) :
      (withNamed Drawer.calls name f).Heedless l := by
    refine .bind (.read fun _ _ => rfl) fun found => ?_
    cases found with
    | none => exact .pure _
    | some c => exact rest c
  have scheduler (name : String) (onlyHandle : Bool) {f : Scheduler → Act Reply}
      (rest : ∀ s, (f s).Heedless l) : (withScheduler name onlyHandle f).Heedless l := by
    refine .bind (.read fun _ _ => rfl) fun found => ?_
    cases found with
    | none => exact .pure _
    | some s => exact rest s
  cases command with
  | post name onlyHandle tag body ending holds =>
    rw [Command.plain] at plain
    have mine (cs : List CallId) : (Task.job { tag, body, ending, holds := cs }).plain = true :=
      plain
    exact scheduler name onlyHandle fun s => .bind (.read fun _ _ => rfl) fun cs =>
      (heedless_post s (mine cs)).bind fun _ => .pure _
  | schedule call name weakly args =>
    exact named call fun c => scheduler name false fun s =>
      (heedless_schedule s c weakly args).bind fun _ => .pure _
  | shutdown handle =>
    refine .bind (.read fun _ _ => rfl) fun found => ?_
    cases found with
    | none => exact .pure _
    | some k =>
      exact (Heedless.change (fun _ _ => shutdownLoop_unpaced) fun _ w =>
        (SameWork.refl w).shutdownLoop k).bind fun _ => .pure _
  | run call args =>
    exact named call fun c => .holdingCall c
      ((heedless_run (embedder_heedless heedless) c args).bind fun _ => .pure _)
  | markDead call =>
    refine named call fun c => (Heedless.change (fun _ _ => markDead_unpaced c) fun _ w => ?_).bind
      fun _ => .pure _
    have marked : w.SameWork l
        { w with calls := w.calls.modify c fun call => { call with dead := true } } :=
      ⟨fun _ => rfl, rfl⟩
    exact .ite (.refl w) (marked.log ..)
  | observe =>
    refine .read fun t w => ?_
    rw [position_unpaced]
    rfl
  | note text => exact .pure _
  | _ => exact absurd plain Bool.false_ne_true

end Nested

/-- However deep scripts are nested, plain commands do not heed the pace of a loop. -/
theorem heedless_performer (depth : Nat) {command : Command} (plain : command.plain = true) :
    (performer depth command).Heedless l := by
  induction depth generalizing command with
  | zero => exact .pure _
  | succ depth ih =>
    refine .bind (.read fun _ _ => rfl) fun spent => .ite (.pure _) ?_
    have counted : (change fun _ w => { w with allowance := w.allowance - 1 }).Heedless l :=
      .change (fun _ _ => rfl) fun _ w => ⟨fun _ => rfl, rfl⟩
    exact counted.bind fun _ => heedless_interpret (fun _ => ih) plain

end Act

/-- Whether all is plain can be decided by going through the callables and the queue. -/
theorem World.plain_of_all {l : LoopId} {w : World}
    (scripts : (w.callables.cells.all fun c => plainAll c.value.body) = true)
    (tasks : (w.loop l).queue.all Task.plain = true) : w.Plain l where
  scripts f := by
    by_cases known : f.index < w.callables.cells.size
    · have mine := Array.all_eq_true.mp scripts f.index known
      simpa [Arena.get, known] using mine
    · rw [Arena.get_of_size_le (Nat.le_of_not_lt known)]
      rfl
  tasks := List.all_eq_true.mp tasks

end DeferredCalls
