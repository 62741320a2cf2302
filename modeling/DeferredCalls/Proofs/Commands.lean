import DeferredCalls.Proofs.Turns
import DeferredCalls.Session.Run

/-!
# Commands respect loop threads

Whatever an embedder does with the library, on whatever thread, comes to the same for a loop thread:
its service goes on. Here all commands are gone through, given that those of nested scripts respect
the loop thread. A command posts at most one task by itself, and uses up one of the commands that
are still performed.

The courses of commands would not do for this: they tell neither which thread runs a task nor what a
command has used up.
-/

namespace DeferredCalls

open World Service

namespace Act

variable {α : Type} {t u v : ThreadId} {l k : LoopId} {n : Nat} {x : Service} {w : World}
  {self : Performer}

/-! ## Contexts and callables -/

theorem respects_keepSnapshot (id : String) (s : Snapshot) : (keepSnapshot id s).Respects t l n :=
  (respects_acquireAll _).bind fun _ =>
    (respects_put Drawer.respects_contexts trivial).bind fun _ => .pure _

theorem respects_keepHandle (id : String) (h : Handle) : (keepHandle id h).Respects t l n :=
  (respects_acquireAll _).bind fun _ =>
    (respects_put Drawer.respects_handles trivial).bind fun _ => .pure _

theorem respects_keepCall (id : String) (c : CallId) : (keepCall id c).Respects t l n :=
  (respects_acquireAll _).bind fun _ => respects_put Drawer.respects_calls trivial

/-- A new object that is not a loop is made and kept. -/
theorem respects_keepNew {d : Drawer α} {fit : α → Prop} {f : ThreadId → World → α × World}
    (respects : d.Respects t l fit) (fits : ∀ a, fit a) (spares : ∀ u w, Spares w (f u w).2)
    (id : String) (reply : Reply) :
    (do let a ← update f; put d id a; pure reply).Respects t l n := by
  refine (Respects.update fun u w => (spares u w).aside).bind fun a => ?_
  exact (respects_put respects (fits a)).bind fun _ => .pure _

theorem respects_installNamed (context guardName : String) :
    (installNamed context guardName).Respects t l n := by
  refine (Respects.read _).bind fun serving => .ite (.pure _) ?_
  refine respects_withNamed Drawer.respects_contexts fun s _ =>
    .holdingAll (loop_notMem_snapshotShares s) ?_
  exact (Respects.update fun u _ reserved => aside_install reserved u s).bind fun _ =>
    (respects_put Drawer.respects_guards trivial).bind fun _ => .pure _

theorem respects_within (respects : self.Respects t l) (context : String) (body : Script)
    (ending : Ending) : (within self context body ending).Respects t l n := by
  refine respects_withNamed Drawer.respects_contexts fun s _ =>
    .holdingAll (loop_notMem_snapshotShares s) ?_
  refine Respects.bind (.installing s ?_) fun _ => .pure _
  exact (Respects.note _).bind fun _ => (respects_script respects body).bind fun _ =>
    (respects_finish ending).bind fun _ => .pure ()

theorem respects_invokeNamed (respects : self.Respects t l) (id : String) (args : Option CallArgs) :
    (invokeNamed self id args).Respects t l n := by
  refine respects_withNamed Drawer.respects_callables fun f _ =>
    .holding (s := .callable f) nofun ?_
  refine (respects_invoke respects f args).bind fun ended => ?_
  cases ended with
  | ok _ => exact .pure _
  | error e => exact .pure _

theorem respects_obtainNamed (id : String) (name : Option String) :
    (obtainNamed id name).Respects t l n := by
  refine respects_withNamed Drawer.respects_handles fun h _ =>
    (Respects.read _).bind fun obtained => ?_
  cases obtained with
  | error e => exact .pure _
  | ok f =>
    refine .holding (s := .callable f) nofun ((Respects.read _).bind fun description => ?_)
    cases name with
    | none => exact .pure _
    | some name =>
      exact (respects_acquireAll _).bind fun _ =>
        (respects_put Drawer.respects_callables trivial).bind fun _ => .pure _

theorem respects_readSink (s : SinkId) (take : Bool) : (readSink s take).Respects t l n := by
  refine .update fun u w => Spares.aside ?_
  by_cases keeps : (w.sinks.get s).kind = .memory
  · cases take with
    | true =>
      simp only [keeps, if_true]
      exact ⟨rfl, rfl, fun _ => rfl, rfl⟩
    | false =>
      simp only [keeps, if_true]
      exact .refl w
  · simp only [keeps, if_false]
    exact .refl w

/-! ## Calls -/

theorem respects_newCall (id : String) (source : CallSource) (options : Option CallOptions) :
    (newCall id source options).Respects t l n := by
  have named (b : CallBuilder) : (buildNamed id b).Respects t l n :=
    (Respects.update fun u w => (w.spares_build u b).aside).bind fun _ =>
      (respects_put Drawer.respects_calls trivial).bind fun _ => (Respects.read _).bind fun _ =>
        .pure _
  have build (h : Handle) : (buildFrom id options h).Respects t l n := by
    cases options with
    | none => exact named _
    | some o =>
      refine respects_withOptional Drawer.respects_contexts fun context =>
        respects_withOptional Drawer.respects_sinks fun sink => ?_
      exact .ite ((Respects.note _).bind fun _ => named _) (named _)
  cases source with
  | callable name => exact respects_withNamed Drawer.respects_callables fun c _ => build _
  | handle name => exact respects_withNamed Drawer.respects_handles fun h _ => build h

theorem respects_currentCall (id : String) : (currentCall id).Respects t l n := by
  refine (Respects.read _).bind fun innermost => ?_
  cases innermost with
  | none => exact .pure _
  | some c =>
    exact (respects_keepCall id c).bind fun _ => (Respects.read _).bind fun _ => .pure _

theorem respects_upgrade (id call : String) : (upgrade id call).Respects t l n :=
  respects_withNamed Drawer.respects_weaks fun c _ => (Respects.read _).bind fun _ =>
    .ite ((respects_keepCall call c).bind fun _ => .pure _) (.pure _)

/-! ## Schedulers -/

/-- A new loop is another one, so it can be kept. -/
theorem respects_newLoop (id : String) (settings : LoopSettings) :
    (newLoop id settings).Respects t l n := by
  refine (Respects.read _).bind fun serving => .ite (.pure _) ?_
  intro u x sound
  obtain ⟨other, created⟩ := aside_createLoop sound.reserved u settings
  refine (Respects.leads_bind (n := 0) (k := 0) sound (.aside created) fun a y sound' eq => ?_).mono
    (Nat.zero_le n)
  obtain ⟨rfl, _⟩ : (x.world.createLoop u settings).1 = a ∧ _ := by simpa using eq
  exact ((respects_put Drawer.respects_loops other).bind fun _ =>
    (Respects.read _).bind fun _ => .pure _) sound'

/-- A command about a loop that somebody keeps, of which it holds a share. -/
theorem respects_holdingLoop {name : String} {f : LoopId → Act Reply}
    (rest : ∀ k, k ≠ l → (f k).Respects t l n) :
    (withNamed Drawer.loops name fun k => holding (.loop k) (f k)).Respects t l n :=
  respects_withNamed Drawer.respects_loops fun k other =>
    .holding (fun same => other (Share.loop.inj same)) (rest k other)

theorem respects_driveUntilIdle (respects : self.Respects t l) (other : k ≠ l) :
    (driveUntilIdle self k).Respects t l n :=
  (Respects.read _).bind fun _ =>
    (respects_runUntilIdle (runTask_respects respects) other _).bind fun _ => .pure _

theorem respects_driveUntilClosed (respects : self.Respects t l) (other : k ≠ l) (trusting : Bool) :
    (driveUntilClosed self k trusting).Respects t l n := by
  refine (Respects.read _).bind fun closed => .ite ((Respects.read _).bind fun fuel => ?_) (.pure _)
  refine (respects_runUntilHalt (runTask_respects respects) other _).bind fun halt => ?_
  split
  · exact .pure _
  · exact .pure _

theorem respects_currentLoopNamed (id : Option String) :
    (currentLoopNamed id).Respects t l n := by
  refine (Respects.read _).bind fun current => ?_
  cases current with
  | none => exact .pure _
  | some k =>
    cases id with
    | none => exact .read _
    | some id => exact (respects_put Drawer.respects_loopHandles trivial).bind fun _ => .read _

theorem respects_runManual {run : RunTask} (respects : run.Respects t l) (m : ManualId) :
    (runManual run m).Respects t l n := by
  have inOrder (tasks : List Task) : (runInOrder run tasks).Respects t l 0 := by
    induction tasks with
    | nil => exact .pure ()
    | cons task tasks ih =>
      intro u x sound
      have first := respects.task task (u := u) sound
      simp only [runInOrder]
      rcases result : run task u x.world with ⟨p | _, w⟩
      · rw [result] at first
        refine first.andThen (k := 0) sound fun y sound' eq => .aside ?_
        subst eq
        exact (spares_releaseTasks ..).aside sound'.reserved
      · rw [result] at first
        refine first.andThen (k := 0) sound fun y sound' eq => ?_
        subst eq
        exact ih sound'
  have taken : (takeTasks m).Respects t l 0 :=
    .update fun _ _ => Spares.aside ⟨rfl, rfl, fun _ => rfl, rfl⟩
  exact taken.bind fun tasks => (inOrder tasks).bind fun _ => .pure _

/-! ## Threads -/

/-- What becomes of the journal of commands is no concern of loops. -/
theorem respects_setJournal {f : ThreadId → World → α × World}
    (journal : ∀ u w, ∃ j, (f u w).2 = { w with journal := j }) : (update f).Respects t l n := by
  refine .update fun u w => Spares.aside ?_
  obtain ⟨j, eq⟩ := journal u w
  rw [eq]
  exact ⟨rfl, rfl, fun _ => rfl, rfl⟩

theorem respects_perform (respects : self.Respects t l) (command : Command) :
    (perform self command).Respects t l n := by
  have opened : openJournal.Respects t l 0 := respects_setJournal fun _ _ => ⟨_, rfl⟩
  have closed (outer : Array Entry) : (closeJournal outer).Respects t l n :=
    respects_setJournal fun _ _ => ⟨_, rfl⟩
  exact opened.bind fun outer => (respects.command command).attempt.bind fun _ =>
    (respects_settleAll (runTask_respects respects)).bind fun _ => (Respects.read _).bind fun _ =>
      (closed outer).followed fun _ => .pure _

theorem respects_performAll (respects : self.Respects t l) (body : Script) :
    (performAll self body).Respects t l n := by
  induction body with
  | nil => exact .pure []
  | cons first rest ih =>
    obtain ⟨verb, command⟩ := first
    exact (respects_perform respects command).bind fun _ => ih.followed fun _ => .pure _

theorem respects_closeThread : closeThread.Respects t l n :=
  (respects_clear Drawer.respects_guards).bind fun _ => respects_clear Drawer.respects_loops

theorem respects_newThread (respects : self.Respects t l) (name : Option String) (body : Script) :
    (newThread self name body).Respects t l n := by
  have made : (update fun _ w => (w.threads.next,
      { w with threads := w.threads.push { name } })).Respects t l 0 :=
    .update fun _ _ reserved => aside_pushThread reserved nofun rfl
  exact made.bind fun u => ((respects_performAll respects body).on u).bind fun _ =>
    (respects_closeThread.on u).bind fun _ => .pure _

/-- Names are no concern of loops, either. -/
theorem respects_setNames {f : ThreadId → World → World}
    (names : ∀ u w, ∃ names, f u w = { w with names }) : (change f).Respects t l n := by
  refine .change fun u w => Spares.aside ?_
  obtain ⟨names, eq⟩ := names u w
  rw [eq]
  exact ⟨rfl, rfl, fun _ => rfl, rfl⟩

theorem respects_forgetLoopThread (id : String) : (forgetLoopThread id).Respects t l n :=
  respects_setNames fun _ _ => ⟨_, rfl⟩

theorem respects_shutdownLoop (k : LoopId) :
    (change fun u w => w.shutdownLoop u k).Respects t l n :=
  .change fun u _ reserved => aside_shutdownLoop reserved u k

theorem respects_dropLoopThreadNamed (respects : self.Respects t l) (id : String) :
    (dropLoopThreadNamed self id).Respects t l n := by
  refine (Respects.read _).bind fun named => ?_
  cases named with
  | none => exact .pure _
  | some v =>
    exact (respects_forgetLoopThread id).bind fun _ =>
      (respects_stopLoopThread (runTask_respects respects) v).bind fun _ => .pure _

theorem respects_shutdownLoopThread (respects : self.Respects t l) (id : String) :
    (shutdownLoopThread self id).Respects t l n := by
  refine (Respects.read _).bind fun named => ?_
  cases named with
  | none => exact .pure _
  | some v =>
    refine (respects_forgetLoopThread id).bind fun _ =>
      (respects_stopLoopThread (runTask_respects respects) v).bind fun _ =>
        (Respects.read _).bind fun served => ?_
    cases served with
    | none => exact .pure _
    | some k => exact (respects_shutdownLoop k).bind fun _ => .pure _

theorem respects_spawnLoopThread (respects : self.Respects t l) (id : String)
    (settings : LoopSettings) : (spawnLoopThread self id settings).Respects t l n := by
  have start : (update fun _ w => w.startLoopThread settings).Respects t l 0 :=
    .update fun _ _ reserved => aside_startLoopThread reserved settings
  have keep (v : ThreadId) : (change fun _ w => { w with names := { w.names with
      loopThreads := w.names.loopThreads.insert id v } }).Respects t l 0 :=
    respects_setNames fun _ _ => ⟨_, rfl⟩
  refine start.bind fun v => (Respects.read _).bind fun old => (keep v).bind fun _ => ?_
  have ending (old : ThreadId) : (dropLoopThread self old).Respects t l 0 :=
    respects_stopLoopThread (runTask_respects respects) old
  rcases old with _ | old
  on_goal 1 => refine (Respects.pure true).bind fun ended => (Respects.read _).bind fun served => ?_
  on_goal 2 => refine (ending old).bind fun ended => (Respects.read _).bind fun served => ?_
  all_goals
    cases served with
    | none => exact (Respects.read _).bind fun _ => .pure _
    | some k =>
      exact (respects_put Drawer.respects_loopHandles trivial).bind fun _ =>
        (Respects.read _).bind fun _ => .pure _

/-- A job is posted, and perhaps its end is awaited. -/
theorem respects_syncLoopThread (respects : self.Respects t l) (k : LoopId) (j : Job) :
    (syncLoopThread self k j).Respects t l 1 := by
  have opened : (update fun _ w => (w.tickets.size,
      { w with tickets := w.tickets.push none })).Respects t l 0 :=
    .update fun _ _ => Spares.aside ⟨rfl, rfl, fun _ => rfl, rfl⟩
  refine opened.bind fun ticket => (respects_post _ _).followed fun answer => ?_
  cases answer with
  | error e => exact .pure _
  | ok _ =>
    refine (Respects.read _).bind fun owner =>
      (respects_takeTurn (runTask_respects respects) owner).bind fun _ =>
        (Respects.read _).bind fun ended => ?_
    split
    · exact .pure _
    · exact .pure _
    · exact .pure _

/-! ## Commands -/

theorem respects_interpret (respects : self.Respects t l) (command : Command) :
    (interpret self command).Respects t l 1 := by
  have tasks := runTask_respects respects
  cases command with
  | newContext id label =>
    exact respects_keepNew Drawer.respects_contexts (fun _ => trivial)
      (fun _ _ => ⟨rfl, rfl, fun _ => rfl, rfl⟩) ..
  | emptyContext id => exact respects_keepSnapshot ..
  | cloneContext id source =>
    exact respects_withNamed Drawer.respects_contexts fun s _ => respects_keepSnapshot ..
  | wrapContext id source =>
    exact respects_withNamed Drawer.respects_contexts fun s _ =>
      .ite (.pure _) (respects_keepSnapshot ..)
  | dropContext id => exact respects_dropNamed Drawer.respects_contexts
  | capture id => exact (Respects.read _).bind fun s => respects_keepSnapshot ..
  | describeContext id => exact respects_withNamed Drawer.respects_contexts fun _ _ => .read _
  | sameContext a b =>
    exact respects_withNamed Drawer.respects_contexts fun _ _ =>
      respects_withNamed Drawer.respects_contexts fun _ _ => .pure _
  | install context guardName => exact respects_installNamed ..
  | dropGuard guardName => exact respects_dropNamed Drawer.respects_guards
  | describeGuard guardName => exact respects_withNamed Drawer.respects_guards fun _ _ => .read _
  | within context body ending => exact respects_within respects ..
  | observe => exact .read _
  | newCallable id title body limit endings =>
    exact respects_keepNew Drawer.respects_callables (fun _ => trivial)
      (fun _ _ => ⟨rfl, rfl, fun _ => rfl, rfl⟩) ..
  | dropCallable id => exact respects_dropNamed Drawer.respects_callables
  | describeCallable id => exact respects_withNamed Drawer.respects_callables fun _ _ => .read _
  | countShares id => exact respects_withNamed Drawer.respects_callables fun _ _ => .read _
  | invoke id args => exact respects_invokeNamed respects ..
  | describeArgs args => exact .pure _
  | newHandle id callable mode =>
    exact respects_withNamed Drawer.respects_callables fun _ _ => respects_keepHandle ..
  | cloneHandle id source =>
    exact respects_withNamed Drawer.respects_handles fun _ _ => respects_keepHandle ..
  | downgradeHandle id source =>
    exact respects_withNamed Drawer.respects_handles fun _ _ => respects_keepHandle ..
  | describeHandle id => exact respects_withNamed Drawer.respects_handles fun _ _ => .read _
  | obtain id callable => exact respects_obtainNamed ..
  | dropHandle id => exact respects_dropNamed Drawer.respects_handles
  | newSink id kind =>
    exact respects_keepNew Drawer.respects_sinks (fun _ => trivial)
      (fun _ _ => ⟨rfl, rfl, fun _ => rfl, rfl⟩) ..
  | readSink id take =>
    exact respects_withNamed Drawer.respects_sinks fun _ _ => respects_readSink ..
  | emitReport sink call =>
    exact respects_withNamed Drawer.respects_sinks fun s _ =>
      respects_withNamed Drawer.respects_calls fun c _ => (Respects.read _).bind fun d =>
        (respects_emit (some s) d).bind fun _ => .pure _
  | newCall id source options => exact respects_newCall ..
  | cloneCall id source =>
    exact respects_withNamed Drawer.respects_calls fun c _ =>
      (respects_keepCall id c).bind fun _ => .pure _
  | dropCall id => exact respects_dropNamed Drawer.respects_calls
  | markDead call =>
    exact respects_withNamed Drawer.respects_calls fun c _ =>
      (Respects.change fun _ _ => (spares_markDead ..).aside).bind fun _ => .pure _
  | run call args =>
    exact respects_withNamed Drawer.respects_calls fun c _ => .holding (s := .call c) nofun
      ((respects_run respects c args).bind fun _ => .pure _)
  | schedule call scheduler weakly args =>
    exact respects_withNamed Drawer.respects_calls fun c _ => respects_withScheduler fun s =>
      (respects_schedule s c weakly args).followed fun _ => .pure _
  | describeCall call => exact respects_withNamed Drawer.respects_calls fun _ _ => .read _
  | callExists call => exact respects_withNamed Drawer.respects_calls fun _ _ => .read _
  | reportContext call => exact respects_withNamed Drawer.respects_calls fun _ _ => .read _
  | printContext call =>
    exact respects_withNamed Drawer.respects_calls fun c _ =>
      (Respects.change fun _ _ => (spares_log ..).aside).bind fun _ => .pure _
  | sameCall a b =>
    exact respects_withNamed Drawer.respects_calls fun _ _ =>
      respects_withNamed Drawer.respects_calls fun _ _ => .pure _
  | olderCall a b =>
    exact respects_withNamed Drawer.respects_calls fun _ _ =>
      respects_withNamed Drawer.respects_calls fun _ _ => .pure _
  | currentCall id => exact respects_currentCall id
  | downgradeCall id call =>
    exact respects_withNamed Drawer.respects_calls fun _ _ =>
      (respects_put Drawer.respects_weaks trivial).bind fun _ => .pure _
  | cloneWeak id source =>
    exact respects_withNamed Drawer.respects_weaks fun _ _ =>
      (respects_put Drawer.respects_weaks trivial).bind fun _ => .pure _
  | dropWeak id => exact respects_dropNamed Drawer.respects_weaks
  | describeWeak id => exact respects_withNamed Drawer.respects_weaks fun _ _ => .read _
  | upgrade id call => exact respects_upgrade id call
  | newLoop id settings => exact respects_newLoop id settings
  | dropLoop id => exact respects_dropNamed Drawer.respects_loops
  | runPending loop =>
    exact respects_holdingLoop fun k other =>
      (respects_runPending tasks other).bind fun _ => .pure _
  | runUntilIdle loop =>
    exact respects_holdingLoop fun k other => respects_driveUntilIdle respects other
  | runLoop loop trusting =>
    exact respects_holdingLoop fun k other => respects_driveUntilClosed respects other trusting
  | describeLoop loop => exact respects_withNamed Drawer.respects_loops fun _ _ => .read _
  | newLoopHandle id loop =>
    exact respects_withNamed Drawer.respects_loops fun _ _ =>
      (respects_put Drawer.respects_loopHandles trivial).bind fun _ => .pure _
  | currentLoop id => exact respects_currentLoopNamed id
  | describeLoopHandle handle =>
    exact respects_withNamed Drawer.respects_loopHandles fun _ _ => .read _
  | shutdown handle =>
    exact respects_withNamed Drawer.respects_loopHandles fun k _ =>
      (respects_shutdownLoop k).bind fun _ => .pure _
  | dropLoopHandle id => exact respects_dropNamed Drawer.respects_loopHandles
  | post scheduler onlyHandle tag body ending holds =>
    exact respects_withScheduler fun s => (Respects.read _).bind fun _ =>
      (respects_post s _).followed fun _ => .pure _
  | describeScheduler scheduler => exact respects_withScheduler fun _ => .read _
  | newManual id designated violation reject =>
    exact respects_keepNew Drawer.respects_manuals (fun _ => trivial)
      (fun _ _ => ⟨rfl, rfl, fun _ => rfl, rfl⟩) ..
  | runManual id =>
    exact respects_withNamed Drawer.respects_manuals fun m _ => .holding (s := .manual m) nofun
      ((respects_runManual tasks m).bind fun _ => .pure _)
  | dropManual id => exact respects_dropNamed Drawer.respects_manuals
  | thread name body => exact respects_newThread respects name body
  | spawnLoopThread id settings => exact respects_spawnLoopThread respects id settings
  | syncLoopThread id tag body ending holds =>
    exact respects_withNamed Drawer.respects_loopHandles fun k _ => (Respects.read _).bind fun _ =>
      respects_syncLoopThread respects k _
  | shutdownLoopThread id => exact respects_shutdownLoopThread respects id
  | dropLoopThread id => exact respects_dropLoopThreadNamed respects id
  | note text => exact .pure _
  | unknown verb => exact .pure _

/-- What a command posts by itself is paid for by the command. -/
theorem respects_spend {m : Act Reply} (respects : m.Respects t l 1) :
    (spend m).Respects t l 0 := by
  refine .read_bind fun u x sound => ?_
  split
  · exact .refl x
  · next some =>
    have some : x.world.allowance ≠ 0 := by simpa using some
    have reserved := sound.reserved
    have spent : Meanwhile t l x.world [] { x.world with allowance := x.world.allowance - 1 } :=
      ⟨⟨reserved.known, reserved.inside, reserved.owner, reserved.serves, reserved.unkept⟩,
        (List.append_nil _).symm, fun closed => ⟨closed, rfl⟩, rfl, rfl⟩
    have first : Part t l x _ := .others spent
    obtain ⟨y, passes, eq⟩ := respects (u := u) ((Step.others spent).sound sound)
    refine ⟨y, ⟨.head first passes.sequel, passes.stage, ?_⟩, eq⟩
    have means := passes.means
    simp only [Service.means, List.append_nil] at means ⊢
    omega

/-- However deep scripts are nested, commands respect loop threads. -/
theorem performer_respects (depth : Nat) : Performer.Respects t l (performer depth) := by
  induction depth with
  | zero => exact ⟨fun _ => .pure _, 0, rfl⟩
  | succ depth ih =>
    exact ⟨fun command => respects_spend (respects_interpret ih command), depth + 1, rfl⟩

end Act

end DeferredCalls
