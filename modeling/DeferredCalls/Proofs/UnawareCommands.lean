import DeferredCalls.Proofs.UnawareTurns

/-!
# Commands are unaware of a veil

All commands are gone through, given that those of nested scripts are unaware of the veil; then so
are commands nested to any depth, and whole sessions. A new thread is not hidden, since it was not
there before.

What is shown of a command is compared step by step with what it does, and in both of them together
the same steps have to be taken. A course of either one says nothing about the other.
-/

namespace DeferredCalls

open World

/-- Whether loop threads can take turns while a command is performed, apart from what it runs. -/
def Command.letsTurns : Command → Bool
  | .thread .. | .spawnLoopThread .. | .syncLoopThread .. | .shutdownLoopThread _
  | .dropLoopThread _ => true
  | _ => false

namespace Act

variable {V : Veil} {α : Type} {self : Performer}

/-! ## Contexts and callables -/

/-- A new object is made, without touching a thread, and kept. -/
theorem answers_keepNew {d : Drawer α} {f : ThreadId → World → α × World} (passes : d.Passes V)
    (same : ∀ t w, f t (w.under V) = ((f t w).1, (f t w).2.under V))
    (threads : ∀ t w, (f t w).2.threads = w.threads) (id : String) {reply : Reply}
    (plain : reply.upTo V.limit = reply) :
    (do let a ← update f; put d id a; pure reply).Answers V := by
  refine .andThen (.update fun t w _ _ => ⟨same t w, .of_threads (threads t w)⟩) fun a => ?_
  exact (unaware_put passes id a).andThen fun _ => .pure plain.symm

theorem answers_keepSnapshot (id : String) (s : Snapshot) : (keepSnapshot id s).Answers V :=
  (unaware_acquireAll _).andThen fun _ =>
    (unaware_put Drawer.passes_contexts id s).andThen fun _ => .pure rfl

theorem answers_keepHandle (id : String) (h : Handle) : (keepHandle id h).Answers V :=
  (unaware_acquireAll _).andThen fun _ =>
    (unaware_put Drawer.passes_handles id h).andThen fun _ => .pure rfl

theorem unaware_keepCall (id : String) (c : CallId) : (keepCall id c).Unaware V :=
  (unaware_acquireAll _).andThen fun _ => unaware_put Drawer.passes_calls id c

theorem unaware_onLoopThread : onLoopThread.Unaware V :=
  .read fun _ _ _ => congrArg Option.isSome servedLoop?_under

theorem answers_installNamed (context guardName : String) :
    (installNamed context guardName).Answers V := by
  refine unaware_onLoopThread.andThen fun serving => .ite (.pure rfl) ?_
  refine answers_withNamed Drawer.passes_contexts fun s => .holdingAll s.shares ?_
  have installed : (update fun t w => ((w.contextStack t).nextGuard, w.install t s)).Unaware V := by
    refine .update fun t w own _ => ?_
    rw [contextStack_under own, install_under own]
    exact ⟨rfl, w.touches_install t s⟩
  exact installed.andThen fun g => (unaware_put Drawer.passes_guards guardName g).andThen fun _ =>
    .pure rfl

section Scripts

variable (unaware : self.Unaware V)

include unaware

theorem answers_within (context : String) (body : Script) (ending : Ending) :
    (within self context body ending).Answers V := by
  refine answers_withNamed Drawer.passes_contexts fun s => .holdingAll s.shares ?_
  have inside : (note fun t w => .inside (w.position t)).Unaware V := by
    refine .note (fun _ _ => rfl) fun t w own => ?_
    rw [position_under own]
    rfl
  have ended := (unaware_finish (V := V) ending).andThen fun _ =>
    (Shows.pure rfl : Act.Unaware V (pure ()))
  exact Shows.andThen (.installing s (inside.andThen fun _ =>
    (unaware_script unaware body).andThen fun _ => ended)) fun _ => .pure rfl

theorem answers_invokeNamed (id : String) (args : Option CallArgs) :
    (invokeNamed self id args).Answers V := by
  refine answers_withNamed Drawer.passes_callables fun f => .holding (.callable f) ?_
  refine (unaware_invoke unaware f args).andThen fun ended => ?_
  cases ended with
  | ok _ => exact .pure rfl
  | error e => exact .pure rfl

end Scripts

theorem obtain_under {w : World} (h : Handle) : (w.under V).obtain h = w.obtain h := by
  cases h <;> rfl

theorem answers_obtainNamed (id : String) (name : Option String) :
    (obtainNamed id name).Answers V := by
  refine answers_withNamed Drawer.passes_handles fun h =>
    .andThen (.read fun _ _ _ => obtain_under h) fun obtained => ?_
  cases obtained with
  | error e => exact .pure rfl
  | ok f =>
    refine .holding (.callable f) (.andThen (.read fun _ _ _ => rfl) fun description => ?_)
    cases name with
    | none => exact .pure rfl
    | some name =>
      exact (unaware_acquireAll _).andThen fun _ =>
        (unaware_put Drawer.passes_callables name f).andThen fun _ => .pure rfl

theorem answers_readSink (s : SinkId) (take : Bool) : (readSink s take).Answers V := by
  refine .update fun t w _ _ => ?_
  have same : (w.under V).sinks = w.sinks := rfl
  rw [same]
  by_cases keeps : (w.sinks.get s).kind = .memory
  · cases take with
    | true =>
      simp only [keeps, if_true]
      exact ⟨rfl, .of_threads rfl⟩
    | false =>
      simp only [keeps, if_true]
      exact ⟨rfl, .refl w⟩
  · simp only [keeps, if_false]
    exact ⟨rfl, .refl w⟩

/-! ## Calls -/

theorem debugBuilder_under {w : World} (b : CallBuilder) :
    (w.under V).debugBuilder b = w.debugBuilder b := by
  rw [debugBuilder, debugBuilder]
  rfl

theorem answers_buildNamed (id : String) (b : CallBuilder) : (buildNamed id b).Answers V := by
  have built : (update fun t w => w.build t b).Unaware V :=
    .update fun t w own _ => ⟨build_under own b, w.touches_build t b⟩
  have described (c : CallId) : Act.Answers V (do
      pure (.words (← read fun _ w => w.describeCall c))) :=
    .andThen (.read fun _ _ _ => rfl) fun _ => .pure rfl
  exact built.andThen fun c => (unaware_put Drawer.passes_calls id c).andThen fun _ => described c

theorem answers_buildFrom (id : String) (options : Option CallOptions) (h : Handle) :
    (buildFrom id options h).Answers V := by
  unfold buildFrom
  cases options with
  | none => exact answers_buildNamed id _
  | some o =>
    refine answers_withOptional Drawer.passes_contexts fun context => ?_
    refine answers_withOptional Drawer.passes_sinks fun sink => ?_
    have shown (b : CallBuilder) : (note fun _ w => .builder (w.debugBuilder b)).Unaware V :=
      .note (fun _ _ => rfl) fun t w _ => by rw [debugBuilder_under]; rfl
    exact .ite ((shown _).andThen fun _ => answers_buildNamed id _) (answers_buildNamed id _)

theorem answers_newCall (id : String) (source : CallSource) (options : Option CallOptions) :
    (newCall id source options).Answers V := by
  cases source with
  | callable name =>
    exact answers_withNamed Drawer.passes_callables fun c => answers_buildFrom id options _
  | handle name =>
    exact answers_withNamed Drawer.passes_handles fun h => answers_buildFrom id options h

theorem answers_currentCall (id : String) : (currentCall id).Answers V := by
  refine .andThen (.read fun _ _ own => by rw [callStack_under own]; rfl) fun innermost => ?_
  cases innermost with
  | none => exact .pure rfl
  | some c =>
    exact (unaware_keepCall id c).andThen
      fun _ => .andThen (.read fun _ _ _ => rfl) fun _ => .pure rfl

theorem answers_upgrade (id call : String) : (upgrade id call).Answers V := by
  refine answers_withNamed Drawer.passes_weaks fun c =>
    .andThen (.read fun _ _ _ => rfl) fun alive => .ite ?_ (.pure rfl)
  exact (unaware_keepCall call c).andThen fun _ => .pure rfl

/-! ## Schedulers -/

theorem answers_acceptance (answer : Except Error Unit) :
    (pure (acceptance answer) : Act Reply).Answers V := by
  cases answer <;> exact .pure rfl

theorem answers_newLoop (id : String) (settings : LoopSettings) :
    (newLoop id settings).Answers V := by
  refine unaware_onLoopThread.andThen fun serving => .ite (.pure rfl) ?_
  have created : (update fun t w => w.createLoop t settings).Unaware V :=
    .update fun t w own _ => ⟨createLoop_under own settings, w.touches_createLoop t settings⟩
  exact created.andThen fun l => (unaware_put Drawer.passes_loops id l).andThen fun _ =>
    .andThen (.read fun _ _ _ => rfl) fun _ => .pure rfl

theorem answers_currentLoopNamed (id : Option String) : (currentLoopNamed id).Answers V := by
  refine .andThen (.read fun _ _ own => by rw [thread_under own]; rfl) fun current => ?_
  cases current with
  | none => exact .pure rfl
  | some l =>
    cases id with
    | none => exact .read fun _ _ _ => rfl
    | some id =>
      exact (unaware_put Drawer.passes_loopHandles id l).andThen fun _ => .read fun _ _ _ => rfl

section Driving

variable (unaware : self.Unaware V)

include unaware

theorem answers_driveUntilIdle (l : LoopId) : (driveUntilIdle self l).Answers V :=
  .andThen (.read fun _ _ _ => rfl) fun _ =>
    (unaware_runUntilIdle (runTask_unaware unaware) l _).andThen fun _ => .pure rfl

theorem answers_driveUntilClosed (l : LoopId) (trusting : Bool) :
    (driveUntilClosed self l trusting).Answers V := by
  refine .andThen (.read fun _ _ _ => rfl) fun closed => .ite ?_ (.pure rfl)
  refine .andThen (.read fun _ _ _ => rfl) fun fuel =>
    (unaware_runUntilHalt (runTask_unaware unaware) l fuel).andThen fun halt => ?_
  split <;> exact .pure rfl

end Driving

/-! ## Threads -/

section Threads

variable (turns : V.turns = true) (unaware : self.Unaware V)

/-- The journal of a command is shown up to the limit. -/
theorem shows_openJournal : openJournal.Shows V V.journal openJournal :=
  .update fun _ w _ _ => ⟨Prod.ext rfl (congrArg (fun none => { w.under V with journal := none })
    V.journal_empty.symm), .of_threads rfl⟩

theorem shows_closeJournal (outer : Array Entry) :
    (closeJournal outer).Shows V (Entry.allUpTo V.limit) (closeJournal (V.journal outer)) :=
  .update fun _ w _ _ => ⟨Prod.ext (Veil.toList_journal w.journal) rfl, .of_threads rfl⟩

theorem unaware_closeThread : closeThread.Unaware V :=
  (Shows.change Drawer.passes_guards.clear).andThen fun _ => .change Drawer.passes_loops.clear

theorem unaware_forgetLoopThread (id : String) : (forgetLoopThread id).Unaware V :=
  .change (passes_of_threads (fun _ _ => rfl) fun _ _ => rfl)

include turns unaware

theorem shows_perform (command : Command) :
    (perform self command).Shows V (·.upTo V.limit) (perform self command) := by
  refine shows_openJournal.bind fun outer => (unaware command).attempt.bind fun reply =>
    (unaware_settleAll turns (runTask_unaware unaware)).andThen fun _ => ?_
  have seen : (read fun t w => w.position t).Unaware V := .read fun _ _ own => position_under own
  refine seen.andThen fun position => (shows_closeJournal outer).bind fun entries => ?_
  cases reply with
  | ok r => exact .pure rfl
  | error p => exact .pure rfl

theorem shows_performAll (body : Script) :
    (performAll self body).Shows V (Record.allUpTo V.limit) (performAll self body) := by
  induction body with
  | nil => exact .pure rfl
  | cons first rest ih =>
    obtain ⟨verb, command⟩ := first
    exact (shows_perform turns unaware command).bind fun _ => ih.bind fun _ => .pure rfl

/-- A new thread was not there before, so it is not hidden. -/
theorem answers_newThread (name : Option String) (body : Script) :
    (newThread self name body).Answers V := by
  refine .bindWhere (fun u => V.hidden u = none) ?_ (fun t w _ fits u made => ?_) fun u own => ?_
  · refine .update fun t w _ fits => ⟨?_, .pushThread { name }⟩
    rw [pushThread_under fits]
    exact Prod.ext Arena.next_mapRefs rfl
  · obtain rfl : w.threads.next = u := Except.ok.inj made
    exact own_next fits
  · exact ((shows_performAll turns unaware body).on own).bind fun records =>
      (unaware_closeThread.on own).andThen fun _ => .pure rfl

theorem unaware_dropLoopThread (u : ThreadId) : (dropLoopThread self u).Unaware V :=
  unaware_stopLoopThread turns (runTask_unaware unaware) u

theorem answers_dropLoopThreadNamed (id : String) : (dropLoopThreadNamed self id).Answers V := by
  refine .andThen (.read fun _ _ _ => rfl) fun named => ?_
  cases named with
  | none => exact .pure rfl
  | some u =>
    refine (unaware_forgetLoopThread id).andThen fun _ =>
      (unaware_dropLoopThread turns unaware u).andThen fun ended => ?_
    cases ended <;> exact .pure rfl

theorem answers_shutdownLoopThread (id : String) : (shutdownLoopThread self id).Answers V := by
  refine .andThen (.read fun _ _ _ => rfl) fun named => ?_
  cases named with
  | none => exact .pure rfl
  | some u =>
    refine (unaware_forgetLoopThread id).andThen fun _ =>
      (unaware_stopLoopThread turns (runTask_unaware unaware) u).andThen fun ended =>
        .andThen (.read fun _ _ _ => servedLoop?_under) fun served => ?_
    have replied : (pure (if ended then .accepted else .wouldBlock) : Act Reply).Answers V := by
      cases ended <;> exact .pure rfl
    cases served with
    | none => exact replied
    | some l =>
      exact (Shows.change fun t w own _ =>
        ⟨shutdownLoop_under own l, w.touches_shutdownLoop t l⟩).andThen fun _ => replied

theorem answers_spawnLoopThread (id : String) (settings : LoopSettings) :
    (spawnLoopThread self id settings).Answers V := by
  have started : (update fun _ w => w.startLoopThread settings).Unaware V :=
    .update fun t w _ fits => ⟨startLoopThread_under fits settings,
      w.touches_startLoopThread t settings⟩
  have named (u : ThreadId) (ended : Bool) : Act.Answers V (do
      let name ← read fun _ w => (w.thread u).name.getD ""
      pure (if ended then Reply.words name else .wouldBlock)) := by
    refine .andThen (.read fun _ _ _ => congrArg (·.getD "") name_under) fun name => ?_
    cases ended <;> exact .pure rfl
  have kept (u : ThreadId) : (change fun _ w => { w with
      names := { w.names with loopThreads := w.names.loopThreads.insert id u } }).Unaware V :=
    .change (passes_of_threads (fun _ _ => rfl) fun _ _ => rfl)
  refine started.andThen fun u => .andThen (.read fun _ _ _ => rfl) fun old =>
    (kept u).andThen fun _ => ?_
  rcases old with _ | old
  on_goal 1 => refine (Shows.pure rfl : Act.Unaware V (pure true)).andThen fun ended => ?_
  on_goal 2 => refine (unaware_dropLoopThread turns unaware old).andThen fun ended => ?_
  all_goals
    refine .andThen (.read fun _ _ _ => servedLoop?_under) fun served => ?_
    cases served with
    | none => exact named u ended
    | some l => exact (unaware_put Drawer.passes_loopHandles id l).andThen fun _ => named u ended

theorem answers_syncLoopThread (l : LoopId) (j : Job) : (syncLoopThread self l j).Answers V := by
  have opened : (update fun _ w => (w.tickets.size,
      { w with tickets := w.tickets.push none })).Unaware V :=
    .update fun _ _ _ _ => ⟨rfl, .of_threads rfl⟩
  refine opened.andThen fun ticket => (unaware_post _ _).andThen fun answer => ?_
  cases answer with
  | error e => exact .pure rfl
  | ok _ =>
    refine .andThen (.read fun _ _ _ => rfl) fun owner =>
      (unaware_takeTurn turns (runTask_unaware unaware) owner).andThen fun _ =>
        .andThen (.read fun _ _ _ => rfl) fun ended => ?_
    split <;> exact .pure rfl

end Threads

/-! ## Commands -/

theorem answers_interpret (unaware : self.Unaware V) {command : Command}
    (turns : command.letsTurns = true → V.turns = true) : (interpret self command).Answers V := by
  have tasks : RunTask.Unaware V (runTask self) := runTask_unaware unaware
  cases command with
  | newContext id label =>
    exact answers_keepNew Drawer.passes_contexts (fun _ _ => rfl) (fun _ _ => rfl) id rfl
  | emptyContext id => exact answers_keepSnapshot ..
  | cloneContext id source =>
    exact answers_withNamed Drawer.passes_contexts fun s => answers_keepSnapshot ..
  | wrapContext id source =>
    exact answers_withNamed Drawer.passes_contexts fun s =>
      .ite (.pure rfl) (answers_keepSnapshot ..)
  | dropContext id => exact answers_dropNamed Drawer.passes_contexts
  | capture id =>
    exact .andThen (.read fun _ _ own => ambient_under own) fun s => answers_keepSnapshot ..
  | describeContext id =>
    exact answers_withNamed Drawer.passes_contexts fun _ => .read fun _ _ _ => rfl
  | sameContext a b =>
    exact answers_withNamed Drawer.passes_contexts fun _ =>
      answers_withNamed Drawer.passes_contexts fun _ => .pure rfl
  | install context guardName => exact answers_installNamed ..
  | dropGuard guardName => exact answers_dropNamed Drawer.passes_guards
  | describeGuard guardName =>
    exact answers_withNamed Drawer.passes_guards fun _ => .read fun _ _ _ => rfl
  | within context body ending => exact answers_within unaware ..
  | observe =>
    refine .read fun t w own => ?_
    rw [position_under own, callChain_under own, callStack_under own]
    rfl
  | newCallable id title body limit endings =>
    exact answers_keepNew Drawer.passes_callables (fun _ _ => rfl) (fun _ _ => rfl) id rfl
  | dropCallable id => exact answers_dropNamed Drawer.passes_callables
  | describeCallable id =>
    exact answers_withNamed Drawer.passes_callables fun _ => .read fun _ _ _ => rfl
  | countShares id =>
    exact answers_withNamed Drawer.passes_callables fun _ => .read fun _ _ _ => rfl
  | invoke id args => exact answers_invokeNamed unaware ..
  | describeArgs args => exact .pure rfl
  | newHandle id callable mode =>
    exact answers_withNamed Drawer.passes_callables fun _ => answers_keepHandle ..
  | cloneHandle id source =>
    exact answers_withNamed Drawer.passes_handles fun _ => answers_keepHandle ..
  | downgradeHandle id source =>
    exact answers_withNamed Drawer.passes_handles fun _ => answers_keepHandle ..
  | describeHandle id =>
    exact answers_withNamed Drawer.passes_handles fun _ => .read fun _ _ _ => rfl
  | obtain id callable => exact answers_obtainNamed ..
  | dropHandle id => exact answers_dropNamed Drawer.passes_handles
  | newSink id kind =>
    exact answers_keepNew Drawer.passes_sinks (fun _ _ => rfl) (fun _ _ => rfl) id rfl
  | readSink id take =>
    exact answers_withNamed Drawer.passes_sinks fun s => answers_readSink s take
  | emitReport sink call =>
    exact answers_withNamed Drawer.passes_sinks fun s =>
      answers_withNamed Drawer.passes_calls fun c =>
        .andThen (.read fun _ _ own => contextReport_under own c) fun d =>
          (unaware_emit (some s) d).andThen fun _ => .pure rfl
  | newCall id source options => exact answers_newCall ..
  | cloneCall id source =>
    exact answers_withNamed Drawer.passes_calls fun c =>
      (unaware_keepCall id c).andThen fun _ => .pure rfl
  | dropCall id => exact answers_dropNamed Drawer.passes_calls
  | markDead call =>
    exact answers_withNamed Drawer.passes_calls fun c => (Shows.change fun t w own _ =>
      ⟨markDead_under own c, w.touches_markDead t c⟩).andThen fun _ => .pure rfl
  | run call args =>
    exact answers_withNamed Drawer.passes_calls fun c => .holding (.call c)
      ((unaware_run (embedder_unaware unaware) c args).andThen fun _ => .pure rfl)
  | schedule call scheduler weakly args =>
    exact answers_withNamed Drawer.passes_calls fun c => answers_withScheduler fun s =>
      (unaware_schedule s c weakly args).andThen answers_acceptance
  | describeCall call =>
    exact answers_withNamed Drawer.passes_calls fun _ => .read fun _ _ _ => rfl
  | callExists call =>
    exact answers_withNamed Drawer.passes_calls fun _ => .read fun _ _ _ => rfl
  | reportContext call =>
    refine answers_withNamed Drawer.passes_calls fun c => .read fun t w own => ?_
    rw [contextReport_under own]
    rfl
  | printContext call =>
    exact answers_withNamed Drawer.passes_calls fun c =>
      (unaware_printContext c).andThen fun _ => .pure rfl
  | sameCall a b =>
    exact answers_withNamed Drawer.passes_calls fun _ =>
      answers_withNamed Drawer.passes_calls fun _ => .pure rfl
  | olderCall a b =>
    exact answers_withNamed Drawer.passes_calls fun _ =>
      answers_withNamed Drawer.passes_calls fun _ => .pure rfl
  | currentCall id => exact answers_currentCall id
  | downgradeCall id call =>
    exact answers_withNamed Drawer.passes_calls fun c =>
      (unaware_put Drawer.passes_weaks id c).andThen fun _ => .pure rfl
  | cloneWeak id source =>
    exact answers_withNamed Drawer.passes_weaks fun c =>
      (unaware_put Drawer.passes_weaks id c).andThen fun _ => .pure rfl
  | dropWeak id => exact answers_dropNamed Drawer.passes_weaks
  | describeWeak id =>
    exact answers_withNamed Drawer.passes_weaks fun _ => .read fun _ _ _ => rfl
  | upgrade id call => exact answers_upgrade id call
  | newLoop id settings => exact answers_newLoop id settings
  | dropLoop id => exact answers_dropNamed Drawer.passes_loops
  | runPending loop =>
    exact answers_withNamed Drawer.passes_loops fun l => .holding (.loop l)
      ((unaware_runPending tasks l).andThen fun _ => .pure rfl)
  | runUntilIdle loop =>
    exact answers_withNamed Drawer.passes_loops fun l => .holding (.loop l)
      (answers_driveUntilIdle unaware l)
  | runLoop loop trusting =>
    exact answers_withNamed Drawer.passes_loops fun l => .holding (.loop l)
      (answers_driveUntilClosed unaware l trusting)
  | describeLoop loop =>
    exact answers_withNamed Drawer.passes_loops fun _ => .read fun _ _ _ => rfl
  | newLoopHandle id loop =>
    exact answers_withNamed Drawer.passes_loops fun l =>
      (unaware_put Drawer.passes_loopHandles id l).andThen fun _ => .pure rfl
  | currentLoop id => exact answers_currentLoopNamed id
  | describeLoopHandle handle =>
    exact answers_withNamed Drawer.passes_loopHandles fun _ => .read fun _ _ _ => rfl
  | shutdown handle =>
    exact answers_withNamed Drawer.passes_loopHandles fun l => (Shows.change fun t w own _ =>
      ⟨shutdownLoop_under own l, w.touches_shutdownLoop t l⟩).andThen fun _ => .pure rfl
  | dropLoopHandle id => exact answers_dropNamed Drawer.passes_loopHandles
  | post scheduler onlyHandle tag body ending holds =>
    exact answers_withScheduler fun s => (unaware_callsNamed holds).andThen fun _ =>
      (unaware_post s _).andThen answers_acceptance
  | describeScheduler scheduler =>
    refine answers_withScheduler fun s => .read fun t w _ => ?_
    rw [isDesignated_under, violationOf_under]
    rfl
  | newManual id designated violation reject =>
    exact answers_keepNew Drawer.passes_manuals (fun _ _ => rfl) (fun _ _ => rfl) id rfl
  | runManual id =>
    exact answers_withNamed Drawer.passes_manuals fun m => .holding (.manual m)
      ((unaware_runManual tasks m).andThen fun _ => .pure rfl)
  | dropManual id => exact answers_dropNamed Drawer.passes_manuals
  | thread name body => exact answers_newThread (turns rfl) unaware name body
  | spawnLoopThread id settings => exact answers_spawnLoopThread (turns rfl) unaware id settings
  | syncLoopThread id tag body ending holds =>
    exact answers_withNamed Drawer.passes_loopHandles fun l =>
      (unaware_callsNamed holds).andThen fun _ => answers_syncLoopThread (turns rfl) unaware l _
  | shutdownLoopThread id => exact answers_shutdownLoopThread (turns rfl) unaware id
  | dropLoopThread id => exact answers_dropLoopThreadNamed (turns rfl) unaware id
  | note text => exact .pure rfl
  | unknown verb => exact .pure rfl

theorem answers_spend {m : Act Reply} (answers : m.Answers V) : (spend m).Answers V := by
  have counted : (change fun _ w => { w with allowance := w.allowance - 1 }).Unaware V :=
    .change (passes_of_threads (fun _ _ => rfl) fun _ _ => rfl)
  exact .andThen (.read fun _ _ _ => rfl) fun spent =>
    .ite (.pure rfl) (counted.andThen fun _ => answers)

/-- However deep scripts are nested, commands are unaware of a veil. -/
theorem performer_unaware (turns : V.turns = true) (depth : Nat) :
    Performer.Unaware V (performer depth) := by
  induction depth with
  | zero => exact fun _ => .pure rfl
  | succ depth ih => exact fun command => answers_spend (answers_interpret ih fun _ => turns)

end Act

namespace Session

open Act

variable {V : Veil}

theorem unaware_close (turns : V.turns = true) : close.Unaware V := by
  have unaware : Performer.Unaware V performer := performer_unaware turns _
  refine .andThen (.read fun _ _ _ => rfl) fun names => ?_
  have dropped : (each (fun id => do let _ ← dropLoopThreadNamed performer id) names).Unaware V :=
    .each (fun id => (answers_dropLoopThreadNamed turns unaware id).bind fun _ => .pure rfl) names
  refine dropped.andThen fun _ =>
    (unaware_settleAll turns (runTask_unaware unaware)).andThen fun _ =>
      unaware_closeThread.andThen fun _ => ?_
  exact (Shows.change Drawer.passes_manuals.clear).andThen fun _ =>
    (Shows.change Drawer.passes_calls.clear).andThen fun _ =>
    (Shows.change Drawer.passes_weaks.clear).andThen fun _ =>
    (Shows.change Drawer.passes_handles.clear).andThen fun _ =>
    (Shows.change Drawer.passes_loopHandles.clear).andThen fun _ =>
    (Shows.change Drawer.passes_callables.clear).andThen fun _ =>
    (Shows.change Drawer.passes_contexts.clear).andThen fun _ =>
    .change Drawer.passes_sinks.clear

theorem shows_perform (turns : V.turns = true) (script : Script) :
    (perform script).Shows V (Record.allUpTo V.limit) (perform script) :=
  (shows_performAll turns (performer_unaware turns _) script).bind fun _ =>
    (unaware_close turns).andThen fun _ => .pure rfl

end Session

end DeferredCalls
