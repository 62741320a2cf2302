import DeferredCalls.Proofs.Scheduling
import DeferredCalls.Proofs.Trail

/-!
# Whether a call exists

A call exists until it is marked dead or, if it does not hold its callable itself, until the
callable is released. A run asks the same two questions in its own way, so it invokes the callable
if and only if the call exists at that moment; otherwise it is skipped, and nothing but an event
tells of it.

What does not exist never exists again. Single operations cannot bring it back, whichever threads
perform them and whatever they have in hand, and neither can whole commands, which may run scripts,
turns of loop threads and other calls.
-/

namespace DeferredCalls

open Holding Moment

namespace World

variable {w w' w'' : World} {t u : ThreadId} {c : CallId} {H : Multiset Holding}

theorem callExists_eq_false_iff : w.callExists c = false ↔
    (w.calls.get c).dead = true ∨
      ∃ f, (w.calls.get c).handle = .weak f ∧ w.callables.shares f = 0 := by
  cases handle : (w.calls.get c).handle with
  | strong f => simp [callExists, handleAlive, handle]
  | weak f => cases dead : (w.calls.get c).dead <;> simp [callExists, handleAlive, handle, dead]

/-- A call that was built on a handle of a callable that was made. -/
structure Built (w : World) (c : CallId) : Prop where
  call : c.index < w.calls.size
  callable : (w.callableOf c).index < w.callables.size

/-! ## Marking dead -/

theorem dead_markDead (known : c.index < w.calls.size) :
    ((w.markDead t c).calls.get c).dead = true := by
  rw [markDead]
  split
  · assumption
  · rw [(keeps_log ..).call]
    simp only [Arena.get_modify known, if_true]

theorem markDead_of_dead (dead : (w.calls.get c).dead = true) : w.markDead t c = w := by
  rw [markDead, if_pos dead]

theorem callExists_of_dead (dead : (w.calls.get c).dead = true) : w.callExists c = false :=
  callExists_eq_false_iff.mpr (.inl dead)

/-! ## Growing older -/

/-- What operations tell of calls holds of them: they stay what they are, but for marks. And
released callables stay released. -/
structure Ages (w w' : World) : Prop where
  follows : ∃ ops, w.Follows ops w'
  released : ∀ f : CallableId, f.index < w.callables.size → w.callables.shares f = 0 →
    w'.callables.shares f = 0

namespace Ages

protected theorem refl (w : World) : w.Ages w :=
  ⟨⟨[], .refl w⟩, fun _ _ => id⟩

protected theorem trans (first : w.Ages w') (second : w'.Ages w'') : w.Ages w'' where
  follows := by
    obtain ⟨_, follows⟩ := first.follows
    obtain ⟨_, more⟩ := second.follows
    exact ⟨_, follows.trans more⟩
  released f made gone := by
    obtain ⟨_, follows⟩ := first.follows
    exact second.released f (Nat.lt_of_lt_of_le made follows.callableCount)
      (first.released f made gone)

theorem handle (ages : w.Ages w') (known : c.index < w.calls.size) :
    (w'.calls.get c).handle = (w.calls.get c).handle := by
  obtain ⟨_, follows⟩ := ages.follows
  obtain ⟨_, eq, _⟩ := follows.call c known
  rw [eq]

theorem dead (ages : w.Ages w') (known : c.index < w.calls.size)
    (before : (w.calls.get c).dead = true) : (w'.calls.get c).dead = true := by
  obtain ⟨_, follows⟩ := ages.follows
  obtain ⟨_, eq, stays⟩ := follows.call c known
  rw [eq]
  exact stays before

theorem built (ages : w.Ages w') (built : w.Built c) : w'.Built c where
  call := by
    obtain ⟨_, follows⟩ := ages.follows
    exact Nat.lt_of_lt_of_le built.call follows.callCount
  callable := by
    obtain ⟨_, follows⟩ := ages.follows
    rw [callableOf, ages.handle built.call]
    exact Nat.lt_of_lt_of_le built.callable follows.callableCount

/-- What does not exist will not exist: a mark stays, and so does the release of a callable. -/
theorem callExists (ages : w.Ages w') (built : w.Built c) (gone : w.callExists c = false) :
    w'.callExists c = false := by
  rcases callExists_eq_false_iff.mp gone with dead | ⟨f, weak, released⟩
  · exact callExists_of_dead (ages.dead built.call dead)
  · have made : f.index < w.callables.size := by
      have callable := built.callable
      rwa [callableOf, weak] at callable
    refine callExists_eq_false_iff.mpr (.inr ⟨f, ?_, ages.released f made released⟩)
    rw [ages.handle built.call, weak]

end Ages

end World

section Courses

variable {m m' : Moment} {ops : List Operation} {c : CallId}

/-- Whatever operations make of a world, it only becomes older. -/
theorem Course.ages (consistent : m.Consistent) (course : Course m ops m') :
    m.world.Ages m'.world := by
  induction course with
  | refl => exact .refl _
  | step before last ih =>
    have there := before.consistent consistent
    obtain ⟨_, releases⟩ := last.releases there
    exact ih.trans ⟨⟨_, last.follows there⟩, fun f => releases.final (.callable f)⟩

/-- In sessions there are no calls but those that were built on handles of callables that were
made. -/
theorem Course.built {verbosity : Verbosity} {w : World} {H : Multiset Holding}
    (course : Course (.start verbosity) ops ⟨w, H⟩) (known : c.index < w.calls.size) :
    w.Built c := by
  refine ⟨known, ?_⟩
  rcases (course.follows (consistent_start verbosity)).built c known with old | made
  · exact absurd old (Nat.not_lt_zero _)
  · exact made

end Courses

namespace Moment

/-- What may come later: operations of the library by any threads, with anything in hand, commands
with scripts nested to any depth, and turns of loop threads. -/
inductive Later (m : Moment) : Moment → Prop
  | refl : Later m m
  | step {m' m'' : Moment} {ops : List Operation} :
    Later m m' → Step m' ops m'' → Later m m''
  | command {w : World} {H : Multiset Holding} {t : ThreadId} (depth : Nat) (command : Command) :
    Later m ⟨w, H⟩ → t.index < w.threads.size →
    Later m ⟨(Act.performer depth command t w).2, H⟩
  | turns {w : World} {H : Multiset Holding} {t : ThreadId} (depth : Nat) :
    Later m ⟨w, H⟩ → t.index < w.threads.size →
    Later m ⟨(Act.settleAll (Act.runTask (Act.performer depth)) t w).2, H⟩

variable {m m' : Moment}

/-- Commands and turns are operations, too. -/
theorem Later.course (consistent : m.Consistent) (later : Later m m') : ∃ ops, Course m ops m' := by
  induction later with
  | refl => exact ⟨[], .refl m⟩
  | step _ last ih =>
    obtain ⟨_, course⟩ := ih
    exact ⟨_, course.step last⟩
  | command depth command _ inside ih =>
    obtain ⟨_, course⟩ := ih
    obtain ⟨_, more⟩ : Reaches ⟨_, _⟩ ⟨_, _⟩ := (Act.performer_lawful depth).command command
      ⟨course.consistent consistent, inside⟩
    exact ⟨_, course.trans more⟩
  | turns depth _ inside ih =>
    obtain ⟨_, course⟩ := ih
    obtain ⟨_, more⟩ : Reaches ⟨_, _⟩ ⟨_, _⟩ :=
      Act.lawful_settleAll (Act.runTask_lawful (Act.performer_lawful depth))
        ⟨course.consistent consistent, inside⟩
    exact ⟨_, course.trans more⟩

/-- Whatever comes later, the world has only become older. -/
theorem Later.ages (consistent : m.Consistent) (later : Later m m') :
    m'.Consistent ∧ m.world.Ages m'.world := by
  obtain ⟨_, course⟩ := later.course consistent
  exact ⟨course.consistent consistent, course.ages consistent⟩

/-- What was built is there at all later moments, so the same can be said of it then. -/
theorem Later.built {w w' : World} {H H' : Multiset Holding} {c : CallId}
    (later : Later ⟨w, H⟩ ⟨w', H'⟩) (consistent : Moment.Consistent ⟨w, H⟩) (built : w.Built c) :
    Moment.Consistent ⟨w', H'⟩ ∧ w'.Built c :=
  (later.ages consistent).imp_right fun ages => ages.built built

/-- A run that has entered is at a later moment. -/
theorem later_entered {w : World} {H : Multiset Holding} {t : ThreadId} {c : CallId}
    (ready : Ready ⟨w, H⟩ t) (used : 0 < w.calls.shares c) (there : w.callExists c = true) :
    Later ⟨w, H⟩ ⟨w.entered t c, w.runHeld t c H⟩ := by
  obtain ⟨_, alive⟩ := World.callExists_iff.mp there
  have callable := ready.consistent.balanced.callable_alive used alive
  have obtained : Later ⟨w, H⟩ ⟨w.acquire (.callable (w.callableOf c)), _⟩ :=
    .step .refl (.acquire callable)
  have stacked : Later ⟨w, H⟩ ⟨(w.acquire (.callable (w.callableOf c))).enterCall t c, _⟩ :=
    .step obtained (.enter ready.inside used)
  have inside := (ready.after (course_stacked ready used there)).inside
  have installed := Later.step stacked
    (.install inside fun _ => context_alive ready used there)
  rw [World.contextStack_enterCall] at installed
  have consistent := (installed.ages ready.consistent).1
  exact .step installed (consistent.step_log ..)

end Moment

open Act

/-! ## Skipped runs -/

/-- Nothing is different that matters to contexts, calls, shares or sinks. -/
structure World.Undisturbed (w w' : World) : Prop where
  ambient : ∀ u, w'.ambient u = w.ambient u
  depth : ∀ u, (w'.contextStack u).depth = (w.contextStack u).depth
  callStack : ∀ u, w'.callStack u = w.callStack u
  shareCount : ∀ s, w'.shareCount s = w.shareCount s
  callables : w'.callables = w.callables
  sinks : w'.sinks = w.sinks

theorem World.undisturbed_log (w : World) (t : ThreadId) (level : Level) (message : String)
    (fields : List (String × FieldValue)) : w.Undisturbed (w.log t level message fields) := by
  obtain ⟨_, _, eq⟩ := w.log_eq t level message fields
  rw [eq]
  exact ⟨fun _ => rfl, fun _ => rfl, fun _ => rfl, fun s => by cases s <;> rfl, rfl, rfl⟩

/-- What comes of a run of a call that does not exist: it says why, and nothing but an event tells
of it. -/
structure Skips (t : ThreadId) (c : CallId) (w : World) (result : Except Panic RunOutcome × World) :
    Prop where
  dead : (w.calls.get c).dead = true → result.1 = .ok (.skipped .dead)
  unavailable : (w.calls.get c).dead = false → result.1 = .ok (.skipped .unavailable) ∧
    ∃ f, (w.calls.get c).handle = .weak f ∧ w.callables.shares f = 0
  event : ∃ level message, result.2 = w.log t level message [World.callField c]
  undisturbed : w.Undisturbed result.2

variable {t : ThreadId} {c : CallId} {w : World} {H : Multiset Holding}

theorem skips_skipped (gone : w.callExists c = false) : Skips t c w (skipped c t w) := by
  rw [skipped]
  split
  · next dead =>
    exact ⟨fun _ => rfl, fun living => absurd (dead.symm.trans living) (by simp), ⟨_, _, rfl⟩,
      w.undisturbed_log ..⟩
  · next living =>
    refine ⟨fun dead => absurd dead living, fun _ => ⟨rfl, ?_⟩, ⟨_, _, rfl⟩, w.undisturbed_log ..⟩
    exact (World.callExists_eq_false_iff.mp gone).resolve_left living

theorem World.log_acquireCall (w : World) (t : ThreadId) (c : CallId) (level : Level)
    (message : String) (fields : List (String × FieldValue)) :
    (w.acquire (.call c)).log t level message fields =
      (w.log t level message fields).acquire (.call c) := by
  have there : (w.acquire (.call c)).thread t = w.thread t := rfl
  have level' : (w.acquire (.call c)).verbosity = w.verbosity := rfl
  simp only [log, note, there, level']
  split
  · split <;> rfl
  · rfl

/-- A share of the call that is held meanwhile leaves no trace, either. -/
theorem skips_held (used : 0 < w.calls.shares c) (gone : w.callExists c = false) :
    Skips t c w ((skipped c t (w.acquire (.call c))).1,
      (skipped c t (w.acquire (.call c))).2.release t (.call c)) := by
  have same : (w.acquire (.call c)).calls.get c = w.calls.get c := Arena.get_addShare
  have given (level : Level) (message : String) :
      ((w.acquire (.call c)).log t level message [World.callField c]).release t (.call c) =
        w.log t level message [World.callField c] := by
    rw [World.log_acquireCall]
    exact World.release_acquire (by rwa [World.shareCount_log])
  have skips := skips_skipped (t := t) gone
  rw [skipped, same]
  rw [skipped] at skips
  split <;> simp_all

/-! ## The ways to run a call -/

section Ways

variable {code : Embedder} {args : Option CallArgs}

/-- What came of an invocation is never that there was none. -/
theorem conclude_ne_skipped (emit : Emit) (ended : Except Panic (Except CallError Unit))
    (why : SkipReason) : (conclude emit c ended t w).1 ≠ .ok (.skipped why) := by
  have reported (e : Error) (traceback : Option String) :
      (reportFailure emit c e traceback t w).1 ≠ .ok (.skipped why) := by
    simp only [reportFailure, bind_apply, read_apply]
    split <;> simp
  rcases ended with p | e | _
  · exact reported _ _
  · exact reported _ _
  · simp [conclude]

theorem holding_run : holding (.call c) (run code c args) t w =
    ((run code c args t (w.acquire (.call c))).1,
      (run code c args t (w.acquire (.call c))).2.release t (.call c)) := rfl

/-- A command that runs a call holds a share of it. -/
theorem interpret_run {self : Performer} {name : String}
    (named : Drawer.calls.find? t w name = some c) : interpret self (.run name args) t w =
      ((holding (.call c) (run (embedder self) c args) t w).1.map .outcome,
        (holding (.call c) (run (embedder self) c args) t w).2) := by
  simp only [interpret, withNamed, bind_apply, read_apply, named, holding, ensuring_apply]
  rcases run (embedder self) c args t (w.acquire (.call c)) with ⟨_ | _, _⟩ <;> rfl

/-- A command that marks a call dead that is dead already changes nothing. -/
theorem interpret_markDead {self : Performer} {name : String}
    (named : Drawer.calls.find? t w name = some c) (dead : (w.calls.get c).dead = true) :
    interpret self (.markDead name) t w = (.ok .nothing, w) := by
  simp only [interpret, withNamed, bind_apply, read_apply, named, change_apply,
    World.markDead_of_dead dead]
  rfl

end Ways

/-- What the existence of a call means at a moment for each way to run it, whatever the code of the
embedder is. A run that is skipped has the same result for all of them. -/
structure RunsIfExists (t : ThreadId) (c : CallId) (w : World) : Prop where
  gone_iff : w.callExists c = false ↔ (w.calls.get c).dead = true ∨
    ∃ f, (w.calls.get c).handle = .weak f ∧ w.callables.shares f = 0
  invokes : w.callExists c = true → ∀ code args,
    run code c args t w = invoked code c args t w ∧
      ∀ why, (run code c args t w).1 ≠ .ok (.skipped why)
  skips : w.callExists c = false → ∃ result, Skips t c w result ∧
    ∀ code args, run code c args t w = result
  /-- A share of the call that is held during the run makes no difference. -/
  held : 0 < w.calls.shares c → (w.acquire (.call c)).callExists c = w.callExists c ∧
    (w.callExists c = false → ∃ result, Skips t c w result ∧
      ∀ code args, holding (.call c) (run code c args) t w = result)
  command : ∀ self name args, Drawer.calls.find? t w name = some c →
    interpret self (.run name args) t w =
      ((holding (.call c) (run (embedder self) c args) t w).1.map .outcome,
        (holding (.call c) (run (embedder self) c args) t w).2)
  /-- A task that was scheduled weakly takes a share when it fires. -/
  weakTask : w.callAlive c = true → ∀ code args, runWeak code c args t w =
    ((holding (.call c) (run code c args) t w).1.map fun _ => (),
      (holding (.call c) (run code c args) t w).2)
  /-- A task that was scheduled strongly gives up the share that it has, when the run is over. -/
  strongTask : ∀ code args, runStrong code c args t w =
    ((run code c args t w).1.map fun _ => (), (run code c args t w).2.release t (.call c))

/-- At every moment, a call is run if and only if it exists. -/
theorem runs_if_exists (t : ThreadId) (c : CallId) (w : World) : RunsIfExists t c w where
  gone_iff := World.callExists_eq_false_iff
  invokes there code args := by
    have eq : run code c args t w = invoked code c args t w := by rw [run_eq, if_pos there]
    refine ⟨eq, fun why => ?_⟩
    simp only [eq, invoked]
    exact conclude_ne_skipped code.emit _ why
  skips gone := ⟨_, skips_skipped gone, fun code args => by
    rw [run_eq, gone, if_neg Bool.false_ne_true]⟩
  held used := by
    have same := callExists_acquire (w := w) (c := c) c
    refine ⟨same, fun gone => ⟨_, skips_held used gone, fun code args => ?_⟩⟩
    rw [holding_run, run_eq, same, gone, if_neg Bool.false_ne_true]
  command _ _ _ named := interpret_run named
  weakTask alive code args := by
    rw [holding_run, runWeak_of_alive alive, World.release]
  strongTask code args := by
    rw [runStrong_apply, World.release]

/-- What the existence of a call at a moment is worth for whatever comes later. -/
structure ExistenceLasts (c : CallId) (w : World) (H : Multiset Holding) : Prop where
  /-- At every later moment, whoever runs the call finds out what `exists` says. -/
  runs : ∀ w' H', Later ⟨w, H⟩ ⟨w', H'⟩ → ∀ t, RunsIfExists t c w'
  /-- The callable is invoked at a later moment, so all of this holds from within the run, too. -/
  entered : ∀ t, t.index < w.threads.size → 0 < w.calls.shares c → w.callExists c = true →
    Later ⟨w, H⟩ ⟨w.entered t c, w.runHeld t c H⟩
  /-- A call that does not exist never will, so its callable is not invoked through it any more. -/
  never : w.callExists c = false → ∀ w' H', Later ⟨w, H⟩ ⟨w', H'⟩ → w'.callExists c = false ∧
    ∀ t, ∃ result, Skips t c w' result ∧ ∀ code args, run code c args t w' = result
  marked : ∀ t, Later ⟨w, H⟩ ⟨w.markDead t c, H⟩ ∧ ((w.markDead t c).calls.get c).dead = true
  /-- A mark stays, and marking once more changes nothing, on any thread and under any name. -/
  irreversible : (w.calls.get c).dead = true → ∀ w' H', Later ⟨w, H⟩ ⟨w', H'⟩ →
    (w'.calls.get c).dead = true ∧ w'.callExists c = false ∧ ∀ t, w'.markDead t c = w' ∧
      ∀ self name, Drawer.calls.find? t w' name = some c →
        interpret self (.markDead name) t w' = (.ok .nothing, w')

/-- A run of a call invokes its callable if and only if the call exists, and a call that does not
exist never will. -/
theorem calls_run_while_they_exist (consistent : Moment.Consistent ⟨w, H⟩) (built : w.Built c) :
    ExistenceLasts c w H where
  runs w' _ _ t := runs_if_exists t c w'
  entered _ inside used there := later_entered ⟨consistent, inside⟩ used there
  never gone w' _ later := by
    have still := (later.ages consistent).2.callExists built gone
    exact ⟨still, fun t => (runs_if_exists t c w').skips still⟩
  marked t := ⟨.step .refl (.markDead t c),
    World.dead_markDead built.call⟩
  irreversible dead w' _ later := by
    have still := (later.ages consistent).2.dead built.call dead
    exact ⟨still, World.callExists_of_dead still, fun t =>
      ⟨World.markDead_of_dead still, fun _ _ named => interpret_markDead named still⟩⟩

namespace Farewell

/-- A callable that marks its own call dead, twice and under two names, and tries to run it in
between. Another callable is given up while a weak call refers to it. -/
def prepare : Act Unit := script (performer 4)
  [("callable", .newCallable "bow" none
      [("mark", .markDead "call"), ("again", .run "copy" none), ("mark", .markDead "copy")] 1 []),
    ("call", .newCall "call" (.callable "bow") none), ("copy", .cloneCall "copy" "call"),
    ("callable", .newCallable "echo" none [] 0 []), ("handle", .newHandle "handle" "echo" .weak),
    ("call", .newCall "loose" (.handle "handle") none), ("drop", .dropCallable "echo")]

/-- The world in which the first call is about to be run. -/
def world : World :=
  (prepare Session.driver (Session.start none)).2

/-- The world after that run. -/
def after : World :=
  (performer 4 (.run "call" none) Session.driver world).2

theorem course : ∃ ops, Course (.start none) ops ⟨world, 0⟩ :=
  lawful_script (performer_lawful 4) _ (Session.ready_start none)

theorem consistent : Moment.Consistent ⟨world, 0⟩ := by
  obtain ⟨_, course⟩ := course
  exact course.consistent (consistent_start none)

theorem built {c : CallId} (known : c.index < world.calls.size) : world.Built c := by
  obtain ⟨_, course⟩ := course
  exact course.built known

theorem later_after : Later ⟨world, 0⟩ ⟨after, 0⟩ := by
  have inside : Session.driver.index < world.threads.size := by decide +kernel
  exact .command 4 (.run "call" none) .refl inside

/-- The first call exists, so its callable is invoked; afterwards it is dead, so that it is skipped.
The second one is skipped before and afterwards, because its callable was released. -/
theorem calls_after_farewell :
    run (embedder (performer 4)) ⟨0⟩ none Session.driver world =
      invoked (embedder (performer 4)) ⟨0⟩ none Session.driver world ∧
    (run (embedder (performer 4)) ⟨0⟩ none Session.driver after).1 = .ok (.skipped .dead) ∧
    after.markDead Session.driver ⟨0⟩ = after ∧
    (run (embedder (performer 4)) ⟨1⟩ none Session.driver after).1 =
      .ok (.skipped .unavailable) := by
  have bow : world.Built ⟨0⟩ := built (by decide +kernel)
  have loose : world.Built ⟨1⟩ := built (by decide +kernel)
  obtain ⟨consistent', bow'⟩ := later_after.built consistent bow
  have begun := calls_run_while_they_exist consistent bow
  have ended := calls_run_while_they_exist consistent' bow'
  have weak := calls_run_while_they_exist consistent loose
  obtain ⟨_, gone, marks⟩ := ended.irreversible (by decide +kernel) _ _ .refl
  refine ⟨?_, ?_, (marks _).1, ?_⟩
  · exact (((begun.runs _ _ .refl) _).invokes (by decide +kernel) _ _).1
  · obtain ⟨result, skips, same⟩ := (ended.never gone _ _ .refl).2 Session.driver
    rw [same]
    exact skips.dead (by decide +kernel)
  · obtain ⟨result, skips, same⟩ :=
      (weak.never (by decide +kernel) _ _ later_after).2 Session.driver
    rw [same]
    exact (skips.unavailable (by decide +kernel)).1

end Farewell

end DeferredCalls
