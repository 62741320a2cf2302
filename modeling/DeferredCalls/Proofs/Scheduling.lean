import DeferredCalls.Proofs.Freeing
import DeferredCalls.Proofs.Order
import DeferredCalls.Proofs.Ownership
import DeferredCalls.Proofs.Performing

/-!
# Scheduled calls

A schedule that is accepted queues one task, which fires when it is taken from the queue. A task
that was scheduled strongly is then a run of the call, with the arguments given at scheduling; one
that was scheduled weakly is the same, if at that moment the call is in use, and otherwise nothing.
A run invokes the callable of the call once, or is skipped.
-/

namespace DeferredCalls

open Holding Moment

/-! ## Queueing -/

section Queueing

variable {w w' : World} {s : Scheduler}

theorem World.Keeps.queueOf (h : w.Keeps w') : w'.queueOf s = w.queueOf s := by
  cases s with
  | loop l => rw [World.queueOf, h.loop, ← World.queueOf]
  | manual m => rw [World.queueOf, h.manual, ← World.queueOf]

/-- A post that is accepted adds a task at the tail of the queue, and any other changes nothing. -/
theorem World.queueOf_post (t : ThreadId) (task : Task) (there : w.CanPost s) :
    ((w.post t s task).1 = .ok () ∧
      (w.post t s task).2.queueOf s = w.queueOf s ++ [task]) ∨
    ∃ e, (w.post t s task).1 = .error e ∧ (w.post t s task).2.queueOf s = w.queueOf s := by
  cases s with
  | loop l =>
    have posted := World.queue_post t task there
    split at posted
    · exact .inr ⟨_, posted⟩
    · exact .inl posted
  | manual m =>
    simp only [post, postToManual]
    split
    · exact .inr ⟨_, rfl, (keeps_releaseTask ..).queueOf⟩
    · refine .inl ⟨rfl, ?_⟩
      rw [queueOf, Arena.get_modify (Arena.lt_size_of_shares_pos there), if_pos rfl]
      rfl

/-- A post that is accepted leaves the shares as they are. -/
theorem World.shareCount_post {t : ThreadId} (task : Task)
    (accepted : (w.post t s task).1 = .ok ()) (k : Share) :
    (w.post t s task).2.shareCount k = w.shareCount k := by
  cases s with
  | loop l =>
    simp only [post, postToLoop] at accepted ⊢
    split at accepted
    · contradiction
    · next taking =>
      rw [if_neg taking, World.shareCount_log]
      cases k with
      | loop x => exact Arena.shares_modify
      | _ => rfl
  | manual m =>
    simp only [post, postToManual] at accepted ⊢
    split at accepted
    · contradiction
    · next taking =>
      rw [if_neg taking]
      cases k with
      | manual x => exact Arena.shares_modify
      | _ => rfl

end Queueing

namespace Act

variable {code : Embedder} {c : CallId} {args : Option CallArgs} {t : ThreadId} {w : World}
  {s : Scheduler} {weakly : Bool} {H : Multiset Holding}

/-- Scheduling a call from another thread than the designated one queues nothing. -/
theorem violate_cases (ready : Ready ⟨w, H⟩ t) :
    Course ⟨w, H⟩ [] ⟨(violate s c weakly t w).2, H⟩ ∧
      (violate s c weakly t w).1 ≠ .ok (.ok ()) ∧
      (violate s c weakly t w).2.queueOf s = w.queueOf s := by
  have logged := ready.consistent.log t .error (w.violationDetail t c weakly) [World.callField c]
  have same := (w.keeps_log t .error (w.violationDetail t c weakly) [World.callField c]).queueOf
    (s := s)
  simp only [violate, bind_apply, read_apply, log, change_apply]
  generalize w.log t .error (w.violationDetail t c weakly) [World.callField c] = w' at logged same ⊢
  cases w'.violationOf s with
  | panic => exact ⟨logged, nofun, same⟩
  | log => exact ⟨logged, nofun, same⟩

/-- A schedule that is accepted queues the task that runs the call, and no other queues anything. -/
theorem schedule_cases (ready : Ready ⟨w, H⟩ t) (there : w.CanPost s)
    (used : 0 < w.calls.shares c) :
    ∃ told, Course ⟨w, H⟩ told ⟨(schedule s c weakly args t w).2, H⟩ ∧
      ((schedule s c weakly args t w).1 = .ok (.ok ()) ∧
          told = [.post s (World.callTask c weakly args) true] ∧
          (schedule s c weakly args t w).2.queueOf s =
            w.queueOf s ++ [World.callTask c weakly args] ∨
        (schedule s c weakly args t w).1 ≠ .ok (.ok ()) ∧
          (told = [.post s (World.callTask c weakly args) false] ∨ told = []) ∧
          (schedule s c weakly args t w).2.queueOf s = w.queueOf s) := by
  have alive : ∀ k ∈ (World.callTask c weakly args).shares, 0 < w.shareCount k :=
    alive_of_callTask used
  have posted := course_post ready there alive
  have queued := World.queueOf_post t (World.callTask c weakly args)
    (canPost_acquireAll there alive)
  rw [(World.keeps_acquireAll alive).queueOf] at queued
  rw [schedule, bind_apply, read_apply]
  simp only
  split
  · rw [bind_apply, post, update_apply]
    generalize (w.acquireAll (World.callTask c weakly args).shares).post t s
      (World.callTask c weakly args) = result at posted queued ⊢
    obtain ⟨answer, w'⟩ := result
    obtain ⟨rfl, more⟩ | ⟨e, rfl, same⟩ := queued
    · have logged := (ready.after posted).consistent.log t .trace
        (if weakly then "deferred call scheduled weakly" else "deferred call scheduled")
        [World.callField c]
      refine ⟨_, posted.trans logged, .inl ⟨rfl, rfl, ?_⟩⟩
      exact (World.keeps_log ..).queueOf.trans more
    · exact ⟨_, posted, .inr ⟨by simp, .inl rfl, same⟩⟩
  · obtain ⟨logged, refused, same⟩ := violate_cases (s := s) (c := c) ready
    exact ⟨_, logged, .inr ⟨refused, .inr rfl, same⟩⟩

/-! ## Firing -/

/-- A run that invokes the callable of its call: once, with the arguments, at the moment at which it
has entered. What came of that is concluded, and then the run leaves. -/
def invoked (code : Embedder) (c : CallId) (args : Option CallArgs) : Act RunOutcome := fun t w =>
  let ended := code.invoke (w.callableOf c) args t (w.entered t c)
  let concluded := conclude code.emit c ended.1 t ended.2
  (concluded.1, w.exited concluded.2 t c)

/-- A run that is skipped. The code of the embedder has no part in it. -/
def skipped (c : CallId) : Act RunOutcome := fun t w =>
  if (w.calls.get c).dead then
    (.ok (.skipped .dead), w.log t .trace "skipping dead deferred call" [World.callField c])
  else
    (.ok (.skipped .unavailable),
      w.log t .debug "callable released before run" [World.callField c])

/-- A run invokes its callable if and only if the call is not dead and its callable is still
there. -/
theorem run_eq : run code c args t w =
    if w.callExists c then invoked code c args t w else skipped c t w := by
  split
  · next there => exact run_of_exists there
  · next gone =>
    rw [skipped]
    split
    · next dead => exact run_of_dead dead
    · next living =>
      have living : (w.calls.get c).dead = false := by simpa using living
      have released : w.handleAlive (w.calls.get c).handle = false := by
        by_contra alive
        exact gone (World.callExists_iff.mpr ⟨living, by simpa using alive⟩)
      exact run_of_released living released

/-- A task that was scheduled weakly does what one that was scheduled strongly does, with a share of
the call that it takes when it fires. -/
theorem runWeak_eq : runWeak code c args t w =
    if w.callAlive c then runStrong code c args t (w.acquire (.call c))
    else (.ok (), w.log t .debug "weakly scheduled call released before firing"
      [World.callField c]) := by
  split
  · next alive => rw [runWeak_of_alive alive, runStrong_apply]
  · next released => exact runWeak_of_released (by simpa using released)

theorem callExists_acquire (k : CallId) :
    (w.acquire (.call k)).callExists c = w.callExists c := by
  have same : (w.calls.addShare k).get c = w.calls.get c := Arena.get_addShare
  have handles (h : Handle) : (w.acquire (.call k)).handleAlive h = w.handleAlive h := by
    cases h <;> rfl
  simp only [World.callExists, handles]
  rw [World.acquire, same]

/-- What a cycle does with the task of a call that was scheduled strongly: a direct run of the call,
after which the task gives up its share. A panic of the run ends there. -/
theorem runContained_strong {self : Performer} {l : LoopId} :
    runContained (runTask self) l (.strong c args) t w =
      (.ok (), match run (embedder self) c args t w with
        | (.ok _, w') => w'.releaseCall t c
        | (.error p, w') => (w'.releaseCall t c).log t .warn "posted task panicked"
            [(w'.releaseCall t c).loopField l, ("panic", .text p.message)]) := by
  rw [runContained_apply, World.ran]
  simp only [runTask, runStrong_apply]
  rcases run (embedder self) c args t w with ⟨_ | _, _⟩
  · rfl
  · rfl

/-- What it does with the task of a call that was scheduled weakly: the same if the call is in use,
and otherwise nothing. -/
theorem runContained_weak {self : Performer} {l : LoopId} :
    runContained (runTask self) l (.weak c args) t w =
      if w.callAlive c then runContained (runTask self) l (.strong c args) t (w.acquire (.call c))
      else (.ok (), w.log t .debug "weakly scheduled call released before firing"
        [World.callField c]) := by
  simp only [runContained_apply, World.ran, runTask, runWeak_eq]
  by_cases alive : w.callAlive c = true
  · rw [if_pos alive, if_pos alive]
  · rw [if_neg alive, if_neg alive]

/-- A schedule that is accepted takes a share of the call, unless it is weak. -/
theorem shares_schedule (ready : Ready ⟨w, H⟩ t) (used : 0 < w.calls.shares c)
    (accepted : (schedule s c weakly args t w).1 = .ok (.ok ())) :
    (schedule s c weakly args t w).2.calls.shares c =
      w.calls.shares c + if weakly then 0 else 1 := by
  have acquired : (w.acquireAll (World.callTask c weakly args).shares).shareCount (.call c) =
      w.calls.shares c + if weakly then 0 else 1 := by
    cases weakly with
    | true => rfl
    | false => exact (World.shareCount_acquire (s := .call c) used (.call c)).trans (by simp; rfl)
  rw [← acquired]
  revert accepted
  rw [schedule, bind_apply, read_apply]
  simp only
  split
  · rw [bind_apply, post, update_apply]
    have posted := World.shareCount_post (s := s) (t := t)
      (w := w.acquireAll (World.callTask c weakly args).shares) (World.callTask c weakly args)
    generalize (w.acquireAll (World.callTask c weakly args).shares).post t s
      (World.callTask c weakly args) = result at posted ⊢
    obtain ⟨_ | _, w'⟩ := result
    · intro accepted
      cases accepted
    · intro _
      exact (World.shareCount_log (k := .call c)).trans (posted rfl (.call c))
  · intro accepted
    exact absurd accepted (violate_cases ready).2.1

/-! ## Keeping in use -/

theorem callAlive_of_held (ready : Ready ⟨w, H⟩ t) (held : share (.call c) ∈ H) :
    w.callAlive c = true :=
  ready.consistent.balanced.callAlive_iff.mpr (.inl (Multiset.mem_add.mpr (.inr held)))

/-- A call of which a share is in hand is in use while it runs: when the callable is entered, when
the callable and the sink are done, and when the run is over. -/
theorem callAlive_run (lawful : code.Lawful) (ready : Ready ⟨w, H⟩ t)
    (held : share (.call c) ∈ H) (there : w.callExists c = true) :
    (w.entered t c).callAlive c = true ∧
      (invokeFor code c (w.callableOf c) args t (w.entered t c)).2.callAlive c = true ∧
      (run code c args t w).2.callAlive c = true := by
  have used : 0 < w.calls.shares c := of_decide_eq_true (callAlive_of_held ready held)
  have stillHeld : share (.call c) ∈ w.runHeld t c H :=
    Multiset.mem_cons_of_mem (Multiset.mem_cons_of_mem (Multiset.mem_cons_of_mem held))
  have entered := ready.after (course_entered ready used there)
  have invoked := ready_invoked lawful args ready used there
  have after := ready.reaches (reaches_run lawful args ready used)
  exact ⟨callAlive_of_held entered stillHeld, callAlive_of_held invoked stillHeld,
    callAlive_of_held after held⟩

end Act

open Act in
/-- What is true of a call and of some arguments at a moment, after some operations, when a thread
is about to do something. -/
structure FiresOnce (ops : List Operation) (w : World) (H : Multiset Holding) (t : ThreadId)
    (c : CallId) (args : Option CallArgs) : Prop where
  /-- A schedule that is accepted queues one task, and any other queues none. -/
  queued : ∀ s weakly, w.CanPost s → w.callAlive c = true →
    ∃ told, Course ⟨w, H⟩ told ⟨(schedule s c weakly args t w).2, H⟩ ∧
      ((schedule s c weakly args t w).1 = .ok (.ok ()) ∧
          told = [.post s (World.callTask c weakly args) true] ∧
          (schedule s c weakly args t w).2.queueOf s =
            w.queueOf s ++ [World.callTask c weakly args] ∨
        (schedule s c weakly args t w).1 ≠ .ok (.ok ()) ∧
          (told = [.post s (World.callTask c weakly args) false] ∨ told = []) ∧
          (schedule s c weakly args t w).2.queueOf s = w.queueOf s)
  /-- Every task that a loop accepted was started or discarded, once, or is queued. -/
  ledger : ∀ l, accepted l ops = started l ops ++ discarded l ops ++ (w.loop l).queue
  taken : ∀ l task w', w.dequeue? l = some (task, w') →
    Course ⟨w, H⟩ [.start (.loop l) task] ⟨w', ofShares task.shares + H⟩
  /-- A cycle runs each task when it takes it from the queue, and goes on from the world in which
  the task has been run. -/
  cycle : ∀ runTask l limit, runTasks runTask l (limit + 1) t w =
    match w.dequeue? l with
    | none => (.ok 0, w)
    | some (task, w') =>
      let after := w'.ran runTask l task t
      ((runTasks runTask l limit t after).1.map (· + 1), (runTasks runTask l limit t after).2)
  /-- The task that is queued for a call is the run of the call, and gives up the share that was
  taken for it; a panic ends there. -/
  firedStrong : ∀ self l, runContained (runTask self) l (World.callTask c false args) t w =
    (.ok (), match Act.run (embedder self) c args t w with
      | (.ok _, w') => w'.releaseCall t c
      | (.error p, w') => (w'.releaseCall t c).log t .warn "posted task panicked"
          [(w'.releaseCall t c).loopField l, ("panic", .text p.message)])
  /-- If it was queued weakly, it is the same provided that the call is in use, and takes a share
  only now. -/
  firedWeak : ∀ self l, runContained (runTask self) l (World.callTask c true args) t w =
    if w.callAlive c then
      runContained (runTask self) l (World.callTask c false args) t (w.acquire (.call c))
    else (.ok (), w.log t .debug "weakly scheduled call released before firing"
      [World.callField c])
  /-- A task that was scheduled strongly is a direct run, and then gives up its share. -/
  strong : ∀ code, runStrong code c args t w =
    ((run code c args t w).1.map fun _ => (), (run code c args t w).2.releaseCall t c)
  /-- A task that was scheduled weakly is the same if the call is in use, and otherwise nothing. -/
  weak : ∀ code, runWeak code c args t w =
    if w.callAlive c then runStrong code c args t (w.acquire (.call c))
    else (.ok (), w.log t .debug "weakly scheduled call released before firing"
      [World.callField c])
  /-- A run invokes the callable, once, if and only if the call exists. -/
  run : ∀ code, run code c args t w =
    if w.callExists c then invoked code c args t w else skipped c t w
  exists_iff : w.callExists c = true ↔
    (w.calls.get c).dead = false ∧ w.handleAlive (w.calls.get c).handle = true
  exists_acquire : (w.acquire (.call c)).callExists c = w.callExists c
  /-- A call is in use if it is kept under a name or in hand, if it is being run, or if it is held
  by a queued task, and otherwise not. -/
  alive_iff : w.callAlive c = true ↔
    share (.call c) ∈ w.named + H ∨ (∃ u, c ∈ w.callStack u) ∨
      ∃ s, ∃ task ∈ w.queueOf s, c ∈ task.holds
  /-- A schedule that is accepted takes a share of the call for its task, unless it is weak. -/
  taking : ∀ s weakly, w.callAlive c = true → (schedule s c weakly args t w).1 = .ok (.ok ()) →
    (schedule s c weakly args t w).2.calls.shares c = w.calls.shares c + if weakly then 0 else 1
  /-- A task that holds the call keeps it in use until the task is started or discarded. -/
  waiting : ∀ l before task after, (w.loop l).queue = before ++ task :: after → c ∈ task.holds →
    ∀ more m, Course ⟨w, H⟩ more m → (started l more).length ≤ before.length →
      discarded l more = [] → m.world.callAlive c = true
  /-- Who has a share of the call in hand, such as a task that was started, keeps it in use. -/
  inHand : ∀ more m, Course ⟨w, H⟩ more m → share (.call c) ∈ m.held → m.world.callAlive c = true
  /-- So the call is in use when its callable is entered, when callable and sink are done, and when
  the run is over. -/
  running : ∀ code : Embedder, code.Lawful → share (.call c) ∈ H → w.callExists c = true →
    (w.entered t c).callAlive c = true ∧
    (invokeFor code c (w.callableOf c) args t (w.entered t c)).2.callAlive c = true ∧
    (Act.run code c args t w).2.callAlive c = true

/-- A call that is scheduled fires at most once, when its task is taken from the queue. It is then
run with the arguments given at scheduling; if it was scheduled weakly, only if it is in use by then
for other reasons. What keeps it in use are the shares of others, the runs in progress, and the
tasks that were scheduled strongly, from when they are accepted until they are over. -/
theorem scheduled_calls_fire_once {verbosity : Verbosity} {ops : List Operation} {w : World}
    {H : Multiset Holding} (course : Course (.start verbosity) ops ⟨w, H⟩) {t : ThreadId}
    (inside : t.index < w.threads.size) (c : CallId) (args : Option CallArgs) :
    FiresOnce ops w H t c args := by
  have ready : Ready ⟨w, H⟩ t := ⟨course.consistent (consistent_start verbosity), inside⟩
  constructor
  case queued =>
    intro s weakly there alive
    exact Act.schedule_cases ready there (of_decide_eq_true alive)
  case ledger => exact course.accepted_eq
  case taken =>
    intro l task w' taken
    exact .single (.start taken)
  case cycle =>
    intro runTask l limit
    exact Act.runTasks_succ
  case firedStrong => exact fun self l => Act.runContained_strong
  case firedWeak => exact fun self l => Act.runContained_weak
  case strong => exact fun code => Act.runStrong_apply
  case weak => exact fun code => Act.runWeak_eq
  case run => exact fun code => Act.run_eq
  case exists_iff => exact World.callExists_iff
  case exists_acquire => exact Act.callExists_acquire c
  case alive_iff => exact ready.consistent.balanced.callAlive_iff
  case taking => exact fun s weakly alive => Act.shares_schedule ready (of_decide_eq_true alive)
  case waiting =>
    intro l before task after queued mine more m rest early kept
    have waiting := course.still_queued rest queued early kept
    have consistent := rest.consistent ready.consistent
    exact consistent.balanced.callAlive_iff.mpr (.inr (.inr ⟨.loop l, task, waiting, mine⟩))
  case inHand =>
    intro more m rest held
    exact Act.callAlive_of_held (ready.after rest) held
  case running =>
    intro code lawful held there
    exact Act.callAlive_run lawful ready held there

namespace Errand

open Act

/-- A call is scheduled weakly and then strongly, and then nobody else keeps it. -/
def prepare : Act Unit := script (performer 1)
  [("callable", .newCallable "errand" none [] 0 []), ("loop", .newLoop "day" {}),
    ("call", .newCall "call" (.callable "errand") none),
    ("weak", .schedule "call" "day" true none), ("strong", .schedule "call" "day" false none),
    ("drop", .dropCall "call")]

/-- The world in which the tasks wait. -/
def world : World :=
  (prepare Session.driver (Session.start none)).2

/-- The share of the second task is the only one, and it lets the first one fire as well. -/
theorem weak_task_fires :
    world.calls.shares ⟨0⟩ = 1 ∧
    runWeak (embedder (performer 1)) ⟨0⟩ none Session.driver world =
      runStrong (embedder (performer 1)) ⟨0⟩ none Session.driver (world.acquire (.call ⟨0⟩)) ∧
    ((runTasks (runTask (performer 1)) ⟨0⟩ 2 Session.driver world).2.callables.get
      ⟨0⟩).invocations = 2 := by
  obtain ⟨_, course⟩ := lawful_script (performer_lawful 1) _ (Session.ready_start none)
  have facts :=
    scheduled_calls_fire_once (w := world) course (t := Session.driver) (by decide +kernel) ⟨0⟩ none
  have fires := facts.weak (embedder (performer 1))
  rw [if_pos (by decide +kernel)] at fires
  exact ⟨by decide +kernel, fires, by decide +kernel⟩

end Errand

end DeferredCalls
