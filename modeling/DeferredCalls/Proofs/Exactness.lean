import DeferredCalls.Proofs.Counting
import DeferredCalls.Proofs.Order
import DeferredCalls.Proofs.Performing
import DeferredCalls.Proofs.Releasing

/-!
# Share counts are exact

At every moment the number of shares of a callable, a call or a context state is the number of those
who hold one, so an object is released at the very operation that takes its last holder away, once,
and never while one remains. Looking at objects changes nothing. When nobody holds anything any more
and all loops are gone, nothing is left: whatever was made has been released.
-/

namespace DeferredCalls

open Holding Moment

/-! ## Queues that nobody holds -/

namespace World

/-- A manual scheduler that was released has nothing queued. -/
def ManualsEmpty (w : World) : Prop :=
  ∀ m, w.manuals.shares m = 0 → w.queueOf (.manual m) = []

section Manuals

variable (w : World) (t : ThreadId)

theorem manuals_note (e : Entry) : (w.note t e).manuals = w.manuals := by
  obtain ⟨journal, remoteJournal, eq⟩ := w.note_eq t e
  rw [eq]

theorem manuals_log (level : Level) (message : String) (fields : List (String × FieldValue)) :
    (w.log t level message fields).manuals = w.manuals := by
  obtain ⟨journal, remoteJournal, eq⟩ := w.log_eq t level message fields
  rw [eq]

theorem manuals_releaseContext (c : ContextId) :
    (w.releaseContext t c).manuals = w.manuals := by
  simp only [releaseContext]
  split
  · rw [manuals_note]
  · rfl

theorem manuals_releaseCallable (c : CallableId) :
    (w.releaseCallable t c).manuals = w.manuals := by
  simp only [releaseCallable]
  split
  · rw [manuals_note]
  · rfl

theorem manuals_releaseSnapshot (s : Snapshot) :
    (w.releaseSnapshot t s).manuals = w.manuals := by
  obtain ⟨_ | c⟩ := s
  · rfl
  · exact w.manuals_releaseContext t c

theorem manuals_releaseCall (c : CallId) : (w.releaseCall t c).manuals = w.manuals := by
  simp only [releaseCall]
  split
  · rw [manuals_releaseSnapshot]
    cases (Arena.get (w.calls.dropShare c) c).handle with
    | strong f => rw [releaseHandle, manuals_releaseCallable]
    | weak f => rfl
  · rfl

theorem manuals_releaseCalls (cs : List CallId) : (w.releaseCalls t cs).manuals = w.manuals := by
  induction cs generalizing w with
  | nil => rfl
  | cons c cs ih => exact (ih _).trans (w.manuals_releaseCall t c)

theorem manuals_releaseTasks (tasks : List Task) :
    (w.releaseTasks t tasks).manuals = w.manuals := by
  induction tasks generalizing w with
  | nil => rfl
  | cons task tasks ih => exact (ih _).trans (w.manuals_releaseCalls t task.holds)

theorem manuals_releaseLoop (l : LoopId) : (w.releaseLoop t l).manuals = w.manuals := by
  simp only [releaseLoop]
  split
  · simp only [discardLoop, abandoned, onThread, manuals_releaseTasks]
    split
    · rfl
    · rw [manuals_log]
  · rfl

theorem manuals_dropGuard (g : Guard) : (w.dropGuard t g).manuals = w.manuals := by
  rw [dropGuard, manuals_releaseSnapshot]
  show (w.warnGuard t _).manuals = w.manuals
  rcases ((w.contextStack t).dropGuard g).warning with _ | _ | _
  · rfl
  · exact w.manuals_log ..
  · exact w.manuals_log ..

theorem manuals_leaveCalls (level : Nat) : (w.leaveCalls t level).manuals = w.manuals := by
  rw [leaveCalls, manuals_releaseCalls]
  rfl

theorem manuals_acquireAll {shares : List Share} (other : ∀ s ∈ shares, ∀ m, s ≠ .manual m) :
    (w.acquireAll shares).manuals = w.manuals := by
  induction shares generalizing w with
  | nil => rfl
  | cons s shares ih =>
    have first : (w.acquire s).manuals = w.manuals := by
      cases s with
      | manual m => exact absurd rfl (other _ (List.mem_cons_self ..) m)
      | _ => rfl
    exact (ih _ fun k member => other k (List.mem_cons_of_mem s member)).trans first

end Manuals

variable {w w' : World} {t : ThreadId}

theorem ManualsEmpty.congr (h : w.ManualsEmpty) (same : w'.manuals = w.manuals) :
    w'.ManualsEmpty := by
  intro m released
  rw [same] at released
  rw [queueOf, same]
  exact h m released

theorem ManualsEmpty.releaseManual {m : ManualId} (h : w.ManualsEmpty)
    (used : 0 < w.manuals.shares m) : (w.releaseManual t m).ManualsEmpty := by
  intro k released
  simp only [World.releaseManual] at released ⊢
  split
  · next last =>
    rw [if_pos last] at released
    rw [queueOf, manuals_releaseTasks]
    rw [manuals_releaseTasks, Arena.shares_modify, Arena.shares_dropShare] at released
    have inside : m.index < (w.manuals.dropShare m).size := by
      rw [Arena.size_dropShare]
      exact Arena.lt_size_of_shares_pos used
    show ((Arena.modify (w.manuals.dropShare m) m _).get k).queue = []
    rw [Arena.get_modify inside]
    split
    · rfl
    · next other =>
      rw [if_neg other] at released
      rw [Arena.get_dropShare]
      exact h k released
  · next more =>
    rw [if_neg more, Arena.shares_dropShare] at released
    rw [Arena.shares_dropShare, if_pos rfl] at more
    show ((w.manuals.dropShare m).get k).queue = []
    rw [Arena.get_dropShare]
    split at released
    · next same =>
      rw [same] at released
      contradiction
    · exact h k released

end World

theorem Call.manual_notMem_shares (c : Call) (m : ManualId) : Share.manual m ∉ c.shares := by
  obtain ⟨handle, ⟨_ | s⟩, _, _, _⟩ := c <;> cases handle <;>
    simp [Call.shares, Handle.shares, Snapshot.shares]

/-- Steps keep it that a manual scheduler that was released has nothing queued. -/
theorem Step.manualsEmpty {m m' : Moment} {ops : List Operation} (h : m.Consistent)
    (step : Step m ops m') (before : m.world.ManualsEmpty) : m'.world.ManualsEmpty := by
  cases step with
  | quiet agrees moved => exact before.congr agrees.manuals
  | @acquire w H s alive =>
    cases s with
    | manual k =>
      intro x released
      have unused : w.manuals.shares x = 0 := by
        have counted := World.shareCount_acquire alive (.manual x)
        change (w.acquire (.manual k)).shareCount (.manual x) = 0 at released
        change _ = w.manuals.shares x + _ at counted
        omega
      have same : (w.manuals.addShare k).get x = w.manuals.get x := Arena.get_addShare
      show ((w.manuals.addShare k).get x).queue = []
      rw [same]
      exact before x unused
    | context | callable | call | loop => exact before.congr rfl
  | @release w H t s inside =>
    cases s with
    | context c => exact before.congr (World.manuals_releaseContext ..)
    | callable c => exact before.congr (World.manuals_releaseCallable ..)
    | call c => exact before.congr (World.manuals_releaseCall ..)
    | loop l => exact before.congr (World.manuals_releaseLoop ..)
    | manual k => exact before.releaseManual h.balanced.shareCount_pos
  | @install w H t s inside alive =>
    refine before.congr (World.manuals_acquireAll _ ?_)
    rintro k member x rfl
    simp [Snapshot.shares] at member
  | dropGuard inside => exact before.congr (World.manuals_dropGuard ..)
  | enter inside alive => exact before.congr rfl
  | leave inside top => exact before.congr (World.manuals_leaveCalls ..)
  | newContext x => exact before.congr rfl
  | newCallable x => exact before.congr rfl
  | @newManual w H x empty =>
    intro k released
    simp only [Arena.shares_push] at released
    show ((w.manuals.push x).get k).queue = []
    rw [Arena.get_push]
    split at released
    · contradiction
    · next other =>
      rw [if_neg other]
      exact before k released
  | newThread name => exact before.congr rfl
  | @build w H t b made handle context =>
    simp only [World.build]
    refine before.congr ((World.manuals_log ..).trans (World.manuals_acquireAll _ ?_))
    rintro k member x rfl
    exact Call.manual_notMem_shares _ x member
  | @markDead w H t c =>
    simp only [World.markDead]
    split
    · exact before
    · exact before.congr (World.manuals_log ..)
  | createLoop settings inside => exact before.congr (World.manuals_log ..)
  | startLoopThread settings =>
    exact before.congr ((World.manuals_log ..).trans (World.manuals_log ..))
  | beginTurn => exact before.congr rfl
  | endTurn => exact before.congr rfl
  | finish => exact before.congr rfl
  | @post w H t s task there =>
    cases s with
    | loop l =>
      simp only [World.post, World.postToLoop]
      split
      · exact before.congr (World.manuals_releaseCalls ..)
      · exact before.congr (World.manuals_log ..)
    | manual k =>
      simp only [World.post, World.postToManual]
      split
      · exact before.congr (World.manuals_releaseCalls ..)
      · intro x released
        simp only [Arena.shares_modify] at released
        have other : x ≠ k := by
          rintro rfl
          have used : 0 < w.manuals.shares x := there
          omega
        show ((w.manuals.modify k _).get x).queue = []
        rw [Arena.get_modify_of_ne other]
        exact before x released
  | start taken =>
    obtain ⟨_, rest, _, rfl⟩ := World.of_dequeue? taken
    exact before.congr rfl
  | @takeAll w H k alive =>
    intro x released
    simp only [World.emptyManual, Arena.shares_modify] at released
    have other : x ≠ k := by
      rintro rfl
      omega
    show ((w.manuals.modify k _).get x).queue = []
    rw [Arena.get_modify_of_ne other]
    exact before x released
  | shutdown t l => exact before.congr (World.manuals_log ..)

theorem Course.manualsEmpty {verbosity : Verbosity} {ops : List Operation} {m : Moment}
    (course : Course (.start verbosity) ops m) : m.world.ManualsEmpty := by
  induction course with
  | refl => exact fun _ _ => rfl
  | step before last ih => exact last.manualsEmpty (before.consistent (consistent_start _)) ih

/-! ## When nobody holds anything -/

section Nothing

variable {a : Activity} {w : World} {verbosity : Verbosity} {ops : List Operation}
  {H : Multiset Holding}

/-- When all schedulers are gone, nothing is queued. -/
theorem Course.queued_eq_nil (course : Course (.start verbosity) ops ⟨w, H⟩)
    (loops : ∀ l, w.loops.shares l = 0) (manuals : ∀ m, w.manuals.shares m = 0) :
    w.queued = [] := by
  rw [World.queued, List.append_eq_nil_iff, List.flatMap_eq_nil_iff, List.flatMap_eq_nil_iff]
  refine ⟨fun l there => ?_, fun m _ => course.manualsEmpty m (manuals m)⟩
  exact (course.accepted_of_released (Arena.mem_refs.mp there) (loops l)).2.1

/-- When nobody has a guard, nothing is ambient. -/
theorem Course.ambient_eq_empty {t : ThreadId} (course : Course (.start verbosity) ops ⟨w, H⟩)
    (none : Moment.guards ⟨w, H⟩ t = 0) (few : (w.contextStack t).installs < 2 ^ 64) :
    w.ambient t = .empty := by
  have size : (History.told t ops).size = (w.contextStack t).installs := by
    rw [(course.follows (consistent_start verbosity)).contextStack t]
    refine History.size_foldl ?_ ops
    show 0 = ((Session.start verbosity).contextStack t).installs
    rw [contextStack_start]
  have fits := course.matches t (by omega)
  rw [none] at fits
  exact fits.of_no_guards.1

/-- When nothing is in anybody's hands or kept under names, and all loops are gone, everything has
been released. -/
theorem AtWork.nothing_left (work : AtWork a w) (runs : a.runs = []) (tasks : a.tasks = [])
    (own : a.own = 0) (named : w.named = 0) (loops : ∀ l, w.loops.shares l = 0)
    (few : ∀ t, (w.contextStack t).installs < 2 ^ 64) (k : Share) : w.shareCount k = 0 := by
  have held : a.held = 0 := by
    rw [Activity.held, runs, tasks, own]
    rfl
  have unnamed (k : Share) : tally k w.named = 0 := by rw [named, tally_zero]
  obtain ⟨verbosity, ops, course⟩ := work.sound.reached
  rw [held] at course
  have manuals (m : ManualId) : w.manuals.shares m = 0 := by
    have count := work.shareCount_eq (.manual m)
    have none := unnamed (.manual m)
    rw [World.tally_named] at none
    rw [count_snapshotShares_eq_zero _ (by simp), count_handleShares_eq_zero _ (by simp),
      count_map_eq_zero (by simp), count_map_eq_zero (by simp),
      count_servedShares_eq_zero _ (by simp), own, tally_zero] at count
    simp only [World.shareCount] at count
    omega
  have queued := course.queued_eq_nil loops manuals
  have stacked : w.stacked = [] := by
    rw [World.stacked, List.flatMap_eq_nil_iff]
    intro t _
    rw [work.sound.callStack, Activity.on, runs]
    rfl
  have calls (c : CallId) : w.calls.shares c = 0 := by
    have none := unnamed (.call c)
    rw [World.tally_named, List.count_map_of_injective w.names.calls.values _
      (fun _ _ => Share.call.inj)] at none
    rw [work.shares_call, queued, tasks, stacked, own]
    simp only [List.flatMap_nil, List.count_nil, Multiset.count_zero]
    omega
  have inUse : w.callsInUse = [] := by
    rw [World.callsInUse, List.map_eq_nil_iff, List.filter_eq_nil_iff]
    intro c _
    simp [World.callAlive, calls c]
  cases k with
  | callable f =>
    have none := unnamed (.callable f)
    rw [World.tally_named, count_handleShares, List.count_map_of_injective _ _
      (fun _ _ => Share.callable.inj)] at none
    show w.callables.shares f = 0
    rw [work.shares_callable, inUse, runs, own]
    simp only [List.map_nil, List.count_nil, Multiset.count_zero]
    omega
  | context x =>
    have none := unnamed (.context x)
    rw [World.tally_named, count_snapshotShares] at none
    have guards := count_snapshotShares (x := x) (w.guardsNamed.map Guard.previous)
    rw [List.flatMap_map] at guards
    have ambients : w.ambients.count (.of x) = 0 := by
      refine List.count_eq_zero.mpr fun member => ?_
      obtain ⟨t, _, eq⟩ := List.mem_map.mp member
      have unguarded : Moment.guards ⟨w, 0⟩ t = 0 := by
        rw [Moment.guards, named]
        rfl
      rw [course.ambient_eq_empty unguarded (few t)] at eq
      exact absurd eq (by simp [Snapshot.empty, Snapshot.of])
    show w.contexts.shares x = 0
    rw [work.shares_context, inUse, runs, own, ambients]
    simp only [Holding.guards, List.map_nil, List.count_nil, Multiset.filterMap_zero,
      Multiset.map_zero, Multiset.count_zero]
    omega
  | call c => exact calls c
  | loop l => exact loops l
  | manual m => exact manuals m

end Nothing

/-! ## Looking at objects -/

/-- Whether a command only looks at objects: whether they are in use, how they are described, what a
diagnostic of a call would say, and how they are written. -/
def Command.observes : Command → Bool
  | describeContext _ | sameContext .. | describeGuard _ | observe | describeCallable _
  | countShares _ | describeArgs _ | describeHandle _ | describeCall _ | callExists _
  | reportContext _ | sameCall .. | olderCall .. | describeWeak _ | describeLoop _
  | describeLoopHandle _ | describeScheduler _ => true
  | _ => false

namespace Act

/-- An action that only looks at the world. -/
def Observes {α : Type} (m : Act α) : Prop :=
  ∀ t w, ∃ a, m t w = (.ok a, w)

variable {α : Type}

theorem observes_pure (a : α) : (pure a : Act α).Observes := fun _ _ => ⟨a, rfl⟩

theorem observes_read (f : ThreadId → World → α) : (read f).Observes := fun t w => ⟨f t w, rfl⟩

theorem Observes.withNamed {d : Drawer α} {name : String} {f : α → Act Reply}
    (h : ∀ a, (f a).Observes) : (withNamed d name f).Observes := by
  intro t w
  cases found : d.find? t w name with
  | none => exact ⟨.missing, by simp [Act.withNamed, bind_apply, found]⟩
  | some a =>
    obtain ⟨reply, eq⟩ := h a t w
    exact ⟨reply, by simp [Act.withNamed, bind_apply, found, eq]⟩

theorem Observes.withScheduler {name : String} {only : Bool} {f : Scheduler → Act Reply}
    (h : ∀ s, (f s).Observes) : (withScheduler name only f).Observes := by
  intro t w
  cases found : scheduler? name only t w with
  | none => exact ⟨.missing, by simp [Act.withScheduler, bind_apply, found]⟩
  | some s =>
    obtain ⟨reply, eq⟩ := h s t w
    exact ⟨reply, by simp [Act.withScheduler, bind_apply, found, eq]⟩

/-- A command that only looks at objects leaves the world as it is. -/
theorem observes_interpret (self : Performer) {command : Command}
    (looks : command.observes = true) : (interpret self command).Observes := by
  cases command <;> try contradiction
  case observe => exact observes_read _
  case describeArgs args => exact observes_pure _
  case sameContext a b => exact .withNamed fun _ => .withNamed fun _ => observes_pure _
  case sameCall a b => exact .withNamed fun _ => .withNamed fun _ => observes_pure _
  case olderCall a b => exact .withNamed fun _ => .withNamed fun _ => observes_pure _
  case describeScheduler name => exact .withScheduler fun _ => observes_read _
  all_goals exact .withNamed fun _ => observes_read _

end Act

/-- What share counts are worth at a moment, given the runs and tasks in progress and what the
embedder has in its hands. -/
structure Exact (a : Activity) (w : World) : Prop where
  /-- A callable is held under names, as such or by strong handles, by the calls in use that were
  built on a strong handle, by its runs in progress, and by the embedder. -/
  callable : ∀ f, w.callables.shares f =
    w.names.callables.values.count f + w.names.handles.values.count (.strong f) +
    (w.callsInUse.map Call.handle).count (.strong f) + (a.runs.map Run.callable).count f +
    a.own.count (share (.callable f))
  /-- A call is held under names, by tasks that are queued or not over, by its entries on stacks of
  calls, and by the embedder. -/
  call : ∀ c, w.calls.shares c =
    w.names.calls.values.count c + (w.queued.flatMap Task.holds).count c +
    (a.tasks.flatMap Task.holds).count c + w.stacked.count c + a.own.count (share (.call c))
  /-- A context state is held under names, by the calls in use, by ambient contexts, by the guards
  that are to bring it back (under names, of runs in progress, and of the embedder), and by the
  embedder. -/
  context : ∀ x, w.contexts.shares x =
    w.names.contexts.values.count (.of x) + (w.callsInUse.map Call.context).count (.of x) +
    w.ambients.count (.of x) + (w.guardsNamed.map Guard.previous).count (.of x) +
    (a.runs.map (·.guard.previous)).count (.of x) +
    ((Holding.guards a.own).map Guard.previous).count (.of x) +
    a.own.count (share (.context x))
  /-- What is weak holds nothing, and tells whether others hold something. -/
  weakHandle : ∀ f, (Handle.weak f).shares = [] ∧
    (w.handleAlive (.weak f) = true ↔ 0 < w.callables.shares f)
  weakCall : ∀ c args, (Task.weak c args).holds = [] ∧
    (w.callAlive c = true ↔ 0 < w.calls.shares c)
  /-- The next operation, whatever it is, releases exactly the objects whose last holder it takes
  away, once. -/
  released : ∀ ops m', Step ⟨w, a.held⟩ ops m' → ∃ gone, w.Releases m'.world gone
  /-- Looking at objects leaves all counts as they are. -/
  looked : ∀ self command, command.observes = true → ∀ t,
    ∃ reply, Act.interpret self command t w = (.ok reply, w)
  /-- When nothing is in anybody's hands or kept under names, and all loops are gone, everything has
  been released. -/
  nothingLeft : a.runs = [] → a.tasks = [] → a.own = 0 → w.named = 0 →
    (∀ l, w.loops.shares l = 0) → (∀ t, (w.contextStack t).installs < 2 ^ 64) →
    ∀ k, w.shareCount k = 0

/-- At every moment of an execution, share counts are exact. -/
theorem counts_are_exact {a : Activity} {w : World} (work : AtWork a w) : Exact a w where
  callable := work.shares_callable
  call := work.shares_call
  context := work.shares_context
  weakHandle _ := ⟨rfl, decide_eq_true_iff⟩
  weakCall _ _ := ⟨rfl, decide_eq_true_iff⟩
  released _ _ step := step.releases work.sound.consistent
  looked self _ looks t := Act.observes_interpret self looks t w
  nothingLeft := work.nothing_left

namespace Stay

open Act

/-- A call is built while a context is ambient. -/
def prepare : Act Unit := script (performer 1)
  [("context", .newContext "hall" "hall"), ("install", .install "hall" "gate"),
    ("callable", .newCallable "stay" none [] 0 []),
    ("call", .newCall "call" (.callable "stay") none)]

/-- The world in which the call is about to be run. -/
def world : World :=
  (prepare Session.driver (Session.start none)).2

/-- Everything that was made is given up again. -/
def cleared : World :=
  (script (performer 1) [("call", .dropCall "call"), ("callable", .dropCallable "stay"),
    ("guard", .dropGuard "gate"), ("context", .dropContext "hall")] Session.driver world).2

theorem atWork : AtWork {} world :=
  (AtWork.start none).lawful (lawful_script (performer_lawful 1) _) (by decide)

/-- While the call is run, its callable has three holders, the call itself two, and the context,
which was ambient before and is so again, four. After everything was given up, nothing is left. -/
theorem counts_of_stay :
    (world.entered Session.driver ⟨0⟩).callables.shares ⟨0⟩ = 1 + 0 + 1 + 1 + 0 ∧
    (world.entered Session.driver ⟨0⟩).calls.shares ⟨0⟩ = 1 + 0 + 0 + 1 + 0 ∧
    (world.entered Session.driver ⟨0⟩).contexts.shares ⟨0⟩ = 1 + 1 + 1 + 0 + 1 + 0 + 0 ∧
    ∀ k, cleared.shareCount k = 0 := by
  have running := counts_are_exact (atWork.enter (t := Session.driver) (c := ⟨0⟩)
    (by decide +kernel) (by decide +kernel) (by decide +kernel))
  have counts := counts_are_exact (atWork.lawful (t := Session.driver)
    (lawful_script (performer_lawful 1) [("call", .dropCall "call"),
      ("callable", .dropCallable "stay"), ("guard", .dropGuard "gate"),
      ("context", .dropContext "hall")]) (by decide +kernel))
  refine ⟨(running.callable ⟨0⟩).trans (by decide +kernel),
    (running.call ⟨0⟩).trans (by decide +kernel), (running.context ⟨0⟩).trans (by decide +kernel),
    counts.nothingLeft rfl rfl rfl (by decide +kernel) (fun l => ?_) fun t => ?_⟩
  · exact Arena.shares_of_size_le (Nat.zero_le _)
  · have alone : cleared.threads.size = 1 := by decide +kernel
    change (cleared.contextStack t).installs < 2 ^ 64
    rcases Nat.lt_or_ge t.index cleared.threads.size with inside | outside
    · obtain ⟨index⟩ := t
      obtain rfl : index = 0 := by
        change index < cleared.threads.size at inside
        omega
      decide +kernel
    · rw [World.contextStack_of_outside outside]
      decide

end Stay

end DeferredCalls
