import DeferredCalls.Proofs.Bypassing

/-!
# Cycles

A cycle takes as many tasks from the head of the queue as were queued when it began, up to the cycle
budget of the loop. If its tasks do not drive the loop themselves, these are the tasks that were
queued first, and those that are posted meanwhile are left for later cycles.

Tasks that drive the loop take tasks as well, and a cycle only counts how many it takes by itself.
So it goes further down the queue by as many tasks as they take, and perhaps beyond what was queued
when it began.
-/

namespace DeferredCalls

open Holding Moment

/-! ## Loops that stay in use -/

/-- What became of a loop that is still in use: what it had queued and what it accepted since then
is what was started, and then what is queued. -/
structure LoopState.Relays (l : LoopId) (x : LoopState) (ops : List Operation) (y : LoopState) :
    Prop where
  used : x.used = true
  kept : discarded l ops = []
  account : x.loop.queue ++ accepted l ops = started l ops ++ y.loop.queue

section Relays

variable {l : LoopId} {x y z : LoopState} {ops more : List Operation}

protected theorem LoopState.Relays.trans (first : x.Relays l ops y) (second : y.Relays l more z) :
    x.Relays l (ops ++ more) z where
  used := first.used
  kept := by
    rw [discarded_append, first.kept, second.kept]
    rfl
  account := by
    rw [accepted_append, started_append, ← List.append_assoc, first.account, List.append_assoc,
      second.account, List.append_assoc]

theorem LoopChange.relays (change : LoopChange l (some x) ops (some y)) (used : y.used = true) :
    x.Relays l ops y := by
  cases change with
  | other elsewhere =>
    obtain ⟨accepts, starts, discards, _⟩ := silent_of_elsewhere elsewhere
    exact ⟨used, discards, by rw [accepts, starts, List.append_nil, List.nil_append]⟩
  | accept opened => exact ⟨used, rfl, by simp⟩
  | reject closed => exact ⟨used, rfl, by simp⟩
  | start queued => exact ⟨used, rfl, by simp [queued]⟩
  | shutdown => exact ⟨used, rfl, by simp⟩
  | discard => contradiction

variable {m m' : Moment}

theorem Course.relays (h : m.Consistent) (course : Course m ops m')
    (there : m.world.loopState l = some x) :
    ∃ y, m'.world.loopState l = some y ∧ (y.used = true → x.Relays l ops y) := by
  induction course with
  | refl => exact ⟨x, there, fun used => ⟨used, rfl, by simp [accepted, started]⟩⟩
  | step before last ih =>
    obtain ⟨y, middle, first⟩ := ih
    have change := last.loopChange (before.consistent h) l
    rw [middle] at change
    obtain ⟨z, final, _⟩ := change.becomes
    rw [final] at change
    refine ⟨z, final, fun used => ?_⟩
    have second := change.relays used
    exact (first second.used).trans second

/-- As long as a loop is in use, its tasks are started in the order in which they were queued. -/
theorem Course.queue_eq (h : m.Consistent) (course : Course m ops m')
    (known : l.index < m.world.loops.size) (used : 0 < m'.world.loops.shares l) :
    discarded l ops = [] ∧
      (m.world.loop l).queue ++ accepted l ops = started l ops ++ (m'.world.loop l).queue := by
  obtain ⟨y, final, relays⟩ := course.relays h (World.loopState_of_lt known)
  obtain ⟨_, loop, use⟩ := World.of_loopState final
  have relayed := relays (use.trans (decide_eq_true used))
  rw [loop]
  exact ⟨relayed.kept, relayed.account⟩

end Relays

/-! ## The tasks of a cycle -/

namespace Act

/-- The tasks that a cycle takes from the queue by itself, in order. -/
def taken (runTask : RunTask) (l : LoopId) : Nat → ThreadId → World → List Task
  | 0, _, _ => []
  | limit + 1, t, w =>
    match w.dequeue? l with
    | none => []
    | some (task, w') => task :: taken runTask l limit t (w'.ran runTask l task t)

/-- Takes the task at the head of the queue, and then a task has been run. -/
def serve (runTask : RunTask) (l : LoopId) (task : Task) : Act Unit := do
  let _ ← dequeue l
  change fun t w => w.ran runTask l task t

end Act

/-- The tasks of a loop that are started by those that a cycle takes, in cycles of their own. -/
def nested (l : LoopId) (takings : List Taking) : List Task :=
  takings.flatMap fun taking => started l taking.told

namespace Cycle

open Act

variable {M : Manner} {runTask : RunTask} {l : LoopId} {t : ThreadId} {H : Multiset Holding}
  {limit : Nat} {w w' : World} {takings : List Taking}

theorem taken_eq (cycle : Cycle M runTask l t H limit w takings w') :
    taken runTask l limit t w = takings.map Taking.task := by
  induction cycle with
  | full w => rfl
  | empty none => rw [taken, none]; rfl
  | take head _ _ ih => rw [taken, head, List.map_cons, ← ih]

/-- Taking a task and running it, for each task that is taken, is all that a cycle does. -/
theorem each_serve (cycle : Cycle M runTask l t H limit w takings w') :
    each (serve runTask l) (takings.map Taking.task) t w = (.ok (), w') := by
  induction cycle with
  | full w => rfl
  | empty _ => rfl
  | @take limit w w₁ w' task told takings head _ _ ih =>
    have served : serve runTask l task t w = (.ok (), w₁.ran runTask l task t) := by
      rw [serve, bind_apply, dequeue, update_apply, head]
      rfl
    rw [List.map_cons, each, bind_of_ok served]
    exact ih

/-- A loop of which a cycle leaves something in use was there when it began. -/
theorem known (cycle : Cycle M runTask l t H limit w takings w') (used : 0 < w'.loops.shares l) :
    l.index < w.loops.size := by
  cases cycle with
  | full => exact Arena.lt_size_of_shares_pos used
  | empty => exact Arena.lt_size_of_shares_pos used
  | take head => exact (World.of_dequeue? head).1

end Cycle

section Told

variable {l : LoopId} {takings : List Taking}

/-- What a cycle takes by itself is among what is started, in the same order. -/
theorem sublist_started : (takings.map Taking.task).Sublist (started l (toldOf l takings)) := by
  induction takings with
  | nil => exact .slnil
  | cons taking rest ih =>
    rw [List.map_cons, started_toldOf_cons]
    exact (ih.trans (List.sublist_append_right ..)).cons_cons _

theorem length_started :
    (started l (toldOf l takings)).length = takings.length + (nested l takings).length := by
  induction takings with
  | nil => rfl
  | cons taking rest ih =>
    rw [started_toldOf_cons, nested, List.flatMap_cons, ← nested]
    simp only [List.length_cons, List.length_append, ih]
    omega

theorem started_of_nested_eq_nil (none : nested l takings = []) :
    started l (toldOf l takings) = takings.map Taking.task := by
  have count : (started l (toldOf l takings)).length = takings.length + (nested l takings).length :=
    length_started
  rw [none, List.length_nil, Nat.add_zero] at count
  refine (sublist_started.eq_of_length ?_).symm
  rw [count, List.length_map]

/-- The task that is taken after some others is started after these and what they start. -/
theorem getElem?_started (before after : List Taking) (taking : Taking) :
    (started l (toldOf l (before ++ taking :: after)))[before.length +
      (nested l before).length]? = some taking.task := by
  rw [toldOf_append, started_append, ← length_started, List.getElem?_append_right (Nat.le_refl _),
    Nat.sub_self, started_toldOf_cons]
  rfl

end Told

/-! ## Cycles over a loop that its tasks do not drive -/

namespace Act

/-- The tasks that a cycle takes bypass the loop, each one when its turn comes. -/
inductive Undriven (runTask : RunTask) (l : LoopId) (t : ThreadId) (H : Multiset Holding) :
    Nat → World → Prop
  | full (w : World) : Undriven runTask l t H 0 w
  | empty {limit : Nat} {w : World} :
    w.dequeue? l = none → Undriven runTask l t H (limit + 1) w
  | take {limit : Nat} {w w₁ : World} {task : Task} :
    w.dequeue? l = some (task, w₁) →
    Moment.Bypasses l ⟨w₁, ofShares task.shares + H⟩ ⟨(runTask task t w₁).2, H⟩ →
    Undriven runTask l t H limit (w₁.ran runTask l task t) →
    Undriven runTask l t H (limit + 1) w

/-- Whether the tasks that a cycle takes make nothing but requests, each one when its turn comes. -/
def requesting (depth : Nat) (l : LoopId) : Nat → ThreadId → World → Bool
  | 0, _, _ => true
  | limit + 1, t, w =>
    match w.dequeue? l with
    | none => true
    | some (task, w₁) =>
      w₁.requestsOnly t task &&
        requesting depth l limit t (w₁.ran (runTask (performer depth)) l task t)

variable {runTask : RunTask} {l : LoopId} {t : ThreadId} {H : Multiset Holding} {w : World}

/-- Requests are not the only way of not driving a loop, but one that can be checked. -/
theorem undriven_of_requesting (depth limit : Nat) (ready : Ready ⟨w, H⟩ t)
    (check : requesting depth l limit t w = true) :
    Undriven (Act.runTask (performer depth)) l t H limit w := by
  induction limit generalizing w with
  | zero => exact .full w
  | succ limit ih =>
    match head : w.dequeue? l with
    | none => exact .empty head
    | some (task, w₁) =>
      rw [requesting, head] at check
      obtain ⟨requests, others⟩ := Bool.and_eq_true_iff.mp check
      have started := ready.after (.single (.start head))
      have ran := reaches_runTask_of_requests (M := .resting) depth started requests
      have after := started.reaches ran
      have logged := after.consistent.course_ran (l := l)
      exact .take head (ran.bypasses l) (ih (after.after logged) others)

end Act

open Act in
theorem Cycle.exists_of_undriven {runTask : RunTask} {l : LoopId} {t : ThreadId}
    {H : Multiset Holding} {limit : Nat} {w : World} (ready : Ready ⟨w, H⟩ t)
    (undriven : Undriven runTask l t H limit w) :
    ∃ takings w', Cycle .course runTask l t H limit w takings w' ∧ nested l takings = [] := by
  induction undriven with
  | full w => exact ⟨[], w, .full w, rfl⟩
  | @empty _ w none => exact ⟨[], w, .empty none, rfl⟩
  | take head bypasses _ ih =>
    obtain ⟨told, course, none'⟩ := bypasses
    have after := (ready.after (.single (.start head))).after course
    obtain ⟨takings, w', rest, none⟩ := ih (after.after (after.consistent.course_ran (l := l)))
    refine ⟨_, w', .take head course rest, ?_⟩
    rw [nested, List.flatMap_cons, none', ← nested, none]
    rfl

namespace Cycle

open Act

variable {M : Manner} {runTask : RunTask} {l : LoopId} {t : ThreadId} {H : Multiset Holding}
  {w w' : World} {takings : List Taking}

/-- What its tasks do is all that is told of a cycle, and they leave the queues as they are then. -/
theorem course_runPending (known : M.runs runTask) (ready : Ready ⟨w, H⟩ t)
    (cycle : Cycle M runTask l t H (w.cycleLimit l) w takings w') :
    Course ⟨w, H⟩ (toldOf l takings) ⟨(runPending runTask l t w).2, H⟩ ∧
      (runPending runTask l t w).2.loops = w'.loops := by
  have course := M.sound (cycle.admits known ready)
  have logged := (ready.after course).consistent.course_cycled (l := l) (t := t) takings.length
  have whole := course.trans logged
  rw [List.append_nil] at whole
  rw [cycle.runPending_eq]
  exact ⟨whole, World.loops_cycled⟩

/-- What was queued, and what was accepted while the cycle ran, is what was started, by the cycle
and by those inside its tasks, and then what is left. -/
theorem queue_eq (known : M.runs runTask) (ready : Ready ⟨w, H⟩ t)
    (cycle : Cycle M runTask l t H (w.cycleLimit l) w takings w') (used : 0 < w'.loops.shares l) :
    discarded l (toldOf l takings) = [] ∧
      (w.loop l).queue ++ accepted l (toldOf l takings) =
        started l (toldOf l takings) ++ (w'.loop l).queue :=
  (M.sound (cycle.admits known ready)).queue_eq ready.consistent (cycle.known used) used

/-- A cycle covers no more than what is queued. -/
theorem cycleLimit_le_length : w.cycleLimit l ≤ (w.loop l).queue.length := by
  rw [World.cycleLimit, World.pending]
  split
  · exact Nat.le_refl _
  · exact Nat.min_le_left ..

/-- A cycle over a loop that its tasks do not drive takes as many tasks as it may. -/
theorem length_eq (known : M.runs runTask) (ready : Ready ⟨w, H⟩ t)
    (cycle : Cycle M runTask l t H (w.cycleLimit l) w takings w') (none : nested l takings = [])
    (used : 0 < w'.loops.shares l) : takings.length = w.cycleLimit l := by
  by_contra other
  have early : takings.length < w.cycleLimit l := Nat.lt_of_le_of_ne cycle.length_le other
  have count := congrArg List.length (cycle.queue_eq known ready used).2
  rw [cycle.queue_eq_nil early, started_of_nested_eq_nil none] at count
  simp only [List.length_append, List.length_map, List.length_nil] at count
  have limit := cycleLimit_le_length (w := w) (l := l)
  omega

end Cycle

open Act in
/-- A cycle over a loop that its tasks do not drive runs the tasks that were queued first, as many
as the budget admits, in order, each once and whether they panic or not. It leaves the other tasks
that were queued, and behind them those that were accepted while it ran. The loop stays in use
meanwhile, as it does if who runs the cycle has a share of it. -/
theorem cycle_runs_queued_tasks {runTask : RunTask} {l : LoopId} {t : ThreadId} {w : World}
    {H : Multiset Holding} (ready : Ready ⟨w, H⟩ t)
    (undriven : Undriven runTask l t H (w.cycleLimit l) w)
    (used : 0 < (runPending runTask l t w).2.loops.shares l) :
    let queue := (w.loop l).queue
    let budget := (w.loop l).cycleBudget
    let n := if budget = 0 then queue.length else min queue.length budget
    let final := (runPending runTask l t w).2
    (runPending runTask l t w).1 = .ok n ∧
    taken runTask l n t w = queue.take n ∧
    (∃ w', each (serve runTask l) (queue.take n) t w = (.ok (), w') ∧
      final = if 0 < n then
        w'.log t .trace "event loop cycle" [w'.loopField l, ("ran", .number n)] else w') ∧
    ∃ told, Course ⟨w, H⟩ told ⟨final, H⟩ ∧
      started l told = queue.take n ∧ discarded l told = [] ∧
      (final.loop l).queue = queue.drop n ++ accepted l told := by
  obtain ⟨takings, w', cycle, none⟩ := Cycle.exists_of_undriven ready undriven
  obtain ⟨course, loops⟩ := cycle.course_runPending trivial ready
  rw [loops] at used
  have count : takings.length = w.cycleLimit l := cycle.length_eq trivial ready none used
  obtain ⟨kept, account⟩ := cycle.queue_eq trivial ready used
  have starts := started_of_nested_eq_nil none
  rw [started_of_nested_eq_nil none] at account
  have short : w.cycleLimit l ≤ (w.loop l).queue.length := Cycle.cycleLimit_le_length
  have first : takings.map Taking.task = (w.loop l).queue.take (w.cycleLimit l) := by
    have whole := congrArg (List.take (w.cycleLimit l)) account
    rw [List.take_append_of_le_length short, List.take_left' (by rw [List.length_map, count])]
      at whole
    exact whole.symm
  have rest : (w'.loop l).queue =
      (w.loop l).queue.drop (w.cycleLimit l) ++ accepted l (toldOf l takings) := by
    have whole := congrArg (List.drop (w.cycleLimit l)) account
    rw [List.drop_append_of_le_length short, List.drop_left' (by rw [List.length_map, count])]
      at whole
    exact whole.symm
  have eq := cycle.runPending_eq
  rw [count] at eq
  refine ⟨congrArg Prod.fst eq, cycle.taken_eq.trans first, ⟨w', ?_, congrArg Prod.snd eq⟩, ?_⟩
  · have served := cycle.each_serve
    rw [first] at served
    exact served
  · refine ⟨toldOf l takings, course, ?_, kept, ?_⟩
    · rw [started_of_nested_eq_nil none]
      exact first
    · rw [World.loop, loops]
      exact rest

namespace Shift

open Act

/-- Three tasks wait for a loop with a budget of two. The first one runs a call whose callable
schedules the call once more; the second one posts a task, closes the loop and panics. -/
def prepare : Act Unit := script (performer 3)
  [("loop", .newLoop "day" { cycleBudget := 2 }), ("handle", .newLoopHandle "door" "day"),
    ("callable", .newCallable "errand" none [("again", .schedule "call" "day" false none)] 1 []),
    ("call", .newCall "call" (.callable "errand") none),
    ("weak", .schedule "call" "day" true none),
    ("second", .post "day" false (some "second")
      [("late", .post "day" false (some "late") [] .normal []), ("close", .shutdown "door"),
        ("never", .post "day" false (some "never") [] .normal [])] (.panic ⟨none⟩) []),
    ("third", .post "day" false (some "third") [] .normal [])]

/-- The world in which the tasks wait. -/
def world : World :=
  (prepare Session.driver (Session.start none)).2

theorem ready : Ready ⟨world, 0⟩ Session.driver :=
  (Session.ready_start none).reaches
    (lawful_script (performer_lawful 3) _ (Session.ready_start none))

/-- The cycle runs the first two tasks. The third one is left, and behind it are the call that was
scheduled and the task that was posted meanwhile; the post after the loop was closed was
rejected. -/
theorem queue_after_shift :
    (runPending (runTask (performer 3)) ⟨0⟩ Session.driver world).1 = .ok 2 ∧
    (∃ told, Course ⟨world, 0⟩ told
        ⟨(runPending (runTask (performer 3)) ⟨0⟩ Session.driver world).2, 0⟩ ∧
      started ⟨0⟩ told = (world.loop ⟨0⟩).queue.take 2 ∧ (accepted ⟨0⟩ told).length = 2) ∧
    ((runPending (runTask (performer 3)) ⟨0⟩ Session.driver world).2.loop ⟨0⟩).queue.map Task.tag =
      [some "third", none, some "late"] := by
  have undriven : Undriven (runTask (performer 3)) ⟨0⟩ Session.driver 0
      (world.cycleLimit ⟨0⟩) world :=
    undriven_of_requesting 3 (world.cycleLimit ⟨0⟩) ready (by decide +kernel)
  obtain ⟨count, _, _, told, course, starts, _, left⟩ :=
    cycle_runs_queued_tasks ready undriven (by decide +kernel)
  have limit : (if (world.loop ⟨0⟩).cycleBudget = 0 then (world.loop ⟨0⟩).queue.length
      else min (world.loop ⟨0⟩).queue.length (world.loop ⟨0⟩).cycleBudget) = 2 := by decide +kernel
  have final : ((runPending (runTask (performer 3)) ⟨0⟩ Session.driver world).2.loop ⟨0⟩).queue.map
      Task.tag = [some "third", none, some "late"] := by decide +kernel
  rw [limit] at count starts left
  refine ⟨count, ⟨told, course, starts, ?_⟩, final⟩
  have length := congrArg List.length left
  have queued : ((world.loop ⟨0⟩).queue.drop 2).length = 1 := by decide +kernel
  rw [List.length_append, queued, ← List.length_map (f := Task.tag), final] at length
  exact (Nat.add_left_cancel (n := 1) length).symm

end Shift

/-! ## Cycles inside of cycles -/

open Act in
/-- Whatever its tasks do, a cycle takes tasks in the order of the queue. Each one comes next after
those that were started since the cycle began, by itself and by the cycles inside of its tasks. It
was queued when the cycle began if these are fewer than there were queued then, and otherwise it was
accepted while the cycle ran. So a cycle keeps to what was queued if the cycles inside leave it as
much of that as it may take. -/
theorem cycle_takes_next_tasks {M : Manner} {runTask : RunTask} (lawful : runTask.Lawful M)
    {l : LoopId} {t : ThreadId} {w : World} {H : Multiset Holding} (ready : Ready ⟨w, H⟩ t)
    (used : 0 < (runPending runTask l t w).2.loops.shares l) :
    let queue := (w.loop l).queue
    ∃ takings w', Cycle M runTask l t H (w.cycleLimit l) w takings w' ∧
      (runPending runTask l t w).1 = .ok takings.length ∧
      taken runTask l (w.cycleLimit l) t w = takings.map Taking.task ∧
      takings.length ≤ w.cycleLimit l ∧
      (∀ before taking after, takings = before ++ taking :: after →
        let number := before.length + (nested l before).length
        if number < queue.length then queue[number]? = some taking.task
        else (accepted l (toldOf l takings))[number - queue.length]? = some taking.task) ∧
      ((nested l takings).length + w.cycleLimit l ≤ queue.length →
        (takings.map Taking.task).Sublist queue) := by
  obtain ⟨takings, w', cycle⟩ := Cycle.exists_of_lawful lawful ready (w.cycleLimit l)
  obtain ⟨_, loops⟩ := cycle.course_runPending lawful.known ready
  rw [loops] at used
  obtain ⟨_, account⟩ := cycle.queue_eq lawful.known ready used
  refine ⟨takings, w', cycle, congrArg Prod.fst cycle.runPending_eq, cycle.taken_eq,
    cycle.length_le, ?_, ?_⟩
  · rintro before taking after rfl
    have here := getElem?_started (l := l) before after taking
    have within := (List.getElem?_eq_some_iff.mp here).1
    have next := congrArg (·[before.length + (nested l before).length]?) account
    simp only [List.getElem?_append_left within, here] at next
    intro number
    split
    · next early => rw [← next, List.getElem?_append_left early]
    · next late => rw [← next, List.getElem?_append_right (Nat.le_of_not_lt late)]
  · intro room
    have count : (started l (toldOf l takings)).length =
        takings.length + (nested l takings).length := length_started
    have short : (started l (toldOf l takings)).length ≤ (w.loop l).queue.length := by
      have limit := cycle.length_le
      omega
    have first : started l (toldOf l takings) =
        (w.loop l).queue.take (started l (toldOf l takings)).length := by
      have whole := congrArg (List.take (started l (toldOf l takings)).length) account
      rw [List.take_append_of_le_length short, List.take_left] at whole
      exact whole.symm
    have taken : (takings.map Taking.task).Sublist (started l (toldOf l takings)) :=
      sublist_started
    rw [first] at taken
    exact taken.trans (List.take_sublist ..)

namespace Shift

open Act

/-- Two tasks wait for a loop. The first one drives the loop, and then posts a third task. -/
def arrange : Act Unit := script (performer 3)
  [("loop", .newLoop "day" {}),
    ("first", .post "day" false (some "first")
      [("drive", .runPending "day"), ("late", .post "day" false (some "late") [] .normal [])]
      .normal []),
    ("second", .post "day" false (some "second") [] .normal [])]

/-- The world in which the two tasks wait. -/
def scene : World :=
  (arrange Session.driver (Session.start none)).2

theorem tags_of_cycle :
    (taken (runTask (performer 3)) ⟨0⟩ (scene.cycleLimit ⟨0⟩) Session.driver scene).map Task.tag =
      [some "first", some "late"] ∧
    (scene.loop ⟨0⟩).queue.map Task.tag = [some "first", some "second"] := by
  decide +kernel

/-- The cycle takes a task that was not queued when it began: the cycle inside of the first task
took the second one, and the task that was posted then is taken in its place. -/
theorem cycle_beyond_queue :
    ¬ ∀ task ∈ taken (runTask (performer 3)) ⟨0⟩ (scene.cycleLimit ⟨0⟩) Session.driver scene,
      task ∈ (scene.loop ⟨0⟩).queue := by
  intro queued
  obtain ⟨takes, waits⟩ := tags_of_cycle
  have member := List.map_subset Task.tag queued
  rw [takes, waits] at member
  exact absurd (member (List.mem_cons_of_mem _ (List.mem_singleton_self (some "late"))))
    (by decide)

/-- One task was taken by the cycle inside, so the second one that the cycle takes is the third of
all, and the first that was accepted while the cycle ran. -/
theorem tasks_beyond_queue : ∃ takings w',
    Cycle (.diligent Session.runs) (runTask (performer 3)) ⟨0⟩ Session.driver 0
      (scene.cycleLimit ⟨0⟩) scene takings w' ∧
    takings.map (fun taking => taking.task.tag) = [some "first", some "late"] ∧
    (∀ before taking after, takings = before ++ taking :: after →
      let number := before.length + (nested ⟨0⟩ before).length
      if number < (scene.loop ⟨0⟩).queue.length then
        (scene.loop ⟨0⟩).queue[number]? = some taking.task
      else (accepted ⟨0⟩ (toldOf ⟨0⟩ takings))[number - (scene.loop ⟨0⟩).queue.length]? =
        some taking.task) := by
  have ready : Ready ⟨scene, 0⟩ Session.driver := (Session.ready_start none).reaches
    (lawful_script (performer_lawful 3) _ (Session.ready_start none))
  obtain ⟨takings, w', cycle, _, takes, _, next, _⟩ :=
    cycle_takes_next_tasks (l := ⟨0⟩) (runTask_lawful (Session.performer_diligent 3)) ready
      (by decide +kernel)
  refine ⟨takings, w', cycle, ?_, next⟩
  have tags := tags_of_cycle.1
  rw [takes, List.map_map] at tags
  exact tags

end Shift

end DeferredCalls
