import DeferredCalls.Proofs.Halting
import DeferredCalls.Proofs.Heedless

/-!
# Driving a loop until it is idle

The budget of a loop cuts the stream of its tasks into cycles. Apart from the cycles, driving a loop
until it is idle is working off its tasks one after another, until none is left. So the budget makes
no difference, if no task heeds it: not to whether this comes to an end, and not to which tasks are
run, in which order, how each of them ends and what is left.
-/

namespace DeferredCalls

/-- Gives a loop another cycle budget. -/
def World.withBudget (w : World) (l : LoopId) (budget : Nat) : World :=
  { w with loops := w.loops.modify l fun loop => { loop with cycleBudget := budget } }

/-- Another budget is another pace. -/
theorem World.unpaced_withBudget (w : World) (l : LoopId) (budget : Nat) :
    (w.withBudget l budget).unpaced l = w.unpaced l := by
  simp only [unpaced, withBudget, Arena.modify_modify]

/-- A task that was run, and how it ended. -/
structure Done where
  task : Task
  ended : Except Panic Unit

namespace Act

/-! ## Cycle by cycle -/

/-- What a cycle runs, in order. -/
def doneInCycle (runTask : RunTask) (l : LoopId) : Nat → ThreadId → World → List Done
  | 0, _, _ => []
  | limit + 1, t, w =>
    match w.dequeue? l with
    | none => []
    | some (task, w') =>
      ⟨task, (runTask task t w').1⟩ ::
        doneInCycle runTask l limit t (w'.ran runTask l task t)

/-- What the cycles run that drive a loop until it is idle, in order. -/
def doneUntilIdle (runTask : RunTask) (l : LoopId) : Nat → ThreadId → World → List Done
  | 0, _, _ => []
  | fuel + 1, t, w =>
    match doneInCycle runTask l (w.cycleLimit l) t w with
    | [] => []
    | first :: others =>
      first :: others ++ doneUntilIdle runTask l fuel t (runPending runTask l t w).2

/-! ## Task by task -/

/-- Working off tasks one after another, whatever the budget is. -/
inductive WorksOff (runTask : RunTask) (l : LoopId) (t : ThreadId) :
    World → List Done → World → Prop
  | refl (w : World) : WorksOff runTask l t w [] w
  | next {w w₁ v : World} {task : Task} {rest : List Done} :
    w.dequeue? l = some (task, w₁) →
    WorksOff runTask l t (w₁.ran runTask l task t) rest v →
    WorksOff runTask l t w (⟨task, (runTask task t w₁).1⟩ :: rest) v

/-- A task that does not heed the pace of a loop, at some moment: whatever the budget is, and
whichever cycles there were, it ends in the same way and leaves the same world but for the pace. -/
def IgnoresPace (runTask : RunTask) (l : LoopId) (task : Task) (t : ThreadId) (w : World) : Prop :=
  ∀ w', w'.unpaced l = w.unpaced l →
    (runTask task t w').1 = (runTask task t w).1 ∧
      (runTask task t w').2.unpaced l = (runTask task t w).2.unpaced l

/-- The tasks of a loop do not heed its pace, each one when its turn comes. -/
def TasksIgnorePace (runTask : RunTask) (l : LoopId) (t : ThreadId) (w : World) : Prop :=
  ∀ ⦃done v task v₁⦄, WorksOff runTask l t w done v → v.dequeue? l = some (task, v₁) →
    IgnoresPace runTask l task t v₁

variable {runTask : RunTask} {l : LoopId} {t : ThreadId} {w w' w₁ u v v' : World} {task : Task}
  {done first rest : List Done}

/-! ## The same at another pace -/

theorem dequeue?_of_unpaced_eq (same : w'.unpaced l = w.unpaced l)
    (taken : w.dequeue? l = some (task, w₁)) :
    ∃ w₁', w'.dequeue? l = some (task, w₁') ∧ w₁'.unpaced l = w₁.unpaced l := by
  have seen : (w'.unpaced l).dequeue? l = some (task, w₁.unpaced l) := by
    rw [same, World.dequeue?_unpaced, taken]
    rfl
  rw [World.dequeue?_unpaced, Option.map_eq_some_iff] at seen
  obtain ⟨⟨task', w₁'⟩, taken', eq⟩ := seen
  obtain ⟨rfl, same'⟩ := Prod.mk.inj eq
  exact ⟨w₁', taken', same'⟩

theorem queue_of_unpaced_eq (same : w'.unpaced l = w.unpaced l) :
    (w'.loop l).queue = (w.loop l).queue := by
  rw [← World.queue_unpaced (l := l), same, World.queue_unpaced]

theorem unpaced_ran_of_ignores (ignores : IgnoresPace runTask l task t w)
    (same : w'.unpaced l = w.unpaced l) :
    (w'.ran runTask l task t).unpaced l = (w.ran runTask l task t).unpaced l := by
  obtain ⟨ended, left⟩ := ignores w' same
  simp only [World.ran]
  generalize runTask task t w' = result', runTask task t w = result at ended left
  obtain ⟨ended', v'⟩ := result'
  obtain ⟨_, v⟩ := result
  obtain rfl : ended' = _ := ended
  cases ended' with
  | ok _ => exact left
  | error p =>
    simp only at left ⊢
    rw [← World.log_unpaced rfl, ← World.log_unpaced rfl, ← World.loopField_unpaced (l := l), left,
      World.loopField_unpaced]

namespace WorksOff

protected theorem trans (before : WorksOff runTask l t w first u)
    (after : WorksOff runTask l t u rest v) : WorksOff runTask l t w (first ++ rest) v := by
  induction before with
  | refl w => exact after
  | next taken _ ih => exact .next taken (ih after)

/-- What comes first does not depend on how much comes afterwards. -/
theorem split (part : WorksOff runTask l t w first u) (whole : WorksOff runTask l t w done v)
    (short : first.length ≤ done.length) :
    ∃ rest, done = first ++ rest ∧ WorksOff runTask l t u rest v := by
  induction part generalizing done with
  | refl w => exact ⟨done, rfl, whole⟩
  | next taken _ ih =>
    cases whole with
    | refl => contradiction
    | next taken' after =>
      obtain ⟨rfl, rfl⟩ := Prod.mk.inj (Option.some.inj (taken.symm.trans taken'))
      obtain ⟨rest, rfl, others⟩ := ih after (Nat.le_of_succ_le_succ short)
      exact ⟨rest, rfl, others⟩

/-- Once no task is left, there is nothing more to work off. -/
theorem eq_of_idle (whole : WorksOff runTask l t w done v) (idle : (w.loop l).queue = []) :
    done = [] ∧ v = w := by
  cases whole with
  | refl => exact ⟨rfl, rfl⟩
  | next taken =>
    rw [World.dequeue?, idle] at taken
    contradiction

/-- There is only one way of working off all tasks. -/
theorem unique (whole : WorksOff runTask l t w done v) (idle : (v.loop l).queue = [])
    (other : WorksOff runTask l t w first v') (idle' : (v'.loop l).queue = []) :
    first = done ∧ v' = v := by
  obtain short | short := Nat.le_total first.length done.length
  · obtain ⟨rest, rfl, after⟩ := other.split whole short
    obtain ⟨rfl, rfl⟩ := after.eq_of_idle idle'
    exact ⟨(List.append_nil _).symm, rfl⟩
  · obtain ⟨rest, rfl, after⟩ := whole.split other short
    obtain ⟨rfl, rfl⟩ := after.eq_of_idle idle
    exact ⟨List.append_nil _, rfl⟩

/-- Working off tasks that do not heed the pace is the same at another pace. -/
theorem paced (ignore : TasksIgnorePace runTask l t w) (same : w'.unpaced l = w.unpaced l)
    (works : WorksOff runTask l t w' done v') :
    ∃ v, WorksOff runTask l t w done v ∧ v'.unpaced l = v.unpaced l := by
  induction works generalizing w with
  | refl w' => exact ⟨w, .refl w, same⟩
  | @next w' w₁' v' task rest taken' _ ih =>
    obtain ⟨w₁, taken, same₁⟩ := dequeue?_of_unpaced_eq same.symm taken'
    have ignores := ignore (.refl w) taken
    have after : TasksIgnorePace runTask l t (w₁.ran runTask l task t) :=
      fun _ _ _ _ more head => ignore (.next taken more) head
    obtain ⟨v, works, left⟩ := ih after (unpaced_ran_of_ignores ignores same₁.symm)
    refine ⟨v, ?_, left⟩
    rw [(ignores w₁' same₁.symm).1]
    exact .next taken works

end WorksOff

namespace TasksIgnorePace

/-- Tasks that do not heed the pace go on like that. -/
theorem after (ignore : TasksIgnorePace runTask l t w) (works : WorksOff runTask l t w done v) :
    TasksIgnorePace runTask l t v :=
  fun _ _ _ _ more head => ignore (works.trans more) head

/-- Tasks that do not heed the pace do not do so at another pace either. -/
theorem paced (ignore : TasksIgnorePace runTask l t w) (same : w'.unpaced l = w.unpaced l) :
    TasksIgnorePace runTask l t w' := by
  intro done v' task v₁' works taken' x eq
  obtain ⟨v, works, left⟩ := works.paced ignore same
  obtain ⟨v₁, taken, left₁⟩ := dequeue?_of_unpaced_eq left.symm taken'
  obtain ⟨ended, result⟩ := ignore works taken x (eq.trans left₁.symm)
  obtain ⟨ended', result'⟩ := ignore works taken v₁' left₁.symm
  exact ⟨ended.trans ended'.symm, result.trans result'.symm⟩

end TasksIgnorePace

/-! ## What cycles come to -/

theorem worksOff_runTasks (limit : Nat) :
    ∃ v, runTasks runTask l limit t w =
        (.ok (doneInCycle runTask l limit t w).length, v) ∧
      WorksOff runTask l t w (doneInCycle runTask l limit t w) v ∧
      ((doneInCycle runTask l limit t w).length < limit → (v.loop l).queue = []) := by
  induction limit generalizing w with
  | zero => exact ⟨w, rfl, .refl w, fun less => absurd less (Nat.lt_irrefl 0)⟩
  | succ limit ih =>
    rw [runTasks_succ, doneInCycle]
    match head : w.dequeue? l with
    | none =>
      exact ⟨w, rfl, .refl w, fun _ => World.queue_eq_nil_of_dequeue? head⟩
    | some (task, w₁) =>
      obtain ⟨v, ran, works, early⟩ := ih (w := (w₁.ran runTask l task t))
      refine ⟨v, ?_, .next head works, fun less => early (Nat.lt_of_succ_lt_succ less)⟩
      simp only [ran]
      rfl

/-- A cycle works off some tasks, if there are any, and says how many. -/
theorem worksOff_runPending (runTask : RunTask) (l : LoopId) (t : ThreadId) (w : World) :
    ∃ v, WorksOff runTask l t w (doneInCycle runTask l (w.cycleLimit l) t w) v ∧
      (runPending runTask l t w).1 = .ok (doneInCycle runTask l (w.cycleLimit l) t w).length ∧
      (runPending runTask l t w).2.unpaced l = v.unpaced l ∧
      (doneInCycle runTask l (w.cycleLimit l) t w = [] → (w.loop l).queue = []) := by
  obtain ⟨v, ran, works, early⟩ : ∃ v, runTasks runTask l (w.cycleLimit l) t w = _ ∧ _ :=
    worksOff_runTasks (w.cycleLimit l)
  have pending : runPending runTask l t w =
      (.ok (doneInCycle runTask l (w.cycleLimit l) t w).length,
        if 0 < (doneInCycle runTask l (w.cycleLimit l) t w).length then
          v.log t .trace "event loop cycle" [v.loopField l,
            ("ran", .number (doneInCycle runTask l (w.cycleLimit l) t w).length)]
        else v) := by
    rw [runPending, bind_apply, read_apply]
    simp only [bind_apply, ran]
    split
    · rfl
    · rfl
  refine ⟨v, works, congrArg Prod.fst pending, ?_, fun none => ?_⟩
  · rw [pending, World.ite_unpaced, World.unpaced_log_cycle, ite_self]
  · by_contra queued
    have may := World.cycleLimit_pos queued
    rw [none] at works early
    cases works
    exact queued (early may)

theorem runUntilIdle_succ (fuel : Nat) :
    runUntilIdle runTask l (fuel + 1) t w =
      let ran := (doneInCycle runTask l (w.cycleLimit l) t w).length
      let w₁ := (runPending runTask l t w).2
      if ran = 0 then (.ok (some 0), w₁)
      else
        ((runUntilIdle runTask l fuel t w₁).1.map (Option.map (ran + ·)),
          (runUntilIdle runTask l fuel t w₁).2) := by
  obtain ⟨_, _, returned, _⟩ := worksOff_runPending runTask l t w
  have eq : runPending runTask l t w = (.ok _, (runPending runTask l t w).2) :=
    Prod.ext returned rfl
  rw [runUntilIdle, bind_of_ok eq]
  generalize (doneInCycle runTask l (w.cycleLimit l) t w).length = ran
  generalize (runPending runTask l t w).2 = w₁
  simp only
  split
  · rfl
  · rw [bind_apply]
    rcases runUntilIdle runTask l fuel t w₁ with ⟨_ | _, _⟩
    · rfl
    · rfl

/-- Driving a loop until it is idle works off its tasks until none is left. -/
theorem worksOff_runUntilIdle (ignore : TasksIgnorePace runTask l t w) {fuel n : Nat}
    (idle : runUntilIdle runTask l fuel t w = (.ok (some n), v)) :
    n = (doneUntilIdle runTask l fuel t w).length ∧ (v.loop l).queue = [] ∧
      ∃ u, WorksOff runTask l t w (doneUntilIdle runTask l fuel t w) u ∧
        v.unpaced l = u.unpaced l := by
  induction fuel generalizing w n with
  | zero => simp [runUntilIdle] at idle
  | succ fuel ih =>
    obtain ⟨u, works, _, same, none⟩ := worksOff_runPending runTask l t w
    rw [runUntilIdle_succ] at idle
    rw [doneUntilIdle]
    generalize doneInCycle runTask l (w.cycleLimit l) t w = cycle at works none idle
    generalize (runPending runTask l t w).2 = w₁ at same idle
    cases cycle with
    | nil =>
      obtain ⟨ended, rfl⟩ := Prod.mk.inj idle
      obtain rfl := Option.some.inj (Except.ok.inj ended)
      cases works
      exact ⟨rfl, (queue_of_unpaced_eq same).trans (none rfl), w, .refl w, same⟩
    | cons head others =>
      obtain ⟨ended, left⟩ := Prod.mk.inj idle
      rcases rest : runUntilIdle runTask l fuel t w₁ with ⟨_ | _ | n', v'⟩
      · rw [rest] at ended
        cases ended
      · rw [rest] at ended
        cases ended
      · rw [rest] at ended left
        obtain rfl : v' = v := left
        obtain rfl := Option.some.inj (Except.ok.inj ended)
        obtain ⟨rfl, empty, u₁, works₁, same₁⟩ := ih ((ignore.after works).paced same) rest
        obtain ⟨u₂, works₂, same₂⟩ := works₁.paced (ignore.after works) same
        refine ⟨?_, empty, u₂, works.trans works₂, same₁.trans same₂⟩
        rw [List.length_append]

/-- If working off all tasks comes to an end, then so does driving the loop until it is idle. -/
theorem runUntilIdle_of_worksOff (ignore : TasksIgnorePace runTask l t w)
    (works : WorksOff runTask l t w done v) (idle : (v.loop l).queue = []) :
    ∃ fuel v', runUntilIdle runTask l fuel t w = (.ok (some done.length), v') := by
  induction count : done.length using Nat.strongRecOn generalizing w v done with
  | ind n ih =>
    subst count
    obtain ⟨u, cycle, _, same, none⟩ := worksOff_runPending runTask l t w
    have step (fuel : Nat) :
        runUntilIdle runTask l (fuel + 1) t w = _ := runUntilIdle_succ fuel
    generalize doneInCycle runTask l (w.cycleLimit l) t w = ran at cycle none step
    generalize (runPending runTask l t w).2 = w₁ at same step
    match ran with
    | [] =>
      obtain ⟨rfl, rfl⟩ := works.eq_of_idle (none rfl)
      exact ⟨1, w₁, step 0⟩
    | head :: others =>
      -- No cycle goes on after the last task.
      have short : (head :: others).length ≤ done.length := by
        by_contra long
        obtain ⟨more, eq, after⟩ := works.split cycle (Nat.le_of_not_le long)
        obtain ⟨rfl, _⟩ := after.eq_of_idle idle
        rw [eq, List.append_nil] at long
        exact long (Nat.le_refl _)
      obtain ⟨rest, rfl, after⟩ := cycle.split works short
      have ignore₁ := (ignore.after cycle).paced same
      obtain ⟨v₁, works₁, same₁⟩ := after.paced ignore₁ same.symm
      have idle₁ : (v₁.loop l).queue = [] := (queue_of_unpaced_eq same₁.symm).trans idle
      have fewer : rest.length < (head :: others ++ rest).length := by
        simp only [List.cons_append, List.length_cons, List.length_append]
        omega
      obtain ⟨fuel, v', driven⟩ := ih rest.length fewer ignore₁ works₁ idle₁ rfl
      refine ⟨fuel + 1, v', ?_⟩
      rw [step fuel]
      simp only [driven]
      rw [List.length_append]
      rfl

/-! ## Plain scripts -/

/-- As long as all is plain, it stays so. -/
theorem WorksOff.plain {depth : Nat} (works : WorksOff (Act.runTask (performer depth)) l t w done v)
    (plain : w.Plain l) : v.Plain l := by
  induction works with
  | refl w => exact plain
  | @next w w₁ v task rest taken _ ih =>
    obtain ⟨mine, plain₁⟩ := plain.dequeue taken
    have ran := heedless_runTask (l := l) (fun _ => heedless_performer depth) mine
    have contained : (runContained (Act.runTask (performer depth)) l task).Heedless l := by
      refine ran.attempt.bind fun ended => ?_
      cases ended with
      | ok _ => exact .pure ()
      | error p => exact .log (fun _ => rfl) fun _ => by rw [World.loopField_unpaced]
    have left := (contained (t := t) plain₁).2
    rw [runContained_apply] at left
    exact ih left

/-- Plain scripts are not the only ones that do not heed the pace, but this can be checked. -/
theorem tasksIgnorePace_of_plain (depth : Nat) (plain : w.Plain l) :
    TasksIgnorePace (Act.runTask (performer depth)) l t w := by
  intro done v task v₁ works taken w' same
  obtain ⟨mine, plain₁⟩ := (works.plain plain).dequeue taken
  have plain' : w'.Plain l := by
    rw [← World.plain_unpaced, same]
    exact World.plain_unpaced.mpr plain₁
  have ran := heedless_runTask (l := l) (fun _ => heedless_performer depth) mine
  have eq := (ran (t := t) plain').1
  rw [same, (ran (t := t) plain₁).1] at eq
  obtain ⟨ended, left⟩ := Prod.mk.inj eq
  exact ⟨ended.symm, left.symm⟩

end Act

open Act in
/-- What driving a loop until it is idle comes to does not depend on its budget, if no task heeds
the pace of the loop. If it comes to an end with one budget, then it does so with any other one.
Both run the same tasks in the same order with the same results; they count them all, and leave the
queue empty and the same world, but for the budget and the events of cycles. -/
theorem budget_only_sets_pace {runTask : RunTask} {l : LoopId} {t : ThreadId} {w : World}
    (ignore : TasksIgnorePace runTask l t w) (budget budget' : Nat) {fuel n : Nat} {v : World}
    (idle : runUntilIdle runTask l fuel t (w.withBudget l budget) = (.ok (some n), v)) :
    n = (doneUntilIdle runTask l fuel t (w.withBudget l budget)).length ∧
    (v.loop l).queue = [] ∧
    (∃ fuel' n' v',
      runUntilIdle runTask l fuel' t (w.withBudget l budget') = (.ok (some n'), v')) ∧
    ∀ fuel' n' v',
      runUntilIdle runTask l fuel' t (w.withBudget l budget') = (.ok (some n'), v') →
      n' = n ∧
      doneUntilIdle runTask l fuel' t (w.withBudget l budget') =
        doneUntilIdle runTask l fuel t (w.withBudget l budget) ∧
      (v'.loop l).queue = [] ∧
      v'.unpaced l = v.unpaced l := by
  have same (b : Nat) : (w.withBudget l b).unpaced l = w.unpaced l := w.unpaced_withBudget l b
  obtain ⟨rfl, empty, u, works, left⟩ := worksOff_runUntilIdle (ignore.paced (same budget)) idle
  obtain ⟨u₀, works₀, left₀⟩ := works.paced ignore (same budget)
  have empty₀ : (u₀.loop l).queue = [] :=
    (queue_of_unpaced_eq (left.trans left₀).symm).trans empty
  refine ⟨rfl, empty, ?_, fun fuel' n' v' idle' => ?_⟩
  · have ignore' := ignore.paced (same budget')
    obtain ⟨u', works', left'⟩ := works₀.paced ignore' (same budget').symm
    have empty' : (u'.loop l).queue = [] := (queue_of_unpaced_eq left'.symm).trans empty₀
    obtain ⟨fuel', v', driven⟩ := runUntilIdle_of_worksOff ignore' works' empty'
    exact ⟨fuel', _, v', driven⟩
  · obtain ⟨rfl, empty', u', works', left'⟩ :=
      worksOff_runUntilIdle (ignore.paced (same budget')) idle'
    obtain ⟨u₁, works₁, left₁⟩ := works'.paced ignore (same budget')
    have empty₁ : (u₁.loop l).queue = [] :=
      (queue_of_unpaced_eq (left'.trans left₁).symm).trans empty'
    obtain ⟨eq, rfl⟩ := works₀.unique empty₀ works₁ empty₁
    refine ⟨by rw [eq], eq, empty', ?_⟩
    exact (left'.trans left₁).trans (left.trans left₀).symm

namespace Paced

open Act

/-- Three tasks wait for a loop. The first one runs a call whose callable schedules the call once
more; the second one posts a task and runs the call as well; the third one closes the loop and
panics. -/
def prepare : Act Unit := script (performer 4)
  [("loop", .newLoop "day" { cycleBudget := 2 }), ("handle", .newLoopHandle "door" "day"),
    ("callable", .newCallable "errand" none [("again", .schedule "call" "day" false none)] 2 []),
    ("call", .newCall "call" (.callable "errand") none),
    ("weak", .schedule "call" "day" true none),
    ("second", .post "day" false (some "second")
      [("late", .post "day" false (some "late") [] .normal []), ("run", .run "call" none)]
      .normal []),
    ("third", .post "day" false (some "third") [("close", .shutdown "door")] (.panic ⟨none⟩) [])]

/-- The world in which the tasks wait. -/
def world : World :=
  (prepare Session.driver (Session.start (some .trace))).2

/-- With one task to a cycle, and with no bound on cycles, the same six tasks are run in the same
order, and the third one panics. -/
theorem same_day_at_another_pace :
    world.Plain ⟨0⟩ ∧
    ∃ v, runUntilIdle (runTask (performer 4)) ⟨0⟩ 7 Session.driver (world.withBudget ⟨0⟩ 1) =
        (.ok (some 6), v) ∧
      ∃ fuel v', runUntilIdle (runTask (performer 4)) ⟨0⟩ fuel Session.driver
          (world.withBudget ⟨0⟩ 0) = (.ok (some 6), v') ∧
        (doneUntilIdle (runTask (performer 4)) ⟨0⟩ fuel Session.driver
            (world.withBudget ⟨0⟩ 0)).map (fun done => (Task.tag done.task, done.ended.isOk)) =
          [(none, true), (some "second", true), (some "third", false), (none, true),
            (some "late", true), (none, true)] ∧
        v'.unpaced ⟨0⟩ = v.unpaced ⟨0⟩ := by
  have plain : world.Plain ⟨0⟩ := World.plain_of_all (by decide +kernel) (by decide +kernel)
  obtain ⟨v, idle⟩ : ∃ v, runUntilIdle (runTask (performer 4)) ⟨0⟩ 7 Session.driver
      (world.withBudget ⟨0⟩ 1) = (.ok (some 6), v) := by
    have count : (runUntilIdle (runTask (performer 4)) ⟨0⟩ 7 Session.driver
        (world.withBudget ⟨0⟩ 1)).1 = .ok (some 6) := by
      decide +kernel
    generalize runUntilIdle (runTask (performer 4)) ⟨0⟩ 7 Session.driver
      (world.withBudget ⟨0⟩ 1) = driven at count
    exact ⟨driven.2, Prod.ext count rfl⟩
  obtain ⟨_, _, ⟨fuel, n, v', idle'⟩, alike⟩ :=
    budget_only_sets_pace (tasksIgnorePace_of_plain 4 plain) 1 0 idle
  obtain ⟨rfl, tasks, _, same⟩ := alike fuel n v' idle'
  refine ⟨plain, v, idle, fuel, v', idle', ?_, same⟩
  rw [tasks]
  decide +kernel

end Paced

end DeferredCalls
