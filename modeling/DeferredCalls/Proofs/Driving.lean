import DeferredCalls.Proofs.Posting

/-!
# Driving a loop is a course

A cycle takes tasks from the head of the queue, one after another, and runs each of them before it
looks for the next one. A panic of a task is logged, and the cycle goes on. Driving a loop until it
is idle, or until it is closed, is cycle after cycle.

What is told of a drive are its tasks, in the order in which it takes them, and after each of them
what is told of its run. Given that tasks are run lawfully, driving a loop is lawful.
-/

namespace DeferredCalls

open Holding Moment

/-- A way of running tasks that is known to the manner, uses up what the tasks hold, and does
nothing else but operations. -/
structure RunTask.Lawful (runTask : RunTask) (M : Manner := .course) : Prop where
  known : M.runs runTask
  run : ∀ ⦃task : Task⦄ ⦃t : ThreadId⦄ ⦃w : World⦄ ⦃H : Multiset Holding⦄,
    Ready ⟨w, ofShares task.shares + H⟩ t →
    Reaches ⟨w, ofShares task.shares + H⟩ ⟨(runTask task t w).2, H⟩ M

namespace World

/-- The world after a cycle, which is logged if it took tasks. -/
def cycled (w : World) (l : LoopId) (t : ThreadId) (count : Nat) : World :=
  if 0 < count then
    w.log t .trace "event loop cycle" [w.loopField l, ("ran", .number count)]
  else w

theorem loops_cycled {w : World} {l : LoopId} {t : ThreadId} {count : Nat} :
    (w.cycled l t count).loops = w.loops := by
  rw [cycled]
  split
  · obtain ⟨_, _, eq⟩ :=
      w.log_eq t .trace "event loop cycle" [w.loopField l, ("ran", .number count)]
    rw [eq]
  · rfl

/-- A cycle covers no task only if there is none. -/
theorem cycleLimit_pos {w : World} {l : LoopId} (queued : (w.loop l).queue ≠ []) :
    0 < w.cycleLimit l := by
  have some : 0 < w.pending l := List.length_pos_iff.mpr queued
  rw [cycleLimit]
  split
  · exact some
  · omega

theorem queue_eq_nil_of_dequeue? {w : World} {l : LoopId} (none : w.dequeue? l = none) :
    (w.loop l).queue = [] := by
  rw [dequeue?] at none
  split at none
  · assumption
  · contradiction

end World

namespace Act

variable {t : ThreadId} {w : World} {runTask : RunTask} {l : LoopId}

/-- One task of a cycle: it is taken from the queue and run, and then the cycle goes on. -/
theorem runTasks_succ {limit : Nat} :
    runTasks runTask l (limit + 1) t w =
      match w.dequeue? l with
      | none => (.ok 0, w)
      | some (task, w') =>
        let after := w'.ran runTask l task t
        ((runTasks runTask l limit t after).1.map (· + 1),
          (runTasks runTask l limit t after).2) := by
  rw [runTasks, bind_apply, dequeue, update_apply]
  rcases w.dequeue? l with _ | ⟨task, w'⟩
  · rfl
  · simp only [bind_apply, runContained_apply]
    rcases runTasks runTask l limit t (w'.ran runTask l task t) with ⟨_ | _, _⟩
    · rfl
    · rfl

/-- A cycle never panics, since the panics of tasks are contained. -/
theorem exists_runTasks_eq (limit : Nat) (w : World) :
    ∃ n w', runTasks runTask l limit t w = (.ok n, w') := by
  induction limit generalizing w with
  | zero => exact ⟨0, w, rfl⟩
  | succ limit ih =>
    rw [runTasks_succ]
    rcases w.dequeue? l with _ | ⟨task, w₁⟩
    · exact ⟨0, w, rfl⟩
    · obtain ⟨n, w', eq⟩ := ih (w₁.ran runTask l task t)
      simp only [eq]
      exact ⟨n + 1, w', rfl⟩

theorem exists_runPending_eq (w : World) : ∃ n w', runPending runTask l t w = (.ok n, w') := by
  obtain ⟨n, w', eq⟩ : ∃ n w', runTasks runTask l (w.cycleLimit l) t w = (.ok n, w') :=
    exists_runTasks_eq ..
  rw [runPending, bind_apply, read_apply]
  simp only [bind_apply, eq]
  split
  · exact ⟨n, _, rfl⟩
  · exact ⟨n, w', rfl⟩

/-- After a cycle, driving a loop until it is closed comes to a halt if nothing is left, and
otherwise goes on. -/
theorem runUntilHalt_succ {n fuel : Nat} {w₁ : World}
    (cycle : runPending runTask l t w = (.ok n, w₁)) :
    runUntilHalt runTask l (fuel + 1) t w =
      if w₁.pending l = 0 then
        if (w₁.loop l).closed then
          (.ok (some .closed), w₁.log t .debug "event loop shut down" [w₁.loopField l])
        else (.ok (some .waiting), w₁)
      else runUntilHalt runTask l fuel t w₁ := by
  rw [runUntilHalt, bind_of_ok cycle, bind_apply, read_apply]
  simp only [beq_iff_eq]
  split
  · rw [bind_apply, read_apply]
    simp only
    split
    · rfl
    · rfl
  · rfl

/-- Neither do cycles one after the other. -/
theorem exists_runUntilHalt_eq (fuel : Nat) (w : World) :
    ∃ halt w', runUntilHalt runTask l fuel t w = (.ok halt, w') := by
  induction fuel generalizing w with
  | zero => exact ⟨none, w, rfl⟩
  | succ fuel ih =>
    obtain ⟨n, w₁, cycle⟩ : ∃ n w₁, runPending runTask l t w = (.ok n, w₁) :=
      exists_runPending_eq w
    rw [runUntilHalt_succ cycle]
    split
    · split
      · exact ⟨_, _, rfl⟩
      · exact ⟨_, _, rfl⟩
    · exact ih w₁

end Act

/-- A task that a cycle takes from the queue by itself, and what is told of its run. -/
structure Taking where
  task : Task
  told : List Operation

/-- What is told of the tasks that a cycle takes. -/
def toldOf (l : LoopId) (takings : List Taking) : List Operation :=
  takings.flatMap fun taking => .start (.loop l) taking.task :: taking.told

theorem toldOf_append {l : LoopId} (before after : List Taking) :
    toldOf l (before ++ after) = toldOf l before ++ toldOf l after :=
  List.flatMap_append

section Drives

variable (M : Manner) (runTask : RunTask) (l : LoopId) (t : ThreadId) (H : Multiset Holding)

/-- A cycle, task by task: each one is taken from the head of the queue and run, and its run is told
in the given manner. Other tasks of the loop may be started in it. -/
inductive Cycle : Nat → World → List Taking → World → Prop
  | full (w : World) : Cycle 0 w [] w
  | empty {limit : Nat} {w : World} : w.dequeue? l = none → Cycle (limit + 1) w [] w
  | take {limit : Nat} {w w₁ w' : World} {task : Task} {told : List Operation}
      {takings : List Taking} :
    w.dequeue? l = some (task, w₁) →
    M.admits ⟨w₁, ofShares task.shares + H⟩ told ⟨(runTask task t w₁).2, H⟩ →
    Cycle limit (w₁.ran runTask l task t) takings w' →
    Cycle (limit + 1) w (⟨task, told⟩ :: takings) w'

/-- Cycle after cycle over a loop. -/
inductive Drive : World → List Taking → World → Prop
  | rest (w : World) : Drive w [] w
  | cycle {w w₁ w' : World} {takings more : List Taking} :
    Cycle M runTask l t H (w.cycleLimit l) w takings w₁ →
    Drive (w₁.cycled l t takings.length) more w' →
    Drive w (takings ++ more) w'

end Drives

section

variable {M : Manner} {runTask : RunTask} {l : LoopId} {t : ThreadId} {w w' : World}
  {H : Multiset Holding} {limit : Nat} {takings : List Taking}

theorem Moment.Consistent.course_ran {task : Task}
    (consistent : Consistent ⟨(runTask task t w).2, H⟩) :
    Course ⟨(runTask task t w).2, H⟩ [] ⟨w.ran runTask l task t, H⟩ := by
  rw [World.ran]
  rcases result : runTask task t w with ⟨_ | _, w'⟩
  · rw [result] at consistent
    exact consistent.log ..
  · exact .refl _

theorem Moment.Consistent.course_cycled (consistent : Consistent ⟨w, H⟩) (count : Nat) :
    Course ⟨w, H⟩ [] ⟨w.cycled l t count, H⟩ := by
  rw [World.cycled]
  split
  · exact consistent.log ..
  · exact .refl _

namespace Cycle

open Act

/-- The cycle comes to an end, whatever its tasks do, and counts the tasks that it takes. -/
theorem runTasks_eq (cycle : Cycle M runTask l t H limit w takings w') :
    runTasks runTask l limit t w = (.ok takings.length, w') := by
  induction cycle with
  | full w => rfl
  | empty none => rw [runTasks_succ, none]; rfl
  | take head _ _ ih =>
    rw [runTasks_succ, head]
    simp only [ih]
    rfl

/-- A cycle that took tasks says how many, and that is all it does besides. -/
theorem runPending_eq (cycle : Cycle M runTask l t H (w.cycleLimit l) w takings w') :
    runPending runTask l t w = (.ok takings.length, w'.cycled l t takings.length) := by
  rw [runPending, bind_apply, read_apply, World.cycled]
  simp only [bind_apply, cycle.runTasks_eq]
  split
  · rfl
  · rfl

theorem length_le (cycle : Cycle M runTask l t H limit w takings w') :
    takings.length ≤ limit := by
  induction cycle with
  | full w => exact Nat.le_refl 0
  | empty _ => exact Nat.zero_le _
  | take _ _ _ ih => exact Nat.succ_le_succ ih

/-- A cycle that is over before its limit is reached leaves nothing in the queue. -/
theorem queue_eq_nil (cycle : Cycle M runTask l t H limit w takings w')
    (early : takings.length < limit) : (w'.loop l).queue = [] := by
  induction cycle with
  | full w => contradiction
  | empty none => exact World.queue_eq_nil_of_dequeue? none
  | take _ _ _ ih => exact ih (Nat.lt_of_succ_lt_succ early)

theorem eq_of_nil (cycle : Cycle M runTask l t H limit w [] w') : w' = w := by
  cases cycle with
  | full => rfl
  | empty => rfl

/-- A cycle takes no task only if there is none. -/
theorem idle (cycle : Cycle M runTask l t H (w.cycleLimit l) w [] w') :
    w' = w ∧ (w.loop l).queue = [] := by
  obtain rfl := cycle.eq_of_nil
  refine ⟨rfl, ?_⟩
  by_contra queued
  exact queued (cycle.queue_eq_nil (World.cycleLimit_pos queued))

/-- The tasks that are taken, and all that their runs do, are what is told of a cycle. -/
theorem admits (known : M.runs runTask) (ready : Ready ⟨w, H⟩ t)
    (cycle : Cycle M runTask l t H limit w takings w') :
    M.admits ⟨w, H⟩ (toldOf l takings) ⟨w', H⟩ := by
  induction cycle with
  | full w => exact M.refl _
  | empty _ => exact M.refl _
  | take head run _ ih =>
    have served := M.serve known head run
    have after := ready.after (M.sound served)
    have logged := after.consistent.course_ran (l := l)
    exact M.trans served
      (M.trans (M.admits_of_course logged resting_nil) (ih (after.after logged)))

/-- Cycles are of this kind if tasks are run lawfully. -/
theorem exists_of_lawful (lawful : runTask.Lawful M) (ready : Ready ⟨w, H⟩ t) (limit : Nat) :
    ∃ takings w', Cycle M runTask l t H limit w takings w' := by
  induction limit generalizing w with
  | zero => exact ⟨[], w, .full w⟩
  | succ limit ih =>
    match head : w.dequeue? l with
    | none => exact ⟨[], w, .empty head⟩
    | some (task, w₁) =>
      have started := ready.after (.single (.start head))
      obtain ⟨told, run⟩ := lawful.run started
      have after := started.after (M.sound run)
      obtain ⟨takings, w', rest⟩ := ih (after.after (after.consistent.course_ran (l := l)))
      exact ⟨_, w', .take head run rest⟩

end Cycle

/-- What driving a loop comes to where every task that is taken is run. It is cycle after cycle; as
a whole it is a course; and wherever it tells that a task was taken, by these cycles or deep inside
of their tasks, the task was run at once. -/
structure Driven (runs : RunTask → Prop) (runTask : RunTask) (l : LoopId) (t : ThreadId)
    (H : Multiset Holding) (w : World) (takings : List Taking) (w' : World) : Prop where
  drive : Drive (.diligent runs) runTask l t H w takings w'
  course : Course ⟨w, H⟩ (toldOf l takings) ⟨w', H⟩
  runAt : ∀ k before task after, toldOf l takings = before ++ .start (.loop k) task :: after →
    RunAt runs ⟨w, H⟩ before k task after ⟨w', H⟩

namespace Drive

theorem admits (known : M.runs runTask) (ready : Ready ⟨w, H⟩ t)
    (drive : Drive M runTask l t H w takings w') : M.admits ⟨w, H⟩ (toldOf l takings) ⟨w', H⟩ := by
  induction drive with
  | rest w => exact M.refl _
  | @cycle w w₁ w' takings more cycle _ ih =>
    have first := cycle.admits known ready
    have after := ready.after (M.sound first)
    have logged := after.consistent.course_cycled (l := l) (t := t) takings.length
    rw [toldOf_append]
    exact M.trans first
      (M.trans (M.admits_of_course logged resting_nil) (ih (after.after logged)))

/-- A single cycle. -/
theorem single (cycle : Cycle M runTask l t H (w.cycleLimit l) w takings w') :
    Drive M runTask l t H w takings (w'.cycled l t takings.length) := by
  have whole := Drive.cycle cycle (.rest _)
  rwa [List.append_nil] at whole

theorem driven {runs : RunTask → Prop} (known : runs runTask) (ready : Ready ⟨w, H⟩ t)
    (drive : Drive (.diligent runs) runTask l t H w takings w') :
    Driven runs runTask l t H w takings w' := by
  have diligent : Diligent runs ⟨w, H⟩ (toldOf l takings) ⟨w', H⟩ := drive.admits known ready
  exact ⟨drive, diligent.course, fun _ _ _ _ => diligent.runAt⟩

end Drive

namespace Act

variable (lawful : runTask.Lawful M)

include lawful

theorem exists_drive_runPending (ready : Ready ⟨w, H⟩ t) : ∃ takings w',
    Drive M runTask l t H w takings w' ∧
      runPending runTask l t w = (.ok takings.length, w') := by
  obtain ⟨takings, w', cycle⟩ := Cycle.exists_of_lawful (l := l) lawful ready (w.cycleLimit l)
  exact ⟨takings, _, .single cycle, cycle.runPending_eq⟩

/-- Driving a loop until it is idle is cycle after cycle. If the fuel suffices, the tasks of all
cycles are counted, and nothing is left. -/
theorem exists_drive_runUntilIdle (fuel : Nat) (ready : Ready ⟨w, H⟩ t) : ∃ takings answer w',
    Drive M runTask l t H w takings w' ∧ runUntilIdle runTask l fuel t w = (.ok answer, w') ∧
      ∀ count, answer = some count → count = takings.length ∧ (w'.loop l).queue = [] := by
  induction fuel generalizing w with
  | zero => exact ⟨[], none, w, .rest w, rfl, nofun⟩
  | succ fuel ih =>
    obtain ⟨takings, w₁, cycle⟩ := Cycle.exists_of_lawful (l := l) lawful ready (w.cycleLimit l)
    rw [runUntilIdle, bind_of_ok cycle.runPending_eq]
    by_cases none : takings = []
    · subst none
      obtain ⟨rfl, empty⟩ := cycle.idle
      refine ⟨[], some 0, w₁, .rest w₁, rfl, fun count answered => ?_⟩
      obtain rfl := Option.some.inj answered
      exact ⟨rfl, empty⟩
    · have ended := ready.after (M.sound (cycle.admits lawful.known ready))
      have again := ended.after (ended.consistent.course_cycled (l := l) (t := t) takings.length)
      obtain ⟨more, answer, w', drive, eq, idle⟩ := ih again
      have some : takings.length ≠ 0 := mt List.length_eq_zero_iff.mp none
      rw [if_neg some, bind_of_ok eq]
      refine ⟨takings ++ more, _, w', .cycle cycle drive, rfl, fun count answered => ?_⟩
      obtain ⟨rest, rfl, rfl⟩ := Option.map_eq_some_iff.mp answered
      obtain ⟨rfl, empty⟩ := idle rest rfl
      exact ⟨List.length_append.symm, empty⟩

/-- Driving a loop until it is closed is cycle after cycle. If the fuel suffices, nothing is left,
and the answer tells whether the loop is closed. -/
theorem exists_drive_runUntilHalt (fuel : Nat) (ready : Ready ⟨w, H⟩ t) : ∃ takings answer w',
    Drive M runTask l t H w takings w' ∧
      runUntilHalt runTask l fuel t w = (.ok answer, if answer = some .closed then
        w'.log t .debug "event loop shut down" [w'.loopField l] else w') ∧
      ∀ halt, answer = some halt →
        (w'.loop l).queue = [] ∧ ((w'.loop l).closed = true ↔ halt = .closed) := by
  induction fuel generalizing w with
  | zero => exact ⟨[], none, w, .rest w, rfl, nofun⟩
  | succ fuel ih =>
    obtain ⟨takings, w₁, cycle⟩ := Cycle.exists_of_lawful (l := l) lawful ready (w.cycleLimit l)
    have ended := ready.after (M.sound (cycle.admits lawful.known ready))
    have again := ended.after (ended.consistent.course_cycled (l := l) (t := t) takings.length)
    rw [runUntilHalt_succ cycle.runPending_eq]
    split
    · next idle =>
      have empty := List.length_eq_zero_iff.mp idle
      cases closed : ((w₁.cycled l t takings.length).loop l).closed with
      | true =>
        refine ⟨takings, some .closed, _, .single cycle, rfl, ?_⟩
        rintro halt ⟨⟩
        exact ⟨empty, fun _ => rfl, fun _ => closed⟩
      | false =>
        refine ⟨takings, some .waiting, _, .single cycle, rfl, ?_⟩
        rintro halt ⟨⟩
        exact ⟨empty, fun is => absurd is (by simp [closed]), nofun⟩
    · obtain ⟨more, answer, w', drive, rest⟩ := ih again
      exact ⟨takings ++ more, answer, w', .cycle cycle drive, rest⟩

theorem lawful_runPending : (runPending runTask l).Lawful M := by
  intro t w H ready
  obtain ⟨takings, w', drive, eq⟩ := exists_drive_runPending (l := l) lawful ready
  rw [eq]
  exact ⟨_, drive.admits lawful.known ready⟩

theorem lawful_runUntilIdle (fuel : Nat) : (runUntilIdle runTask l fuel).Lawful M := by
  intro t w H ready
  obtain ⟨takings, answer, w', drive, eq, _⟩ := exists_drive_runUntilIdle (l := l) lawful fuel ready
  rw [eq]
  exact ⟨_, drive.admits lawful.known ready⟩

theorem lawful_runUntilHalt (fuel : Nat) : (runUntilHalt runTask l fuel).Lawful M := by
  intro t w H ready
  obtain ⟨takings, answer, w', drive, eq, _⟩ := exists_drive_runUntilHalt (l := l) lawful fuel ready
  have driven : Reaches ⟨w, H⟩ ⟨w', H⟩ M := ⟨_, drive.admits lawful.known ready⟩
  rw [eq]
  simp only
  split
  · exact driven.trans (reaches_of_course ((ready.reaches driven).consistent.log ..) (by simp))
  · exact driven

end Act

end

end DeferredCalls
