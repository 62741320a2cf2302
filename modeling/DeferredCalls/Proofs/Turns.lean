import DeferredCalls.Proofs.Settling
import DeferredCalls.Proofs.Respecting

/-!
# Turns of loop threads

The turn of a loop thread, as the program takes it, is made of what the thread does by itself and of
what its tasks do: it wakes up, runs the task at the head of the queue until there is none, and then
leaves a closed loop or waits. Given that tasks respect the thread, the turn comes to its end, with
all tasks that were accepted until then.

Other loops are driven, and other loop threads take their turns, without a trace of it.
-/

namespace DeferredCalls

open World

namespace Service

/-- The thread has served its loop, and run a number of tasks or more. -/
structure Served (runTask : RunTask) (t : ThreadId) (l : LoopId) (ran : Nat) (x y : Service) :
    Prop where
  serves : x.Serves runTask t l y
  sound : y.Sound t l
  looking : y.stage = .looking
  means : y.means ≤ x.means
  started : x.started.length + ran ≤ y.started.length

variable {runTask : RunTask} {t : ThreadId} {l : LoopId} {x y z : Service} {task : Task} {w : World}
  {ran more : Nat}

namespace Served

protected theorem refl (sound : x.Sound t l) (looking : x.stage = .looking) :
    Served runTask t l 0 x x :=
  ⟨.done x, sound, looking, Nat.le_refl _, Nat.le_refl _⟩

protected theorem trans (first : Served runTask t l ran x y)
    (second : Served runTask t l more y z) : Served runTask t l (ran + more) x z := by
  refine ⟨first.serves.trans second.serves, second.sound, second.looking,
    Nat.le_trans second.means first.means, ?_⟩
  have := first.started
  have := second.started
  omega

end Served

theorem Sound.means_eq (sound : x.Sound t l) :
    x.means = x.started.length + (x.world.pending l + x.world.allowance) := by
  rw [means, sound.accepted, List.length_append, pending, Nat.add_assoc]

/-- While a loop thread serves its loop, what there is to do only becomes less. -/
theorem Served.less (served : Served runTask t l ran x y) (sound : x.Sound t l) :
    y.world.pending l + y.world.allowance + ran ≤ x.world.pending l + x.world.allowance := by
  have := sound.means_eq
  have := served.sound.means_eq
  have := served.means
  have := served.started
  omega

/-- A thread wants its turn if and only if it waits and there is a reason to wake it up. -/
theorem Sound.wantsTurn_iff (sound : x.Sound t l) : x.world.wantsTurn t = true ↔
    x.stage = .waiting ∧ ((x.world.loop l).queue ≠ [] ∨ (x.world.loop l).closed = true) := by
  have role := (sound.reserved.serves t).mpr rfl
  have idle : x.stage = .waiting ↔ x.stage.inTurn = false ∧ x.stage.isLeft = false := by
    cases x.stage <;> simp [Stage.inTurn, Stage.isLeft]
  rw [wantsTurn, role]
  simp only [sound.busy, sound.finished, idle]
  simp

theorem Sound.servedLoop? (sound : x.Sound t l) : x.world.servedLoop? t = some l :=
  servedLoop?_eq_some.mpr ((sound.reserved.serves t).mpr rfl)

end Service

open Service

namespace Act

variable {runTask : RunTask} {t u v : ThreadId} {l k : LoopId} {n : Nat} {x : Service} {task : Task}
  {w w' : World}

theorem respects_runContained (respects : RunTask.Respects t l runTask) (k : LoopId) (task : Task) :
    (runContained runTask k task).Respects t l n := by
  refine (respects.task task).attempt.bind fun ended => ?_
  cases ended with
  | ok _ => exact .pure _
  | error p => exact .log ..

/-! ## Other loops -/

section Elsewhere

variable (respects : RunTask.Respects t l runTask) (other : k ≠ l)

include respects other

theorem respects_runTasks (limit : Nat) : (runTasks runTask k limit).Respects t l n := by
  have taken : (dequeue k).Respects t l 0 := by
    refine .update fun _ w reserved => ?_
    split
    · next taken => exact aside_dequeue reserved other taken
    · exact .refl reserved
  induction limit with
  | zero => exact .pure 0
  | succ limit ih =>
    refine taken.bind fun task => ?_
    cases task with
    | none => exact .pure 0
    | some task =>
      exact (respects_runContained respects k task).bind fun _ => ih.followed fun _ => .pure _

theorem respects_runPending : (runPending runTask k).Respects t l n :=
  (Respects.read _).bind fun limit => (respects_runTasks respects other limit).bind fun _ =>
    .ite ((Respects.log ..).bind fun _ => .pure _) (.pure _)

theorem respects_runUntilIdle (fuel : Nat) : (runUntilIdle runTask k fuel).Respects t l n := by
  induction fuel with
  | zero => exact .pure none
  | succ fuel ih =>
    exact (respects_runPending respects other).bind fun _ =>
      .ite (.pure _) (ih.followed fun _ => .pure _)

theorem respects_runUntilHalt (fuel : Nat) : (runUntilHalt runTask k fuel).Respects t l n := by
  induction fuel with
  | zero => exact .pure none
  | succ fuel ih =>
    refine (respects_runPending respects other).bind fun _ => (Respects.read _).bind fun idle =>
      .ite ((Respects.read _).bind fun closed => ?_) ih
    exact .ite ((Respects.log ..).bind fun _ => .pure _) (.pure _)

/-- Another loop thread has its turn. -/
theorem leads_turn (sound : x.Sound t l) (elsewhere : v ≠ t) :
    x.Leads t l n (turn runTask k v x.world).2 := by
  have flag {w : World} (reserved : w.Reserved t l) (f : Thread → Thread)
      (same : ∀ th, (f th).role = th.role ∧ (f th).loops = th.loops) :
      Aside t l w (w.onThread v f) := by
    refine aside_onThread reserved (fun th => (same th).1) (fun th fresh => ?_) fun mine =>
      absurd mine elsewhere
    rw [(same th).2]
    exact fresh
  have begun : x.Leads t l 0 (x.world.onThread v fun th => { th with busy := true }) :=
    .aside (flag sound.reserved _ fun _ => ⟨rfl, rfl⟩)
  refine (Respects.leads_bind (n := 0) (k := 0) sound begun fun _ y sound' _ => ?_).mono
    (Nat.zero_le n)
  refine Respects.leads_bind (n := 0) (k := 0) sound' (.refl y) fun fuel y sound' _ => ?_
  refine Respects.leads_bind (n := 0) (k := 0) sound'
    (respects_runUntilHalt respects other _ sound') fun halt y sound' _ => ?_
  have ended : y.Leads t l 0 (y.world.onThread v fun th => { th with busy := false }) :=
    .aside (flag sound'.reserved _ fun _ => ⟨rfl, rfl⟩)
  refine Respects.leads_bind (n := 0) (k := 0) sound' ended fun _ y sound' _ => ?_
  split
  · have logged := Respects.log (t := t) (l := l) (n := 0) .debug "event loop thread exiting"
      (fun w => [w.loopField k]) (u := v) sound'
    refine Respects.leads_bind (n := 0) (k := 0) sound' logged fun _ y sound' _ => ?_
    have left := flag sound'.reserved (fun th => { th with finished := true }) fun _ => ⟨rfl, rfl⟩
    exact .aside (left.trans (aside_release left.reserved v fun same =>
      absurd (Share.loop.inj same) other))
  · exact .refl y

end Elsewhere

/-! ## The loop itself -/

section Own

/-- Whatever the thread logs, it goes on serving its loop. -/
theorem served_log (sound : x.Sound t l) (looking : x.stage = .looking) (level : Level)
    (message : String) (fields : List (String × FieldValue)) :
    Served runTask t l 0 x { x with world := x.world.log t level message fields } := by
  have aside := (x.world.spares_log t level message fields).aside sound.reserved
  exact ⟨.log looking aside (.done _), (step_aside aside).sound sound, looking,
    Nat.le_of_eq (congrArg (x.accepted.length + ·) aside.allowance), Nat.le_refl _⟩

variable (respects : RunTask.Respects t l runTask)

include respects

/-- The thread runs the task that it has taken. -/
theorem served_task (sound : x.Sound t l) (looking : x.stage = .looking)
    (taken : x.world.dequeue? l = some (task, w)) :
    ∃ y, Served runTask t l 1 x y ∧ y.world = w.ran runTask l task t := by
  have take := Advance.take (t := t) looking taken
  have run := respects_runContained (n := 0) respects l task (u := t) (take.sound sound)
  rw [runContained_apply] at run
  obtain ⟨y, passes, eq⟩ := run
  obtain ⟨w', new, meanwhile, rfl⟩ := passes.sequel.meanwhile (take.sound sound) rfl
  obtain rfl : w' = _ := eq
  have finish : Advance t l _ _ := .finish (passes.stage.of_inTurn rfl)
  have sound' := finish.sound (passes.sound (take.sound sound))
  refine ⟨_, ⟨.next looking taken meanwhile (.done _), sound', rfl, ?_, ?_⟩, rfl⟩
  · obtain ⟨_, _, _, rfl⟩ := of_dequeue? taken
    exact passes.means
  · simp

theorem served_runTasks (limit : Nat) (sound : x.Sound t l) (looking : x.stage = .looking) :
    ∃ y ran, Served runTask t l ran x y ∧
      runTasks runTask l limit t x.world = (.ok ran, y.world) ∧
      (ran = 0 → y = x ∧ (limit ≠ 0 → (x.world.loop l).queue = [])) := by
  induction limit generalizing x with
  | zero => exact ⟨x, 0, .refl sound looking, rfl, fun _ => ⟨rfl, fun some => absurd rfl some⟩⟩
  | succ limit ih =>
    rw [runTasks_succ]
    match taken : x.world.dequeue? l with
    | none =>
      exact ⟨x, 0, .refl sound looking, rfl, fun _ =>
        ⟨rfl, fun _ => queue_eq_nil_of_dequeue? taken⟩⟩
    | some (task, w) =>
      obtain ⟨y, first, eq⟩ := served_task respects sound looking taken
      obtain ⟨z, ran, second, rest, _⟩ := ih first.sound first.looking
      have whole := first.trans second
      rw [Nat.add_comm] at whole
      refine ⟨z, ran + 1, whole, ?_, fun none => absurd none (Nat.succ_ne_zero ran)⟩
      simp only [← eq, rest]
      rfl

/-- A cycle runs a task if there is one. -/
theorem served_runPending (sound : x.Sound t l) (looking : x.stage = .looking) :
    ∃ y ran, Served runTask t l ran x y ∧
      runPending runTask l t x.world = (.ok ran, y.world) ∧
      (ran = 0 → y = x ∧ (x.world.loop l).queue = []) := by
  obtain ⟨y, ran, served, eq, idle⟩ :=
    served_runTasks respects (x.world.cycleLimit l) sound looking
  have cycle : runPending runTask l t x.world = (do
      if 0 < ran then
        log .trace "event loop cycle" fun w => [w.loopField l, ("ran", .number ran)]
      pure ran : Act Nat) t y.world := bind_of_ok eq
  rw [cycle]
  by_cases some : 0 < ran
  · rw [if_pos some]
    exact ⟨_, ran, served.trans (served_log served.sound served.looking ..), rfl,
      fun none => absurd none (Nat.ne_of_gt some)⟩
  · rw [if_neg some]
    refine ⟨y, ran, served, rfl, fun none => ⟨(idle none).1, ?_⟩⟩
    by_contra queued
    exact queued ((idle none).2 (Nat.ne_of_gt (cycleLimit_pos queued)))

/-- A loop thread that serves its loop comes to an end of it: at some time nothing is queued. Each
cycle but the last runs a task, and there are only so many tasks that can still be accepted. -/
theorem served_runUntilHalt (fuel : Nat) (sound : x.Sound t l) (looking : x.stage = .looking)
    (enough : x.world.pending l + x.world.allowance < fuel) :
    ∃ y ran, Served runTask t l ran x y ∧ (y.world.loop l).queue = [] ∧
      runUntilHalt runTask l fuel t x.world =
        (.ok (some (if (y.world.loop l).closed then .closed else .waiting)), y.world) := by
  induction fuel generalizing x with
  | zero => exact absurd enough (Nat.not_lt_zero _)
  | succ fuel ih =>
    obtain ⟨y, ran, served, eq, idle⟩ := served_runPending respects sound looking
    rw [runUntilHalt_succ eq]
    by_cases empty : (y.world.loop l).queue = []
    · rw [if_pos (show y.world.pending l = 0 from congrArg List.length empty)]
      by_cases closed : (y.world.loop l).closed = true
      · have same := (y.world.spares_log t .debug "event loop shut down"
          [y.world.loopField l]).loop l
        refine ⟨_, ran, served.trans (served_log served.sound served.looking ..),
          (congrArg EventLoop.queue same).trans empty, ?_⟩
        have still := (congrArg EventLoop.closed same).trans closed
        rw [if_pos closed, if_pos (by exact still)]
      · exact ⟨y, ran, served, empty, by rw [if_neg closed, if_neg closed]⟩
    · have pending : y.world.pending l ≠ 0 := fun none => empty (List.eq_nil_of_length_eq_zero none)
      rw [if_neg pending]
      have less := served.less sound
      -- Had the cycle run no task, the queue would have been empty before, and still be.
      have progress : ran ≠ 0 := by
        intro none
        obtain ⟨rfl, before⟩ := idle none
        exact empty before
      obtain ⟨z, more, served', rest⟩ := ih served.sound served.looking (by omega)
      exact ⟨z, ran + more, served.trans served', rest⟩

/-- The turn of a loop thread. -/
theorem exists_turn (sound : x.Sound t l) (waiting : x.stage = .waiting)
    (reason : (x.world.loop l).queue ≠ [] ∨ (x.world.loop l).closed = true) :
    ∃ y, x.Turn runTask t l y ∧ y.means ≤ x.means ∧
      turn runTask l t x.world = (.ok (), y.world) := by
  have wake := Advance.wake (t := t) waiting reason
  obtain ⟨y, ran, served, empty, eq⟩ :=
    served_runUntilHalt respects _ (wake.sound sound) rfl (Nat.lt_succ_self _)
  have driven : runUntilHalt runTask l (World.drivingFuel
      (x.world.onThread t fun th => { th with busy := true }) l) t
      (x.world.onThread t fun th => { th with busy := true }) = _ := eq
  simp only [turn, bind_apply, change_apply, read_apply, driven]
  by_cases closed : (y.world.loop l).closed = true
  · have leave := Advance.leave (t := t) served.looking empty closed
    refine ⟨_, ⟨waiting, wake, served.serves, leave, rfl⟩, ?_, ?_⟩
    · have idle :=
        served.sound.reserved.setSlots (u := t) (f := fun th => { th with busy := false })
        fun _ => ⟨rfl, rfl⟩
      have allowance := (aside_leave idle empty).allowance
      exact Nat.le_trans (Nat.le_of_eq (congrArg (y.accepted.length + ·) allowance)) served.means
    · simp only [closed, if_true]
      rfl
  · have rest := Advance.rest (t := t) served.looking empty (Bool.eq_false_iff.mpr closed)
    exact ⟨_, ⟨waiting, wake, served.serves, rest, rfl⟩, served.means, by simp [closed]⟩

end Own

/-! ## All loop threads -/

section Turns

variable (respects : RunTask.Respects t l runTask)

include respects

/-- A loop thread takes its turn if it wants it, and otherwise nothing happens. -/
theorem takeTurn_eq (sound : x.Sound t l) (u : ThreadId) :
    ∃ y, x.Passes t l 0 y ∧ takeTurn runTask t u x.world = (.ok (), y.world) ∧
      (if x.world.wantsTurn t then x.Turn runTask t l y else y = x) := by
  rw [takeTurn, bind_apply, read_apply, sound.servedLoop?]
  simp only [bind_apply, read_apply]
  by_cases wants : x.world.wantsTurn t = true
  · obtain ⟨waiting, reason⟩ := sound.wantsTurn_iff.mp wants
    obtain ⟨y, turn, means, eq⟩ := exists_turn respects sound waiting reason
    obtain ⟨depth, rfl⟩ := respects.depth
    refine ⟨y, ⟨.single (.turn turn), ?_, means⟩, by simp [wants, eq], by simp [wants, turn]⟩
    obtain ⟨_, _, _, _, idle⟩ := turn
    rw [waiting]
    cases stage : y.stage with
    | waiting => exact .same _
    | left => exact .gone
    | looking | running =>
      rw [stage] at idle
      contradiction
  · exact ⟨x, .refl x, by simp [wants], by simp [wants]⟩

theorem respects_takeTurn (v : ThreadId) : (takeTurn runTask v).Respects t l n := by
  intro u x sound
  by_cases same : v = t
  · subst same
    obtain ⟨y, passes, eq, _⟩ := takeTurn_eq respects sound u
    exact ⟨y, passes.mono (Nat.zero_le n), by rw [eq]⟩
  · rw [takeTurn, bind_apply, read_apply]
    cases served : x.world.servedLoop? v with
    | none => exact .refl x
    | some k =>
      simp only [bind_apply, read_apply]
      split
      · refine leads_turn respects ?_ sound same
        rintro rfl
        exact same ((sound.reserved.serves v).mp (servedLoop?_eq_some.mp served))
      · exact .refl x

theorem respects_settle (fuel : Nat) : (settle runTask fuel).Respects t l n := by
  induction fuel with
  | zero => exact .pure ()
  | succ fuel ih =>
    refine (Respects.read _).bind fun next => ?_
    cases next with
    | none => exact .pure ()
    | some v => exact (respects_takeTurn respects v).bind fun _ => ih

theorem respects_settleAll : (settleAll runTask).Respects t l n :=
  (Respects.read _).bind fun _ => respects_settle respects _

theorem respects_stopLoopThread (v : ThreadId) : (stopLoopThread runTask v).Respects t l n := by
  refine (Respects.read _).bind fun served => ?_
  cases served with
  | none => exact .pure _
  | some k =>
    exact (Respects.change fun u _ reserved => aside_shutdownLoop reserved u k).bind fun _ =>
      (respects_takeTurn respects v).bind fun _ => (Respects.read _).bind fun mine =>
        .ite ((Respects.log ..).bind fun _ => .pure _) (.read _)

end Turns

end Act

end DeferredCalls
