import DeferredCalls.Proofs.Course

/-!
# Manners of execution

A course tells which tasks were taken from the queues of loops, but leaves open what became of them.
In a diligent course every such task is run there and then, from the world in which it was taken to
the one that its run makes of it; everything else that happens lies between these runs or inside of
them.

A manner of execution says which courses count, and in which ways tasks are run in them. What
actions do is derived once for all manners: they perform operations that take no task, and run the
tasks that they take. So each of the manners below comes with the same account of what every command
does.
-/

namespace DeferredCalls

open Holding

/-- No task is taken from the queue of a loop. -/
def Resting (ops : List Operation) : Prop :=
  ∀ l task, .start (.loop l) task ∉ ops

section Resting

variable {op : Operation} {ops more : List Operation} {w : World}

@[simp] theorem resting_nil : Resting [] :=
  fun _ _ => List.not_mem_nil

@[simp] theorem resting_cons :
    Resting (op :: ops) ↔ (∀ l task, op ≠ .start (.loop l) task) ∧ Resting ops := by
  simp only [Resting, List.mem_cons, not_or, forall_and, ne_eq, eq_comm]

@[simp] theorem resting_append : Resting (ops ++ more) ↔ Resting ops ∧ Resting more := by
  simp only [Resting, List.mem_append, not_or, forall_and]

/-- Giving up a share takes no task, though it may give up the tasks of a whole queue. -/
@[simp] theorem resting_releasing (s : Share) : Resting (w.releasing s) := by
  unfold World.releasing
  split
  · split <;> simp
  · split <;> simp
  · simp

/-- Neither do manual schedulers. -/
@[simp] theorem resting_takeAll (m : ManualId) (tasks : List Task) :
    Resting (tasks.map (.start (.manual m))) := by
  simp [Resting]

end Resting

/-- A course in which every task that is taken from the queue of a loop is run at once, by some
thread and in one of the given ways. What happens in the meantime belongs to its run. -/
inductive Diligent (runs : RunTask → Prop) : Moment → List Operation → Moment → Prop
  | refl (m : Moment) : Diligent runs m [] m
  | step {m m' m'' : Moment} {ops more : List Operation} :
    Diligent runs m ops m' → Step m' more m'' → Resting more → Diligent runs m (ops ++ more) m''
  | serve {m : Moment} {ops told : List Operation} {w w₁ : World} {H : Multiset Holding}
      {l : LoopId} {task : Task} {runTask : RunTask} {t : ThreadId} :
    Diligent runs m ops ⟨w, H⟩ → runs runTask → w.dequeue? l = some (task, w₁) →
    Diligent runs ⟨w₁, ofShares task.shares + H⟩ told ⟨(runTask task t w₁).2, H⟩ →
    Diligent runs m (ops ++ .start (.loop l) task :: told) ⟨(runTask task t w₁).2, H⟩

/-- What became of a task that was taken at some point of a course: it came from the head of the
queue, and was run at once. -/
inductive RunAt (runs : RunTask → Prop) (m : Moment) (before : List Operation) (l : LoopId)
    (task : Task) (after : List Operation) (m' : Moment) : Prop
  | intro {w w₁ : World} {H : Multiset Holding} {runTask : RunTask} {t : ThreadId}
      {told rest : List Operation} :
    Course m before ⟨w, H⟩ → runs runTask → w.dequeue? l = some (task, w₁) →
    Diligent runs ⟨w₁, ofShares task.shares + H⟩ told ⟨(runTask task t w₁).2, H⟩ →
    Course ⟨(runTask task t w₁).2, H⟩ rest m' → after = told ++ rest →
    RunAt runs m before l task after m'

namespace Diligent

variable {runs : RunTask → Prop} {m m' m'' : Moment} {ops more : List Operation} {l : LoopId}
  {task : Task}

protected theorem trans (first : Diligent runs m ops m') (second : Diligent runs m' more m'') :
    Diligent runs m (ops ++ more) m'' := by
  induction second with
  | refl =>
    rw [List.append_nil]
    exact first
  | step _ last resting ih =>
    rw [← List.append_assoc]
    exact .step (ih first) last resting
  | serve _ known taken ran ih _ =>
    rw [← List.append_assoc]
    exact .serve (ih first) known taken ran

/-- A task that is taken and run. -/
theorem course_serve {w w₁ w' : World} {H : Multiset Holding} {told : List Operation}
    (taken : w.dequeue? l = some (task, w₁))
    (ran : Course ⟨w₁, ofShares task.shares + H⟩ told ⟨w', H⟩) :
    Course ⟨w, H⟩ (.start (.loop l) task :: told) ⟨w', H⟩ :=
  (Course.single (.start taken)).trans ran

theorem course (diligent : Diligent runs m ops m') : Course m ops m' := by
  induction diligent with
  | refl m => exact .refl m
  | step _ last _ ih => exact ih.step last
  | serve _ _ taken _ before ran => exact before.trans (course_serve taken ran)

end Diligent

namespace RunAt

variable {runs : RunTask → Prop} {m m' m'' : Moment} {ops before after : List Operation}
  {l : LoopId} {task : Task}

/-- What happens later does not change what became of a task. -/
theorem append (ran : RunAt runs m before l task after m') (more : Course m' ops m'') :
    RunAt runs m before l task (after ++ ops) m'' := by
  obtain ⟨first, known, taken, run, rest, rfl⟩ := ran
  exact ⟨first, known, taken, run, rest.trans more, List.append_assoc ..⟩

/-- What happened before does not, either. -/
theorem prepend (earlier : Course m ops m') (ran : RunAt runs m' before l task after m'') :
    RunAt runs m (ops ++ before) l task after m'' := by
  obtain ⟨first, known, taken, run, rest, rfl⟩ := ran
  exact ⟨earlier.trans first, known, taken, run, rest, rfl⟩

end RunAt

/-- Where two lists one after the other have an element, it is in the first one or in the second
one. -/
theorem append_split {α : Type} {first second before after : List α} {a : α}
    (split : first ++ second = before ++ a :: after) :
    (∃ rest, first = before ++ a :: rest ∧ after = rest ++ second) ∨
      ∃ between, before = first ++ between ∧ second = between ++ a :: after := by
  obtain ⟨between, early, late⟩ | ⟨_ | ⟨_, rest⟩, early, late⟩ := List.append_eq_append_iff.mp split
  · exact .inr ⟨between, early, late⟩
  · rw [List.append_nil] at early
    exact .inr ⟨[], by rw [early, List.append_nil], late.symm⟩
  · obtain ⟨rfl, rfl⟩ := List.cons.inj late
    exact .inl ⟨rest, early, rfl⟩

/-- Wherever a diligent course tells that a task was taken, however deep inside the runs of others,
the task was run. -/
theorem Diligent.runAt {runs : RunTask → Prop} {m m' : Moment} {ops before after : List Operation}
    {l : LoopId} {task : Task} (diligent : Diligent runs m ops m')
    (split : ops = before ++ .start (.loop l) task :: after) :
    RunAt runs m before l task after m' := by
  induction diligent generalizing before after with
  | refl => simp at split
  | step earlier last resting ih =>
    rcases append_split split with ⟨rest, early, rfl⟩ | ⟨between, _, late⟩
    · exact (ih early).append (.single last)
    · exact absurd (by simp [late]) (resting l task)
  | @serve m ops told w w₁ H k first runTask t earlier known taken run ih inner =>
    rcases append_split split with ⟨rest, early, rfl⟩ | ⟨between, rfl, late⟩
    · exact (ih early).append (course_serve taken run.course)
    -- The task is the one that is taken here, or one that is taken inside of its run.
    · rcases List.append_eq_cons_iff.mp late.symm with ⟨rfl, here⟩ | ⟨between, rfl, there⟩
      · obtain ⟨same, rfl⟩ := List.cons.inj here
        obtain ⟨rfl, rfl⟩ : l = k ∧ task = first := by simpa using same
        rw [List.append_nil]
        exact ⟨earlier.course, known, taken, run, .refl _, (List.append_nil _).symm⟩
      · have started := earlier.course.step (.start taken)
        have whole := (inner there).prepend started
        rwa [List.append_assoc] at whole

/-! ## Manners -/

/-- A manner of execution: the courses that count, and the ways in which tasks are run in them. -/
structure Manner where
  runs : RunTask → Prop
  admits : Moment → List Operation → Moment → Prop
  refl (m : Moment) : admits m [] m
  trans {m m' m'' : Moment} {ops more : List Operation} :
    admits m ops m' → admits m' more m'' → admits m (ops ++ more) m''
  step {m m' : Moment} {ops : List Operation} : Step m ops m' → Resting ops → admits m ops m'
  serve {w w₁ : World} {H : Multiset Holding} {l : LoopId} {task : Task} {runTask : RunTask}
      {t : ThreadId} {told : List Operation} :
    runs runTask → w.dequeue? l = some (task, w₁) →
    admits ⟨w₁, ofShares task.shares + H⟩ told ⟨(runTask task t w₁).2, H⟩ →
    admits ⟨w, H⟩ (.start (.loop l) task :: told) ⟨(runTask task t w₁).2, H⟩
  sound {m m' : Moment} {ops : List Operation} : admits m ops m' → Course m ops m'

namespace Manner

/-- All courses count. -/
def course : Manner where
  runs _ := True
  admits := Course
  refl := .refl
  trans := .trans
  step last _ := .single last
  serve _ := Diligent.course_serve
  sound course := course

/-- Only diligent courses count. -/
def diligent (runs : RunTask → Prop) : Manner where
  runs := runs
  admits := Diligent runs
  refl := .refl
  trans := .trans
  step last resting := .step (.refl _) last resting
  serve known taken ran := .serve (.refl _) known taken ran
  sound := Diligent.course

/-- Only courses count in which no task of a loop is taken. -/
def resting : Manner where
  runs _ := False
  admits m ops m' := Course m ops m' ∧ Resting ops
  refl m := ⟨.refl m, resting_nil⟩
  trans first second := ⟨first.1.trans second.1, resting_append.mpr ⟨first.2, second.2⟩⟩
  step last resting := ⟨.single last, resting⟩
  serve known := known.elim
  sound := And.left

/-- A course in which no task is taken counts in all manners. -/
theorem admits_of_course (M : Manner) {m m' : Moment} {ops : List Operation}
    (course : Course m ops m') (resting : Resting ops) : M.admits m ops m' := by
  induction course with
  | refl => exact M.refl _
  | step _ last ih =>
    obtain ⟨earlier, here⟩ := resting_append.mp resting
    exact M.trans (ih earlier) (M.step last here)

end Manner

end DeferredCalls
