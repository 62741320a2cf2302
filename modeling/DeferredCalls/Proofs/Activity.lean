import DeferredCalls.Proofs.Ambient
import DeferredCalls.Proofs.Settling

/-!
# Runs in progress

At a moment of an execution, code of an embedder is at work inside some runs, which were entered and
not left yet, and inside some tasks, which were started and are not over. A run in progress holds a
share of its callable, the guard of its install, and the duty to take its call off the stack; a task
holds the shares that came with it. Whatever else is in somebody's hands belongs to the embedder.

The moments of an execution are those that come about by entering runs and leaving them, innermost
first on each thread, by starting tasks and being done with them, and by anything else that takes no
part in the stacks of calls. At each of these moments the stack of calls of a thread is made of the
runs that are in progress on it.
-/

namespace DeferredCalls

open Holding Moment Act

/-- A run in progress. -/
structure Run where
  thread : ThreadId
  call : CallId
  callable : CallableId
  /-- How many calls stood on the stack when the run was entered. -/
  level : Nat
  /-- The guard of the install that the run made. -/
  guard : Guard
  deriving DecidableEq

namespace Run

/-- What a run has in its hands. -/
def holdings (r : Run) : Multiset Holding :=
  {.guard r.thread r.guard, .entry r.thread r.level r.call, .share (.callable r.callable)}

/-- What a run makes of a world when it is over: its guard is given up, then its call leaves the
stack, and then the share of the callable is given up. -/
def leave (r : Run) (w : World) : World :=
  ((w.dropGuard r.thread r.guard).leaveCalls r.thread r.level).release r.thread
    (.callable r.callable)

end Run

/-- What is going on at a moment. -/
structure Activity where
  /-- The runs in progress on all threads, the one that was entered last first. -/
  runs : List Run := []
  /-- The tasks that were started and are not over. -/
  tasks : List Task := []
  /-- What the embedder has in its hands. -/
  own : Multiset Holding := 0

namespace Activity

/-- Everything that is in somebody's hands. -/
def held (a : Activity) : Multiset Holding :=
  (a.runs.map Run.holdings).sum + ofShares (queueShares a.tasks) + a.own

/-- The runs in progress on a thread, outermost first. -/
def on (a : Activity) (t : ThreadId) : List Run :=
  (a.runs.filter (·.thread = t)).reverse

end Activity

/-- The run that a thread enters for a call. -/
def World.runOf (w : World) (t : ThreadId) (c : CallId) : Run where
  thread := t
  call := c
  callable := w.callableOf c
  level := (w.callStack t).length
  guard := w.runGuard t

/-- The moments of an execution, with what is going on at each. -/
inductive AtWork : Activity → World → Prop
  | start (verbosity : Verbosity) : AtWork {} (Session.start verbosity)
  /-- Anything that neither enters nor leaves a run. -/
  | act {a : Activity} {w w' : World} {ops : List Operation} {own : Multiset Holding} :
    AtWork a w → (∀ t i c, own.count (entry t i c) = 0) →
    Course ⟨w, a.held⟩ ops ⟨w', { a with own }.held⟩ → AtWork { a with own } w'
  | enter {a : Activity} {w : World} {t : ThreadId} {c : CallId} :
    AtWork a w → t.index < w.threads.size → 0 < w.calls.shares c → w.callExists c = true →
    AtWork { a with runs := w.runOf t c :: a.runs } (w.entered t c)
  /-- On each thread it is the innermost run that is left. -/
  | leave {a : Activity} {w : World} {inner outer : List Run} {r : Run} :
    AtWork a w → a.runs = inner ++ r :: outer → (∀ x ∈ inner, x.thread ≠ r.thread) →
    AtWork { a with runs := inner ++ outer } (r.leave w)
  | take {a : Activity} {w w' : World} {l : LoopId} {task : Task} :
    AtWork a w → w.dequeue? l = some (task, w') →
    AtWork { a with tasks := task :: a.tasks } w'
  | takeAll {a : Activity} {w : World} {m : ManualId} :
    AtWork a w → 0 < w.manuals.shares m →
    AtWork { a with tasks := w.queueOf (.manual m) ++ a.tasks } (w.emptyManual m)
  | finish {a : Activity} {w : World} {before after : List Task} {task : Task} (t : ThreadId) :
    AtWork a w → t.index < w.threads.size → a.tasks = before ++ task :: after →
    AtWork { a with tasks := before ++ after } (w.releaseTask t task)

variable {a : Activity} {w w' : World} {t u : ThreadId} {c : CallId} {r : Run}

/-! ## What is in somebody's hands -/

namespace Activity

theorem held_enter {t : ThreadId} :
    { a with runs := w.runOf t c :: a.runs }.held = w.runHeld t c a.held := by
  simp only [held, List.map_cons, List.sum_cons, Run.holdings, World.runOf, World.runHeld,
    Multiset.insert_eq_cons, Multiset.cons_add, Multiset.singleton_add, add_assoc]

theorem held_leave {inner outer : List Run} (runs : a.runs = inner ++ r :: outer) :
    a.held = .guard r.thread r.guard ::ₘ .entry r.thread r.level r.call ::ₘ
      .share (.callable r.callable) ::ₘ { a with runs := inner ++ outer }.held := by
  simp only [held, runs, List.map_append, List.map_cons, List.sum_append, List.sum_cons,
    Run.holdings, Multiset.insert_eq_cons, ← Multiset.singleton_add]
  ac_rfl

theorem held_take {tasks : List Task} :
    { a with tasks := tasks ++ a.tasks }.held = ofShares (queueShares tasks) + a.held := by
  simp only [held, queueShares, List.flatMap_append, ofShares_append]
  ac_rfl

theorem held_finish {before after : List Task} {task : Task}
    (tasks : a.tasks = before ++ task :: after) :
    a.held = ofShares task.shares + { a with tasks := before ++ after }.held := by
  simp only [held, tasks, queueShares, List.flatMap_append, List.flatMap_cons, ofShares_append]
  ac_rfl

theorem on_enter : { a with runs := r :: a.runs }.on u =
    if u = r.thread then a.on u ++ [r] else a.on u := by
  by_cases mine : u = r.thread
  · simp [on, mine]
  · simp [on, mine, Ne.symm mine]

theorem on_leave {inner outer : List Run} (runs : a.runs = inner ++ r :: outer)
    (innermost : ∀ x ∈ inner, x.thread ≠ r.thread) (u : ThreadId) :
    a.on u = if u = r.thread then { a with runs := inner ++ outer }.on u ++ [r]
      else { a with runs := inner ++ outer }.on u := by
  by_cases mine : u = r.thread
  · subst mine
    have none : inner.filter (·.thread = r.thread) = [] := by
      rw [List.filter_eq_nil_iff]
      intro x member
      simp [innermost x member]
    simp [on, runs, none]
  · simp [on, runs, mine, Ne.symm mine]

end Activity

/-! ## Every moment comes about by operations -/

/-- What is true at every moment: it is reached by operations, only runs have duties to take calls
off a stack, and on each thread the runs in progress are numbered by their levels. -/
structure AtWork.Sound (a : Activity) (w : World) : Prop where
  reached : ∃ verbosity, Reaches (.start verbosity) ⟨w, a.held⟩
  own : ∀ t i c, a.own.count (entry t i c) = 0
  callStack : ∀ t, w.callStack t = (a.on t).map Run.call
  level : ∀ t, (a.on t).map Run.level = List.range (a.on t).length

section Leaving

variable {H : Multiset Holding}

/-- Leaving is the last part of a run, when its call is on top of the stack. -/
theorem reaches_leave
    (ready : Ready ⟨w, .guard r.thread r.guard ::ₘ entry r.thread r.level r.call ::ₘ
      share (.callable r.callable) ::ₘ H⟩ r.thread)
    (top : (w.callStack r.thread).length = r.level + 1) :
    Reaches ⟨w, .guard r.thread r.guard ::ₘ entry r.thread r.level r.call ::ₘ
      share (.callable r.callable) ::ₘ H⟩ ⟨r.leave w, H⟩ := by
  have dropped := reaches_of_step (M := .course) (.dropGuard (g := r.guard)
    (H := entry r.thread r.level r.call ::ₘ share (.callable r.callable) ::ₘ H) ready.inside)
    (by simp)
  have same : (w.dropGuard r.thread r.guard).callStack r.thread = w.callStack r.thread :=
    congrArg Prod.fst (World.steady_dropGuard.duties r.thread)
  have ready₁ := ready.reaches dropped
  have left := dropped.trans (reaches_of_step (.leave ready₁.inside (by rw [same, top])) (by simp))
  have ready₂ := ready.reaches left
  exact left.trans (reaches_release ready₂)

theorem World.callStack_leave (inside : r.thread.index < w.threads.size) (u : ThreadId) :
    (r.leave w).callStack u =
      if u = r.thread then (w.callStack u).take r.level else w.callStack u := by
  have same (u : ThreadId) : (w.dropGuard r.thread r.guard).callStack u = w.callStack u :=
    congrArg Prod.fst (steady_dropGuard.duties u)
  have inside' : r.thread.index < (w.dropGuard r.thread r.guard).threads.size := by
    rwa [size_threads_dropGuard]
  rw [Run.leave, release, (keeps_releaseCallable ..).callStack, callStack_leaveCalls inside', same]

end Leaving

theorem World.callStack_start (verbosity : Verbosity) (t : ThreadId) :
    (Session.start verbosity).callStack t = [] := by
  simp only [World.callStack, World.thread, Session.start, Arena.get_push]
  split <;> rfl

namespace AtWork

theorem Sound.consistent (sound : Sound a w) : Moment.Consistent ⟨w, a.held⟩ := by
  obtain ⟨verbosity, ops, course⟩ := sound.reached
  exact course.consistent (consistent_start verbosity)

/-- Operations after which everybody has the same duties go on soundly. -/
theorem Sound.goesOn {b : Activity} (sound : Sound a w) (runs : b.runs = a.runs)
    (own : ∀ t i c, b.own.count (entry t i c) = 0)
    (reaches : Reaches ⟨w, a.held⟩ ⟨w', b.held⟩) : Sound b w' := by
  obtain ⟨verbosity, reached⟩ := sound.reached
  obtain ⟨ops, course⟩ := reaches
  have on (t : ThreadId) : b.on t = a.on t := by rw [Activity.on, runs, ← Activity.on]
  refine ⟨⟨verbosity, reached.trans ⟨ops, course⟩⟩, own, fun t => ?_, fun t => ?_⟩
  · rw [on, ← sound.callStack t]
    refine sound.consistent.callStack_congr (course.consistent sound.consistent) ?_ t
    intro t i c
    simp only [Activity.held, Multiset.count_add, count_entry_ofShares, own, sound.own, runs]
  · rw [on, sound.level]

section Innermost

variable {inner outer : List Run}

/-- The innermost run of a thread is on top of its stack of calls. -/
theorem Sound.innermost (sound : Sound a w) (runs : a.runs = inner ++ r :: outer)
    (innermost : ∀ x ∈ inner, x.thread ≠ r.thread) :
    w.callStack r.thread =
      ({ a with runs := inner ++ outer }.on r.thread).map Run.call ++ [r.call] ∧
    r.level = ({ a with runs := inner ++ outer }.on r.thread).length ∧
    ({ a with runs := inner ++ outer }.on r.thread).map Run.level =
      List.range ({ a with runs := inner ++ outer }.on r.thread).length := by
  have stack := sound.callStack r.thread
  have levels := sound.level r.thread
  rw [Activity.on_leave runs innermost, if_pos rfl] at stack levels
  simp only [List.map_append, List.map_cons, List.map_nil, List.length_append,
    List.length_singleton, List.range_succ] at stack levels
  obtain ⟨lower, top⟩ := List.append_inj' levels rfl
  exact ⟨stack, List.singleton_inj.mp top, lower⟩

theorem Sound.inside (sound : Sound a w) (runs : a.runs = inner ++ r :: outer)
    (innermost : ∀ x ∈ inner, x.thread ≠ r.thread) : r.thread.index < w.threads.size := by
  obtain ⟨stack, _, _⟩ := sound.innermost runs innermost
  refine Arena.lt_size_of_ne Thread.callStack (ne_of_eq_of_ne stack ?_)
  exact List.append_ne_nil_of_right_ne_nil _ (List.cons_ne_nil _ _)

/-- Below the innermost run of a thread are the others. -/
theorem Sound.take_callStack (sound : Sound a w) (runs : a.runs = inner ++ r :: outer)
    (innermost : ∀ x ∈ inner, x.thread ≠ r.thread) (u : ThreadId) :
    (if u = r.thread then (w.callStack u).take r.level else w.callStack u) =
      ({ a with runs := inner ++ outer }.on u).map Run.call := by
  obtain ⟨stack, top, _⟩ := sound.innermost runs innermost
  split
  · next mine =>
    rw [mine, stack, top]
    simp
  · next other => rw [sound.callStack, Activity.on_leave runs innermost, if_neg other]

end Innermost

theorem sound (work : AtWork a w) : Sound a w := by
  induction work with
  | start verbosity =>
    exact ⟨⟨verbosity, .refl _⟩, fun _ _ _ => rfl, World.callStack_start verbosity, fun _ => rfl⟩
  | act _ own course before => exact before.goesOn rfl own ⟨_, course⟩
  | @enter a w t c _ inside used there before =>
    obtain ⟨verbosity, reached⟩ := before.reached
    have ready : Ready ⟨w, a.held⟩ t := ⟨before.consistent, inside⟩
    have entered : Reaches ⟨w, a.held⟩
        ⟨w.entered t c, { a with runs := w.runOf t c :: a.runs }.held⟩ := by
      rw [Activity.held_enter]
      exact ⟨_, course_entered ready used there⟩
    refine ⟨⟨verbosity, reached.trans entered⟩, before.own, fun u => ?_, fun u => ?_⟩
    · rw [callStacks_entered ready used there, Activity.on_enter, before.callStack]
      split <;> simp_all [World.runOf]
    · rw [Activity.on_enter]
      split
      · next mine =>
        subst mine
        have depth : (w.callStack u).length = (a.on u).length := by
          rw [before.callStack, List.length_map]
        simp [World.runOf, before.level, depth, List.range_succ]
      · exact before.level u
  | @leave a w inner outer r _ runs innermost before =>
    obtain ⟨verbosity, reached⟩ := before.reached
    obtain ⟨stack, top, lower⟩ := before.innermost runs innermost
    have length : (w.callStack r.thread).length = r.level + 1 := by
      rw [stack, top]
      simp
    have inside := before.inside runs innermost
    have left := reaches_leave (H := Activity.held ⟨inner ++ outer, a.tasks, a.own⟩)
      ⟨Activity.held_leave runs ▸ before.consistent, inside⟩ length
    rw [← Activity.held_leave runs] at left
    refine ⟨⟨verbosity, reached.trans left⟩, before.own, fun u => ?_, fun u => ?_⟩
    · rw [World.callStack_leave inside, before.take_callStack runs innermost]
    · by_cases mine : u = r.thread
      · rw [mine]
        exact lower
      · have levels := before.level u
        rwa [Activity.on_leave runs innermost, if_neg mine] at levels
  | @take a w w' l task _ taken before =>
    have started : Reaches _ _ := ⟨_, .single (.start (H := a.held) taken)⟩
    have held : { a with tasks := [task] ++ a.tasks }.held = _ := a.held_take
    rw [queueShares, List.flatMap_singleton] at held
    rw [← held] at started
    exact before.goesOn rfl before.own started
  | @takeAll a w m _ alive before =>
    refine before.goesOn rfl before.own ?_
    rw [Activity.held_take]
    exact reaches_of_step (.takeAll alive) (by simp)
  | @finish a w pre post task t _ inside tasks before =>
    have ready : Ready ⟨w, ofShares (task.holds.map .call) +
        Activity.held ⟨a.runs, pre ++ post, a.own⟩⟩ t :=
      ⟨Activity.held_finish tasks ▸ before.consistent, inside⟩
    have released := reaches_releaseCalls (M := .course) ready
    have held : a.held = ofShares (task.holds.map .call) + _ := Activity.held_finish tasks
    rw [← held] at released
    exact before.goesOn rfl before.own released

/-! ## Code at work -/

theorem ready (work : AtWork a w) (inside : t.index < w.threads.size) : Ready ⟨w, a.held⟩ t :=
  ⟨work.sound.consistent, inside⟩

/-- Whatever lawful code does leaves the runs and tasks in progress as they are. -/
theorem reaches (work : AtWork a w) (reaches : Reaches ⟨w, a.held⟩ ⟨w', a.held⟩) : AtWork a w' := by
  obtain ⟨ops, course⟩ := reaches
  exact work.act work.sound.own course

theorem lawful {α : Type} {m : Act α} (work : AtWork a w) (lawful : m.Lawful)
    (inside : t.index < w.threads.size) : AtWork a (m t w).2 :=
  work.reaches (lawful (work.ready inside))

theorem run {code : Embedder} (work : AtWork a w) (lawful : code.Lawful) (args : Option CallArgs)
    (inside : t.index < w.threads.size) (used : 0 < w.calls.shares c) :
    AtWork a (Act.run code c args t w).2 :=
  work.reaches (reaches_run lawful args (work.ready inside) used)

/-- While a callable is at work, its run is in progress. -/
theorem invoke {code : Embedder} (work : AtWork a w) (lawful : code.Lawful) (args : Option CallArgs)
    (inside : t.index < w.threads.size) (used : 0 < w.calls.shares c)
    (there : w.callExists c = true) :
    AtWork { a with runs := w.runOf t c :: a.runs }
      (code.invoke (w.callableOf c) args t (w.entered t c)).2 := by
  have entered := (work.ready inside).after (course_entered (work.ready inside) used there)
  exact (work.enter inside used there).lawful (lawful.invoke _ args) entered.inside

end AtWork

end DeferredCalls
