import DeferredCalls.Proofs.Unaware
import DeferredCalls.Session.Run

/-!
# Cycles and turns that are unaware of a veil

What is done with named objects, the cycles of a loop and the turns of loop threads are unaware of a
veil if tasks are. Where a loop thread takes its turn, it is one that the veil does not hide, since
it does not wait.
-/

namespace DeferredCalls

open World

/-! ## Named objects -/

/-- A drawer that is the same under a veil. -/
structure Drawer.Passes {α : Type} (V : Veil) (d : Drawer α) : Prop where
  look : ∀ ⦃t : ThreadId⦄ ⦃w : World⦄, V.hidden t = none → d.look t (w.under V) = d.look t w
  fill : ∀ table ⦃t : ThreadId⦄ ⦃w : World⦄, V.hidden t = none → V.Fits w →
    d.fill t (w.under V) table = (d.fill t w table).under V ∧ w.Touches t (d.fill t w table)
  discard : ∀ a ⦃t : ThreadId⦄ ⦃w : World⦄, V.hidden t = none → V.Fits w →
    d.discard t (w.under V) a = (d.discard t w a).under V ∧ w.Touches t (d.discard t w a)

namespace Drawer

variable {α : Type} {V : Veil} {d : Drawer α}

theorem Passes.find? {t : ThreadId} {w : World} (passes : d.Passes V) (own : V.hidden t = none)
    (name : String) : d.find? t (w.under V) name = d.find? t w name := by
  rw [Drawer.find?, passes.look own, Drawer.find?]

theorem Passes.put (passes : d.Passes V) (name : String) (a : α) : V.Passes (d.put name a) := by
  intro t w own fits
  obtain ⟨filled, touches⟩ := passes.fill ((d.look t w).insert name a) own fits
  rw [Drawer.put, Drawer.put, passes.find? own, passes.look own, filled]
  match d.find? t w name with
  | none => exact ⟨rfl, touches⟩
  | some b =>
    obtain ⟨discarded, touches'⟩ := passes.discard b own (fits.touches own touches)
    exact ⟨discarded, touches.trans touches'⟩

theorem Passes.drop (passes : d.Passes V) (name : String) : V.Passes (d.drop name) := by
  intro t w own fits
  obtain ⟨filled, touches⟩ := passes.fill ((d.look t w).erase name) own fits
  rw [Drawer.drop, Drawer.drop, passes.find? own]
  match d.find? t w name with
  | none => exact ⟨rfl, .refl w⟩
  | some a =>
    obtain ⟨discarded, touches'⟩ := passes.discard a own (fits.touches own touches)
    refine ⟨?_, touches.trans touches'⟩
    simp only [Drawer.take, passes.look own, filled]
    exact discarded

theorem Passes.clear (passes : d.Passes V) : V.Passes d.clear := by
  intro t w own fits
  rw [Drawer.clear, Drawer.clear, passes.look own]
  generalize (d.look t w).names = names
  induction names generalizing w with
  | nil => exact ⟨rfl, .refl w⟩
  | cons name names ih =>
    obtain ⟨dropped, touches⟩ := passes.drop name own fits
    obtain ⟨eq, touches'⟩ := ih (fits.touches own touches)
    rw [List.foldl_cons, List.foldl_cons, dropped]
    exact ⟨eq, touches.trans touches'⟩

theorem passes_common {look : Names → NameTable α} {fill : Names → NameTable α → Names}
    {discard : ThreadId → World → α → World} (discarded : ∀ a, V.Passes fun t w => discard t w a) :
    (common look fill discard).Passes V where
  look _ _ _ := rfl
  fill _ _ _ _ _ := ⟨rfl, .of_threads rfl⟩
  discard := discarded

theorem passes_own {look : Thread → NameTable α} {fill : Thread → NameTable α → Thread}
    {discard : ThreadId → World → α → World} (discarded : ∀ a, V.Passes fun t w => discard t w a) :
    (Drawer.own look fill discard).Passes V where
  look _ _ own := congrArg look (thread_under own)
  fill _ _ _ own _ := ⟨onThread_under own _, .onThread _⟩
  discard := discarded

theorem passes_nothing : V.Passes fun _ w => w :=
  Act.passes_of_threads (fun _ _ => rfl) fun _ _ => rfl

theorem passes_contexts : contexts.Passes V :=
  passes_common fun s t w own _ =>
    ⟨releaseSnapshot_under own s, (Touches.refl w).sheds (w.sheds_releaseSnapshot t s)⟩

theorem passes_callables : callables.Passes V :=
  passes_common fun c => Act.passes_release (.callable c)

theorem passes_handles : handles.Passes V :=
  passes_common fun h t w own _ =>
    ⟨releaseHandle_under own h, (Touches.refl w).sheds (w.sheds_releaseHandle t h)⟩

theorem passes_sinks : sinks.Passes V :=
  passes_common fun _ => passes_nothing

theorem passes_calls : calls.Passes V :=
  passes_common fun c => Act.passes_release (.call c)

theorem passes_weaks : weaks.Passes V :=
  passes_common fun _ => passes_nothing

theorem passes_loopHandles : loopHandles.Passes V :=
  passes_common fun _ => passes_nothing

theorem passes_manuals : manuals.Passes V :=
  passes_common fun m => Act.passes_release (.manual m)

theorem passes_guards : guards.Passes V :=
  passes_own fun g t w own _ => ⟨dropGuard_under own g, w.touches_dropGuard t g⟩

theorem passes_loops : loops.Passes V :=
  passes_own fun l => Act.passes_release (.loop l)

end Drawer

namespace Act

variable {V : Veil} {α β : Type} {d : Drawer α} {name : String} {runTask : RunTask}
  {self : Performer} {l : LoopId}

theorem answers_withNamed {f : α → Act Reply} (passes : d.Passes V)
    (rest : ∀ a, (f a).Answers V) : (withNamed d name f).Answers V := by
  refine .andThen (.read fun _ _ own => passes.find? own name) fun found => ?_
  cases found with
  | none => exact .pure rfl
  | some a => exact rest a

theorem answers_withOptional {f : Option α → Act Reply} {name : Option String} (passes : d.Passes V)
    (rest : ∀ a, (f a).Answers V) : (withOptional d name f).Answers V := by
  cases name with
  | none => exact rest none
  | some name => exact answers_withNamed passes fun a => rest (some a)

theorem unaware_put (passes : d.Passes V) (name : String) (a : α) : (put d name a).Unaware V :=
  .change (passes.put name a)

theorem answers_dropNamed (passes : d.Passes V) : (dropNamed d name).Answers V :=
  answers_withNamed passes fun _ => (Shows.change (passes.drop name)).andThen fun _ => .pure rfl

theorem scheduler?_under {t : ThreadId} {w : World} (own : V.hidden t = none) (onlyHandle : Bool) :
    scheduler? name onlyHandle t (w.under V) = scheduler? name onlyHandle t w := by
  simp only [scheduler?, Drawer.passes_loopHandles.find? own, Drawer.passes_loops.find? own,
    Drawer.passes_manuals.find? own]

theorem answers_withScheduler {onlyHandle : Bool} {f : Scheduler → Act Reply}
    (rest : ∀ s, (f s).Answers V) : (withScheduler name onlyHandle f).Answers V := by
  refine .andThen (.read fun _ _ own => scheduler?_under own onlyHandle) fun found => ?_
  cases found with
  | none => exact .pure rfl
  | some s => exact rest s

theorem unaware_callsNamed (names : List String) : (callsNamed names).Unaware V := by
  refine .read fun t w own => ?_
  simp only [Drawer.passes_calls.find? own]
  rfl

/-! ## Cycles -/

theorem unaware_dequeue (l : LoopId) : (dequeue l).Unaware V := by
  refine .update fun t w _ _ => ?_
  rw [dequeue?_under]
  match taken : w.dequeue? l with
  | none => exact ⟨rfl, .refl w⟩
  | some (task, w') =>
    obtain ⟨_, rest, _, rfl⟩ := of_dequeue? taken
    exact ⟨rfl, .of_threads rfl⟩

section Cycles

variable (unaware : runTask.Unaware V)

include unaware

theorem unaware_runContained (l : LoopId) (task : Task) :
    (runContained runTask l task).Unaware V := by
  refine (unaware task).attemptPlain.andThen fun ended => ?_
  cases ended with
  | ok _ => exact .pure rfl
  | error p => exact .log fun _ => rfl

theorem unaware_runTasks (l : LoopId) (limit : Nat) : (runTasks runTask l limit).Unaware V := by
  induction limit with
  | zero => exact .pure rfl
  | succ limit ih =>
    refine (unaware_dequeue l).andThen fun task => ?_
    cases task with
    | none => exact .pure rfl
    | some task =>
      exact (unaware_runContained unaware l task).andThen fun _ => ih.andThen fun _ => .pure rfl

theorem unaware_runPending (l : LoopId) : (runPending runTask l).Unaware V := by
  refine .andThen (.read fun _ _ _ => rfl) fun limit =>
    (unaware_runTasks unaware l limit).andThen fun ran => .ite ?_ (.pure rfl)
  exact (Shows.log fun _ => rfl).andThen fun _ => .pure rfl

theorem unaware_runUntilIdle (l : LoopId) (fuel : Nat) :
    (runUntilIdle runTask l fuel).Unaware V := by
  induction fuel with
  | zero => exact .pure rfl
  | succ fuel ih =>
    exact (unaware_runPending unaware l).andThen fun ran =>
      .ite (.pure rfl) (ih.andThen fun _ => .pure rfl)

theorem unaware_runUntilHalt (l : LoopId) (fuel : Nat) :
    (runUntilHalt runTask l fuel).Unaware V := by
  induction fuel with
  | zero => exact .pure rfl
  | succ fuel ih =>
    refine (unaware_runPending unaware l).andThen fun _ =>
      .andThen (.read fun _ _ _ => rfl) fun idle => .ite ?_ ih
    refine .andThen (.read fun _ _ _ => rfl) fun closed => .ite ?_ (.pure rfl)
    exact (Shows.log fun _ => rfl).andThen fun _ => .pure rfl

theorem unaware_runInOrder (tasks : List Task) : (runInOrder runTask tasks).Unaware V := by
  induction tasks with
  | nil => exact .pure rfl
  | cons task rest ih =>
    intro t w own fits
    obtain ⟨eq, fits'⟩ := unaware task own fits
    simp only [runInOrder]
    rw [eq]
    match result : runTask task t w with
    | (.ok _, w') =>
      rw [result] at fits'
      exact ih own fits'
    | (.error p, w') =>
      rw [result] at fits'
      refine ⟨Prod.ext rfl (releaseTasks_under own rest), ?_⟩
      exact fits'.touches own ((Touches.refl w').sheds (w'.sheds_releaseTasks t rest))

theorem unaware_runManual (m : ManualId) : (runManual runTask m).Unaware V := by
  have taken : (takeTasks m).Unaware V :=
    .update fun _ _ _ _ => ⟨rfl, .of_threads rfl⟩
  exact taken.andThen fun tasks => (unaware_runInOrder unaware tasks).andThen fun _ => .pure rfl

end Cycles

/-! ## Turns -/

/-- An action whose rest may count on what is true of every result of its first part. -/
theorem Shows.bindWhere {seen : β → β} {m : Act α} {f f' : α → Act β} (fact : α → Prop)
    (first : m.Unaware V) (holds : ∀ ⦃t : ThreadId⦄ ⦃w : World⦄, V.hidden t = none → V.Fits w →
      ∀ a, (m t w).1 = .ok a → fact a)
    (rest : ∀ a, fact a → (f a).Shows V seen (f' a)) : (m >>= f).Shows V seen (m >>= f') := by
  intro t w own fits
  obtain ⟨eq, fits'⟩ := first own fits
  have known := holds own fits
  rw [bind_apply, bind_apply, eq]
  match result : m t w with
  | (.ok a, w') =>
    rw [result] at fits' known
    exact rest a (known a rfl) own fits'
  | (.error p, w') =>
    rw [result] at fits'
    exact ⟨rfl, fits'⟩

theorem unaware_leaveLoop (l : LoopId) : (leaveLoop l).Unaware V := by
  refine (Shows.log fun _ => rfl).andThen fun _ => .change fun t w own _ => ?_
  rw [onThread_under own, release_under own]
  exact ⟨rfl, Touches.trans (.onThread _) (touches_release ..)⟩

section Turns

variable (turns : V.turns = true) (unaware : runTask.Unaware V)

include unaware

theorem unaware_turn (l : LoopId) : (turn runTask l).Unaware V := by
  have flag (f : Thread → Thread) : (change fun t w => w.onThread t f).Unaware V :=
    .change fun _ _ own _ => ⟨onThread_under own f, .onThread f⟩
  exact (flag _).andThen fun _ => .andThen (.read fun _ _ _ => rfl) fun fuel =>
    (unaware_runUntilHalt unaware l fuel).andThen fun halt => (flag _).andThen fun _ =>
      .ite (unaware_leaveLoop l) (.pure rfl)

include turns

/-- A loop thread that takes its turn is not hidden. -/
theorem unaware_takeTurn (u : ThreadId) : (takeTurn runTask u).Unaware V := by
  refine .andThen (.read fun _ _ _ => servedLoop?_under) fun served => ?_
  cases served with
  | none => exact .pure rfl
  | some l =>
    refine .bindWhere (fun wants => wants = true → V.hidden u = none)
      (.read fun _ _ _ => wantsTurn_under) (fun t w _ fits wants result => ?_) fun wants fact => ?_
    · obtain rfl : w.wantsTurn u = wants := Except.ok.inj result
      exact own_of_wantsTurn fits turns
    · split
      · next yes => exact (unaware_turn unaware l).on (fact yes)
      · exact .pure rfl

theorem unaware_settle (fuel : Nat) : (settle runTask fuel).Unaware V := by
  induction fuel with
  | zero => exact .pure rfl
  | succ fuel ih =>
    refine .andThen (.read fun _ _ _ => nextTurn?_under) fun next => ?_
    cases next with
    | none => exact .pure rfl
    | some u => exact (unaware_takeTurn turns unaware u).andThen fun _ => ih

theorem unaware_settleAll : (settleAll runTask).Unaware V :=
  .andThen (.read fun _ _ _ => settlingFuel_under) fun fuel => unaware_settle turns unaware fuel

theorem unaware_stopLoopThread (u : ThreadId) : (stopLoopThread runTask u).Unaware V := by
  refine .andThen (.read fun _ _ _ => servedLoop?_under) fun served => ?_
  cases served with
  | none => exact .pure rfl
  | some l =>
    have closed : (change fun t w => w.shutdownLoop t l).Unaware V :=
      .change fun t w own _ => ⟨shutdownLoop_under own l, w.touches_shutdownLoop t l⟩
    refine closed.andThen fun _ => (unaware_takeTurn turns unaware u).andThen fun _ =>
      .andThen (.read fun _ _ _ => rfl) fun t => .ite ?_ (.read fun t w own => ?_)
    · exact (Shows.log fun _ => rfl).andThen fun _ => .pure rfl
    · rw [finished_under]
      rfl

end Turns

end Act

end DeferredCalls
