import DeferredCalls.Proofs.Service

/-!
# Loop threads under a fair scheduler

No loop thread can be kept from its tasks by what others do. All that is asked for is weak fairness:
a thread that could go on all the time does go on at some time. Then every task that was accepted
comes to its end, and a loop thread leaves its loop after it was closed.

Both are the same argument. The thread owes the first tasks that were accepted, and the end of a
closed loop; whatever it does by itself brings it nearer to that, and nobody else can put it off.
-/

namespace DeferredCalls

open World

namespace Stage

/-- How many things a thread has to do by itself before it has left a closed loop, or is at the
point where it takes the next task. -/
def rank : Stage → Nat
  | waiting | running _ => 2
  | looking => 1
  | left => 0

end Stage

namespace Service

/-- The thread is not done with the first tasks that were accepted: one of them has not come to its
end, or the loop is closed after them and the thread has not left it. -/
inductive Owes (l : LoopId) (count : Nat) (x : Service) : Prop
  | task : count ≤ x.accepted.length → x.ended.length < count → Owes l count x
  | leave : x.accepted.length = count → (x.world.loop l).closed = true → x.stage ≠ .left →
    Owes l count x

/-- How much of it is ahead. -/
def ahead (count : Nat) (x : Service) : Nat :=
  2 * (count - x.started.length) + x.stage.rank

/-- A service that goes on forever, under a scheduler that is fair to the thread. -/
structure FairRun (t : ThreadId) (l : LoopId) (x : Service) (run : Nat → Service) : Prop where
  first : run 0 = x
  step : ∀ n, Step t l (run n) (run (n + 1))
  fair : ∀ n, (∀ m, n ≤ m → ∃ y, (run m).Advance t l y) →
    ∃ m, n ≤ m ∧ (run m).Advance t l (run (m + 1))

variable {t : ThreadId} {l : LoopId} {x y : Service} {count n m : Nat} {run : Nat → Service}

/-! ## One step -/

/-- Between two tasks, all that were started have ended. -/
theorem Sound.ended_eq (sound : x.Sound t l) (between : x.stage.current = []) :
    x.ended = x.started := by
  rw [sound.started, between, List.append_nil]

/-- A task that a thread owes while it runs none is queued. -/
theorem Sound.queue_ne_nil (sound : x.Sound t l) (between : x.stage.current = [])
    (few : x.ended.length < x.accepted.length) : (x.world.loop l).queue ≠ [] := by
  intro empty
  rw [sound.accepted, empty, List.append_nil, sound.ended_eq between] at few
  exact Nat.lt_irrefl _ few

/-- As long as a thread owes something it can go on. -/
theorem exists_advance (sound : x.Sound t l) (owes : x.Owes l count) :
    ∃ y, x.Advance t l y := by
  match stage : x.stage with
  | .running _ => exact ⟨_, .finish stage⟩
  | .waiting =>
    refine ⟨_, .wake stage ?_⟩
    cases owes with
    | task accepted few =>
      exact .inl (sound.queue_ne_nil (by rw [stage]; rfl) (Nat.lt_of_lt_of_le few accepted))
    | leave _ closed _ => exact .inr closed
  | .looking =>
    match queued : (x.world.loop l).queue, closed : (x.world.loop l).closed with
    | [], true => exact ⟨_, .leave stage queued closed⟩
    | [], false => exact ⟨_, .rest stage queued closed⟩
    | task :: rest, _ =>
      obtain ⟨w, taken⟩ : ∃ w, x.world.dequeue? l = some (task, w) := by
        rw [dequeue?, queued]
        exact ⟨_, rfl⟩
      exact ⟨_, .take stage taken⟩
  | .left =>
    cases owes with
    | task accepted few =>
      have queued := sound.queue_ne_nil (by rw [stage]; rfl) (Nat.lt_of_lt_of_le few accepted)
      exact absurd (sound.left stage).2 queued
    | leave _ _ there => exact absurd stage there

/-- What the thread does by itself brings it nearer to what it owes. -/
theorem Advance.ahead_lt (advance : x.Advance t l y) (sound : x.Sound t l)
    (owes : x.Owes l count) : y.ahead count < x.ahead count := by
  cases advance with
  | wake waiting _ =>
    simp only [ahead, waiting, Stage.rank]
    omega
  | @take task w looking taken =>
    -- The task that is taken is one of those that are owed.
    have started : x.started.length < count := by
      cases owes with
      | task _ few => rwa [sound.ended_eq (by rw [looking]; rfl)] at few
      | leave all _ _ =>
        obtain ⟨_, rest, queued, _⟩ := of_dequeue? taken
        rw [← all, sound.accepted, queued, List.length_append, List.length_cons]
        omega
    simp only [ahead, looking, Stage.rank, List.length_append, List.length_singleton]
    omega
  | finish running =>
    simp only [ahead, running, Stage.rank]
    omega
  | rest looking empty opened =>
    cases owes with
    | task accepted few =>
      have queued := sound.queue_ne_nil (by rw [looking]; rfl) (Nat.lt_of_lt_of_le few accepted)
      exact absurd empty queued
    | leave _ closed _ =>
      rw [opened] at closed
      contradiction
  | leave looking _ _ =>
    simp only [ahead, looking, Stage.rank]
    omega

/-- Nobody can put it off. -/
theorem Step.ahead_le (step : x.Step t l y) (sound : x.Sound t l) (owes : x.Owes l count) :
    y.ahead count ≤ x.ahead count := by
  cases step with
  | others _ => exact Nat.le_refl _
  | own advance => exact Nat.le_of_lt (advance.ahead_lt sound owes)

/-! ## A fair run -/

namespace FairRun

variable (fair : x.FairRun t l run)

include fair

theorem path (later : n ≤ m) : (run n).Path t l (run m) := by
  induction m, later using Nat.le_induction with
  | base => exact .refl
  | succ m _ ih => exact .tail ih (fair.step m)

theorem sound (sound : x.Sound t l) (n : Nat) : (run n).Sound t l := by
  have path := fair.path (Nat.zero_le n)
  rw [fair.first] at path
  exact path.sound sound

theorem ahead_le (sound : x.Sound t l) (later : n ≤ m)
    (owes : ∀ k, n ≤ k → (run k).Owes l count) : (run m).ahead count ≤ (run n).ahead count := by
  induction m, later using Nat.le_induction with
  | base => exact Nat.le_refl _
  | succ m later ih =>
    exact Nat.le_trans ((fair.step m).ahead_le (fair.sound sound m) (owes m later)) ih

/-- At some time nothing of it is owed any more. The induction is on what is ahead: if the thread
owed it forever, it could go on all the time, so it would go on, and there would be less ahead. -/
theorem exists_not_owes (sound : x.Sound t l) (count n : Nat) :
    ∃ m, n ≤ m ∧ ¬ (run m).Owes l count := by
  induction measure : (run n).ahead count using Nat.strong_induction_on generalizing n with
  | h size ih =>
    subst measure
    by_contra! owes
    obtain ⟨m, later, advance⟩ := fair.fair n fun m later =>
      exists_advance (fair.sound sound m) (owes m later)
    have less : (run (m + 1)).ahead count < (run n).ahead count :=
      Nat.lt_of_lt_of_le (advance.ahead_lt (fair.sound sound m) (owes m later))
        (fair.ahead_le sound later owes)
    obtain ⟨k, later', done⟩ := ih _ less (m + 1) rfl
    exact done (owes k (by omega))

/-- Every task that was accepted comes to its end. -/
theorem ends (sound : x.Sound t l) {i : Nat} (accepted : i < (run n).accepted.length) :
    ∃ m, n ≤ m ∧ i < (run m).ended.length := by
  obtain ⟨m, later, done⟩ := fair.exists_not_owes sound (i + 1) n
  have grown := ((fair.path later).precedes (fair.sound sound n)).accepted.length_le
  refine ⟨m, later, ?_⟩
  by_contra few
  exact done (.task (by omega) (by omega))

/-- Once the loop is closed, the thread leaves it. -/
theorem leaves (sound : x.Sound t l) (closed : ((run n).world.loop l).closed = true) :
    ∃ m, n ≤ m ∧ (run m).stage = .left := by
  obtain ⟨m, later, done⟩ := fair.exists_not_owes sound (run n).accepted.length n
  obtain ⟨still, same⟩ := ((fair.path later).precedes (fair.sound sound n)).closed closed
  refine ⟨m, later, ?_⟩
  by_contra there
  exact done (.leave (by rw [same]) still there)

end FairRun

/-- The scheduler can be fair: it lets the thread go on whenever it can. -/
theorem exists_fairRun (sound : x.Sound t l) : ∃ run, x.FairRun t l run := by
  have next (y : { y : Service // y.Sound t l }) : ∃ z : { z : Service // z.Sound t l },
      Step t l y.1 z.1 ∧ ((∃ v, y.1.Advance t l v) → y.1.Advance t l z.1) := by
    obtain ⟨y, sound⟩ := y
    by_cases able : ∃ v, y.Advance t l v
    · obtain ⟨v, advance⟩ := able
      exact ⟨⟨v, advance.sound sound⟩, .own advance, fun _ => advance⟩
    · have idle := Step.others (Aside.refl sound.reserved).toMeanwhile
      exact ⟨⟨_, idle.sound sound⟩, idle, fun some => absurd some able⟩
  choose next step advance using next
  refine ⟨fun n => (next^[n] ⟨x, sound⟩).1, rfl, fun n => ?_, fun n able => ⟨n, Nat.le_refl n, ?_⟩⟩
  · rw [Function.iterate_succ_apply']
    exact step _
  · rw [Function.iterate_succ_apply']
    exact advance _ (able n (Nat.le_refl n))

end Service

end DeferredCalls
