import DeferredCalls.Proofs.Cycles

/-!
# Driving a loop until it is closed

A closed loop accepts nothing, so every cycle that takes a task leaves fewer in the queue, whatever
its tasks do and however often they drive the loop themselves. Driving it until it is closed
therefore comes to an end, after at most one cycle for each task that was queued. Driving a loop
that is open comes to this end if it is closed in the meantime, and only then.
-/

namespace DeferredCalls

open Holding Moment

section Driving

variable {runTask : RunTask} {l : LoopId} {t : ThreadId} {w w' : World} {H : Multiset Holding}

/-! ## Single cycles -/

/-- Who has a share of a loop in hand keeps it in use. -/
theorem Moment.Ready.loop_used (ready : Ready ⟨w, H⟩ t) (held : share (.loop l) ∈ H) :
    0 < w.loops.shares l :=
  ready.consistent.balanced.alive_of_mem (Multiset.mem_add.mpr (.inr held))
    (List.mem_singleton_self (Share.loop l))

namespace Act

variable {M : Manner}

/-- What a cycle over a closed loop leaves in the queue is less than there was, since it takes a
task if there is one and none is accepted meanwhile. -/
theorem pending_runPending_lt (lawful : runTask.Lawful M) (ready : Ready ⟨w, H⟩ t)
    (held : share (.loop l) ∈ H) (closed : (w.loop l).closed = true) :
    ∃ n w', runPending runTask l t w = (.ok n, w') ∧ Ready ⟨w', H⟩ t ∧
      (w'.loop l).closed = true ∧ (w'.pending l ≠ 0 → w'.pending l < w.pending l) := by
  obtain ⟨takings, w', cycle⟩ := Cycle.exists_of_lawful (l := l) lawful ready (w.cycleLimit l)
  obtain ⟨course, loops⟩ := cycle.course_runPending lawful.known ready
  rw [cycle.runPending_eq] at course loops
  simp only at course loops
  have after := ready.after course
  have known := Arena.lt_size_of_shares_pos (ready.loop_used held)
  have used := after.loop_used held
  obtain ⟨y, there, becomes⟩ := course.becomes ready.consistent (World.loopState_of_lt known)
  have account : (w.loop l).queue ++ accepted l (toldOf l takings) =
      started l (toldOf l takings) ++ ((w'.cycled l t takings.length).loop l).queue :=
    (course.queue_eq ready.consistent known used).2
  rw [becomes.rejects closed, List.append_nil] at account
  refine ⟨_, _, cycle.runPending_eq, after, ?_, fun left => ?_⟩
  · rw [(World.of_loopState there).2.1, becomes.closed]
    exact (congrArg (· || _) closed).trans (Bool.true_or _)
  have some : takings ≠ [] := by
    rintro rfl
    obtain ⟨rfl, empty⟩ := cycle.idle
    exact left (congrArg List.length empty)
  have taken : (takings.map Taking.task).length ≤ (started l (toldOf l takings)).length :=
    sublist_started.length_le
  have count := congrArg List.length account
  rw [List.length_append] at count
  rw [List.length_map] at taken
  have := List.length_pos_iff.mpr some
  simp only [World.pending]
  omega

/-! ## Cycle after cycle -/

/-- Where the fuel did not suffice, more of it goes on from there. -/
theorem runUntilHalt_add {fuel : Nat} (more : Nat)
    (short : runUntilHalt runTask l fuel t w = (.ok none, w')) :
    runUntilHalt runTask l (fuel + more) t w = runUntilHalt runTask l more t w' := by
  induction fuel generalizing w with
  | zero =>
    obtain rfl := congrArg Prod.snd short
    rw [Nat.zero_add]
    rfl
  | succ fuel ih =>
    obtain ⟨n, w₁, cycle⟩ : ∃ n w₁, runPending runTask l t w = (.ok n, w₁) :=
      exists_runPending_eq w
    rw [runUntilHalt_succ cycle] at short
    rw [Nat.succ_add, runUntilHalt_succ cycle]
    split
    · next empty =>
      rw [if_pos empty] at short
      split at short
      · simp at short
      · simp at short
    · next queued =>
      rw [if_neg queued] at short
      exact ih short

/-- Driving a closed loop comes to its end, with a cycle to spare for each queued task. -/
theorem runUntilHalt_of_closed (lawful : runTask.Lawful M) (ready : Ready ⟨w, H⟩ t)
    (held : share (.loop l) ∈ H) (closed : (w.loop l).closed = true) {fuel : Nat}
    (enough : w.pending l < fuel) :
    (runUntilHalt runTask l fuel t w).1 = .ok (some .closed) := by
  induction fuel generalizing w with
  | zero => contradiction
  | succ fuel ih =>
    obtain ⟨n, w', cycle, after, still, fewer⟩ := pending_runPending_lt lawful ready held closed
    rw [runUntilHalt_succ cycle, if_pos still]
    split
    · rfl
    · next left =>
      have := fewer left
      exact ih after still (by omega)

end Act

end Driving

open Act in
/-- Driving a closed loop until it is closed comes to its end, whatever the budget and the tasks. It
is cycle after cycle, in which exactly the tasks that were queued are started, in order and each
once, and each of them is run; every post to the loop is rejected, and the queue is empty in the
end. Driving a loop that is open comes to its end only with the loop closed and its queue empty, and
then every task that was queued or accepted has been started, in order, and run; and it does come to
its end if the loop is closed in the meantime. -/
theorem driving_halts_when_closed {runs : RunTask → Prop} {runTask : RunTask}
    (lawful : runTask.Lawful (.diligent runs)) {l : LoopId} {t : ThreadId} {w : World}
    {H : Multiset Holding} (ready : Ready ⟨w, H⟩ t) (held : share (.loop l) ∈ H) :
    ((w.loop l).closed = true → ∀ fuel, w.pending l < fuel →
      ∃ takings w', Driven runs runTask l t H w takings w' ∧
        runUntilHalt runTask l fuel t w =
          (.ok (some .closed), w'.log t .debug "event loop shut down" [w'.loopField l]) ∧
        started l (toldOf l takings) = (w.loop l).queue ∧
        (∀ task answer, .post (.loop l) task answer ∈ toldOf l takings → answer = false) ∧
        (w'.loop l).queue = []) ∧
    (∀ fuel final, runUntilHalt runTask l fuel t w = (.ok (some .closed), final) →
      (final.loop l).closed = true ∧ (final.loop l).queue = [] ∧
      ∃ takings w', Driven runs runTask l t H w takings w' ∧
        final = w'.log t .debug "event loop shut down" [w'.loopField l] ∧
        started l (toldOf l takings) = (w.loop l).queue ++ accepted l (toldOf l takings)) ∧
    (∀ fuel, ((runUntilHalt runTask l fuel t w).2.loop l).closed = true →
      ∃ enough, (runUntilHalt runTask l enough t w).1 = .ok (some .closed)) := by
  have known := Arena.lt_size_of_shares_pos (ready.loop_used held)
  -- What was queued or accepted is what was started, since nothing is left.
  have account {takings : List Taking} {w' : World}
      (driven : Driven runs runTask l t H w takings w') (empty : (w'.loop l).queue = []) :
      started l (toldOf l takings) = (w.loop l).queue ++ accepted l (toldOf l takings) := by
    have used := (ready.after driven.course).loop_used held
    have whole := (driven.course.queue_eq ready.consistent known used).2
    rw [empty, List.append_nil] at whole
    exact whole.symm
  refine ⟨fun closed fuel enough => ?_, fun fuel final halted => ?_, fun fuel closed => ?_⟩
  · have ends := runUntilHalt_of_closed lawful ready held closed enough
    obtain ⟨takings, answer, w', drive, eq, halts⟩ :=
      exists_drive_runUntilHalt (l := l) lawful fuel ready
    have driven := drive.driven lawful.known ready
    rw [eq] at ends
    obtain rfl := Except.ok.inj ends
    obtain ⟨empty, _⟩ := halts _ rfl
    obtain ⟨_, _, becomes⟩ :=
      driven.course.becomes ready.consistent (World.loopState_of_lt known)
    have rejects : accepted l (toldOf l takings) = [] := becomes.rejects closed
    have starts := account driven empty
    rw [rejects, List.append_nil] at starts
    refine ⟨takings, w', driven, eq, starts, fun task answer posted => ?_, empty⟩
    cases answer with
    | false => rfl
    | true =>
      have member : task ∈ accepted l (toldOf l takings) :=
        List.mem_flatMap.mpr ⟨_, posted, by simp [Operation.accepted]⟩
      rw [rejects] at member
      contradiction
  · obtain ⟨takings, answer, w', drive, eq, halts⟩ :=
      exists_drive_runUntilHalt (l := l) lawful fuel ready
    have driven := drive.driven lawful.known ready
    obtain ⟨answered, rfl⟩ := Prod.mk.inj (eq.symm.trans halted)
    obtain rfl := Except.ok.inj answered
    obtain ⟨empty, closed⟩ := halts _ rfl
    have same := (w'.keeps_log t .debug "event loop shut down" [w'.loopField l]).loop l
    refine ⟨?_, ?_, takings, w', driven, rfl, account driven empty⟩
    · exact (congrArg EventLoop.closed same).trans (closed.mpr rfl)
    · exact (congrArg EventLoop.queue same).trans empty
  · obtain ⟨takings, answer, w', drive, eq, halts⟩ :=
      exists_drive_runUntilHalt (l := l) lawful fuel ready
    rw [eq] at closed
    cases answer with
    | none =>
      have after := ready.after (drive.driven lawful.known ready).course
      refine ⟨fuel + (w'.pending l + 1), ?_⟩
      rw [runUntilHalt_add _ eq]
      exact runUntilHalt_of_closed lawful after held closed (Nat.lt_succ_self _)
    | some halt =>
      cases halt with
      | closed => exact ⟨fuel, congrArg Prod.fst eq⟩
      | waiting => exact absurd ((halts _ rfl).2.mp closed) (by decide)

namespace Closing

open Act

/-- Four tasks wait for a closed loop that takes one of them in a cycle. The first one posts another
task, the second one panics, the third one drives the loop itself and closes it again. -/
def prepare : Act Unit := script (performer 3)
  [("loop", .newLoop "day" { cycleBudget := 1 }), ("handle", .newLoopHandle "door" "day"),
    ("first", .post "day" false (some "first")
      [("late", .post "day" false (some "late") [] .normal [])] .normal []),
    ("second", .post "day" false (some "second") [] (.panic ⟨none⟩) []),
    ("third", .post "day" false (some "third")
      [("drive", .runPending "day"), ("again", .shutdown "door")] .normal []),
    ("fourth", .post "day" false (some "fourth") [] .normal []),
    ("close", .shutdown "door")]

/-- The world in which somebody has a share of the loop, in order to drive it. -/
def world : World :=
  (prepare Session.driver (Session.start none)).2.acquire (.loop ⟨0⟩)

theorem ready : Ready ⟨world, {share (.loop ⟨0⟩)}⟩ Session.driver := by
  have prepared : Ready ⟨(prepare Session.driver (Session.start none)).2, 0⟩ Session.driver :=
    (Session.ready_start none).reaches
      (lawful_script (performer_lawful 3) _ (Session.ready_start none))
  exact prepared.after (.single (.acquire (s := .loop ⟨0⟩) (by decide +kernel)))

/-- The four tasks are started in order, the fourth one inside of the run of the third one, and each
of them is run; the post is rejected. -/
theorem halt_after_closing : ∃ takings w',
    Driven Session.runs (runTask (performer 3)) ⟨0⟩ Session.driver {share (.loop ⟨0⟩)} world
      takings w' ∧
    runUntilHalt (runTask (performer 3)) ⟨0⟩ 5 Session.driver world =
      (.ok (some .closed), w'.log Session.driver .debug "event loop shut down"
        [w'.loopField ⟨0⟩]) ∧
    (started ⟨0⟩ (toldOf ⟨0⟩ takings)).map Task.tag =
      [some "first", some "second", some "third", some "fourth"] ∧
    (∀ task answer, .post (.loop ⟨0⟩) task answer ∈ toldOf ⟨0⟩ takings → answer = false) ∧
    (w'.loop ⟨0⟩).queue = [] := by
  obtain ⟨halts, _, _⟩ := driving_halts_when_closed (l := ⟨0⟩)
    (runTask_lawful (Session.performer_diligent 3)) ready (Multiset.mem_singleton_self _)
  obtain ⟨takings, w', driven, halted, starts, rejects, empty⟩ :=
    halts (by decide +kernel) 5 (by decide +kernel)
  refine ⟨takings, w', driven, halted, ?_, rejects, empty⟩
  rw [starts]
  decide +kernel

end Closing

end DeferredCalls
