import DeferredCalls.Proofs.Driving

/-!
# Manual schedulers and loop threads

Running a manual scheduler is lawful if tasks are run lawfully, and so is letting loop threads take
their turns, however much the tasks themselves drive loops.
-/

namespace DeferredCalls

open Holding Moment

namespace Act

variable {M : Manner} {t : ThreadId} {w : World} {H : Multiset Holding} {runTask : RunTask}
  {l : LoopId}

/-! ## Running manual schedulers -/

theorem reaches_releaseCalls {cs : List CallId} (ready : Ready ⟨w, ofShares (cs.map .call) + H⟩ t) :
    Reaches ⟨w, ofShares (cs.map .call) + H⟩ ⟨w.releaseCalls t cs, H⟩ M := by
  induction cs generalizing w with
  | nil =>
    rw [List.map_nil, ofShares_nil, zero_add]
    exact .refl _
  | cons c cs ih =>
    rw [List.map_cons, ofShares_cons, Multiset.cons_add] at ready ⊢
    have first : Reaches ⟨w, share (.call c) ::ₘ (ofShares (cs.map .call) + H)⟩
        ⟨w.releaseCall t c, ofShares (cs.map .call) + H⟩ M :=
      reaches_release ready
    exact first.trans (ih (ready.reaches first))

theorem reaches_releaseTasks {tasks : List Task}
    (ready : Ready ⟨w, ofShares (queueShares tasks) + H⟩ t) :
    Reaches ⟨w, ofShares (queueShares tasks) + H⟩ ⟨w.releaseTasks t tasks, H⟩ M := by
  induction tasks generalizing w with
  | nil =>
    rw [queueShares, List.flatMap_nil, ofShares_nil, zero_add]
    exact .refl _
  | cons task tasks ih =>
    rw [queueShares, List.flatMap_cons, ofShares_append, add_assoc] at ready ⊢
    have first := reaches_releaseCalls (M := M) ready
    exact first.trans (ih (ready.reaches first))

/-- Tasks that are run in order use up what they hold, also those that do not get their turn. -/
theorem reaches_runInOrder (lawful : runTask.Lawful M) {tasks : List Task}
    (ready : Ready ⟨w, ofShares (queueShares tasks) + H⟩ t) :
    Reaches ⟨w, ofShares (queueShares tasks) + H⟩ ⟨(runInOrder runTask tasks t w).2, H⟩ M := by
  induction tasks generalizing w with
  | nil =>
    rw [queueShares, List.flatMap_nil, ofShares_nil, zero_add]
    exact .refl _
  | cons task tasks ih =>
    rw [queueShares, List.flatMap_cons, ofShares_append, add_assoc] at ready ⊢
    have first := lawful.run ready
    have after := ready.reaches first
    simp only [runInOrder]
    rcases result : runTask task t w with ⟨p | u, w'⟩
    · rw [result] at first after
      exact first.trans (reaches_releaseTasks after)
    · rw [result] at first after
      exact first.trans (ih after)

theorem reaches_runManual (lawful : runTask.Lawful M) {m : ManualId} (ready : Ready ⟨w, H⟩ t)
    (alive : 0 < w.manuals.shares m) :
    Reaches ⟨w, H⟩ ⟨(runManual runTask m t w).2, H⟩ M := by
  have first : Reaches ⟨w, H⟩
      ⟨w.emptyManual m, ofShares (queueShares (w.queueOf (.manual m))) + H⟩ M :=
    reaches_of_step (.takeAll alive) (by simp)
  have second := reaches_runInOrder lawful (ready.reaches first)
  have after := ready.reaches (first.trans second)
  refine first.trans (reaches_bind second ?_ ?_)
  · intro _ _
    exact Lawful.pure _ after
  · intro _ _
    rfl

/-! ## Loop threads -/

theorem inside_of_servedLoop? (serves : w.servedLoop? t = some l) :
    t.index < w.threads.size := by
  by_contra outside
  have nobody : w.thread t = default := Arena.get_of_size_le (Nat.le_of_not_lt outside)
  rw [World.servedLoop?_eq_some, nobody] at serves
  contradiction

/-- A loop thread that has come to the end of its loop gives up its share of it. -/
theorem reaches_leaveLoop (ready : Ready ⟨w, H⟩ t) (serves : w.servedLoop? t = some l)
    (idle : (w.thread t).busy = false) (working : (w.thread t).finished = false) :
    Reaches ⟨w, H⟩ ⟨(leaveLoop l t w).2, H⟩ M := by
  have logged : Reaches ⟨w, H⟩
      ⟨w.log t .debug "event loop thread exiting" [w.loopField l], H⟩ M :=
    reaches_of_course (ready.consistent.log ..) (by simp)
  have same := (w.keeps_log t .debug "event loop thread exiting" [w.loopField l]).thread (u := t)
  rw [leaveLoop_apply]
  generalize w.log t .debug "event loop thread exiting" [w.loopField l] = w₁ at logged same ⊢
  rw [World.servedLoop?_eq_some, ← same, ← World.servedLoop?_eq_some] at serves
  rw [← same] at idle working
  have left : Reaches ⟨w₁, H⟩
      ⟨w₁.onThread t fun th => { th with finished := true }, share (.loop l) ::ₘ H⟩ M :=
    reaches_of_step (.finish (ready.reaches logged).inside serves idle working) (by simp)
  have first := logged.trans left
  exact first.trans (reaches_release (ready.reaches first))

theorem reaches_turn (lawful : runTask.Lawful M) (ready : Ready ⟨w, H⟩ t)
    (serves : w.servedLoop? t = some l) (idle : (w.thread t).busy = false)
    (working : (w.thread t).finished = false) :
    Reaches ⟨w, H⟩ ⟨(turn runTask l t w).2, H⟩ M := by
  have begun : Reaches ⟨w, H⟩
      ⟨w.onThread t fun th => { th with busy := true }, Holding.turn t ::ₘ H⟩ M :=
    reaches_of_step (.beginTurn ready.inside idle working) (by simp)
  simp only [turn, bind_apply, change_apply, read_apply]
  generalize w.onThread t (fun th => { th with busy := true }) = w₁ at begun ⊢
  have driven := lawful_runUntilHalt (l := l) lawful (w₁.drivingFuel l) (ready.reaches begun)
  obtain ⟨halt, w₂, result⟩ : ∃ halt w₂,
      runUntilHalt runTask l (w₁.drivingFuel l) t w₁ = (.ok halt, w₂) := exists_runUntilHalt_eq ..
  rw [result] at driven ⊢
  have atEnd := ready.reaches (begun.trans driven)
  have ended : Reaches ⟨w₂, Holding.turn t ::ₘ H⟩
      ⟨w₂.onThread t fun th => { th with busy := false }, H⟩ M :=
    reaches_of_step (.endTurn atEnd.inside) (by simp)
  have whole := (begun.trans driven).trans ended
  have after := ready.reaches whole
  obtain ⟨_, admitted⟩ := id whole
  have role := ((M.sound admitted).follows ready.consistent).role t ready.inside
  simp only
  split
  · refine whole.trans (reaches_leaveLoop after ?_ ?_ ?_)
    · rw [World.servedLoop?_eq_some, role]
      exact World.servedLoop?_eq_some.mp serves
    · rw [World.thread_onThread_self atEnd.inside]
    · have busy := atEnd.consistent.turns t
      rw [World.thread_onThread_self atEnd.inside]
      refine atEnd.consistent.working t ?_
      by_contra rest
      rw [if_neg rest, Multiset.count_cons_self] at busy
      contradiction
  · exact whole

theorem lawful_takeTurn (lawful : runTask.Lawful M) (u : ThreadId) :
    (takeTurn runTask u).Lawful M := by
  intro t w H ready
  rw [takeTurn, bind_apply, read_apply]
  match serves : w.servedLoop? u with
  | none => exact Lawful.pure _ ready
  | some l =>
    simp only [bind_apply, read_apply]
    split
    · next wants =>
      have atRest : (w.thread u).busy = false ∧ (w.thread u).finished = false := by
        rw [World.wantsTurn] at wants
        split at wants
        · contradiction
        · simp_all
      have inside := inside_of_servedLoop? serves
      exact reaches_turn lawful (ready.on inside) serves atRest.1 atRest.2
    · exact Lawful.pure _ ready

theorem lawful_settle (lawful : runTask.Lawful M) (fuel : Nat) :
    (settle runTask fuel).Lawful M := by
  induction fuel with
  | zero => exact .pure ()
  | succ fuel ih =>
    apply (Lawful.read _).bind
    intro next
    cases next with
    | none => exact .pure ()
    | some u => exact (lawful_takeTurn lawful u).bind fun _ => ih

theorem lawful_settleAll (lawful : runTask.Lawful M) : (settleAll runTask).Lawful M :=
  (Lawful.read _).bind fun _ => lawful_settle lawful _

theorem lawful_shutdownLoop (l : LoopId) :
    (change fun t w => w.shutdownLoop t l).Lawful M :=
  fun t _ _ _ => reaches_of_step (.shutdown t l) (by simp)

theorem lawful_stopLoopThread (lawful : runTask.Lawful M) (u : ThreadId) :
    (stopLoopThread runTask u).Lawful M := by
  apply (Lawful.read _).bind
  intro served
  cases served with
  | none => exact .pure _
  | some l =>
    exact (lawful_shutdownLoop l).bind fun _ => (lawful_takeTurn lawful u).bind fun _ =>
      (Lawful.read _).bind fun mine =>
        .ite (fun _ => (Lawful.log ..).bind fun _ => .pure _) fun _ => .read _

end Act

end DeferredCalls
