import DeferredCalls.Proofs.Order
import DeferredCalls.Proofs.Performing

/-!
# Not driving a loop

Who drives a loop starts its tasks. A course bypasses a loop if no task of the loop is started in
it. Posting, scheduling, closing loops and panicking are of this kind, and so is running a call
whose callable and sink are, on every way out of it. So tasks whose scripts make no more than such
requests bypass every loop, which can be checked before they are run.
-/

namespace DeferredCalls

open Holding Moment

theorem started_of_resting {ops : List Operation} (resting : Resting ops) (l : LoopId) :
    started l ops = [] := by
  refine List.flatMap_eq_nil_iff.mpr fun op member => ?_
  cases op with
  | start s task =>
    refine if_neg ?_
    rintro rfl
    exact resting l task member
  | _ => rfl

namespace Moment

variable {m m' : Moment}

/-- Whether a course in which no task of a loop is started leads from one moment to another. -/
def Bypasses (l : LoopId) (m m' : Moment) : Prop :=
  ∃ told, Course m told m' ∧ started l told = []

/-- Where no task of any loop is taken, all loops are bypassed. -/
theorem Reaches.bypasses (reaches : m.Reaches m' .resting) (l : LoopId) : m.Bypasses l m' := by
  obtain ⟨told, course, resting⟩ := reaches
  exact ⟨told, course, started_of_resting resting l⟩

end Moment

/-- Whether a script consists of requests. -/
def Script.requests (body : Script) : Bool :=
  body.all fun p => p.2.requests

/-- Whether a task, if a thread runs it now, runs a script that consists of requests. -/
def World.requestsOnly (w : World) (t : ThreadId) : Task → Bool
  | .strong c _ => (((w.entered t c).callables.get (w.callableOf c)).body).requests
  | .weak c _ =>
    ((((w.acquire (.call c)).entered t c).callables.get (w.callableOf c)).body).requests
  | .job j => Script.requests j.body

namespace Act

variable {M : Manner} {t : ThreadId} {w : World} {H : Multiset Holding}

theorem lawful_performer_request (depth : Nat) {command : Command}
    (requests : command.requests = true) : (performer depth command).Lawful M := by
  cases depth with
  | zero => exact .pure _
  | succ depth => exact lawful_spend (lawful_request requests)

/-- A task that makes nothing but requests is lawful in any manner, however it ends. -/
theorem reaches_runTask_of_requests (depth : Nat) {task : Task}
    (ready : Ready ⟨w, ofShares task.shares + H⟩ t) (requests : w.requestsOnly t task = true) :
    Reaches ⟨w, ofShares task.shares + H⟩ ⟨(runTask (performer depth) task t w).2, H⟩ M := by
  have commands {body : Script} (requests : body.requests = true) :
      ∀ p ∈ body, (performer depth p.2).Lawful M := fun p member =>
    lawful_performer_request depth (List.all_eq_true.mp requests p member)
  cases task with
  | strong c args =>
    refine reaches_releaseRun ready ?_
    refine reaches_runInvoking lawful_emit ready ready.consistent.balanced.shareCount_pos ?_
    exact fun K entered => reaches_invoke_of_mem entered (commands requests)
  | weak c args =>
    have nothing : ofShares (Task.weak c args).shares + H = H := zero_add H
    rw [nothing] at ready ⊢
    refine reaches_runWeakly ready fun strongly => reaches_releaseRun strongly ?_
    refine reaches_runInvoking lawful_emit strongly strongly.consistent.balanced.shareCount_pos ?_
    have same : (w.acquire (.call c)).callableOf c = w.callableOf c := by
      rw [World.callableOf, World.acquire, Arena.get_addShare, ← World.callableOf]
    rw [same]
    exact fun K entered => reaches_invoke_of_mem entered (commands requests)
  | job j => exact reaches_job ready (commands requests)

end Act

end DeferredCalls
