import DeferredCalls.Proofs.Running

/-!
# Posting is a course

Posting a task puts shares in its queue, which are made for it if the poster goes on using what it
holds. A post that is rejected gives them up again. Scheduling a call posts a task that runs it, or
else reports that this is the wrong thread.
-/

namespace DeferredCalls.Act

open Holding Moment

variable {M : Manner} {t : ThreadId} {w : World} {H : Multiset Holding}

theorem course_acquireAll {shares : List Share} (ready : Ready ⟨w, H⟩ t)
    (alive : ∀ k ∈ shares, 0 < w.shareCount k) :
    Course ⟨w, H⟩ [] ⟨w.acquireAll shares, ofShares shares + H⟩ := by
  induction shares generalizing w H with
  | nil =>
    rw [ofShares_nil, zero_add]
    exact .refl _
  | cons s shares ih =>
    have used := alive s (List.mem_cons_self ..)
    have first : Course ⟨w, H⟩ [] ⟨w.acquire s, share s ::ₘ H⟩ := .single (.acquire used)
    have rest := ih (ready.after first) fun k member => by
      rw [World.shareCount_acquire used]
      exact Nat.lt_of_lt_of_le (alive k (List.mem_cons_of_mem s member)) (Nat.le_add_right ..)
    rw [ofShares_cons, Multiset.cons_add, ← Multiset.add_cons]
    exact first.trans rest

theorem canPost_acquireAll {shares : List Share} {s : Scheduler} (there : w.CanPost s)
    (alive : ∀ k ∈ shares, 0 < w.shareCount k) : (w.acquireAll shares).CanPost s := by
  cases s with
  | loop l =>
    rw [World.CanPost, (World.keeps_acquireAll alive).loopCount]
    exact there
  | manual m =>
    induction shares generalizing w with
    | nil => exact there
    | cons k shares ih =>
      have used := alive k (List.mem_cons_self ..)
      have grows (j : Share) : w.shareCount j ≤ (w.acquire k).shareCount j := by
        rw [World.shareCount_acquire used]
        exact Nat.le_add_right ..
      refine ih (fun j member => ?_) (Nat.lt_of_lt_of_le there (grows (.manual m)))
      exact Nat.lt_of_lt_of_le (alive j (List.mem_cons_of_mem k member)) (grows j)

theorem course_post {s : Scheduler} {task : Task} (ready : Ready ⟨w, H⟩ t)
    (there : w.CanPost s) (alive : ∀ k ∈ task.shares, 0 < w.shareCount k) :
    Course ⟨w, H⟩ [.post s task ((w.acquireAll task.shares).post t s task).1.isOk]
      ⟨((w.acquireAll task.shares).post t s task).2, H⟩ :=
  (course_acquireAll ready alive).step (.post (canPost_acquireAll there alive))

theorem lawful_violate {s : Scheduler} {c : CallId} {weakly : Bool} :
    (violate s c weakly).Lawful M := by
  apply (Lawful.read _).bind
  intro detail
  apply (Lawful.log ..).bind
  intro _
  apply (Lawful.read _).bind
  intro response
  cases response with
  | panic => exact .panic _
  | log => exact .pure _

theorem alive_of_callTask {c : CallId} {weakly : Bool} {args : Option CallArgs}
    (used : 0 < w.calls.shares c) :
    ∀ k ∈ (World.callTask c weakly args).shares, 0 < w.shareCount k := by
  intro k member
  cases weakly with
  | true => contradiction
  | false =>
    obtain rfl : k = .call c := by simpa [World.callTask, Task.shares, Task.holds] using member
    exact used

theorem reaches_schedule {s : Scheduler} {c : CallId} {weakly : Bool} {args : Option CallArgs}
    (ready : Ready ⟨w, H⟩ t) (there : w.CanPost s) (used : 0 < w.calls.shares c) :
    Reaches ⟨w, H⟩ ⟨(schedule s c weakly args t w).2, H⟩ M := by
  have alive : ∀ k ∈ (World.callTask c weakly args).shares, 0 < w.shareCount k :=
    alive_of_callTask used
  have posted : Reaches ⟨w, H⟩ _ M := reaches_of_course (course_post ready there alive) (by simp)
  rw [schedule, bind_apply, read_apply]
  simp only
  split
  · refine reaches_bind posted (fun result _ => ?_) fun _ _ => rfl
    have after := ready.reaches posted
    cases result with
    | error e => exact Lawful.pure _ after
    | ok u => exact (Lawful.log ..).bind (fun _ => .pure _) after
  · exact lawful_violate ready

end DeferredCalls.Act
