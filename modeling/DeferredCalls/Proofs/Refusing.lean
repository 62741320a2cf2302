import DeferredCalls.Call.Interface
import DeferredCalls.Proofs.Logging
import DeferredCalls.Proofs.Scheduling
import DeferredCalls.Proofs.Trail

/-!
# Refused requests

Who asks a loop to run a call is refused on any thread but the one of the loop, whatever the state
of the loop, and on that thread if and only if the loop is closed. A request that is refused leaves
nothing behind but an event: a task that was made for it is gone again, with its share of the call.
So all that is done afterwards is done as if the request had not been made.
-/

namespace DeferredCalls

namespace World

variable {w w' : World} {t : ThreadId} {c : CallId}

/-- Who looks for no events does not see that one was logged. -/
theorem upTo_none_log (t : ThreadId) (level : Level) (message : String)
    (fields : List (String × FieldValue)) :
    (w.log t level message fields).upTo none = w.upTo none := by
  have same := log_under (V := { limit := none }) (w := w) (t := t) rfl level message fields
  have lower : Verbosity.rank none ≤ w.verbosity.rank := Nat.zero_le _
  have silent : (w.upTo none).verbosity = none := Verbosity.least_of_le lower
  rw [under_limit, under_limit] at same
  rw [← same, log, silent]
  rfl

/-- What a request leaves behind that was refused. -/
structure Untouched (w w' : World) : Prop where
  /-- All objects, with their shares, queues and flags, and all threads, with their contexts and
  stacks, are as they were. -/
  journals : ∃ journal remoteJournal, w' = { w with journal, remoteJournal }
  /-- What does not ask for events goes on as if nothing had happened. -/
  action : ∀ {α : Type} {seen : α → α} {m : Act α}, m.LogsLess none seen → ∀ u,
    (m u w').1.map seen = (m u w).1.map seen ∧ (m u w').2.upTo none = (m u w).2.upTo none
  /-- In particular, whatever commands are performed, however deep scripts are nested, and whatever
  loop threads do meanwhile, callables are invoked as if nothing had happened. -/
  script : ∀ depth body u,
    (Act.performAll (Act.performer depth) body u w').1.map (Record.allUpTo none) =
        (Act.performAll (Act.performer depth) body u w).1.map (Record.allUpTo none) ∧
      (Act.performAll (Act.performer depth) body u w').2.upTo none =
        (Act.performAll (Act.performer depth) body u w).2.upTo none

theorem untouched_of_upTo
    (journals : ∃ journal remoteJournal, w' = { w with journal, remoteJournal })
    (same : w'.upTo none = w.upTo none) : w.Untouched w' := by
  have action : ∀ {α : Type} {seen : α → α} {m : Act α}, m.LogsLess none seen → ∀ u,
      (m u w').1.map seen = (m u w).1.map seen ∧
        (m u w').2.upTo none = (m u w).2.upTo none := by
    intro α seen m less u
    have whole := less u w'
    rw [same, less u w] at whole
    exact ⟨(congrArg Prod.fst whole).symm, (congrArg Prod.snd whole).symm⟩
  refine ⟨journals, action, fun depth body => action ?_⟩
  exact (Act.shows_performAll rfl (Act.performer_unaware rfl depth) body).logsLess

theorem untouched_refl (w : World) : w.Untouched w :=
  untouched_of_upTo ⟨w.journal, w.remoteJournal, rfl⟩ rfl

theorem untouched_log (t : ThreadId) (level : Level) (message : String)
    (fields : List (String × FieldValue)) : w.Untouched (w.log t level message fields) :=
  untouched_of_upTo (w.log_eq ..) (upTo_none_log ..)

/-! ## Posting the task that runs a call -/

variable {l : LoopId} {weakly : Bool} {args : Option CallArgs}

/-- A closed loop gives up the task at once, and with it the share of the call that was taken for
it. -/
theorem post_callTask_of_closed (used : 0 < w.calls.shares c) (closed : (w.loop l).closed = true) :
    (w.acquireAll (callTask c weakly args).shares).post t (.loop l) (callTask c weakly args) =
      (.error (.loopClosed (w.loop l).name), w) := by
  cases weakly with
  | true => exact if_pos closed
  | false =>
    have rejected : (w.acquire (.call c)).postToLoop t l (.strong c args) =
        (.error (.loopClosed (w.loop l).name), (w.acquire (.call c)).release t (.call c)) :=
      if_pos closed
    rw [release_acquire (k := .call c) used] at rejected
    exact rejected

theorem queueOf_enqueue {task : Task} (known : l.index < w.loops.size) (s : Scheduler) :
    (w.enqueue l task).queueOf s =
      if s = .loop l then w.queueOf s ++ [task] else w.queueOf s := by
  cases s with
  | loop k =>
    rw [queueOf, enqueue, Arena.get_modify known]
    by_cases same : k = l
    · subst same
      rw [if_pos rfl, if_pos rfl]
      rfl
    · rw [if_neg same, if_neg (by simpa using same)]
      rfl
  | manual m =>
    rw [if_neg (by simp)]
    rfl

end World

namespace Act

variable {w : World} {t : ThreadId} {c : CallId} {l : LoopId} {weakly : Bool}
  {args : Option CallArgs}

/-- What a loop answers to a request from another thread. -/
def violationAnswer (response : ViolationResponse) (detail : String) :
    Except Panic (Except Error Unit) :=
  match response with
  | .log => .ok (.error (.contractViolation detail))
  | .panic => .error ⟨some ("contract violation: " ++ detail)⟩

theorem schedule_elsewhere (other : (w.loop l).owner ≠ t) : schedule (.loop l) c weakly args t w =
    (violationAnswer (w.loop l).violation (w.violationDetail t c weakly),
      w.log t .error (w.violationDetail t c weakly) [World.callField c]) := by
  have undesignated : w.isDesignated t (.loop l) = false := beq_false_of_ne other
  rw [schedule, bind_apply, read_apply]
  simp only [undesignated, Bool.false_eq_true, if_false]
  rw [violate, bind_apply, read_apply]
  simp only [bind_apply, read_apply, log, change_apply]
  obtain ⟨_, _, eq⟩ := w.log_eq t .error (w.violationDetail t c weakly) [World.callField c]
  have response : (w.log t .error (w.violationDetail t c weakly) [World.callField c]).violationOf
      (.loop l) = (w.loop l).violation := by
    rw [eq]
    rfl
  rw [response]
  cases (w.loop l).violation with
  | panic => rfl
  | log => rfl

theorem schedule_of_closed (used : 0 < w.calls.shares c) (owner : (w.loop l).owner = t)
    (closed : (w.loop l).closed = true) : schedule (.loop l) c weakly args t w =
      (.ok (.error (.loopClosed (w.loop l).name)), w) := by
  have designated : w.isDesignated t (.loop l) = true := beq_iff_eq.mpr owner
  rw [schedule, bind_apply, read_apply]
  simp only [designated, if_true]
  rw [bind_apply, post, update_apply, World.post_callTask_of_closed used closed]
  rfl

/-- A request that is granted adds one task, at the tail of the queue of the loop. -/
theorem schedule_of_open (known : l.index < w.loops.size) (used : 0 < w.calls.shares c)
    (owner : (w.loop l).owner = t) (opened : (w.loop l).closed = false) :
    (schedule (.loop l) c weakly args t w).1 = .ok (.ok ()) ∧
      ∀ s, (schedule (.loop l) c weakly args t w).2.queueOf s =
        if s = .loop l then w.queueOf s ++ [World.callTask c weakly args] else w.queueOf s := by
  have designated : w.isDesignated t (.loop l) = true := beq_iff_eq.mpr owner
  have alive : ∀ k ∈ (World.callTask c weakly args).shares, 0 < w.shareCount k :=
    alive_of_callTask used
  have keeps := World.keeps_acquireAll alive
  have stillOpen :
      ((w.acquireAll (World.callTask c weakly args).shares).loop l).closed = false := by
    rw [World.loop, keeps.loop]
    exact opened
  have there : l.index < (w.acquireAll (World.callTask c weakly args).shares).loops.size := by
    rw [keeps.loopCount]
    exact known
  rw [schedule, bind_apply, read_apply]
  simp only [designated, if_true]
  rw [bind_apply, post, update_apply, World.post, World.postToLoop, if_neg (by simp [stillOpen])]
  refine ⟨rfl, fun s => ?_⟩
  simp only [bind_apply, log, change_apply, pure_apply]
  rw [(World.keeps_log ..).queueOf, (World.keeps_log ..).queueOf, World.queueOf_enqueue there,
    keeps.queueOf]

end Act

open Act in
/-- What comes of a request to run a call, however the loop is passed, strongly or weakly and with
or without arguments. From another thread than that of the loop it is a violation, whether the loop
is closed or not. From that thread it is refused if and only if the loop is closed; otherwise one
task is added at the tail of the queue. Unless it is granted, all is as it was before, and nothing
comes of it later. -/
theorem requests_leave_no_trace {w : World} {p : Passage} (known : p.loop.index < w.loops.size)
    {c : CallId} (used : 0 < w.calls.shares c) (weakly : Bool) (args : Option CallArgs)
    (t : ThreadId) :
    let loop := w.loop p.loop
    let ended := scheduleOn p.interface c weakly args t w
    scheduleOn p.interface c weakly args = schedule (.loop p.loop) c weakly args ∧
    (loop.owner ≠ t →
      ended.1 = violationAnswer loop.violation (w.violationDetail t c weakly) ∧
      w.Untouched ended.2) ∧
    (loop.owner = t →
      (ended.1 = .ok (.error (.loopClosed loop.name)) ↔ loop.closed = true) ∧
      (loop.closed = true → w.Untouched ended.2) ∧
      (loop.closed = false →
        ended.1 = .ok (.ok ()) ∧
        ∀ s, ended.2.queueOf s =
          if s = .loop p.loop then w.queueOf s ++ [World.callTask c weakly args]
          else w.queueOf s)) := by
  have alike : scheduleOn p.interface c weakly args = schedule (.loop p.loop) c weakly args := by
    rw [p.interface_eq, scheduleOn_interface]
  rw [alike]
  intro loop ended
  refine ⟨rfl, fun other => ?_, fun owner => ⟨⟨fun refused => ?_, fun closed => ?_⟩,
    fun closed => ?_, schedule_of_open known used owner⟩⟩
  · rw [show ended = _ from schedule_elsewhere other]
    exact ⟨rfl, World.untouched_log ..⟩
  · by_contra opened
    have granted : ended.1 = .ok (.ok ()) :=
      (schedule_of_open known used owner (eq_false_of_ne_true opened)).1
    rw [granted] at refused
    exact nomatch Except.ok.inj refused
  · rw [show ended = _ from schedule_of_closed used owner closed]
  · rw [show ended = _ from schedule_of_closed used owner closed]
    exact World.untouched_refl w

namespace Refusal

open Act

/-- A loop that logs violations is closed, and there is a second thread. -/
def prepare : Act Unit := script (performer 3)
  [("callable", .newCallable "errand" none [] 0 []),
    ("call", .newCall "call" (.callable "errand") none),
    ("loop", .newLoop "day" { name := "day", violation := .log }),
    ("handle", .newLoopHandle "door" "day"), ("close", .shutdown "door"),
    ("thread", .thread (some "guest") [])]

/-- The world in which the loop is closed. -/
def world : World :=
  (prepare Session.driver (Session.start none)).2

/-- The loop is passed by a shared reference to its handle. -/
def passage : Passage :=
  .reference .shared (.handle ⟨0⟩)

/-- From the second thread a request is a violation, although the loop is closed; from the first one
it is refused because of that. Neither leaves a trace. -/
theorem requests_after_closing :
    (scheduleOn passage.interface ⟨0⟩ false none ⟨1⟩ world).1 =
      .ok (.error (.contractViolation (world.violationDetail ⟨1⟩ ⟨0⟩ false))) ∧
    world.Untouched (scheduleOn passage.interface ⟨0⟩ false none ⟨1⟩ world).2 ∧
    (scheduleOn passage.interface ⟨0⟩ false none ⟨0⟩ world).1 =
      .ok (.error (.loopClosed (world.loop ⟨0⟩).name)) ∧
    world.Untouched (scheduleOn passage.interface ⟨0⟩ false none ⟨0⟩ world).2 := by
  have known : passage.loop.index < world.loops.size := by decide +kernel
  have used : 0 < world.calls.shares ⟨0⟩ := by decide +kernel
  have owner : (world.loop passage.loop).owner = ⟨0⟩ := by decide +kernel
  have closed : (world.loop passage.loop).closed = true := by decide +kernel
  have response : (world.loop passage.loop).violation = .log := by decide +kernel
  obtain ⟨_, elsewhere, _⟩ := requests_leave_no_trace known used false none ⟨1⟩
  obtain ⟨_, _, here⟩ := requests_leave_no_trace known used false none ⟨0⟩
  obtain ⟨violates, untouched⟩ := elsewhere (by rw [owner]; decide)
  obtain ⟨refused, untouched', _⟩ := here owner
  rw [response] at violates
  exact ⟨violates, untouched, refused.mpr closed, untouched' closed⟩

end Refusal

end DeferredCalls
