import DeferredCalls.Call.Schedule

/-!
# What calls are scheduled on

Scheduling needs three things of a scheduler: that it accepts tasks, that it tells whether a thread
is the designated one, and that it says what is done about calls that are scheduled from another
thread.

A loop can be passed to those who schedule calls as it is, by a handle, or by a reference to either,
to a reference again, and so on. A reference offers what it refers to.
-/

namespace DeferredCalls

/-- What is needed of a scheduler in order to schedule calls on it. -/
structure Interface where
  post : Task → Act (Except Error Unit)
  isDesignated : ThreadId → World → Bool
  violation : World → ViolationResponse

/-- What a scheduler offers. -/
def Scheduler.interface (s : Scheduler) : Interface where
  post task := Act.post s task
  isDesignated t w := w.isDesignated t s
  violation w := w.violationOf s

/-- How a reference comes by what it refers to. -/
inductive Reference
  | borrowed
  /-- It is one of those that keep what they refer to in use. -/
  | shared
  deriving DecidableEq, Repr

/-- What a reference offers, given what it refers to. -/
def Reference.interface (_ : Reference) (i : Interface) : Interface where
  post task := i.post task
  isDesignated t w := i.isDesignated t w
  violation w := i.violation w

/-- A way of passing a loop to those who schedule calls. -/
inductive Passage
  | owner (l : LoopId)
  | handle (l : LoopId)
  | reference (kind : Reference) (p : Passage)
  deriving DecidableEq, Repr

namespace Passage

/-- The loop that is passed. -/
def loop : Passage → LoopId
  | owner l | handle l => l
  | reference _ p => p.loop

/-- What is passed. -/
def interface : Passage → Interface
  | owner l | handle l => (Scheduler.loop l).interface
  | reference kind p => kind.interface p.interface

/-- It makes no difference how a loop is passed. -/
theorem interface_eq (p : Passage) : p.interface = (Scheduler.loop p.loop).interface := by
  induction p with
  | owner l => rfl
  | handle l => rfl
  | reference kind p ih =>
    rw [interface, ih]
    rfl

end Passage

namespace Act

/-- Reports a violation of the contract of what a call is scheduled on. -/
def violateOn (i : Interface) (c : CallId) (weakly : Bool) : Act (Except Error Unit) := do
  let detail ← read fun t w => w.violationDetail t c weakly
  log .error detail fun _ => [World.callField c]
  match ← read fun _ w => i.violation w with
  | .panic => panic ⟨some ("contract violation: " ++ detail)⟩
  | .log => pure (.error (.contractViolation detail))

/-- Schedules a call on whatever offers the interface of a scheduler. -/
def scheduleOn (i : Interface) (c : CallId) (weakly : Bool) (args : Option CallArgs) :
    Act (Except Error Unit) := do
  if ← read fun t w => i.isDesignated t w then
    match ← i.post (World.callTask c weakly args) with
    | .error e => pure (.error e)
    | .ok () =>
      log .trace
        (if weakly then "deferred call scheduled weakly" else "deferred call scheduled")
        fun _ => [World.callField c]
      pure (.ok ())
  else violateOn i c weakly

/-- Scheduling a call on a scheduler is scheduling it on what the scheduler offers. -/
theorem scheduleOn_interface (s : Scheduler) : scheduleOn s.interface = schedule s := rfl

end Act

end DeferredCalls
