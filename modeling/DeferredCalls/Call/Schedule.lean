import DeferredCalls.Call.Run
import DeferredCalls.Loop.Queue

/-!
# Scheduling calls

A call is scheduled by posting a task that runs it, from the thread on which the scheduler runs its
tasks. Scheduling from any other thread violates the contract, whatever the state of the scheduler:
the violation is logged, and then it is either a panic or an error, as the scheduler asks.

A call that is scheduled strongly is kept in use by its task; one that is scheduled weakly is not,
and the task does nothing if the call is no longer in use when its turn comes.
-/

namespace DeferredCalls

/-- The name of a way of scheduling in a report. -/
def schedulingName (weakly : Bool) : String :=
  if weakly then "schedule_weak" else "schedule"

namespace World

/-- What a violation of the scheduling contract says. -/
def violationDetail (w : World) (t : ThreadId) (c : CallId) (weakly : Bool) : String :=
  schedulingName weakly ++ " of " ++ w.describeCall c ++ " from thread " ++
    Text.quote ((w.thread t).name.getD "<unnamed>") ++
    " (ThreadId(_)), not the designated thread"

/-- The task that runs a call. -/
def callTask (c : CallId) (weakly : Bool) (args : Option CallArgs) : Task :=
  if weakly then .weak c args else .strong c args

end World

namespace Act

/-- Reports a violation of the scheduling contract. -/
def violate (s : Scheduler) (c : CallId) (weakly : Bool) : Act (Except Error Unit) := do
  let detail ← read fun t w => w.violationDetail t c weakly
  log .error detail fun _ => [World.callField c]
  match ← read fun _ w => w.violationOf s with
  | .panic => panic ⟨some ("contract violation: " ++ detail)⟩
  | .log => pure (.error (.contractViolation detail))

/-- Posts a task, which takes shares of the calls that it holds. -/
def post (s : Scheduler) (task : Task) : Act (Except Error Unit) :=
  update fun t w => (w.acquireAll task.shares).post t s task

/-- Schedules a call. -/
def schedule (s : Scheduler) (c : CallId) (weakly : Bool) (args : Option CallArgs) :
    Act (Except Error Unit) := do
  if ← read fun t w => w.isDesignated t s then
    match ← post s (World.callTask c weakly args) with
    | .error e => pure (.error e)
    | .ok () =>
      log .trace
        (if weakly then "deferred call scheduled weakly" else "deferred call scheduled")
        fun _ => [World.callField c]
      pure (.ok ())
  else violate s c weakly

/-- Runs a call that was scheduled strongly, and gives up the share that was taken for it. -/
def runStrong (code : Embedder) (c : CallId) (args : Option CallArgs) : Act Unit :=
  ensuring (fun t w => w.releaseCall t c) do
    let _ ← run code c args

/-- Runs a call that was scheduled weakly, if it is still in use. -/
def runWeak (code : Embedder) (c : CallId) (args : Option CallArgs) : Act Unit := do
  if ← read fun _ w => w.callAlive c then
    holding (.call c) do
      let _ ← run code c args
      pure ()
  else log .debug "weakly scheduled call released before firing" fun _ => [World.callField c]

end Act

end DeferredCalls
