import DeferredCalls.Call.Schedule
import DeferredCalls.Loop.Cycle

/-!
# Nested scripts

Callables and tasks carry scripts. How one command is performed is a parameter here; what the
embedder's code does follows from it: the commands one after another, each with a note of its reply,
and then the ending. A task gives up what it holds when it is over, whether it panicked or not.
-/

namespace DeferredCalls

/-- How commands of nested scripts are performed. -/
abbrev Performer := Command → Act Reply

namespace Act

/-- Performs the commands of a nested script and notes their replies. -/
def script (self : Performer) : Script → Act Unit
  | [] => pure ()
  | (verb, command) :: rest => do
    let reply ← self command
    note fun _ _ => .did verb reply
    script self rest

/-- How a script ends. -/
def finish : Ending → Act (Except CallError Unit)
  | .normal => pure (.ok ())
  | .fail e => pure (.error e)
  | .panic p => panic p

/-- Invokes a callable: its script, as often as it may run, and then its ending. -/
def invoke (self : Performer) : Invoke := fun f args => do
  let c ← read fun _ w => w.callables.get f
  let n := c.invocations
  change fun _ w =>
    { w with callables := w.callables.modify f fun c => { c with invocations := n + 1 } }
  note fun t w => .entered c.name n args (w.position t)
  unless c.body.isEmpty do
    if n < c.limit then script self c.body
    note fun t w => .left c.name n (w.position t)
  finish (c.ending n)

/-- Callables run their scripts, and sinks do what their kind says. -/
def embedder (self : Performer) : Embedder where
  invoke := invoke self
  emit := emit

/-- Records how a job ended for which somebody waits. -/
def settleTicket (panicked : Bool) : Option Nat → World → World
  | none, w => w
  | some i, w => { w with tickets := w.tickets.setIfInBounds i (some panicked) }

/-- Runs a job. -/
def runJob (self : Performer) (j : Job) : Act Unit := do
  let ended ← attempt do
    note fun t w => .task j.tag (w.position t)
    script self j.body
    let _ ← finish j.ending
  match ended with
  | .ok () => change fun _ w => settleTicket false j.ticket w
  | .error p =>
    change fun _ w => settleTicket true j.ticket w
    panic p

/-- Runs a task, and gives up what it holds when it is over. -/
def runTask (self : Performer) : RunTask
  | .strong c args => runStrong (embedder self) c args
  | .weak c args => runWeak (embedder self) c args
  | .job j => ensuring (fun t w => w.releaseCalls t j.holds) (runJob self j)

end Act

end DeferredCalls
