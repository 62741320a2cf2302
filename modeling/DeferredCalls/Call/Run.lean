import DeferredCalls.Call.Report
import DeferredCalls.Callable.Holding
import DeferredCalls.Context.Ambient

/-!
# Running a call

A run invokes the callable of a call under the context that the call is bound to. While it lasts,
the run holds a share of the callable and the call stands on the stack of calls of the thread. A
failure or a panic of the callable is reported to the sink of the call and returned, never raised.
What callables and sinks do is the embedder's affair, and a parameter here.
On every way out the context that was ambient before comes back first, then the call leaves the
stack, and then the share of the callable is given up.

A run of a dead call, or of one whose callable was released, does nothing.
-/

namespace DeferredCalls

namespace World

/-- Puts a call on the stack of calls of a thread, which takes a share of it. -/
def enterCall (w : World) (t : ThreadId) (c : CallId) : World :=
  (w.acquire (.call c)).onThread t fun th => { th with callStack := th.callStack ++ [c] }

/-- Shortens the stack of calls of a thread. The calls that were above are still in hand. -/
def shortened (w : World) (t : ThreadId) (depth : Nat) : World :=
  w.onThread t fun th => { th with callStack := th.callStack.take depth }

/-- Shortens the stack of calls of a thread, and gives up the calls that were above. -/
def leaveCalls (w : World) (t : ThreadId) (depth : Nat) : World :=
  (w.shortened t depth).releaseCalls t ((w.callStack t).drop depth)

end World

namespace Act

/-- Performs an action while a call stands on the stack of calls. -/
def entering (c : CallId) (m : Act α) : Act α := fun t w =>
  ensuring (fun t' w' => w'.leaveCalls t' (w.callStack t).length) m t (w.enterCall t c)

@[simp] theorem entering_apply (c : CallId) (m : Act α) (t : ThreadId) (w : World) :
    entering c m t w =
      ((m t (w.enterCall t c)).1,
        (m t (w.enterCall t c)).2.leaveCalls t (w.callStack t).length) := rfl

/-- Reports a failure to the sink of a call, and returns it. -/
def reportFailure (emit : Emit) (c : CallId) (e : Error) (traceback : Option String) :
    Act RunOutcome := do
  let report ← read fun t w => w.failureReport t c e traceback
  emit (← read fun _ w => w.sinkOf c) report
  pure (.failed e)

/-- Turns what came of an invocation into the outcome of a run. -/
def conclude (emit : Emit) (c : CallId) : Except Panic (Except CallError Unit) → Act RunOutcome
  | .ok (.ok ()) => pure .completed
  | .ok (.error e) => reportFailure emit c (.ofCallError e) e.traceback
  | .error p => reportFailure emit c (.panicked p.message) none

/-- Invokes a callable for a call. -/
def invokeFor (code : Embedder) (c : CallId) (f : CallableId) (args : Option CallArgs) :
    Act RunOutcome := do
  conclude code.emit c (← attempt (code.invoke f args))

/-- Runs a call. -/
def run (code : Embedder) (c : CallId) (args : Option CallArgs) : Act RunOutcome := do
  let call ← read fun _ w => w.calls.get c
  if call.dead then
    log .trace "skipping dead deferred call" fun _ => [World.callField c]
    pure (.skipped .dead)
  else
    match ← read fun _ w => w.obtain? call.handle with
    | none =>
      log .debug "callable released before run" fun _ => [World.callField c]
      pure (.skipped .unavailable)
    | some f =>
      holding (.callable f) <| entering c <| installing call.context do
        change fun t w => w.log t .trace "running deferred call"
          [World.callField c, ("depth", .number (w.callStack t).length)]
        invokeFor code c f args

end Act

end DeferredCalls
