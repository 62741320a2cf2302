import DeferredCalls.Call.Provenance
import DeferredCalls.Callable.CallError
import DeferredCalls.Callable.Handle
import DeferredCalls.Config.Settings

/-!
# Scripts

What an embedder does with the library, as data: a script is a list of commands, each reported under
a verb. Commands name the objects that they make and use. Callables, tasks and some commands carry
scripts of their own, so that every operation of the library can be performed from inside every
other one.
-/

namespace DeferredCalls

/-- How a script ends after its last command. -/
inductive Ending
  | normal
  | fail (error : CallError)
  | panic (payload : Panic)
  deriving DecidableEq, Repr

instance : Inhabited Ending := ⟨.normal⟩

/-- What a sink does with a diagnostic. -/
inductive SinkKind
  /-- Keeps it. -/
  | memory
  /-- Notes it in the journal. -/
  | probe
  /-- Panics. -/
  | refusing
  /-- Logs it as an error. -/
  | logging
  /-- Prints it where nobody reads it. -/
  | console
  deriving DecidableEq, Repr

/-- Whose name a call is built from. -/
inductive CallSource
  | callable (name : String)
  | handle (name : String)
  deriving DecidableEq, Repr

/-- The choices in building a call. -/
structure CallOptions where
  context : Option String := none
  provenance : Option Provenance := some .caller
  sink : Option String := none
  showBuilder : Bool := false
  deriving DecidableEq, Repr

/-- One operation of an embedder. -/
inductive Command
  /- Contexts -/
  | newContext (id label : String)
  | emptyContext (id : String)
  | cloneContext (id source : String)
  | wrapContext (id source : String)
  | dropContext (id : String)
  | capture (id : String)
  | describeContext (id : String)
  | sameContext (a b : String)
  | install (context guardName : String)
  | dropGuard (guardName : String)
  | describeGuard (guardName : String)
  | within (context : String) (body : List (String × Command)) (ending : Ending)
  | observe
  /- Callables -/
  | newCallable (id : String) (title : Option String) (body : List (String × Command))
      (limit : Nat) (endings : List Ending)
  | dropCallable (id : String)
  | describeCallable (id : String)
  | countShares (id : String)
  | invoke (id : String) (args : Option CallArgs)
  | describeArgs (args : Option CallArgs)
  /- Handles -/
  | newHandle (id callable : String) (mode : RefMode)
  | cloneHandle (id source : String)
  | downgradeHandle (id source : String)
  | describeHandle (id : String)
  | obtain (id : String) (callable : Option String)
  | dropHandle (id : String)
  /- Sinks -/
  | newSink (id : String) (kind : SinkKind)
  | readSink (id : String) (take : Bool)
  | emitReport (sink call : String)
  /- Calls -/
  | newCall (id : String) (source : CallSource) (options : Option CallOptions)
  | cloneCall (id source : String)
  | dropCall (id : String)
  | markDead (call : String)
  | run (call : String) (args : Option CallArgs)
  | schedule (call scheduler : String) (weakly : Bool) (args : Option CallArgs)
  | describeCall (call : String)
  | callExists (call : String)
  | reportContext (call : String)
  | printContext (call : String)
  | sameCall (a b : String)
  | olderCall (a b : String)
  | currentCall (id : String)
  | downgradeCall (id call : String)
  | cloneWeak (id source : String)
  | dropWeak (id : String)
  | describeWeak (id : String)
  | upgrade (id call : String)
  /- Schedulers -/
  | newLoop (id : String) (settings : LoopSettings)
  | dropLoop (id : String)
  | runPending (loop : String)
  | runUntilIdle (loop : String)
  | runLoop (loop : String) (trusting : Bool)
  | describeLoop (loop : String)
  | newLoopHandle (id loop : String)
  | currentLoop (id : Option String)
  | describeLoopHandle (handle : String)
  | shutdown (handle : String)
  | dropLoopHandle (id : String)
  | post (scheduler : String) (onlyHandle : Bool) (tag : Option String)
      (body : List (String × Command)) (ending : Ending) (holds : List String)
  | describeScheduler (scheduler : String)
  | newManual (id : String) (designated : Bool) (violation : ViolationResponse) (reject : Bool)
  | runManual (id : String)
  | dropManual (id : String)
  /- Threads -/
  | thread (name : Option String) (body : List (String × Command))
  | spawnLoopThread (id : String) (settings : LoopSettings)
  | syncLoopThread (id : String) (tag : Option String) (body : List (String × Command))
      (ending : Ending) (holds : List String)
  | shutdownLoopThread (id : String)
  | dropLoopThread (id : String)
  | note (text : String)
  | unknown (verb : String)

instance : Inhabited Command := ⟨.observe⟩

/-- Commands and the verbs under which they are reported. -/
abbrev Script := List (String × Command)

end DeferredCalls
