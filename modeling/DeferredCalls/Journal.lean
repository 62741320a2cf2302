import DeferredCalls.Call.Diagnostic
import DeferredCalls.Call.Outcome
import DeferredCalls.Callable.Handle
import DeferredCalls.Config.Settings

/-!
# The journal

What can be seen of an execution: the replies to commands, and in between, as they happen, the
starts and ends of callables and tasks, the releases of shared objects, the diagnostics that reach
a probe, and the events that the library logs. Most entries record the position of the thread: how
many installs and calls it is in, which context is ambient, and which loop is current.
-/

namespace DeferredCalls

/-- How much detail an event is. -/
inductive Level
  | error
  | warn
  | info
  | debug
  | trace
  deriving DecidableEq, Repr

namespace Level

/-- The rank of a level; levels of more detail have higher ranks. -/
def rank : Level → Nat
  | error => 1
  | warn => 2
  | info => 3
  | debug => 4
  | trace => 5

/-- The name under which a level is shown. -/
def name : Level → String
  | error => "ERROR"
  | warn => "WARN"
  | info => "INFO"
  | debug => "DEBUG"
  | trace => "TRACE"

end Level

/-- The most detailed level that is logged, or nothing. -/
abbrev Verbosity := Option Level

/-- Whether events of a level are logged. -/
def Verbosity.admits (v : Verbosity) (level : Level) : Bool :=
  match v with
  | none => false
  | some most => level.rank ≤ most.rank

/-- The value of a field of an event. -/
inductive FieldValue
  | text (s : String)
  | number (n : Nat)
  deriving DecidableEq, Repr

/-- An event that the library logs. -/
structure Event where
  level : Level
  message : String
  fields : List (String × FieldValue) := []
  deriving DecidableEq, Repr

/-- Where a thread is. -/
structure Position where
  depth : Nat
  callDepth : Nat
  context : String
  loop : Option String
  deriving DecidableEq, Repr

/-- What is shown of a handle. -/
structure HandleView where
  mode : RefMode
  alive : Bool
  description : String
  debug : String
  deriving DecidableEq, Repr

/-- What is shown of a call. -/
structure CallView where
  id : String
  rawId : String
  alive : Bool
  dead : Bool
  description : String
  context : String
  provenance : Option Provenance
  callable : HandleView
  debug : String
  deriving DecidableEq, Repr

mutual

/-- The reply to a command. -/
inductive Reply
  | nothing
  /-- A named object is not there. -/
  | missing
  | accepted
  | refused
  | stateless
  | outOfSteps
  | wouldBlock
  | done
  | taskPanicked
  | unknown (verb : String)
  | flag (b : Bool)
  | count (n : Nat)
  | words (s : String)
  | failed (e : Error)
  | panicked (p : Panic)
  | context (empty : Bool) (description debug : String)
  | guard (previous debug : String)
  | observed (position : Position) (chain : List String) (current : Option String)
  | callFailed (e : CallError)
  | args (args : Option CallArgs)
  | handle (view : HandleView)
  | obtained (description : String)
  | diagnostics (wereEmpty : Bool) (left : Nat) (entries : List Diagnostic)
  | sink (debug : String)
  | outcome (o : RunOutcome)
  | call (view : CallView)
  | diagnostic (d : Diagnostic)
  | weak (id rawId : String) (alive : Bool) (debug : String)
  | loop (name : String) (pending : Nat) (designated : Bool) (violation : ViolationResponse)
      (debug : String)
  | loopHandle (name : String) (closed : Bool) (pending : Nat) (mine : Bool) (debug : String)
  | current (name : String) (closed : Bool)
  | scheduler (designated : Bool) (violation : ViolationResponse)
  | records (records : List Record)

/-- An entry of the journal. -/
inductive Entry
  | entered (callable : String) (invocation : Nat) (args : Option CallArgs) (position : Position)
  | left (callable : String) (invocation : Nat) (position : Position)
  | did (verb : String) (reply : Reply)
  | task (tag : Option String) (position : Position)
  | inside (position : Position)
  | freedContext (name : String) (position : Position)
  | freedCallable (name : String) (position : Position)
  | emitted (text : String) (position : Position)
  | builder (debug : String)
  | event (e : Event)

/-- A command of the outermost script of a thread: its reply, where the thread was afterwards, and
what was noted meanwhile. -/
inductive Record
  | mk (reply : Reply) (position : Position) (journal : List Entry)

end

/-- Whether an entry is a logged event. -/
def Entry.isEvent : Entry → Bool
  | .event _ => true
  | _ => false

instance : Inhabited Reply := ⟨.nothing⟩

instance : Inhabited Record := ⟨.mk .nothing ⟨0, 0, "", none⟩ []⟩

end DeferredCalls
