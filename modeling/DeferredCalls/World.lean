import DeferredCalls.Arena
import DeferredCalls.Context.Stack
import DeferredCalls.Journal
import DeferredCalls.NameTable
import DeferredCalls.Script

/-!
# The world

The state of everything: the shared objects, the threads, the names under which an embedder keeps
objects, and the journal. Contexts, callables, calls, loops and manual schedulers are counted: each
is in use as long as it has a share.

A thread has slots of its own, which no other thread sees: its stack of installed contexts, the
stack of calls that it is executing, its current loop, and the guards and loops that it keeps under
names. Everything else is common to all threads.
-/

namespace DeferredCalls

/-! ## Shared objects -/

/-- What an embedder consults implicitly: a scene with a label. -/
structure ContextState where
  /-- The name given at creation, by which its release is noted. -/
  name : String
  label : String
  deriving Inhabited

namespace ContextState

/-- A context state in a report. -/
def description (c : ContextState) : String :=
  "scene '" ++ c.label ++ "'"

/-- A context state as a record. -/
def debug (c : ContextState) : String :=
  Text.Layout.wrapped "Scene" (Text.quote c.label)

end ContextState

/-- A callable. Its script runs at most `limit` times; what it does at the end depends on how often
it was invoked before. -/
structure Callable where
  /-- The name given at creation, by which its release is noted. -/
  name : String
  title : Option String
  body : Script
  limit : Nat
  endings : List Ending
  invocations : Nat := 0
  deriving Inhabited

namespace Callable

/-- A callable in a report. -/
def description (c : Callable) : String :=
  c.title.getD "<callable>"

/-- What an invocation does at the end, given the number of those before; the last ending stays in
force. -/
def ending (c : Callable) (invocation : Nat) : Ending :=
  (c.endings[min invocation (c.endings.length - 1)]?).getD .normal

end Callable

/-- Where diagnostics go. -/
structure Sink where
  kind : SinkKind
  entries : List Diagnostic := []

instance : Inhabited Sink := ⟨{ kind := .logging }⟩

/-- How a sink is written. -/
def Sink.debug (s : Sink) : String :=
  match s.kind with
  | .memory => "MemorySink"
  | .probe => "ProbeSink"
  | .refusing => "PanicSink"
  | .logging => "TracingSink"
  | .console => "StderrSink"

/-- A callable bound to the context under which it was registered. -/
structure Call where
  handle : Handle
  context : Snapshot
  provenance : Option Provenance
  sink : Option SinkId
  dead : Bool := false
  deriving Inhabited

/-- A piece of work that an embedder posts. -/
structure Job where
  tag : Option String
  body : Script
  ending : Ending
  /-- Calls of which the job holds a share until it ends. -/
  holds : List CallId
  /-- Where the end of the job is recorded, if somebody waits for it. -/
  ticket : Option Nat := none

/-- A unit of work in a queue. -/
inductive Task
  /-- Runs a call, of which the task holds a share. -/
  | strong (call : CallId) (args : Option CallArgs)
  /-- Runs a call if it is still in use. -/
  | weak (call : CallId) (args : Option CallArgs)
  /-- Runs a script. -/
  | job (job : Job)

/-- The calls of which a task holds a share. -/
def Task.holds : Task → List CallId
  | strong call _ => [call]
  | weak _ _ => []
  | job j => j.holds

/-- A queue of tasks that one thread executes in the order of their posting. -/
structure EventLoop where
  name : String
  owner : ThreadId
  violation : ViolationResponse
  cycleBudget : Nat
  queue : List Task := []
  closed : Bool := false
  /-- The loop that was current on the owner when this one was created. -/
  previous : Option LoopId
  deriving Inhabited

namespace EventLoop

/-- A new loop, which never has a blank name. -/
def ofSettings (settings : LoopSettings) (owner : ThreadId) (previous : Option LoopId) :
    EventLoop :=
  let settings := settings.normalize
  { name := settings.name
    owner
    violation := settings.violation
    cycleBudget := settings.cycleBudget
    previous }

/-- How the owner writes a loop. -/
def debug (l : EventLoop) : String :=
  Text.Layout.record "EventLoop" [⟨"name", Text.quote l.name⟩,
    ⟨"cycle_budget", toString l.cycleBudget⟩, ⟨"pending", toString l.queue.length⟩]

/-- How a handle of a loop is written. -/
def handleDebug (l : EventLoop) : String :=
  Text.Layout.openRecord "LoopHandle" [⟨"name", Text.quote l.name⟩, ⟨"owner", "ThreadId(_)"⟩]

end EventLoop

/-- A scheduler that keeps its tasks until it is told to run them, and claims what it is told to
claim about the thread that uses it. -/
structure Manual where
  designated : Bool
  violation : ViolationResponse
  reject : Bool
  queue : List Task := []
  deriving Inhabited

/-- A place where tasks can be posted. -/
inductive Scheduler
  | loop (id : LoopId)
  | manual (id : ManualId)
  deriving DecidableEq, Repr

/-! ## Threads -/

/-- What a thread is there for. -/
inductive Role
  /-- Performing commands. -/
  | commands
  /-- Executing the tasks of a loop. -/
  | serving (loop : LoopId)
  deriving DecidableEq, Repr

/-- A thread and what only it sees. -/
structure Thread where
  name : Option String
  role : Role := .commands
  context : ContextStack := {}
  /-- The calls being executed, outermost first. -/
  callStack : List CallId := []
  currentLoop : Option LoopId := none
  guards : NameTable Guard := {}
  loops : NameTable LoopId := {}
  /-- Whether a loop thread is executing tasks at the moment. -/
  busy : Bool := false
  /-- Whether a loop thread has left its loop. -/
  finished : Bool := false
  deriving Inhabited

/-! ## Everything together -/

/-- The objects that all threads keep under names. -/
structure Names where
  contexts : NameTable Snapshot := {}
  callables : NameTable CallableId := {}
  handles : NameTable Handle := {}
  sinks : NameTable SinkId := {}
  calls : NameTable CallId := {}
  weaks : NameTable CallId := {}
  loopHandles : NameTable LoopId := {}
  manuals : NameTable ManualId := {}
  loopThreads : NameTable ThreadId := {}
  deriving Inhabited

/-- The state of everything. -/
structure World where
  contexts : Arena .context ContextState := {}
  callables : Arena .callable Callable := {}
  calls : Arena .call Call := {}
  sinks : Arena .sink Sink := {}
  loops : Arena .eventLoop EventLoop := {}
  manuals : Arena .manual Manual := {}
  threads : Arena .thread Thread := {}
  names : Names := {}
  /-- How each job ended for which somebody waits: whether it panicked. -/
  tickets : Array (Option Bool) := #[]
  /-- What was noted during the command that is being performed. -/
  journal : Array Entry := #[]
  /-- What loop threads noted and logged, each entry with the name of its thread. -/
  remoteJournal : Array (String × Entry) := #[]
  verbosity : Verbosity := none
  /-- How many more commands are performed. -/
  allowance : Nat
  deriving Inhabited

namespace World

/-- A thread. -/
def thread (w : World) (t : ThreadId) : Thread :=
  w.threads.get t

/-- Changes what only one thread sees. -/
def onThread (w : World) (t : ThreadId) (f : Thread → Thread) : World :=
  { w with threads := w.threads.modify t f }

/-- The stack of installed contexts of a thread. -/
def contextStack (w : World) (t : ThreadId) : ContextStack :=
  (w.thread t).context

/-- The calls that a thread is executing, outermost first. -/
def callStack (w : World) (t : ThreadId) : List CallId :=
  (w.thread t).callStack

/-! ## Descriptions -/

/-- A snapshot in a report. -/
def describeSnapshot (w : World) (s : Snapshot) : String :=
  match s.state? with
  | none => "<no context>"
  | some c => (w.contexts.get c).description

/-- A snapshot as a record. -/
def debugSnapshot (w : World) (s : Snapshot) : String :=
  Text.Layout.wrapped "ContextSnapshot"
    (Text.Layout.optional (s.state?.map fun c => (w.contexts.get c).debug))

/-- A guard as a record. -/
def debugGuard (w : World) (g : Guard) : String :=
  Text.Layout.record "ContextGuard"
    [⟨"previous", w.debugSnapshot g.previous⟩, ⟨"token", toString g.token.toNat⟩]

/-- Whether the callable of a handle is in use. A strong handle is itself a reason for that. -/
def handleAlive (w : World) (h : Handle) : Bool :=
  match h with
  | .strong _ => true
  | .weak c => 0 < w.callables.shares c

/-- A handle in a report. -/
def describeHandle (w : World) (h : Handle) : String :=
  if w.handleAlive h then (w.callables.get h.callable).description else "<released callable>"

/-- A handle as a record. -/
def debugHandle (w : World) (h : Handle) : String :=
  h.debug (w.handleAlive h)

/-- What is shown of a handle. -/
def viewHandle (w : World) (h : Handle) : HandleView where
  mode := h.mode
  alive := w.handleAlive h
  description := w.describeHandle h
  debug := w.debugHandle h

/-- The number that distinguishes a call. The first call has number one. -/
def callNumber (c : CallId) : Nat :=
  c.index + 1

/-- The number of a call in a report. -/
def callLabel (c : CallId) : String :=
  "#" ++ toString (callNumber c)

/-- The number of a call as a record. -/
def callIdDebug (c : CallId) : String :=
  Text.Layout.wrapped "CallId" (toString (callNumber c))

/-- A call in a report: its number and where it was registered. -/
def describeCall (w : World) (c : CallId) : String :=
  match (w.calls.get c).provenance with
  | some p => "<DeferredCall " ++ callLabel c ++ " from " ++ p.text ++ ">"
  | none => "<DeferredCall " ++ callLabel c ++ ">"

/-- A place of registration as a record. -/
def debugProvenance (p : Option Provenance) : String :=
  Text.Layout.optional (p.map Provenance.debug)

/-- A call as a record. -/
def debugCall (w : World) (c : CallId) : String :=
  let call := w.calls.get c
  Text.Layout.openRecord "DeferredCall" [⟨"id", callIdDebug c⟩,
    ⟨"callable", w.debugHandle call.handle⟩, ⟨"context", w.debugSnapshot call.context⟩,
    ⟨"provenance", debugProvenance call.provenance⟩, ⟨"dead", Text.Layout.flag call.dead⟩]

/-- Whether a call is in use. -/
def callAlive (w : World) (c : CallId) : Bool :=
  0 < w.calls.shares c

/-- A weak reference to a call as a record. -/
def debugWeak (w : World) (c : CallId) : String :=
  Text.Layout.record "WeakDeferredCall"
    [⟨"id", callIdDebug c⟩, ⟨"alive", Text.Layout.flag (w.callAlive c)⟩]

/-- Whether a call can still invoke its callable. -/
def callExists (w : World) (c : CallId) : Bool :=
  let call := w.calls.get c
  !call.dead && w.handleAlive call.handle

/-- The calls that a thread is executing, as they are reported. -/
def callChain (w : World) (t : ThreadId) : List String :=
  (w.callStack t).map w.describeCall

/-- Where a thread is. -/
def position (w : World) (t : ThreadId) : Position :=
  let th := w.thread t
  { depth := th.context.depth
    callDepth := th.callStack.length
    context := w.describeSnapshot th.context.ambient
    loop := th.currentLoop.map fun l => (w.loops.get l).name }

/-! ## Notes -/

/-- Notes an entry in the journal of the command that is being performed. What loop threads note is
kept apart, under the names of these threads. -/
def note (w : World) (t : ThreadId) (e : Entry) : World :=
  match (w.thread t).role with
  | .commands => { w with journal := w.journal.push e }
  | .serving _ =>
    { w with remoteJournal := w.remoteJournal.push ((w.thread t).name.getD "", e) }

/-- Logs an event, if its level is admitted. -/
def log (w : World) (t : ThreadId) (level : Level) (message : String)
    (fields : List (String × FieldValue) := []) : World :=
  if w.verbosity.admits level then w.note t (.event { level, message, fields }) else w

section Journal

variable (w : World) (t : ThreadId) (e : Entry) (level : Level) (message : String)
  (fields : List (String × FieldValue))

/-- A note changes nothing but the journals. -/
theorem note_eq : ∃ journal remoteJournal, w.note t e = { w with journal, remoteJournal } := by
  unfold note
  split
  · exact ⟨_, w.remoteJournal, rfl⟩
  · exact ⟨w.journal, _, rfl⟩

/-- An event changes nothing but the journals. -/
theorem log_eq : ∃ journal remoteJournal,
    w.log t level message fields = { w with journal, remoteJournal } := by
  unfold log
  split
  · exact w.note_eq t _
  · exact ⟨w.journal, w.remoteJournal, rfl⟩

end Journal

/-- The field that names a call. -/
def callField (c : CallId) : String × FieldValue :=
  ("call", .text (callLabel c))

/-- The field that names a loop. -/
def loopField (w : World) (l : LoopId) : String × FieldValue :=
  ("loop_name", .text (w.loops.get l).name)

end World

end DeferredCalls
