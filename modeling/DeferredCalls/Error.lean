import DeferredCalls.Callable.CallError
import DeferredCalls.Config.ConfigError
import DeferredCalls.Text.Quoted

/-!
# Errors

An error has a kind, an optional message, and the failures that led to it, nearest first. Kinds
fall into four categories. The text of an error is the name of its kind, followed by its message
if it has one.
-/

namespace DeferredCalls

/-- What sort of thing went wrong. -/
inductive ErrorKind
  /-- The callable reported a failure. -/
  | invocation
  /-- The callable panicked. -/
  | panicked
  /-- What was referred to no longer exists. -/
  | unavailable
  /-- The event loop accepts no more tasks. -/
  | loopClosed
  /-- A thread could not be started. -/
  | spawn
  /-- A call was scheduled from a thread other than the designated one. -/
  | contractViolation
  /-- A setting could not be read or applied. -/
  | config
  deriving DecidableEq, Repr

/-- The groups into which kinds of errors fall. -/
inductive ErrorCategory
  | invocation
  | lifecycle
  | contract
  | configuration
  deriving DecidableEq, Repr

namespace ErrorKind

/-- The group of a kind. -/
def category : ErrorKind → ErrorCategory
  | invocation | panicked => .invocation
  | unavailable | loopClosed | spawn => .lifecycle
  | contractViolation => .contract
  | config => .configuration

/-- The name under which a kind is reported. -/
def name : ErrorKind → String
  | invocation => "Invocation"
  | panicked => "Panicked"
  | unavailable => "Unavailable"
  | loopClosed => "LoopClosed"
  | spawn => "Spawn"
  | contractViolation => "ContractViolation"
  | config => "Config"

/-- All kinds of errors. -/
def all : List ErrorKind :=
  [invocation, panicked, unavailable, loopClosed, spawn, contractViolation, config]

/-- The kind with a given name. -/
def ofName? (s : String) : Option ErrorKind :=
  all.find? (·.name == s)

theorem mem_all (k : ErrorKind) : k ∈ all := by
  cases k <;> simp [all]

@[simp] theorem ofName?_name (k : ErrorKind) : ofName? k.name = some k := by
  cases k <;> decide

end ErrorKind

namespace ErrorCategory

/-- The name under which a category is reported. -/
def name : ErrorCategory → String
  | invocation => "Invocation"
  | lifecycle => "Lifecycle"
  | contract => "Contract"
  | configuration => "Configuration"

end ErrorCategory

/-- A failure that led to an error. -/
inductive Cause
  | call (failure : CallError)
  | config (failure : ConfigError)
  | file (failure : FileError)
  | error (kind : ErrorKind) (message : Option String)
  deriving DecidableEq, Repr

/-- A kind of error, what it says, and what led to it, nearest first. -/
structure Error where
  kind : ErrorKind
  message : Option String := none
  causes : List Cause := []
  deriving DecidableEq, Repr

/-- The name of a kind, followed by the message if there is one. -/
def errorText (kind : ErrorKind) : Option String → String
  | none => kind.name
  | some message => kind.name ++ ": " ++ message

/-- What a cause says. -/
def Cause.text : Cause → String
  | .call failure => failure.description
  | .config failure => failure.message
  | .file failure => failure.message
  | .error kind message => errorText kind message

namespace ConfigError

/-- A failure to read settings as a chain of causes. -/
def causes (e : ConfigError) : List Cause :=
  match e with
  | unreadable _ cause => [.config e, .file cause]
  | _ => [.config e]

end ConfigError

namespace Error

/-- What an error says. -/
def text (e : Error) : String :=
  errorText e.kind e.message

/-- The group of an error's kind. -/
def category (e : Error) : ErrorCategory :=
  e.kind.category

/-- What the causes of an error say, nearest first. -/
def chain (e : Error) : List String :=
  e.causes.map Cause.text

/-- The same error with another message. -/
def withMessage (e : Error) (message : String) : Error :=
  { e with message := some message }

/-- The same error, caused by another one. -/
def withSource (e source : Error) : Error :=
  { e with causes := .error source.kind source.message :: source.causes }

/-- The callable failed or panicked. -/
def isInvocation (e : Error) : Bool :=
  e.category == .invocation

/-- A call was scheduled where it must not be. -/
def isContractViolation (e : Error) : Bool :=
  e.kind == .contractViolation

/-- What was referred to is gone. -/
def isUnavailable (e : Error) : Bool :=
  e.kind == .unavailable

/-- Something no longer exists. -/
def unavailable (what : String) : Error :=
  { kind := .unavailable, message := some what }

/-- A callable panicked with a message. -/
def panicked (message : String) : Error :=
  { kind := .panicked, message := some message }

/-- A call was scheduled from the wrong thread. -/
def contractViolation (detail : String) : Error :=
  { kind := .contractViolation, message := some detail }

/-- A loop with the given name accepts no more tasks. -/
def loopClosed (loop : String) : Error :=
  { kind := .loopClosed, message := some ("event loop " ++ Text.quote loop ++ " is shut down") }

/-- A callable failed. -/
def ofCallError (failure : CallError) : Error :=
  { kind := .invocation, message := some failure.description, causes := [.call failure] }

/-- Settings could not be read. -/
def ofConfigError (failure : ConfigError) : Error :=
  { kind := .config, message := some failure.message, causes := failure.causes }

@[simp] theorem text_ofCallError (failure : CallError) :
    (ofCallError failure).text = "Invocation: " ++ failure.description := rfl

@[simp] theorem text_panicked (message : String) :
    (panicked message).text = "Panicked: " ++ message := rfl

end Error

end DeferredCalls
