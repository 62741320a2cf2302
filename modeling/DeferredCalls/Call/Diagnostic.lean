import DeferredCalls.Call.Provenance

/-!
# Diagnostics

A diagnostic traces a call back to the place that registered it: the call, that place, the context,
and the calls that were executing on the thread, outermost first. A diagnostic of a failure adds the
error and the traceback that the callable gave.
-/

namespace DeferredCalls

/-- What is known about a call, and about its failure if it failed. -/
structure Diagnostic where
  call : String
  provenance : Option Provenance
  context : String
  chain : List String
  error : Option String := none
  traceback : Option String := none
  deriving DecidableEq, Repr

namespace Diagnostic

/-- The same diagnostic about a failure. -/
def withError (d : Diagnostic) (error : String) (traceback : Option String) : Diagnostic :=
  { d with error := some error, traceback := traceback }

/-- The place of registration, or a stand-in. -/
def place (d : Diagnostic) : String :=
  match d.provenance with
  | some p => p.text
  | none => "<unknown>"

/-- The first line: the call, announced as failed if there is an error. -/
def heading (d : Diagnostic) : String :=
  match d.error with
  | some _ => "error in " ++ d.call
  | none => d.call

/-- One numbered line for each call of a chain. -/
def chainLines (depth : Nat) : List String → String
  | [] => ""
  | call :: calls => "\n    #" ++ toString depth ++ " " ++ call ++ chainLines (depth + 1) calls

/-- The chain of calls, which is shown when it has more than one call. -/
def chainText (d : Diagnostic) : String :=
  if 1 < d.chain.length then "\n  call chain:" ++ chainLines 0 d.chain else ""

/-- The line of the error, if there is one. -/
def errorLine (d : Diagnostic) : String :=
  match d.error with
  | some e => "\n  error: " ++ e
  | none => ""

/-- The traceback on lines of its own, if there is one. -/
def tracebackText (d : Diagnostic) : String :=
  match d.traceback with
  | some t => "\n" ++ t
  | none => ""

/-- A diagnostic as a text of several lines. -/
def text (d : Diagnostic) : String :=
  d.heading ++ "\n  root call: " ++ d.place ++ "\n  context: " ++ d.context ++
    d.chainText ++ d.errorLine ++ d.tracebackText

end Diagnostic

end DeferredCalls
