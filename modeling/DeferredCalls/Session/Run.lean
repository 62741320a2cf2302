import DeferredCalls.Session.Perform

/-!
# Sessions

A session starts from nothing, performs a script on a thread named `driver`, and gives up everything
that is left, in a fixed order and by sorted names: loop threads, guards, event loops, manual
schedulers, calls, weak references, handles, loop handles, callables, contexts and sinks. Its report
shows what came of each command, what was noted at the end, and what loop threads noted. The events
that loop threads logged are left out of it: how their tasks fall into cycles is a matter of timing.
-/

namespace DeferredCalls

/-- What a session shows. -/
structure Report where
  records : List Record
  /-- What was noted while everything was given up. -/
  ending : List Entry
  position : Position
  /-- What loop threads noted, by their names, without the events that they logged. -/
  threads : List (String × List Entry)

/-- Entries by the names that come with them, in the order of the first entry of each name. -/
def groupByName (entries : List (String × Entry)) : List (String × List Entry) :=
  (entries.map (·.1)).eraseDups.map fun name =>
    (name, (entries.filter (·.1 == name)).map (·.2))

namespace Session

/-- The number of commands that a session performs. -/
def commandLimit : Nat := 3000

/-- The thread on which the script of a session is performed. -/
def driver : ThreadId := ⟨0⟩

/-- The world in which a session starts. -/
def start (verbosity : Verbosity) : World :=
  { threads := ({} : Arena .thread Thread).push { name := some "driver" }
    verbosity
    allowance := commandLimit }

/-- How commands are performed. -/
def performer : Performer := Act.performer (commandLimit + 1)

/-- Gives up everything that is left. -/
def close : Act Unit := do
  Act.each (fun id => do let _ ← Act.dropLoopThreadNamed performer id)
    (← Act.read fun _ w => w.names.loopThreads.names)
  Act.settleAll (Act.runTask performer)
  Act.closeThread
  Act.change Drawer.manuals.clear
  Act.change Drawer.calls.clear
  Act.change Drawer.weaks.clear
  Act.change Drawer.handles.clear
  Act.change Drawer.loopHandles.clear
  Act.change Drawer.callables.clear
  Act.change Drawer.contexts.clear
  Act.change Drawer.sinks.clear

/-- Performs a script from start to end. -/
def perform (script : Script) : Act (List Record) := do
  let records ← Act.performAll performer script
  close
  pure records

/-- The report of a session. -/
def report (verbosity : Verbosity) (script : Script) : Report :=
  let (result, w) := perform script driver (start verbosity)
  { records := match result with
      | .ok records => records
      | .error _ => []
    ending := w.journal.toList
    position := w.position driver
    threads := groupByName (w.remoteJournal.toList.filter (!·.2.isEvent)) }

end Session

end DeferredCalls
