import DeferredCalls.Call.Schedule
import DeferredCalls.Session.Drawer

/-!
# Acting on named objects

How commands reach the objects that are kept under names. A command that names an object which is
not there answers `missing` and does nothing else.
-/

namespace DeferredCalls.Act

variable {α : Type}

/-- Continues with the object under a name, if there is one. -/
def withNamed (d : Drawer α) (name : String) (f : α → Act Reply) : Act Reply := do
  match ← read fun t w => d.find? t w name with
  | none => pure .missing
  | some a => f a

/-- Puts an object under a name. -/
def put (d : Drawer α) (name : String) (a : α) : Act Unit :=
  change (d.put name a)

/-- Gives up the object under a name, if there is one. -/
def dropNamed (d : Drawer α) (name : String) : Act Reply :=
  withNamed d name fun _ => do
    change (d.drop name)
    pure .nothing

/-- Continues with an optional object: absent, if there is no name, and otherwise under the name. -/
def withOptional (d : Drawer α) (name : Option String) (f : Option α → Act Reply) : Act Reply :=
  match name with
  | none => f none
  | some name => withNamed d name fun a => f (some a)

/-- The scheduler under a name: a loop, else a loop handle, else a manual scheduler. -/
def scheduler? (name : String) (onlyHandle : Bool) (t : ThreadId) (w : World) :
    Option Scheduler :=
  if onlyHandle then (Drawer.loopHandles.find? t w name).map .loop
  else match Drawer.loops.find? t w name with
    | some l => some (.loop l)
    | none => match Drawer.loopHandles.find? t w name with
      | some l => some (.loop l)
      | none => (Drawer.manuals.find? t w name).map .manual

/-- Continues with the scheduler under a name, if there is one. -/
def withScheduler (name : String) (onlyHandle : Bool) (f : Scheduler → Act Reply) : Act Reply := do
  match ← read (scheduler? name onlyHandle) with
  | none => pure .missing
  | some s => f s

/-- Those calls that are there among the ones under several names. -/
def callsNamed (names : List String) : Act (List CallId) :=
  read fun t w => names.filterMap fun name => Drawer.calls.find? t w name

end DeferredCalls.Act
