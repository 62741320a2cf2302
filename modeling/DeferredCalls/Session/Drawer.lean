import DeferredCalls.Context.Ambient
import DeferredCalls.Loop.Queue

/-!
# Keeping objects under names

A drawer is one of the tables in which an embedder keeps objects. An object that is put into a
drawer brings its shares along. Putting an object under a name that is in use gives up the object
that was there, after the new one is in place.
-/

namespace DeferredCalls

/-- A table of named objects, and how a kept object is given up. -/
structure Drawer (α : Type) where
  look : ThreadId → World → NameTable α
  fill : ThreadId → World → NameTable α → World
  discard : ThreadId → World → α → World

namespace Drawer

/-- A drawer that all threads share. -/
def common (look : Names → NameTable α) (fill : Names → NameTable α → Names)
    (discard : ThreadId → World → α → World) : Drawer α where
  look := fun _ w => look w.names
  fill := fun _ w table => { w with names := fill w.names table }
  discard := discard

/-- A drawer that each thread has for itself. -/
def own (look : Thread → NameTable α) (fill : Thread → NameTable α → Thread)
    (discard : ThreadId → World → α → World) : Drawer α where
  look := fun t w => look (w.thread t)
  fill := fun t w table => w.onThread t fun th => fill th table
  discard := discard

def contexts : Drawer Snapshot :=
  common (·.contexts) (fun n t => { n with contexts := t }) fun t w s => w.releaseSnapshot t s

def callables : Drawer CallableId :=
  common (·.callables) (fun n t => { n with callables := t }) fun t w c => w.releaseCallable t c

def handles : Drawer Handle :=
  common (·.handles) (fun n t => { n with handles := t }) fun t w h => w.releaseHandle t h

def sinks : Drawer SinkId :=
  common (·.sinks) (fun n t => { n with sinks := t }) fun _ w _ => w

def calls : Drawer CallId :=
  common (·.calls) (fun n t => { n with calls := t }) fun t w c => w.releaseCall t c

def weaks : Drawer CallId :=
  common (·.weaks) (fun n t => { n with weaks := t }) fun _ w _ => w

def loopHandles : Drawer LoopId :=
  common (·.loopHandles) (fun n t => { n with loopHandles := t }) fun _ w _ => w

def manuals : Drawer ManualId :=
  common (·.manuals) (fun n t => { n with manuals := t }) fun t w m => w.releaseManual t m

def guards : Drawer Guard :=
  own (·.guards) (fun th t => { th with guards := t }) fun t w g => w.dropGuard t g

def loops : Drawer LoopId :=
  own (·.loops) (fun th t => { th with loops := t }) fun t w l => w.releaseLoop t l

variable {α : Type}

/-- The object under a name. -/
def find? (d : Drawer α) (t : ThreadId) (w : World) (name : String) : Option α :=
  (d.look t w).get? name

/-- Puts an object under a name. -/
def put (d : Drawer α) (name : String) (a : α) (t : ThreadId) (w : World) : World :=
  let old := d.find? t w name
  let w := d.fill t w ((d.look t w).insert name a)
  match old with
  | some b => d.discard t w b
  | none => w

/-- Takes the object under a name out of a drawer. -/
def take (d : Drawer α) (name : String) (t : ThreadId) (w : World) : World :=
  d.fill t w ((d.look t w).erase name)

/-- Gives up the object under a name. -/
def drop (d : Drawer α) (name : String) (t : ThreadId) (w : World) : World :=
  match d.find? t w name with
  | some a => d.discard t (d.take name t w) a
  | none => w

/-- Gives up all objects, in the order of their names. -/
def clear (d : Drawer α) (t : ThreadId) (w : World) : World :=
  (d.look t w).names.foldl (fun w name => d.drop name t w) w

end Drawer

end DeferredCalls
