import DeferredCalls.Session.Run

/-!
# Journals in less detail

A journal that was kept at some verbosity can be read as if it had been kept at a lower one: the
events of too much detail are left out, also in the journals that replies contain, and everything
else stays where it is.
-/

namespace DeferredCalls

namespace Verbosity

/-- The rank of the most detailed level that is logged; zero if nothing is. -/
def rank : Verbosity → Nat
  | none => 0
  | some most => most.rank

/-- The lower one of two verbosities. -/
def least (v v' : Verbosity) : Verbosity :=
  if v.rank ≤ v'.rank then v else v'

variable {v v' : Verbosity} {level : Level}

theorem admits_iff : v.admits level = true ↔ level.rank ≤ v.rank := by
  cases v with
  | none => cases level <;> simp [admits, rank, Level.rank]
  | some most => simp [admits, rank]

theorem admits_least : (v.least v').admits level = (v.admits level && v'.admits level) := by
  rw [Bool.eq_iff_iff, Bool.and_eq_true, admits_iff, admits_iff, admits_iff, least]
  split <;> omega

theorem least_of_le (lower : v.rank ≤ v'.rank) : v.least v' = v :=
  if_pos lower

/-- Events of every level are logged at the highest verbosity. -/
theorem admits_trace : Verbosity.admits (some .trace) level = true := by
  cases level <;> rfl

theorem trace_least : Verbosity.least (some .trace) v = v := by
  rcases v with _ | _ | _ | _ | _ | _ <;> rfl

end Verbosity

/-! ## Entries, replies and records -/

/-- Whether an entry is noted at a verbosity. -/
def Entry.isWithin (v : Verbosity) : Entry → Bool
  | .event e => v.admits e.level
  | _ => true

theorem Entry.isWithin_of_not_event {v : Verbosity} {e : Entry} (other : e.isEvent = false) :
    e.isWithin v = true := by
  cases e with
  | event e => contradiction
  | _ => rfl

mutual

/-- A reply without the events of too much detail. -/
def Reply.upTo (v : Verbosity) : Reply → Reply
  | .records records => .records (Record.allUpTo v records)
  | reply => reply

/-- An entry whose reply, if it has one, is without the events of too much detail. -/
def Entry.upTo (v : Verbosity) : Entry → Entry
  | .did verb reply => .did verb (reply.upTo v)
  | entry => entry

/-- A record without the events of too much detail. -/
def Record.upTo (v : Verbosity) : Record → Record
  | .mk reply position journal => .mk (reply.upTo v) position (Entry.allUpTo v journal)

/-- Records without the events of too much detail. -/
def Record.allUpTo (v : Verbosity) : List Record → List Record
  | [] => []
  | record :: records => record.upTo v :: Record.allUpTo v records

/-- A journal without the events of too much detail. -/
def Entry.allUpTo (v : Verbosity) : List Entry → List Entry
  | [] => []
  | entry :: entries =>
    if entry.isWithin v then entry.upTo v :: Entry.allUpTo v entries
    else Entry.allUpTo v entries

end

theorem Entry.isEvent_upTo {v : Verbosity} {e : Entry} : (e.upTo v).isEvent = e.isEvent := by
  cases e <;> rfl

mutual

/-- The events that a reply contains. -/
def Reply.events : Reply → List Event
  | .records records => Record.allEvents records
  | _ => []

/-- The events that an entry contains: itself, or those of its reply. -/
def Entry.events : Entry → List Event
  | .event e => [e]
  | .did _ reply => reply.events
  | _ => []

/-- The events that a record contains. -/
def Record.events : Record → List Event
  | .mk reply _ journal => reply.events ++ Entry.allEvents journal

/-- The events of several records. -/
def Record.allEvents : List Record → List Event
  | [] => []
  | record :: records => record.events ++ Record.allEvents records

/-- The events of a journal. -/
def Entry.allEvents : List Entry → List Event
  | [] => []
  | entry :: entries => entry.events ++ Entry.allEvents entries

end

section Lists

variable {v : Verbosity}

theorem Entry.allUpTo_eq (entries : List Entry) :
    Entry.allUpTo v entries = (entries.filter (·.isWithin v)).map (·.upTo v) := by
  induction entries with
  | nil => rfl
  | cons entry entries ih =>
    rw [Entry.allUpTo, ih, List.filter_cons]
    split <;> rfl

end Lists

/-! ## At the highest verbosity, nothing is left out -/

theorem Entry.isWithin_trace (e : Entry) : e.isWithin (some .trace) = true := by
  cases e with
  | event e => exact Verbosity.admits_trace
  | _ => rfl

mutual

theorem Reply.upTo_trace : ∀ reply : Reply, reply.upTo (some .trace) = reply := by
  intro reply
  unfold Reply.upTo
  split
  · rw [Record.allUpTo_trace]
  · rfl
termination_by reply => sizeOf reply

theorem Entry.upTo_trace : ∀ entry : Entry, entry.upTo (some .trace) = entry := by
  intro entry
  unfold Entry.upTo
  split
  · rw [Reply.upTo_trace]
  · rfl
termination_by entry => sizeOf entry

theorem Record.upTo_trace : ∀ record : Record, record.upTo (some .trace) = record
  | .mk reply position journal => by
    rw [Record.upTo, Reply.upTo_trace, Entry.allUpTo_trace]
termination_by record => sizeOf record

theorem Record.allUpTo_trace : ∀ records : List Record,
    Record.allUpTo (some .trace) records = records
  | [] => by rw [Record.allUpTo]
  | record :: records => by
    rw [Record.allUpTo, Record.upTo_trace, Record.allUpTo_trace]
termination_by records => sizeOf records

theorem Entry.allUpTo_trace : ∀ entries : List Entry,
    Entry.allUpTo (some .trace) entries = entries
  | [] => by rw [Entry.allUpTo]
  | entry :: entries => by
    rw [Entry.allUpTo, if_pos entry.isWithin_trace, Entry.upTo_trace, Entry.allUpTo_trace]
termination_by entries => sizeOf entries

end

/-! ## The events that are left -/

mutual

theorem Reply.events_upTo (v : Verbosity) : ∀ reply : Reply,
    (reply.upTo v).events = reply.events.filter (v.admits ·.level) := by
  intro reply
  cases reply with
  | records records => rw [Reply.upTo, Reply.events, Reply.events, Record.allEvents_upTo]
  | _ => rfl
termination_by reply => sizeOf reply

theorem Entry.events_upTo (v : Verbosity) : ∀ entry : Entry,
    (if entry.isWithin v then (entry.upTo v).events else []) =
      entry.events.filter (v.admits ·.level) := by
  intro entry
  cases entry with
  | did verb reply => exact Reply.events_upTo v reply
  | event e => cases admitted : v.admits e.level <;> simp [Entry.isWithin, Entry.upTo, Entry.events,
      admitted]
  | _ => rfl
termination_by entry => sizeOf entry

theorem Record.events_upTo (v : Verbosity) : ∀ record : Record,
    (record.upTo v).events = record.events.filter (v.admits ·.level)
  | .mk reply position journal => by
    rw [Record.upTo, Record.events, Record.events, Reply.events_upTo, Entry.allEvents_upTo,
      List.filter_append]
termination_by record => sizeOf record

theorem Record.allEvents_upTo (v : Verbosity) : ∀ records : List Record,
    Record.allEvents (Record.allUpTo v records) =
      (Record.allEvents records).filter (v.admits ·.level)
  | [] => by rw [Record.allUpTo, Record.allEvents, List.filter_nil]
  | record :: records => by
    rw [Record.allUpTo, Record.allEvents, Record.allEvents, Record.events_upTo,
      Record.allEvents_upTo, List.filter_append]
termination_by records => sizeOf records

theorem Entry.allEvents_upTo (v : Verbosity) : ∀ entries : List Entry,
    Entry.allEvents (Entry.allUpTo v entries) =
      (Entry.allEvents entries).filter (v.admits ·.level)
  | [] => by rw [Entry.allUpTo, Entry.allEvents, List.filter_nil]
  | entry :: entries => by
    rw [Entry.allUpTo, Entry.allEvents, List.filter_append, ← Entry.allEvents_upTo v entries,
      ← Entry.events_upTo v entry]
    split <;> rfl
termination_by entries => sizeOf entries

end

end DeferredCalls
