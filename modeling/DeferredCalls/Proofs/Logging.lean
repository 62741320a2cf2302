import DeferredCalls.Proofs.UnawareCommands

/-!
# Logging only observes

What is done at a low verbosity is what is done at a higher one, and only the events of too much
detail are not logged. Two runs are compared: of the same action, or of the same script, from worlds
that differ in nothing but the verbosity and the events that have been logged so far. All else that
either run makes of its world is the same, step by step: contexts, callables and how often they were
invoked, calls and their ids, diagnostics, stacks, queues, and what the journals say was released,
and when.
-/

namespace DeferredCalls

/-! ## Less detail -/

/-- The world as it would be if events had been logged up to a level only. -/
def World.upTo (v : Verbosity) (w : World) : World :=
  { w with
    journal := (Entry.allUpTo v w.journal.toList).toArray
    remoteJournal := (w.remoteJournal.filter (·.2.isWithin v)).map fun p => (p.1, p.2.upTo v)
    verbosity := v.least w.verbosity }

/-- A report without the events of too much detail. -/
def Report.upTo (v : Verbosity) (r : Report) : Report :=
  { r with
    records := Record.allUpTo v r.records
    ending := Entry.allUpTo v r.ending
    threads := r.threads.map fun p => (p.1, Entry.allUpTo v p.2) }

/-- The events of a report: of its commands, of its end, and of loop threads. -/
def Report.events (r : Report) : List Event :=
  Record.allEvents r.records ++ Entry.allEvents r.ending ++
    r.threads.flatMap fun p => Entry.allEvents p.2

/-- The events of loop threads, with the names of these. -/
def World.remoteEvents (w : World) : List (String × Event) :=
  w.remoteJournal.toList.flatMap fun p => p.2.events.map (p.1, ·)

/-- An action that does the same where less is logged; `seen` leaves out events of its result. -/
def Act.LogsLess {α : Type} (v : Verbosity) (seen : α → α) (m : Act α) : Prop :=
  ∀ t w, m t (w.upTo v) = ((m t w).1.map seen, (m t w).2.upTo v)

theorem Report.events_upTo (v : Verbosity) (r : Report) :
    (r.upTo v).events = r.events.filter (v.admits ·.level) := by
  simp only [events, upTo, List.filter_append, Record.allEvents_upTo, Entry.allEvents_upTo,
    List.flatMap_map, List.filter_flatMap]

theorem World.remoteEvents_upTo (v : Verbosity) (w : World) :
    (w.upTo v).remoteEvents = w.remoteEvents.filter (v.admits ·.2.level) := by
  obtain ⟨shown, list⟩ : ∃ shown, shown = w.remoteJournal.toList := ⟨_, rfl⟩
  simp only [remoteEvents, upTo, Array.toList_map, Array.toList_filter, ← list]
  clear list
  induction shown with
  | nil => rfl
  | cons p shown ih =>
    have events : (p.2.events.map (p.1, ·)).filter (v.admits ·.2.level) =
        (p.2.events.filter (v.admits ·.level)).map (p.1, ·) := List.filter_map
    rw [List.flatMap_cons, List.filter_append, events, ← Entry.events_upTo, ← ih, List.filter_cons]
    split <;> rfl

/-- A veil over the events of too much detail, and over nothing else. -/
theorem World.under_limit (v : Verbosity) (w : World) : w.under { limit := v } = w.upTo v := by
  have threads : (w.under { limit := v }).threads = w.threads :=
    World.threads_under fun _ _ hidden => nomatch hidden
  have journal : Veil.journal { limit := v } w.journal =
      (Entry.allUpTo v w.journal.toList).toArray :=
    Array.toList_inj.1 (Veil.toList_journal w.journal)
  rw [World.under, World.upTo, journal]
  exact congrArg (fun threads => { w.upTo v with threads }) threads

theorem Act.Shows.logsLess {α : Type} {v : Verbosity} {seen : α → α} {m : Act α}
    (shows : m.Shows { limit := v } seen m) : m.LogsLess v seen := by
  intro t w
  have same := (shows (t := t) (w := w) rfl (.of_none fun _ => rfl)).1
  rwa [World.under_limit, World.under_limit] at same

theorem Act.LogsLess.unaware {α : Type} {v : Verbosity} {m : Act α} (less : m.LogsLess v id) :
    m.Unaware { limit := v } := by
  intro t w _ _
  rw [World.under_limit, World.under_limit]
  exact ⟨less t w, .of_none fun _ => rfl⟩

/-! ## What a report shows of loop threads -/

theorem Entry.allUpTo_of_not_event {v : Verbosity} {entries : List Entry}
    (plain : ∀ e ∈ entries, e.isEvent = false) :
    Entry.allUpTo v entries = entries.map (·.upTo v) := by
  rw [Entry.allUpTo_eq,
    List.filter_eq_self.2 fun e member => e.isWithin_of_not_event (plain e member)]

/-- Less detail leaves all that is not an event. -/
theorem World.others_upTo (v : Verbosity) (w : World) :
    (w.upTo v).remoteJournal.toList.filter (!·.2.isEvent) =
      (w.remoteJournal.toList.filter (!·.2.isEvent)).map fun p => (p.1, p.2.upTo v) := by
  simp only [upTo, Array.toList_map, Array.toList_filter, List.filter_map, Function.comp_def,
    Entry.isEvent_upTo, List.filter_filter]
  refine congrArg _ (List.filter_congr fun p _ => ?_)
  cases other : p.2.isEvent with
  | true => rfl
  | false => rw [Entry.isWithin_of_not_event other]; rfl

theorem groupByName_upTo {v : Verbosity} {entries : List (String × Entry)}
    (plain : ∀ p ∈ entries, p.2.isEvent = false) :
    groupByName (entries.map fun p => (p.1, p.2.upTo v)) =
      (groupByName entries).map fun p => (p.1, Entry.allUpTo v p.2) := by
  have names : (entries.map fun p => (p.1, p.2.upTo v)).map (·.1) = entries.map (·.1) := by
    rw [List.map_map]
    rfl
  rw [groupByName, groupByName, names, List.map_map]
  refine List.map_congr_left fun name _ => Prod.ext rfl ?_
  have group : ∀ e ∈ (entries.filter (·.1 == name)).map (·.2), e.isEvent = false := by
    intro e member
    obtain ⟨p, inside, rfl⟩ := List.mem_map.1 member
    exact plain p (List.mem_of_mem_filter inside)
  simp only [Function.comp_apply]
  rw [Entry.allUpTo_of_not_event group, List.filter_map, List.map_map, List.map_map]
  rfl

namespace Session

variable {v less more : Verbosity} {script : Script}

theorem start_upTo (lower : less.rank ≤ more.rank) : (start more).upTo less = start less := by
  have least : less.least more = less := Verbosity.least_of_le lower
  simp [World.upTo, start, least, Entry.allUpTo]

/-- A session at a lower verbosity. -/
theorem perform_upTo (lower : less.rank ≤ more.rank) (script : Script) :
    perform script driver (start less) =
      ((perform script driver (start more)).1.map (Record.allUpTo less),
        (perform script driver (start more)).2.upTo less) := by
  rw [← start_upTo lower]
  exact (shows_perform rfl script).logsLess driver (start more)

theorem report_upTo (lower : less.rank ≤ more.rank) (script : Script) :
    report less script = (report more script).upTo less := by
  rw [report, report, perform_upTo lower]
  generalize perform script driver (start more) = ended
  obtain ⟨result, w⟩ := ended
  have threads : groupByName ((w.upTo less).remoteJournal.toList.filter (!·.2.isEvent)) =
      (groupByName (w.remoteJournal.toList.filter (!·.2.isEvent))).map
        fun p => (p.1, Entry.allUpTo less p.2) := by
    rw [w.others_upTo]
    exact groupByName_upTo fun p member => by simpa using (List.mem_filter.1 member).2
  simp only [Report.upTo, threads]
  congr 1
  cases result <;> rfl

end Session

/-! ## What less logging makes of operations and of sessions -/

/-- That logging up to `less` instead of `more` makes no difference but to the log. -/
structure OnlyLogs (less more : Verbosity) : Prop where
  /-- Each command does the same, in any state, however deep scripts are nested. -/
  command : ∀ depth command, (Act.performer depth command).LogsLess less (·.upTo less)
  /-- Each task that a loop runs does the same. -/
  task : ∀ depth task, (Act.runTask (Act.performer depth) task).LogsLess less id
  /-- A run does the same, whatever callable and sink do, if these do the same. -/
  run : ∀ code : Embedder, (∀ f args, (code.invoke f args).LogsLess less id) →
    (∀ sink d, (code.emit sink d).LogsLess less id) →
    ∀ c args, (Act.run code c args).LogsLess less id
  /-- A session ends in the same way and in the same world. -/
  session : ∀ script, Session.perform script Session.driver (Session.start less) =
    ((Session.perform script Session.driver (Session.start more)).1.map (Record.allUpTo less),
      (Session.perform script Session.driver (Session.start more)).2.upTo less)
  /-- Its report is the same but for events of too much detail. -/
  report : ∀ script, Session.report less script = (Session.report more script).upTo less
  /-- The events that are left are there in the same order and with the same fields. -/
  events : ∀ script, (Session.report less script).events =
    (Session.report more script).events.filter (less.admits ·.level)
  /-- So are those of the loop threads. -/
  remoteEvents : ∀ script,
    (Session.perform script Session.driver (Session.start less)).2.remoteEvents =
      (Session.perform script Session.driver (Session.start more)).2.remoteEvents.filter
        (less.admits ·.2.level)

/-- Logging only observes. -/
theorem logging_only_observes {less more : Verbosity} (lower : less.rank ≤ more.rank) :
    OnlyLogs less more where
  command depth command := (Act.performer_unaware rfl depth command).logsLess
  task depth task := (Act.runTask_unaware (Act.performer_unaware rfl depth) task).logsLess
  run _ invoked emitted c args := (Act.unaware_run
    ⟨fun f args => (invoked f args).unaware, fun sink d => (emitted sink d).unaware⟩
    c args).logsLess
  session := Session.perform_upTo lower
  report := Session.report_upTo lower
  events script := by rw [Session.report_upTo lower, Report.events_upTo]
  remoteEvents script := by rw [Session.perform_upTo lower, World.remoteEvents_upTo]

namespace Rerun

/-- A call is run, marked dead, and run again. -/
def script : Script :=
  [("callable", .newCallable "greet" none [] 0 []),
    ("call", .newCall "greeting" (.callable "greet") none),
    ("run", .run "greeting" none),
    ("mark_dead", .markDead "greeting"),
    ("run", .run "greeting" none)]

/-- Of the four events of the session, one is left at a lower verbosity. -/
theorem events_of_rerun :
    (Session.report (some .debug) script).events =
        (Session.report (some .trace) script).events.filter
          (Verbosity.admits (some .debug) ·.level) ∧
      (Session.report (some .trace) script).events.map (·.level) =
        [.trace, .trace, .debug, .trace] ∧
      (Session.report (some .debug) script).events.map (·.level) = [.debug] := by
  have observes : OnlyLogs (some .debug) (some .trace) := logging_only_observes (by decide)
  exact ⟨observes.events script, by decide +kernel, by decide +kernel⟩

end Rerun

end DeferredCalls
