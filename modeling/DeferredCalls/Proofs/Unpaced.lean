import DeferredCalls.Proofs.Tally
import DeferredCalls.Session.Perform

/-!
# The pace of a loop

The budget of a loop decides how many of its tasks a cycle covers, and at the end of each cycle an
event tells how many there were. A world without the pace of a loop lacks both. Here it is shown
that posting, scheduling, closing loops, running calls and panicking is the same with the pace and
without it, and so are tasks whose scripts, and those of the callables that they run, do no more
than that.
-/

namespace DeferredCalls

/-- Whether an entry is the event at the end of a cycle. -/
def Entry.isCycle : Entry → Bool
  | .event e => e.level == .trace && e.message == "event loop cycle"
  | _ => false

/-- A journal without the events at the ends of cycles. What it is made of contains entries. -/
def withoutCycles {α : Type} (entry : α → Entry) (entries : Array α) : Array α :=
  entries.filter fun e => !(entry e).isCycle

section WithoutCycles

variable {α : Type} {entry : α → Entry} {entries : Array α} {e : α}

theorem withoutCycles_push (other : (entry e).isCycle = false) :
    withoutCycles entry (entries.push e) = (withoutCycles entry entries).push e := by
  simp [withoutCycles, Array.filter_push_of_pos, other]

theorem withoutCycles_push_of_isCycle (cycle : (entry e).isCycle = true) :
    withoutCycles entry (entries.push e) = withoutCycles entry entries := by
  simp [withoutCycles, Array.filter_push_of_neg, cycle]

end WithoutCycles

/-- Changes of objects that can be exchanged one by one can be exchanged in the arena. -/
theorem Arena.modify_comm {kind : ObjectKind} {α : Type} {a : Arena kind α} {r s : Ref kind}
    {f g : α → α} (same : ∀ x, f (g x) = g (f x)) :
    (a.modify s g).modify r f = (a.modify r f).modify s g := by
  simp only [modify]
  congr 1
  apply Array.ext
  · simp
  · intro i _ _
    by_cases first : r.index = i <;> by_cases second : s.index = i <;>
      simp [Array.getElem_modify, first, second, same]

/-- A change of an object does not touch its shares. -/
theorem Arena.addShare_modify {kind : ObjectKind} {α : Type} {a : Arena kind α} {r s : Ref kind}
    {f : α → α} : (a.modify r f).addShare s = (a.addShare s).modify r f := by
  simp only [modify, addShare]
  congr 1
  apply Array.ext
  · simp
  · intro i _ _
    by_cases first : r.index = i <;> by_cases second : s.index = i <;>
      simp [Array.getElem_modify, first, second]

namespace World

/-- A world without the budget of a loop and without the events of cycles. -/
def unpaced (w : World) (l : LoopId) : World :=
  { w with
    loops := w.loops.modify l fun loop => { loop with cycleBudget := 0 }
    journal := withoutCycles id w.journal
    remoteJournal := withoutCycles Prod.snd w.remoteJournal }

variable {w : World} {l k : LoopId} {t : ThreadId}

/-! ## What is seen -/

/-- Apart from the budget, a loop is seen as it is. -/
theorem loop_unpaced {β : Type} (p : EventLoop → β)
    (same : ∀ loop, p { loop with cycleBudget := 0 } = p loop) (k : LoopId) :
    p ((w.unpaced l).loop k) = p (w.loop k) :=
  Arena.get_modify_congr p same k

theorem queue_unpaced : ((w.unpaced l).loop k).queue = (w.loop k).queue :=
  loop_unpaced EventLoop.queue (fun _ => rfl) k

theorem closed_unpaced : ((w.unpaced l).loop k).closed = (w.loop k).closed :=
  loop_unpaced EventLoop.closed (fun _ => rfl) k

theorem loopField_unpaced : (w.unpaced l).loopField k = w.loopField k :=
  congrArg (fun name => ("loop_name", FieldValue.text name))
    (loop_unpaced EventLoop.name (fun _ => rfl) k)

theorem position_unpaced : (w.unpaced l).position t = w.position t := by
  have name (k : LoopId) : ((w.unpaced l).loops.get k).name = (w.loops.get k).name :=
    loop_unpaced EventLoop.name (fun _ => rfl) k
  simp only [position, name]
  rfl

theorem isDesignated_unpaced (s : Scheduler) :
    (w.unpaced l).isDesignated t s = w.isDesignated t s := by
  cases s with
  | loop k => exact loop_unpaced (fun loop => loop.owner == t) (fun _ => rfl) k
  | manual m => rfl

theorem violationOf_unpaced (s : Scheduler) : (w.unpaced l).violationOf s = w.violationOf s := by
  cases s with
  | loop k => exact loop_unpaced EventLoop.violation (fun _ => rfl) k
  | manual m => rfl

/-! ## What is done -/

theorem ite_unpaced {p : Prop} [Decidable p] {x y : World} :
    (if p then x else y).unpaced l = if p then x.unpaced l else y.unpaced l :=
  apply_ite (·.unpaced l) p x y

theorem note_unpaced {e : Entry} (other : e.isCycle = false) :
    (w.unpaced l).note t e = (w.note t e).unpaced l := by
  have same : (w.unpaced l).thread t = w.thread t := rfl
  rw [note, note, same]
  split
  · simp only [unpaced]
    rw [withoutCycles_push (by exact other)]
  · simp only [unpaced]
    rw [withoutCycles_push (by exact other)]

theorem log_unpaced {level : Level} {message : String} {fields : List (String × FieldValue)}
    (other : (Entry.event { level, message, fields }).isCycle = false) :
    (w.unpaced l).log t level message fields = (w.log t level message fields).unpaced l := by
  have verbosity : (w.unpaced l).verbosity = w.verbosity := rfl
  rw [log, log, verbosity, note_unpaced other, ite_unpaced]

/-- The event at the end of a cycle is not seen. -/
theorem unpaced_log_cycle (fields : List (String × FieldValue)) :
    (w.log t .trace "event loop cycle" fields).unpaced l = w.unpaced l := by
  rw [log]
  split
  · rw [note]
    split
    · simp only [unpaced]
      rw [withoutCycles_push_of_isCycle rfl]
    · simp only [unpaced]
      rw [withoutCycles_push_of_isCycle rfl]
  · rfl

/-! Making and giving up shares -/

theorem acquire_unpaced (s : Share) : (w.unpaced l).acquire s = (w.acquire s).unpaced l := by
  cases s with
  | loop k => exact congrArg (fun loops => { w.unpaced l with loops }) Arena.addShare_modify
  | _ => rfl

theorem acquireAll_unpaced (shares : List Share) :
    (w.unpaced l).acquireAll shares = (w.acquireAll shares).unpaced l := by
  induction shares generalizing w with
  | nil => rfl
  | cons s shares ih =>
    have rest := ih (w := w.acquire s)
    rw [← acquire_unpaced] at rest
    exact rest

theorem releaseContext_unpaced (c : ContextId) :
    (w.unpaced l).releaseContext t c = (w.releaseContext t c).unpaced l := by
  let dropped : World := { w with contexts := w.contexts.dropShare c }
  have seen : (dropped.unpaced l).position t = dropped.position t := position_unpaced
  simp only [releaseContext]
  rw [ite_unpaced, ← note_unpaced rfl, ← seen]
  rfl

theorem releaseCallable_unpaced (c : CallableId) :
    (w.unpaced l).releaseCallable t c = (w.releaseCallable t c).unpaced l := by
  let dropped : World := { w with callables := w.callables.dropShare c }
  have seen : (dropped.unpaced l).position t = dropped.position t := position_unpaced
  simp only [releaseCallable]
  rw [ite_unpaced, ← note_unpaced rfl, ← seen]
  rfl

theorem releaseSnapshot_unpaced (s : Snapshot) :
    (w.unpaced l).releaseSnapshot t s = (w.releaseSnapshot t s).unpaced l := by
  obtain ⟨_ | c⟩ := s
  · rfl
  · exact releaseContext_unpaced c

theorem releaseHandle_unpaced (h : Handle) :
    (w.unpaced l).releaseHandle t h = (w.releaseHandle t h).unpaced l := by
  cases h with
  | strong c => exact releaseCallable_unpaced c
  | weak c => rfl

theorem releaseCall_unpaced (c : CallId) :
    (w.unpaced l).releaseCall t c = (w.releaseCall t c).unpaced l := by
  simp only [releaseCall]
  rw [ite_unpaced, ← releaseSnapshot_unpaced, ← releaseHandle_unpaced]
  rfl

theorem releaseCalls_unpaced (cs : List CallId) :
    (w.unpaced l).releaseCalls t cs = (w.releaseCalls t cs).unpaced l := by
  induction cs generalizing w with
  | nil => rfl
  | cons c cs ih =>
    have rest := ih (w := w.releaseCall t c)
    rw [← releaseCall_unpaced] at rest
    exact rest

theorem dropGuard_unpaced (g : Guard) :
    (w.unpaced l).dropGuard t g = (w.dropGuard t g).unpaced l := by
  have warned (warning : Option GuardWarning) :
      (w.unpaced l).warnGuard t warning = (w.warnGuard t warning).unpaced l := by
    match warning with
    | none => rfl
    | some (.outOfOrder ..) => exact log_unpaced (by rfl)
    | some (.unwound _) => exact log_unpaced (by rfl)
  have same : (w.unpaced l).contextStack t = w.contextStack t := rfl
  simp only [dropGuard, unguarded, same, warned]
  rw [← releaseSnapshot_unpaced]
  rfl

theorem leaveCalls_unpaced (depth : Nat) :
    (w.unpaced l).leaveCalls t depth = (w.leaveCalls t depth).unpaced l := by
  have same : (w.unpaced l).callStack t = w.callStack t := rfl
  rw [leaveCalls, same, leaveCalls, ← releaseCalls_unpaced]
  rfl

theorem install_unpaced (s : Snapshot) :
    (w.unpaced l).install t s = (w.install t s).unpaced l := by
  have same : (w.unpaced l).contextStack t = w.contextStack t := rfl
  rw [install, same, acquireAll_unpaced]
  rfl

theorem markDead_unpaced (c : CallId) :
    (w.unpaced l).markDead t c = (w.markDead t c).unpaced l := by
  rw [markDead, markDead, ite_unpaced, ← log_unpaced rfl]
  rfl

theorem keep_unpaced (sink : Option SinkId) (d : Diagnostic) :
    (w.unpaced l).keep sink d = (w.keep sink d).unpaced l := by
  cases sink <;> rfl

/-! Queues -/

theorem modifyLoop_unpaced {f : EventLoop → EventLoop}
    (same : ∀ loop, f { loop with cycleBudget := 0 } = { f loop with cycleBudget := 0 }) :
    { w.unpaced l with loops := (w.unpaced l).loops.modify k f } =
      { w with loops := w.loops.modify k f }.unpaced l :=
  congrArg (fun loops => { w.unpaced l with loops }) (Arena.modify_comm same)

theorem dequeue?_unpaced :
    (w.unpaced l).dequeue? k = (w.dequeue? k).map fun p => (p.1, p.2.unpaced l) := by
  rw [dequeue?, dequeue?, queue_unpaced]
  split
  · rfl
  · rw [modifyLoop_unpaced fun _ => rfl]
    rfl

theorem enqueue_unpaced (task : Task) :
    (w.unpaced l).enqueue k task = (w.enqueue k task).unpaced l :=
  modifyLoop_unpaced fun _ => rfl

theorem shutdownLoop_unpaced :
    (w.unpaced l).shutdownLoop t k = (w.shutdownLoop t k).unpaced l := by
  simp only [shutdownLoop]
  rw [← log_unpaced rfl, modifyLoop_unpaced fun _ => rfl, loopField_unpaced]

theorem post_unpaced (s : Scheduler) (task : Task) :
    (w.unpaced l).post t s task = ((w.post t s task).1, (w.post t s task).2.unpaced l) := by
  cases s with
  | loop k =>
    have name : ((w.unpaced l).loop k).name = (w.loop k).name :=
      loop_unpaced EventLoop.name (fun _ => rfl) k
    simp only [post, postToLoop, closed_unpaced, name, loopField_unpaced]
    split
    · rw [releaseTask, releaseCalls_unpaced]
      rfl
    · rw [enqueue_unpaced, log_unpaced rfl]
  | manual m =>
    have same : (w.unpaced l).manuals = w.manuals := rfl
    simp only [post, postToManual, same]
    split
    · rw [releaseTask, releaseCalls_unpaced]
      rfl
    · rfl

/-! ## What is left alone -/

/-- A change by which neither the scripts of callables nor the queue of a loop are touched. -/
structure SameWork (l : LoopId) (w w' : World) : Prop where
  body : ∀ f, (w'.callables.get f).body = (w.callables.get f).body
  queue : (w'.loop l).queue = (w.loop l).queue

namespace SameWork

variable {w' : World}

protected theorem refl (w : World) : w.SameWork l w :=
  ⟨fun _ => rfl, rfl⟩

theorem ite {p : Prop} [Decidable p] {x y : World} (yes : w.SameWork l x) (no : w.SameWork l y) :
    w.SameWork l (if p then x else y) := by
  split
  · exact yes
  · exact no

theorem note (h : w.SameWork l w') (e : Entry) : w.SameWork l (w'.note t e) := by
  obtain ⟨_, _, eq⟩ := w'.note_eq t e
  rw [eq]
  exact ⟨h.body, h.queue⟩

theorem log (h : w.SameWork l w') (level : Level) (message : String)
    (fields : List (String × FieldValue)) : w.SameWork l (w'.log t level message fields) := by
  obtain ⟨_, _, eq⟩ := w'.log_eq t level message fields
  rw [eq]
  exact ⟨h.body, h.queue⟩

theorem acquire (h : w.SameWork l w') (s : Share) : w.SameWork l (w'.acquire s) := by
  cases s with
  | callable c => exact ⟨fun f => by rw [World.acquire, Arena.get_addShare, h.body], h.queue⟩
  | loop k =>
    refine ⟨h.body, ?_⟩
    rw [World.acquire, World.loop, Arena.get_addShare]
    exact h.queue
  | context c => exact ⟨h.body, h.queue⟩
  | call c => exact ⟨h.body, h.queue⟩
  | manual m => exact ⟨h.body, h.queue⟩

theorem acquireAll (h : w.SameWork l w') (shares : List Share) :
    w.SameWork l (w'.acquireAll shares) := by
  induction shares generalizing w' with
  | nil => exact h
  | cons s shares ih => exact ih (h.acquire s)

theorem onThread (h : w.SameWork l w') (f : Thread → Thread) : w.SameWork l (w'.onThread t f) :=
  ⟨h.body, h.queue⟩

theorem releaseContext (h : w.SameWork l w') (c : ContextId) :
    w.SameWork l (w'.releaseContext t c) := by
  have dropped : w.SameWork l { w' with contexts := w'.contexts.dropShare c } :=
    ⟨h.body, h.queue⟩
  exact .ite (dropped.note _) dropped

theorem releaseCallable (h : w.SameWork l w') (c : CallableId) :
    w.SameWork l (w'.releaseCallable t c) := by
  have dropped : w.SameWork l { w' with callables := w'.callables.dropShare c } :=
    ⟨fun f => by rw [Arena.get_dropShare, h.body], h.queue⟩
  exact .ite (dropped.note _) dropped

theorem releaseSnapshot (h : w.SameWork l w') (s : Snapshot) :
    w.SameWork l (w'.releaseSnapshot t s) := by
  obtain ⟨_ | c⟩ := s
  · exact h
  · exact h.releaseContext c

theorem releaseCall (h : w.SameWork l w') (c : CallId) : w.SameWork l (w'.releaseCall t c) := by
  have dropped : w.SameWork l { w' with calls := w'.calls.dropShare c } := ⟨h.body, h.queue⟩
  have handle (x : Handle) : w.SameWork l
      ({ w' with calls := w'.calls.dropShare c }.releaseHandle t x) := by
    cases x with
    | strong f => exact dropped.releaseCallable f
    | weak f => exact dropped
  exact .ite ((handle _).releaseSnapshot _) dropped

theorem releaseCalls (h : w.SameWork l w') (cs : List CallId) :
    w.SameWork l (w'.releaseCalls t cs) := by
  induction cs generalizing w' with
  | nil => exact h
  | cons c cs ih => exact ih (h.releaseCall c)

theorem dropGuard (h : w.SameWork l w') (g : Guard) : w.SameWork l (w'.dropGuard t g) := by
  have warned (warning : Option GuardWarning) : w.SameWork l (w'.warnGuard t warning) := by
    match warning with
    | none => exact h
    | some (.outOfOrder ..) => exact h.log ..
    | some (.unwound _) => exact h.log ..
  exact ((warned _).onThread _).releaseSnapshot _

theorem modifyCallable (h : w.SameWork l w') (f : CallableId) {g : Callable → Callable}
    (same : ∀ c, (g c).body = c.body) :
    w.SameWork l { w' with callables := w'.callables.modify f g } :=
  ⟨fun k => (Arena.get_modify_congr Callable.body same k).trans (h.body k), h.queue⟩

theorem shutdownLoop (h : w.SameWork l w') (k : LoopId) : w.SameWork l (w'.shutdownLoop t k) := by
  have same (loop : EventLoop) : { loop with closed := true }.queue = loop.queue := rfl
  have queue : ((w'.loops.modify k fun loop => { loop with closed := true }).get l).queue =
      (w'.loops.get l).queue := Arena.get_modify_congr EventLoop.queue same l
  have closed : w.SameWork l
      { w' with loops := w'.loops.modify k fun loop => { loop with closed := true } } :=
    ⟨h.body, queue.trans h.queue⟩
  exact closed.log ..

end SameWork

end World

end DeferredCalls
