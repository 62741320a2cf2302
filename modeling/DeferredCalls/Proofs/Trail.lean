import DeferredCalls.Proofs.Releasing
import DeferredCalls.Proofs.Running
import DeferredCalls.Proofs.Telling

/-!
# What runs leave behind

A run brackets what its callable and its sink do: a share is made and given up, a call is put on the
stack and taken off, a context is installed and its guard dropped. If all that is done in between is
to note entries, to keep diagnostics in one sink and to make installs that are over, then the
bracket leaves exactly that behind, and the world is otherwise what it was. No count falls to zero
on the way, since another share of the same object was there before.
-/

namespace DeferredCalls

/-- Entries for the journal of a thread, diagnostics for a sink, and a number of installs that are
over. -/
@[ext]
structure Trail where
  notes : List Entry := []
  reports : List Diagnostic := []
  installs : Nat := 0

instance : Append Trail :=
  ⟨fun x y => ⟨x.notes ++ y.notes, x.reports ++ y.reports, x.installs + y.installs⟩⟩

namespace Trail

variable (x y z : Trail)

@[simp] theorem notes_append : (x ++ y).notes = x.notes ++ y.notes := rfl

@[simp] theorem reports_append : (x ++ y).reports = x.reports ++ y.reports := rfl

@[simp] theorem installs_append : (x ++ y).installs = x.installs + y.installs := rfl

theorem append_assoc : x ++ y ++ z = x ++ (y ++ z) :=
  Trail.ext (List.append_assoc ..) (List.append_assoc ..) (Nat.add_assoc ..)

end Trail

namespace World

variable {w w' : World} {t u : ThreadId} {s : SinkId} {c : CallId} {k : Share} {x y : Trail}

/-- Notes entries on the side of a thread, one after another. -/
def noteAll (w : World) (t : ThreadId) (es : List Entry) : World :=
  { w with
    journal :=
      match (w.thread t).role with
      | .commands => w.journal ++ es.toArray
      | .serving _ => w.journal
    remoteJournal :=
      match (w.thread t).role with
      | .commands => w.remoteJournal
      | .serving _ => w.remoteJournal ++ (es.map ((w.thread t).name.getD "", ·)).toArray }

/-- What the journal gets when an event is logged. -/
def logNotes (w : World) (level : Level) (message : String)
    (fields : List (String × FieldValue)) : List Entry :=
  if w.verbosity.admits level then [.event { level, message, fields }] else []

/-- A world with a trail in it: nothing else is different. -/
def marked (w : World) (t : ThreadId) (s : SinkId) (x : Trail) : World :=
  { w.noteAll t x.notes with
    sinks := w.sinks.modify s fun k => { k with entries := k.entries ++ x.reports }
    threads := w.threads.modify t fun th =>
      { th with context := { th.context with installs := th.context.installs + x.installs } } }

/-! ## Trails in a world -/

theorem marked_congr {β : Type} (g : Thread → β) (same : ∀ th n,
    g { th with context := { th.context with installs := n } } = g th) (u : ThreadId) :
    g ((w.marked t s x).thread u) = g (w.thread u) :=
  Arena.get_modify_congr g (fun th => same th _) u

theorem contextStack_marked (inside : t.index < w.threads.size) :
    (w.marked t s x).contextStack t =
      { w.contextStack t with installs := (w.contextStack t).installs + x.installs } := by
  show ((w.threads.modify t _).get t).context = _
  rw [Arena.get_modify inside, if_pos rfl]
  rfl

theorem callStack_marked : (w.marked t s x).callStack u = w.callStack u :=
  marked_congr Thread.callStack (fun _ _ => rfl) u

theorem ambient_marked : (w.marked t s x).ambient u = w.ambient u :=
  marked_congr (fun th => th.context.ambient) (fun _ _ => rfl) u

theorem marked_empty : w.marked t s {} = w := by
  unfold marked noteAll
  rw [Arena.modify_eq_self (by simp), Arena.modify_eq_self (by simp)]
  cases role : (w.thread t).role <;> simp

theorem role_marked : ((w.marked t s x).thread u).role = (w.thread u).role :=
  marked_congr Thread.role (fun _ _ => rfl) u

theorem name_marked : ((w.marked t s x).thread u).name = (w.thread u).name :=
  marked_congr Thread.name (fun _ _ => rfl) u

theorem marked_marked : (w.marked t s x).marked t s y = w.marked t s (x ++ y) := by
  rw [marked, noteAll, role_marked, name_marked]
  simp only [marked, noteAll, Arena.modify_modify]
  cases role : (w.thread t).role <;> simp [Nat.add_assoc]

theorem shareCount_marked : (w.marked t s x).shareCount k = w.shareCount k := by
  cases k <;> rfl

theorem size_threads_marked : (w.marked t s x).threads.size = w.threads.size :=
  Arena.size_modify

theorem notesOf_marked : (w.marked t s x).notesOf t = w.notesOf t ++ x.notes := by
  unfold notesOf
  rw [role_marked]
  simp only [marked, noteAll]
  cases role : (w.thread t).role <;> simp

theorem entries_marked (inside : s.index < w.sinks.size) :
    ((w.marked t s x).sinks.get s).entries = (w.sinks.get s).entries ++ x.reports := by
  show ((w.sinks.modify s _).get s).entries = _
  rw [Arena.get_modify inside, if_pos rfl]

/-! ## What leaves a trail and nothing else -/

/-- Without installs, threads are as before. -/
theorem modify_no_installs : (w.threads.modify t fun th =>
    { th with context := { th.context with installs := th.context.installs + 0 } }) = w.threads :=
  Arena.modify_eq_self rfl

theorem note_eq_marked (e : Entry) : w.note t e = w.marked t s { notes := [e] } := by
  have sinks : (w.sinks.modify s fun k => { k with entries := k.entries ++ [] }) = w.sinks :=
    Arena.modify_eq_self (by simp)
  simp only [marked, sinks, modify_no_installs]
  unfold note noteAll
  cases role : (w.thread t).role <;> simp

theorem logNotes_congr {level : Level} {message : String} {fields : List (String × FieldValue)}
    (verbosity : w'.verbosity = w.verbosity) :
    w'.logNotes level message fields = w.logNotes level message fields := by
  unfold logNotes
  rw [verbosity]

theorem log_eq_marked (level : Level) (message : String) (fields : List (String × FieldValue)) :
    w.log t level message fields = w.marked t s { notes := w.logNotes level message fields } := by
  unfold log logNotes
  by_cases admitted : w.verbosity.admits level = true
  · simp only [if_pos admitted]
    exact note_eq_marked _
  · simp only [if_neg admitted]
    exact marked_empty.symm

theorem keep_eq_marked (d : Diagnostic) : w.keep (some s) d = w.marked t s { reports := [d] } := by
  simp only [marked, modify_no_installs, keep, noteAll]
  cases role : (w.thread t).role <;> simp

/-! ## Brackets -/

theorem acquire_marked : (w.acquire k).marked t s x = (w.marked t s x).acquire k := by
  cases k <;> rfl

theorem acquireAll_marked (ks : List Share) :
    (w.acquireAll ks).marked t s x = (w.marked t s x).acquireAll ks := by
  induction ks generalizing w with
  | nil => rfl
  | cons k ks ih =>
    show ((w.acquire k).acquireAll ks).marked t s x = _
    rw [ih, acquire_marked]
    rfl

/-- Giving up a share just made leaves no trace if it is not the only one. -/
theorem release_acquire (used : 0 < w.shareCount k) : (w.acquire k).release t k = w := by
  cases k with
  | context c =>
    simp only [shareCount] at used
    simp only [acquire, release, releaseContext, Arena.dropShare_addShare,
      if_neg (Nat.ne_of_gt used)]
  | callable c =>
    simp only [shareCount] at used
    simp only [acquire, release, releaseCallable, Arena.dropShare_addShare,
      if_neg (Nat.ne_of_gt used)]
  | call c =>
    simp only [shareCount] at used
    simp only [acquire, release, releaseCall, Arena.dropShare_addShare,
      if_neg (Nat.ne_of_gt used)]
  | loop l =>
    simp only [shareCount] at used
    simp only [acquire, release, releaseLoop, Arena.dropShare_addShare,
      if_neg (Nat.ne_of_gt used)]
  | manual m =>
    simp only [shareCount] at used
    simp only [acquire, release, releaseManual, Arena.dropShare_addShare,
      if_neg (Nat.ne_of_gt used)]

theorem releaseSnapshot_acquireAll {x : Snapshot} (used : ∀ k ∈ x.shares, 0 < w.shareCount k) :
    (w.acquireAll x.shares).releaseSnapshot t x = w := by
  match x with
  | ⟨none⟩ => rfl
  | ⟨some c⟩ => exact release_acquire (k := .context c) (used _ (List.mem_singleton_self _))

/-- An install makes a share of a context and changes a stack of contexts. -/
theorem install_eq (x : Snapshot) : ∃ contexts : Arena .context ContextState,
    (∀ c, contexts.get c = w.contexts.get c) ∧
    w.install t x = { w with contexts }.setContextStack t ((w.contextStack t).install x) := by
  match x with
  | ⟨none⟩ => exact ⟨w.contexts, fun _ => rfl, rfl⟩
  | ⟨some c⟩ => exact ⟨w.contexts.addShare c, fun _ => Arena.get_addShare, rfl⟩

theorem contextStack_install (inside : t.index < w.threads.size) (x : Snapshot) :
    (w.install t x).contextStack t = (w.contextStack t).install x := by
  obtain ⟨contexts, _, eq⟩ := w.install_eq (t := t) x
  rw [eq]
  exact (contextStack_setContextStack (w := { w with contexts }) inside _ _).trans (if_pos rfl)

/-- A change of the thread that is not of the number of installs can be made before or after. -/
theorem onThread_marked {f : Thread → Thread} (role : ∀ th, (f th).role = th.role)
    (name : ∀ th, (f th).name = th.name) (apart : ∀ th n,
      f { th with context := { th.context with installs := th.context.installs + n } } =
        { f th with context := { (f th).context with installs := (f th).context.installs + n } }) :
    (w.onThread t f).marked t s x = (w.marked t s x).onThread t f := by
  have role : ((w.onThread t f).thread t).role = (w.thread t).role := onThread_congr _ role t
  have name : ((w.onThread t f).thread t).name = (w.thread t).name := onThread_congr _ name t
  rw [marked, noteAll, role, name]
  simp only [onThread, marked, noteAll, Arena.modify_modify, apart]

theorem enterCall_marked : (w.enterCall t c).marked t s x = (w.marked t s x).enterCall t c := by
  rw [enterCall, onThread_marked, acquire_marked]
  · rfl
  all_goals intros; rfl

/-- A call that was put on the stack and is taken off it again leaves no trace. -/
theorem leaveCalls_enterCall (used : 0 < w.calls.shares c) (inside : t.index < w.threads.size) :
    (w.enterCall t c).leaveCalls t (w.callStack t).length = w := by
  have stack : (w.enterCall t c).callStack t = w.callStack t ++ [c] := by
    rw [callStack_enterCall inside used, if_pos rfl]
  have above : (w.callStack t ++ [c]).drop (w.callStack t).length = [c] := List.drop_left
  have shorter : (w.enterCall t c).shortened t (w.callStack t).length = w.acquire (.call c) := by
    have below : (((w.acquire (.call c)).threads.get t).callStack ++ [c]).take
        (w.callStack t).length = ((w.acquire (.call c)).threads.get t).callStack :=
      List.take_left
    simp only [shortened, enterCall, onThread, Arena.modify_modify]
    rw [Arena.modify_eq_self]
    rw [below]
  rw [leaveCalls, stack, above, shorter]
  exact release_acquire (k := .call c) used

/-- A stack of contexts that is replaced, and then brought back with some more installs, leaves
these installs. -/
theorem setContextStack_marked {inner outer : ContextStack} {n : Nat}
    (same : outer =
      { w.contextStack t with installs := (w.contextStack t).installs + n + x.installs }) :
    ((w.setContextStack t inner).marked t s x).setContextStack t outer =
      w.marked t s ({ installs := n } ++ x) := by
  have role : ((w.setContextStack t inner).thread t).role = (w.thread t).role := by
    rw [setContextStack, onThread_congr Thread.role]
    exact fun _ => rfl
  have name : ((w.setContextStack t inner).thread t).name = (w.thread t).name := by
    rw [setContextStack, onThread_congr Thread.name]
    exact fun _ => rfl
  have threads : (w.threads.modify t fun th => { th with context := outer }) =
      w.threads.modify t fun th => { th with
        context := { th.context with installs := th.context.installs + (n + x.installs) } } := by
    apply Arena.modify_congr
    have context : outer = { (w.threads.get t).context with
        installs := (w.threads.get t).context.installs + (n + x.installs) } := by
      rw [same, ← Nat.add_assoc]
      rfl
    simp only [context]
  rw [marked, noteAll, role, name]
  simp only [setContextStack, onThread, marked, noteAll, Arena.modify_modify, threads,
    Trail.notes_append, Trail.reports_append, Trail.installs_append, List.nil_append]

/-- A guard that is dropped while its install is innermost leaves one install that is over. -/
theorem dropGuard_install {x : Snapshot} (used : ∀ k ∈ x.shares, 0 < w.shareCount k)
    (inside : t.index < w.threads.size) :
    ((w.install t x).marked t s y).dropGuard t (w.contextStack t).nextGuard =
      w.marked t s ({ installs := 1 } ++ y) := by
  have inside₁ : t.index < (w.install t x).threads.size := by
    rw [install, setContextStack, size_threads_onThread, (keeps_acquireAll used).threads]
    exact inside
  have stack : ((w.install t x).marked t s y).contextStack t =
      { (w.contextStack t).install x with
        installs := (w.contextStack t).installs + 1 + y.installs } := by
    rw [contextStack_marked inside₁, contextStack_install inside]
    rfl
  have drop : (((w.install t x).marked t s y).contextStack t).dropGuard
      (w.contextStack t).nextGuard =
      { warning := none
        stack := { w.contextStack t with
          installs := (w.contextStack t).installs + 1 + y.installs }
        released := x } := by
    rw [stack]
    simp [ContextStack.dropGuard, ContextStack.fromToken, ContextStack.install,
      ContextStack.nextGuard, ContextStack.depth]
  have same : (w.acquireAll x.shares).contextStack t = w.contextStack t :=
    (keeps_acquireAll used).contextStack
  rw [dropGuard, unguarded, drop]
  show (((w.install t x).marked t s y).setContextStack t _).releaseSnapshot t x = _
  rw [install, setContextStack_marked (by rw [same]), acquireAll_marked]
  apply releaseSnapshot_acquireAll
  exact used

/-! ## Runs -/

/-- A call that can be run: it is not dead, and everything that a run of it needs is in use. -/
structure Available (w : World) (c : CallId) : Prop where
  living : (w.calls.get c).dead = false
  used : 0 < w.calls.shares c
  callable : 0 < w.shareCount (.callable (w.callableOf c))
  context : ∀ k ∈ (w.calls.get c).context.shares, 0 < w.shareCount k

theorem Balanced.available {H : Multiset Holding} (balanced : w.Balanced H)
    (used : 0 < w.calls.shares c) (there : w.callExists c = true) : w.Available c := by
  obtain ⟨living, alive⟩ := callExists_iff.mp there
  refine ⟨living, used, balanced.callable_alive used alive, fun k member => ?_⟩
  exact balanced.alive_of_call used (List.mem_append_right _ member)

namespace Available

theorem callExists (available : w.Available c) : w.callExists c = true := by
  refine callExists_iff.mpr ⟨available.living, ?_⟩
  have callable := available.callable
  unfold callableOf at callable
  match handle : (w.calls.get c).handle with
  | .strong f => rfl
  | .weak f =>
    rw [handle] at callable
    exact decide_eq_true callable

theorem mono (available : w.Available c) (call : w'.calls.get c = w.calls.get c)
    (used : ∀ k, 0 < w.shareCount k → 0 < w'.shareCount k) : w'.Available c where
  living := by rw [call, available.living]
  used := used (.call c) available.used
  callable := by
    rw [callableOf, call]
    exact used _ available.callable
  context k member := by
    rw [call] at member
    exact used k (available.context k member)

end Available

/-- What the journal gets when a call has been entered and some number of calls is in progress. -/
def runningNotes (w : World) (c : CallId) (n : Nat) : List Entry :=
  w.logNotes .trace "running deferred call" [callField c, ("depth", .number n)]

/-- The world in which a call stands on the stack but its context is not installed yet. -/
def calling (w : World) (t : ThreadId) (c : CallId) : World :=
  (w.acquire (.callable (w.callableOf c))).enterCall t c

section Stacked

variable (available : w.Available c)
include available

theorem extends_calling : w.Extends (w.calling t c) :=
  have callable := Extends.acquire available.callable
  (callable.trans (Extends.acquire (s := .call c) available.used)).onThread

theorem context_calling {k : Share} (member : k ∈ (w.calls.get c).context.shares) :
    0 < (w.calling t c).shareCount k :=
  (extends_calling available).used k (available.context k member)

theorem callStack_installed (inside : t.index < w.threads.size) :
    ((w.calling t c).install t (w.calls.get c).context).callStack t = w.callStack t ++ [c] := by
  have steady := steady_install (t := t) fun _ => context_calling (t := t) available
  have calling := callStack_enterCall (w := w.acquire (.callable (w.callableOf c))) inside
    available.used t
  rw [if_pos rfl] at calling
  exact (congrArg Prod.fst (steady.duties t)).trans calling

/-- The world that a callable finds, but for what is logged. -/
theorem entered_eq_marked (inside : t.index < w.threads.size) : w.entered t c =
    ((w.calling t c).install t (w.calls.get c).context).marked t s
      { notes := w.runningNotes c ((w.callStack t).length + 1) } := by
  have verbosity : ((w.calling t c).install t (w.calls.get c).context).verbosity =
      w.verbosity := by
    obtain ⟨contexts, _, eq⟩ := (w.calling t c).install_eq (t := t) (w.calls.get c).context
    rw [eq]
    rfl
  show World.log ((w.calling t c).install t (w.calls.get c).context) t _ _
    [_, ("depth", .number (((w.calling t c).install t _).callStack t).length)] = _
  rw [callStack_installed available inside, List.length_append, log_eq_marked (s := s),
    logNotes_congr verbosity]
  rfl

theorem ambient_entered (inside : t.index < w.threads.size) :
    (w.entered t c).ambient t = (w.calls.get c).context := by
  have inside₁ : t.index < (w.calling t c).threads.size := by
    rwa [calling, enterCall, size_threads_onThread]
  rw [entered_eq_marked (s := ⟨0⟩) available inside, ambient_marked, ambient,
    contextStack_install inside₁, ContextStack.ambient_install]

/-- Giving back what a run took in the first place leaves what was done meanwhile. -/
theorem leave_calling (inside : t.index < w.threads.size) :
    (((w.calling t c).marked t s x).leaveCalls t (w.callStack t).length).release t
      (.callable (w.callableOf c)) = w.marked t s x := by
  have inside₁ : t.index <
      ((w.acquire (.callable (w.callableOf c))).marked t s x).threads.size := by
    rwa [size_threads_marked]
  have left := leaveCalls_enterCall (w := (w.acquire (.callable (w.callableOf c))).marked t s x)
    (c := c) available.used inside₁
  rw [callStack_marked, ← enterCall_marked] at left
  have callable : 0 < (w.marked t s x).shareCount (.callable (w.callableOf c)) := by
    rw [shareCount_marked]
    exact available.callable
  have released := release_acquire (t := t) callable
  rw [← left.trans acquire_marked] at released
  exact released

end Stacked

/-- A run leaves what was done between its first and its last part, and an install that is over. -/
theorem exited_entered (available : w.Available c) (inside : t.index < w.threads.size) :
    w.exited ((w.entered t c).marked t s y) t c =
      w.marked t s
        ({ installs := 1 } ++
          ({ notes := w.runningNotes c ((w.callStack t).length + 1) } ++ y)) := by
  have inside₁ : t.index < (w.calling t c).threads.size := by
    rwa [calling, enterCall, size_threads_onThread]
  have guard : w.runGuard t = ((w.calling t c).contextStack t).nextGuard := by
    rw [calling, contextStack_enterCall]
    rfl
  rw [exited, entered_eq_marked available inside, marked_marked, guard,
    dropGuard_install (fun _ => context_calling available) inside₁, leave_calling available inside]

end World

end DeferredCalls
