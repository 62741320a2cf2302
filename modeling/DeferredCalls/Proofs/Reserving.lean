import DeferredCalls.Call.Schedule
import DeferredCalls.Loop.Manual
import DeferredCalls.Loop.Thread
import DeferredCalls.Proofs.Course
import DeferredCalls.Proofs.Frame
import DeferredCalls.Session.Drawer

/-!
# What is reserved to a loop thread

A loop thread and its loop belong to each other: no other thread serves the loop, and nobody keeps
the loop itself, but only handles of it. Whatever else happens in the world then comes to this for
the two of them: tasks are added at the end of the queue as long as the loop is open, and at some
time the loop is closed.

The operations of the library are gone through once, with what each of them is to a thread and a
loop that are reserved to each other.
-/

namespace DeferredCalls.World

/-- A thread serves a loop, and nobody else has the loop in hand. -/
structure Reserved (t : ThreadId) (l : LoopId) (w : World) : Prop where
  known : l.index < w.loops.size
  inside : t.index < w.threads.size
  owner : (w.loop l).owner = t
  serves : ∀ u, (w.thread u).role = .serving l ↔ u = t
  unkept : ∀ u, l ∉ (w.thread u).loops.values

/-- What can happen to a loop thread and its loop without the thread doing anything: some tasks are
accepted, none of them if the loop is closed already, and the loop may be closed. -/
structure Meanwhile (t : ThreadId) (l : LoopId) (w : World) (new : List Task) (w' : World) :
    Prop where
  reserved : w'.Reserved t l
  queue : (w'.loop l).queue = (w.loop l).queue ++ new
  closed : (w.loop l).closed = true → (w'.loop l).closed = true ∧ new = []
  busy : (w'.thread t).busy = (w.thread t).busy
  finished : (w'.thread t).finished = (w.thread t).finished

/-- A change in the course of a command that posts nothing to a loop. -/
structure Aside (t : ThreadId) (l : LoopId) (w w' : World) : Prop extends
    Meanwhile t l w [] w' where
  allowance : w'.allowance = w.allowance

/-- A change that spares all threads and all loops but for the number of their shares. -/
structure Spares (w w' : World) : Prop where
  threads : w'.threads = w.threads
  loopCount : w'.loops.size = w.loops.size
  loop : ∀ l, w'.loops.get l = w.loops.get l
  allowance : w'.allowance = w.allowance

variable {t u v : ThreadId} {l k : LoopId} {w w' w'' : World} {new more : List Task}
  {f : Thread → Thread}

protected theorem Meanwhile.trans (first : Meanwhile t l w new w')
    (second : Meanwhile t l w' more w'') : Meanwhile t l w (new ++ more) w'' where
  reserved := second.reserved
  queue := by rw [second.queue, first.queue, List.append_assoc]
  closed closed := by
    obtain ⟨still, rfl⟩ := first.closed closed
    obtain ⟨atEnd, rfl⟩ := second.closed still
    exact ⟨atEnd, rfl⟩
  busy := second.busy.trans first.busy
  finished := second.finished.trans first.finished

namespace Aside

protected theorem refl (reserved : w.Reserved t l) : Aside t l w w :=
  ⟨⟨reserved, (List.append_nil _).symm, fun closed => ⟨closed, rfl⟩, rfl, rfl⟩, rfl⟩

protected theorem trans (first : Aside t l w w') (second : Aside t l w' w'') : Aside t l w w'' :=
  ⟨first.toMeanwhile.trans second.toMeanwhile, second.allowance.trans first.allowance⟩

theorem queue_eq (aside : Aside t l w w') : (w'.loop l).queue = (w.loop l).queue := by
  rw [aside.queue, List.append_nil]

end Aside

/-! ## Shares and notes -/

namespace Spares

protected theorem refl (w : World) : w.Spares w :=
  ⟨rfl, rfl, fun _ => rfl, rfl⟩

protected theorem trans (first : w.Spares w') (second : w'.Spares w'') : w.Spares w'' where
  threads := second.threads.trans first.threads
  loopCount := second.loopCount.trans first.loopCount
  loop l := (second.loop l).trans (first.loop l)
  allowance := second.allowance.trans first.allowance

theorem setCalls (h : w.Spares w') (calls : Arena .call Call) : w.Spares { w' with calls } :=
  ⟨h.threads, h.loopCount, h.loop, h.allowance⟩

theorem thread (h : w.Spares w') : w'.thread u = w.thread u :=
  congrArg (fun threads : Arena .thread Thread => threads.get u) h.threads

theorem reserved (h : w.Spares w') (reserved : w.Reserved t l) : w'.Reserved t l where
  known := by
    rw [h.loopCount]
    exact reserved.known
  inside := by
    rw [h.threads]
    exact reserved.inside
  owner := by
    rw [World.loop, h.loop]
    exact reserved.owner
  serves u := by
    rw [h.thread]
    exact reserved.serves u
  unkept u := by
    rw [h.thread]
    exact reserved.unkept u

theorem aside (h : w.Spares w') (reserved : w.Reserved t l) : Aside t l w w' where
  reserved := h.reserved reserved
  queue := by rw [World.loop, h.loop, List.append_nil, World.loop]
  closed closed := by
    rw [World.loop, h.loop]
    exact ⟨closed, rfl⟩
  busy := by rw [h.thread]
  finished := by rw [h.thread]
  allowance := h.allowance

end Spares

section Shares

variable (w : World) (t : ThreadId)

theorem spares_note (e : Entry) : w.Spares (w.note t e) := by
  obtain ⟨journal, remoteJournal, eq⟩ := w.note_eq t e
  rw [eq]
  exact ⟨rfl, rfl, fun _ => rfl, rfl⟩

theorem spares_log (level : Level) (message : String) (fields : List (String × FieldValue)) :
    w.Spares (w.log t level message fields) := by
  obtain ⟨journal, remoteJournal, eq⟩ := w.log_eq t level message fields
  rw [eq]
  exact ⟨rfl, rfl, fun _ => rfl, rfl⟩

theorem spares_warnGuard (warning : Option GuardWarning) : w.Spares (w.warnGuard t warning) := by
  match warning with
  | none => exact .refl w
  | some (.outOfOrder ..) => exact w.spares_log ..
  | some (.unwound _) => exact w.spares_log ..

theorem spares_releaseContext (c : ContextId) : w.Spares (w.releaseContext t c) := by
  have dropped : w.Spares { w with contexts := w.contexts.dropShare c } :=
    ⟨rfl, rfl, fun _ => rfl, rfl⟩
  simp only [releaseContext]
  split
  · exact dropped.trans (spares_note ..)
  · exact dropped

theorem spares_releaseCallable (c : CallableId) : w.Spares (w.releaseCallable t c) := by
  have dropped : w.Spares { w with callables := w.callables.dropShare c } :=
    ⟨rfl, rfl, fun _ => rfl, rfl⟩
  simp only [releaseCallable]
  split
  · exact dropped.trans (spares_note ..)
  · exact dropped

theorem spares_releaseSnapshot (s : Snapshot) : w.Spares (w.releaseSnapshot t s) := by
  obtain ⟨_ | c⟩ := s
  · exact .refl w
  · exact w.spares_releaseContext t c

theorem spares_releaseHandle (h : Handle) : w.Spares (w.releaseHandle t h) := by
  cases h with
  | strong c => exact w.spares_releaseCallable t c
  | weak c => exact .refl w

theorem spares_releaseCall (c : CallId) : w.Spares (w.releaseCall t c) := by
  have dropped : w.Spares { w with calls := w.calls.dropShare c } :=
    ⟨rfl, rfl, fun _ => rfl, rfl⟩
  simp only [releaseCall]
  split
  · exact (dropped.trans (spares_releaseHandle ..)).trans (spares_releaseSnapshot ..)
  · exact dropped

theorem spares_releaseCalls (cs : List CallId) : w.Spares (w.releaseCalls t cs) := by
  induction cs generalizing w with
  | nil => exact .refl w
  | cons c cs ih => exact (w.spares_releaseCall t c).trans (ih _)

theorem spares_releaseTasks (tasks : List Task) : w.Spares (w.releaseTasks t tasks) := by
  induction tasks generalizing w with
  | nil => exact .refl w
  | cons task tasks ih => exact (w.spares_releaseCalls t task.holds).trans (ih _)

theorem spares_releaseManual (m : ManualId) : w.Spares (w.releaseManual t m) := by
  have emptied : w.Spares { w with
      manuals := (w.manuals.dropShare m).modify m fun s => { s with queue := [] } } :=
    ⟨rfl, rfl, fun _ => rfl, rfl⟩
  simp only [releaseManual]
  split
  · exact emptied.trans (spares_releaseTasks ..)
  · exact ⟨rfl, rfl, fun _ => rfl, rfl⟩

theorem spares_acquire (s : Share) : w.Spares (w.acquire s) := by
  cases s with
  | loop k => exact ⟨rfl, Arena.size_addShare, fun _ => Arena.get_addShare, rfl⟩
  | context | callable | call | manual => exact ⟨rfl, rfl, fun _ => rfl, rfl⟩

theorem spares_acquireAll (shares : List Share) : w.Spares (w.acquireAll shares) := by
  induction shares generalizing w with
  | nil => exact .refl w
  | cons s shares ih => exact (w.spares_acquire s).trans (ih _)

theorem spares_markDead (c : CallId) : w.Spares (w.markDead t c) := by
  rw [markDead]
  split
  · exact .refl w
  · exact ((Spares.refl w).setCalls _).trans (spares_log ..)

theorem spares_build (b : CallBuilder) : w.Spares (w.build t b).2 := by
  have acquired := w.spares_acquireAll (b.handle.shares ++ (b.context.getD (w.ambient t)).shares)
  exact (acquired.setCalls _).trans (spares_log ..)

theorem spares_keep (s : Option SinkId) (d : Diagnostic) : w.Spares (w.keep s d) := by
  cases s with
  | none => exact .refl w
  | some s => exact ⟨rfl, rfl, fun _ => rfl, rfl⟩

theorem spares_postToManual (m : ManualId) (task : Task) :
    w.Spares (w.postToManual t m task).2 := by
  rw [postToManual]
  split
  · exact w.spares_releaseCalls t task.holds
  · exact ⟨rfl, rfl, fun _ => rfl, rfl⟩

end Shares

/-! ## Threads -/

/-- A thread is as before, or it is the one that was changed. -/
theorem thread_onThread_eq_or : (w.onThread u f).thread v = w.thread v ∨
    v = u ∧ (w.onThread u f).thread v = f (w.thread v) := by
  by_cases same : v = u
  · subst same
    by_cases inside : v.index < w.threads.size
    · exact .inr ⟨rfl, thread_onThread_self inside⟩
    · have outside := Nat.le_of_not_lt inside
      refine .inl ?_
      rw [thread, thread, Arena.get_of_size_le outside]
      exact Arena.get_of_size_le (by rwa [size_threads_onThread])
  · exact .inl (Arena.get_modify_of_ne same)

/-- A thread is changed, but neither what it is there for nor what it keeps of loops. -/
theorem Reserved.onThread (reserved : w.Reserved t l) (role : ∀ th, (f th).role = th.role)
    (unkept : ∀ th, l ∉ th.loops.values → l ∉ (f th).loops.values) :
    (w.onThread u f).Reserved t l where
  known := reserved.known
  inside := by
    rw [size_threads_onThread]
    exact reserved.inside
  owner := reserved.owner
  serves v := by
    rw [onThread_congr Thread.role role]
    exact reserved.serves v
  unkept v := by
    rcases thread_onThread_eq_or (w := w) (u := u) (v := v) (f := f) with eq | ⟨_, eq⟩
    · rw [eq]
      exact reserved.unkept v
    · rw [eq]
      exact unkept _ (reserved.unkept v)

theorem Reserved.setSlots (reserved : w.Reserved t l)
    (same : ∀ th, (f th).role = th.role ∧ (f th).loops = th.loops) :
    (w.onThread u f).Reserved t l := by
  refine reserved.onThread (fun th => (same th).1) fun th fresh => ?_
  rw [(same th).2]
  exact fresh

/-- Whether the thread in question is at work is left alone, too. -/
theorem aside_onThread (reserved : w.Reserved t l) (role : ∀ th, (f th).role = th.role)
    (unkept : ∀ th, l ∉ th.loops.values → l ∉ (f th).loops.values)
    (work : u = t → ∀ th, (f th).busy = th.busy ∧ (f th).finished = th.finished) :
    Aside t l w (w.onThread u f) := by
  have mine : ((w.onThread u f).thread t).busy = (w.thread t).busy ∧
      ((w.onThread u f).thread t).finished = (w.thread t).finished := by
    rcases thread_onThread_eq_or (w := w) (u := u) (v := t) (f := f) with eq | ⟨same, eq⟩
    · rw [eq]
      exact ⟨rfl, rfl⟩
    · rw [eq]
      exact work same.symm _
  exact ⟨⟨reserved.onThread role unkept, (List.append_nil _).symm, fun closed => ⟨closed, rfl⟩,
    mine.1, mine.2⟩, rfl⟩

/-- A change of slots that have nothing to do with loops. -/
theorem aside_slots (reserved : w.Reserved t l)
    (same : ∀ th, (f th).role = th.role ∧ (f th).loops = th.loops ∧ (f th).busy = th.busy ∧
      (f th).finished = th.finished) : Aside t l w (w.onThread u f) := by
  refine aside_onThread reserved (fun th => (same th).1) (fun th fresh => ?_) fun _ th =>
    (same th).2.2
  rw [(same th).2.1]
  exact fresh

theorem aside_pushThread (reserved : w.Reserved t l) {th : Thread} (other : th.role ≠ .serving l)
    (nothing : th.loops.values = []) : Aside t l w { w with threads := w.threads.push th } := by
  have old : t ≠ w.threads.next := fun same => Nat.lt_irrefl _ (same ▸ reserved.inside)
  have mine : (w.threads.push th).get t = w.threads.get t := by rw [Arena.get_push, if_neg old]
  refine ⟨⟨⟨reserved.known, ?_, reserved.owner, fun v => ?_, fun v => ?_⟩,
    (List.append_nil _).symm, fun closed => ⟨closed, rfl⟩, ?_, ?_⟩, rfl⟩
  · rw [Arena.size_push]
    exact Nat.lt_succ_of_lt reserved.inside
  · simp only [thread, Arena.get_push]
    split
    · next new =>
      subst new
      exact ⟨fun same => absurd same other, fun same => absurd same.symm old⟩
    · exact reserved.serves v
  · simp only [thread, Arena.get_push]
    split
    · rw [nothing]
      exact List.not_mem_nil
    · exact reserved.unkept v
  · exact congrArg Thread.busy mine
  · exact congrArg Thread.finished mine

theorem aside_install (reserved : w.Reserved t l) (u : ThreadId) (s : Snapshot) :
    Aside t l w (w.install u s) := by
  have acquired := (w.spares_acquireAll s.shares).aside reserved
  exact acquired.trans (aside_slots acquired.reserved fun _ => ⟨rfl, rfl, rfl, rfl⟩)

theorem aside_dropGuard (reserved : w.Reserved t l) (u : ThreadId) (g : Guard) :
    Aside t l w (w.dropGuard u g) := by
  have warned := (w.spares_warnGuard u ((w.contextStack u).dropGuard g).warning).aside reserved
  have restored := warned.trans
    (aside_slots (u := u)
      (f := fun th => { th with context := ((w.contextStack u).dropGuard g).stack })
      warned.reserved fun _ => ⟨rfl, rfl, rfl, rfl⟩)
  exact restored.trans ((spares_releaseSnapshot ..).aside restored.reserved)

theorem aside_enterCall (reserved : w.Reserved t l) (u : ThreadId) (c : CallId) :
    Aside t l w (w.enterCall u c) := by
  have acquired := (w.spares_acquire (.call c)).aside reserved
  exact acquired.trans (aside_slots acquired.reserved fun _ => ⟨rfl, rfl, rfl, rfl⟩)

theorem aside_leaveCalls (reserved : w.Reserved t l) (u : ThreadId) (depth : Nat) :
    Aside t l w (w.leaveCalls u depth) := by
  have shortened : Aside t l w (w.shortened u depth) :=
    aside_slots reserved fun _ => ⟨rfl, rfl, rfl, rfl⟩
  exact shortened.trans ((spares_releaseCalls ..).aside shortened.reserved)

/-! ## Loops -/

section Loops

variable {g : EventLoop → EventLoop}

theorem loop_modify_of_ne (other : k ≠ l) :
    ({ w with loops := w.loops.modify k g } : World).loop l = w.loop l :=
  Arena.get_modify_of_ne (Ne.symm other)

theorem loop_modify_self (known : l.index < w.loops.size) :
    ({ w with loops := w.loops.modify l g } : World).loop l = g (w.loop l) := by
  rw [loop, Arena.get_modify known, if_pos rfl, ← loop]

theorem Reserved.modifyLoop (reserved : w.Reserved t l)
    (owner : ∀ loop, (g loop).owner = loop.owner) :
    ({ w with loops := w.loops.modify k g } : World).Reserved t l where
  known := by
    rw [Arena.size_modify]
    exact reserved.known
  inside := reserved.inside
  owner := (Arena.get_modify_congr EventLoop.owner owner l).trans reserved.owner
  serves := reserved.serves
  unkept := reserved.unkept

/-- The loop in question is changed in a way that is open to everyone. -/
theorem meanwhile_modifyLoop (reserved : w.Reserved t l)
    (owner : ∀ loop, (g loop).owner = loop.owner)
    (queue : (g (w.loop l)).queue = (w.loop l).queue ++ new)
    (closed : (w.loop l).closed = true → (g (w.loop l)).closed = true ∧ new = []) :
    Meanwhile t l w new { w with loops := w.loops.modify l g } := by
  have changed := loop_modify_self (w := w) (g := g) reserved.known
  refine ⟨reserved.modifyLoop owner, ?_, ?_, rfl, rfl⟩
  · rw [changed, queue]
  · rw [changed]
    exact closed

/-- A loop is changed: another one, or the loop in question without a task coming in. -/
theorem aside_modifyLoop (reserved : w.Reserved t l) (owner : ∀ loop, (g loop).owner = loop.owner)
    (mine : k = l → (g (w.loop l)).queue = (w.loop l).queue ∧
      ((w.loop l).closed = true → (g (w.loop l)).closed = true)) :
    Aside t l w { w with loops := w.loops.modify k g } := by
  by_cases same : k = l
  · subst same
    obtain ⟨queue, closed⟩ := mine rfl
    exact ⟨meanwhile_modifyLoop reserved owner (by rw [queue, List.append_nil]) fun before =>
      ⟨closed before, rfl⟩, rfl⟩
  · have untouched := loop_modify_of_ne (w := w) (g := g) same
    refine ⟨⟨reserved.modifyLoop owner, ?_, ?_, rfl, rfl⟩, rfl⟩
    · rw [untouched, List.append_nil]
    · rw [untouched]
      exact fun closed => ⟨closed, rfl⟩

theorem aside_pushLoop (reserved : w.Reserved t l) (loop : EventLoop) :
    Aside t l w { w with loops := w.loops.push loop } := by
  have old : l ≠ w.loops.next := fun same => Nat.lt_irrefl _ (same ▸ reserved.known)
  have same : ({ w with loops := w.loops.push loop } : World).loop l = w.loop l := by
    rw [World.loop, Arena.get_push, if_neg old, ← World.loop]
  refine ⟨⟨⟨?_, reserved.inside, ?_, reserved.serves, reserved.unkept⟩, ?_, ?_, rfl, rfl⟩, rfl⟩
  · rw [Arena.size_push]
    exact Nat.lt_succ_of_lt reserved.known
  · rw [same]
    exact reserved.owner
  · rw [same, List.append_nil]
  · intro closed
    rw [same]
    exact ⟨closed, rfl⟩

/-- A new loop is another one. -/
theorem aside_createLoop (reserved : w.Reserved t l) (u : ThreadId) (settings : LoopSettings) :
    (w.createLoop u settings).1 ≠ l ∧ Aside t l w (w.createLoop u settings).2 := by
  refine ⟨fun same => ?_, ?_⟩
  · have known := reserved.known
    rw [← same] at known
    exact Nat.lt_irrefl _ known
  · have pushed := aside_pushLoop reserved (.ofSettings settings u (w.thread u).currentLoop)
    have bound := pushed.trans (aside_slots (u := u)
      (f := fun th => { th with currentLoop := some w.loops.next }) pushed.reserved
      fun _ => ⟨rfl, rfl, rfl, rfl⟩)
    exact bound.trans ((spares_log ..).aside bound.reserved)

theorem aside_startLoopThread (reserved : w.Reserved t l) (settings : LoopSettings) :
    Aside t l w (w.startLoopThread settings).2 := by
  have other : Role.serving w.loops.next ≠ .serving l := by
    intro same
    obtain rfl := Role.serving.inj same
    exact Nat.lt_irrefl _ reserved.known
  let thread : Thread := { name := some settings.normalize.name, role := .serving w.loops.next }
  have pushed : Aside t l w { w with threads := w.threads.push thread } :=
    aside_pushThread reserved other rfl
  have created := pushed.trans
    (aside_createLoop pushed.reserved w.threads.next settings.normalize).2
  exact created.trans ((spares_log ..).aside created.reserved)

/-- Whoever shuts a loop down. -/
theorem aside_shutdownLoop (reserved : w.Reserved t l) (u : ThreadId) (k : LoopId) :
    Aside t l w (w.shutdownLoop u k) := by
  have closed : Aside t l w
      { w with loops := w.loops.modify k fun loop => { loop with closed := true } } :=
    aside_modifyLoop reserved (fun _ => rfl) fun _ => ⟨rfl, fun _ => rfl⟩
  exact closed.trans ((spares_log ..).aside closed.reserved)

theorem closed_shutdownLoop (known : l.index < w.loops.size) (u : ThreadId) :
    ((w.shutdownLoop u l).loop l).closed = true := by
  have closed : (({ w with loops := w.loops.modify l fun loop =>
      { loop with closed := true } } : World).loop l).closed = true := by
    rw [loop_modify_self known]
  rw [shutdownLoop, World.loop, (spares_log ..).loop]
  exact closed

/-- Shutting a loop down once more is logged and changes nothing. -/
theorem spares_shutdownLoop (closed : (w.loop l).closed = true) (u : ThreadId) :
    w.Spares (w.shutdownLoop u l) := by
  have same : (w.loops.modify l fun loop => { loop with closed := true }) = w.loops := by
    refine Arena.modify_eq_self ?_
    rw [World.loop] at closed
    rw [← closed]
  rw [shutdownLoop, same]
  exact spares_log ..

/-- A loop is given up: another one, or the loop in question when nothing is queued. -/
theorem aside_discardLoop (reserved : w.Reserved t l) (u : ThreadId)
    (empty : k = l → (w.loop l).queue = []) : Aside t l w (w.discardLoop u k) := by
  have emptied : Aside t l w { w with loops := w.loops.modify k fun loop =>
      { loop with closed := true, queue := [] } } :=
    aside_modifyLoop reserved (fun _ => rfl) fun same => ⟨(empty same).symm, fun _ => rfl⟩
  have rest {w' : World} (told : Aside t l w w') (tasks : List Task) (previous : Option LoopId) :
      Aside t l w ((w'.releaseTasks u tasks).onThread u fun th =>
        { th with currentLoop := previous }) := by
    have released := told.trans ((w'.spares_releaseTasks u tasks).aside told.reserved)
    exact released.trans (aside_slots released.reserved fun _ => ⟨rfl, rfl, rfl, rfl⟩)
  simp only [discardLoop, abandoned]
  split
  · exact rest emptied ..
  · exact rest (emptied.trans ((spares_log ..).aside emptied.reserved)) ..

theorem aside_releaseLoop (reserved : w.Reserved t l) (u : ThreadId)
    (empty : k = l → (w.loop l).queue = []) : Aside t l w (w.releaseLoop u k) := by
  have spares : w.Spares { w with loops := w.loops.dropShare k } :=
    ⟨rfl, Arena.size_dropShare, fun _ => Arena.get_dropShare, rfl⟩
  have dropped := spares.aside reserved
  simp only [releaseLoop]
  split
  · refine dropped.trans (aside_discardLoop dropped.reserved u fun same => ?_)
    rw [loop, spares.loop]
    exact empty same
  · exact dropped

theorem aside_release (reserved : w.Reserved t l) (u : ThreadId) {s : Share}
    (empty : s = .loop l → (w.loop l).queue = []) : Aside t l w (w.release u s) := by
  cases s with
  | context c => exact (w.spares_releaseContext u c).aside reserved
  | callable c => exact (w.spares_releaseCallable u c).aside reserved
  | call c => exact (w.spares_releaseCall u c).aside reserved
  | loop k => exact aside_releaseLoop reserved u fun same => empty (same ▸ rfl)
  | manual m => exact (w.spares_releaseManual u m).aside reserved

theorem aside_dequeue (reserved : w.Reserved t l) (other : k ≠ l) {task : Task}
    (taken : w.dequeue? k = some (task, w')) : Aside t l w w' := by
  obtain ⟨_, rest, _, rfl⟩ := of_dequeue? taken
  exact aside_modifyLoop reserved (fun _ => rfl) fun same => absurd same other

/-! ## Posts -/

/-- A post to the loop is accepted if the loop is open, and rejected otherwise. -/
theorem meanwhile_postToLoop (reserved : w.Reserved t l) (u : ThreadId) (task : Task) :
    if (w.loop l).closed then
      (w.postToLoop u l task).1 = .error (.loopClosed (w.loop l).name) ∧
      Aside t l w (w.postToLoop u l task).2
    else
      (w.postToLoop u l task).1 = .ok () ∧
      Meanwhile t l w [task] (w.postToLoop u l task).2 ∧
      (w.postToLoop u l task).2.allowance = w.allowance := by
  split
  · next closed =>
    rw [postToLoop, if_pos closed]
    exact ⟨rfl, (w.spares_releaseCalls u task.holds).aside reserved⟩
  · next opened =>
    rw [postToLoop, if_neg opened]
    have added : Meanwhile t l w [task] (w.enqueue l task) :=
      meanwhile_modifyLoop reserved (fun _ => rfl) rfl fun closed => absurd closed opened
    have logged := (spares_log (w.enqueue l task) u .trace "task posted"
      [w.loopField l]).aside added.reserved
    exact ⟨rfl, added.trans logged.toMeanwhile, logged.allowance⟩

/-- A post to another loop. -/
theorem aside_postToLoop (reserved : w.Reserved t l) (u : ThreadId) (other : k ≠ l) (task : Task) :
    Aside t l w (w.postToLoop u k task).2 := by
  rw [postToLoop]
  split
  · exact (w.spares_releaseCalls u task.holds).aside reserved
  · have added : Aside t l w (w.enqueue k task) :=
      aside_modifyLoop reserved (fun _ => rfl) fun same => absurd same other
    exact added.trans ((spares_log ..).aside added.reserved)

end Loops

end DeferredCalls.World
