import DeferredCalls.Call.Build
import DeferredCalls.Call.Run
import DeferredCalls.Proofs.Holding

/-!
# What operations leave alone

Making and giving up shares, and writing the journal, changes nothing that anybody keeps: not the
names, not the threads, and of calls and queues only the number of their shares. The exceptions are
the last shares of queues, whose tasks are given up with them. The rest of the theory takes from
here what an operation does to everything that it is not about.
-/

namespace DeferredCalls

namespace World

/-- A change of share counts, of notes and of what callables and context states know about
themselves. Which loops are in use stays the same. -/
structure Keeps (w w' : World) : Prop where
  names : w'.names = w.names
  threads : w'.threads = w.threads
  callableCount : w'.callables.size = w.callables.size
  callCount : w'.calls.size = w.calls.size
  call : ∀ c, w'.calls.get c = w.calls.get c
  loopCount : w'.loops.size = w.loops.size
  loop : ∀ l, w'.loops.get l = w.loops.get l
  loopUse : ∀ l, w'.loops.shares l = 0 ↔ w.loops.shares l = 0
  manual : ∀ m, w'.manuals.get m = w.manuals.get m

namespace Keeps

variable {w w' w'' : World} {t u : ThreadId}

protected theorem refl (w : World) : w.Keeps w :=
  ⟨rfl, rfl, rfl, rfl, fun _ => rfl, rfl, fun _ => rfl, fun _ => Iff.rfl, fun _ => rfl⟩

protected theorem trans (first : w.Keeps w') (second : w'.Keeps w'') : w.Keeps w'' where
  names := second.names.trans first.names
  threads := second.threads.trans first.threads
  callableCount := second.callableCount.trans first.callableCount
  callCount := second.callCount.trans first.callCount
  call c := (second.call c).trans (first.call c)
  loopCount := second.loopCount.trans first.loopCount
  loop l := (second.loop l).trans (first.loop l)
  loopUse l := (second.loopUse l).trans (first.loopUse l)
  manual m := (second.manual m).trans (first.manual m)

theorem thread (h : w.Keeps w') : w'.thread u = w.thread u := by
  rw [World.thread, h.threads, ← World.thread]

theorem contextStack (h : w.Keeps w') : w'.contextStack u = w.contextStack u := by
  rw [World.contextStack, h.thread, ← World.contextStack]

theorem callStack (h : w.Keeps w') : w'.callStack u = w.callStack u := by
  rw [World.callStack, h.thread, ← World.callStack]

theorem named (h : w.Keeps w') : w'.named = w.named := by
  rw [World.named, h.names, h.threads, ← World.named]

end Keeps

section Shares

theorem shareCount_acquire {w : World} {s : Share} (alive : 0 < w.shareCount s) (k : Share) :
    (w.acquire s).shareCount k = w.shareCount k + if k = s then 1 else 0 := by
  cases s <;> cases k <;>
    simp_all only [shareCount, acquire, Arena.shares_addShare, Arena.lt_size_of_shares_pos,
      Share.context.injEq, Share.callable.injEq, Share.call.injEq, Share.loop.injEq,
      Share.manual.injEq, reduceCtorEq, if_false, Nat.add_zero] <;>
    split <;> simp_all

variable (w : World) (t : ThreadId)

theorem keeps_note (e : Entry) : w.Keeps (w.note t e) := by
  obtain ⟨journal, remoteJournal, eq⟩ := w.note_eq t e
  rw [eq]
  exact ⟨rfl, rfl, rfl, rfl, fun _ => rfl, rfl, fun _ => rfl, fun _ => Iff.rfl, fun _ => rfl⟩

theorem keeps_log (level : Level) (message : String) (fields : List (String × FieldValue)) :
    w.Keeps (w.log t level message fields) := by
  obtain ⟨journal, remoteJournal, eq⟩ := w.log_eq t level message fields
  rw [eq]
  exact ⟨rfl, rfl, rfl, rfl, fun _ => rfl, rfl, fun _ => rfl, fun _ => Iff.rfl, fun _ => rfl⟩

theorem keeps_warnGuard (warning : Option GuardWarning) : w.Keeps (w.warnGuard t warning) := by
  match warning with
  | none => exact .refl w
  | some (.outOfOrder ..) => exact w.keeps_log ..
  | some (.unwound _) => exact w.keeps_log ..

theorem keeps_releaseContext (c : ContextId) : w.Keeps (w.releaseContext t c) := by
  have dropped : w.Keeps { w with contexts := w.contexts.dropShare c } :=
    ⟨rfl, rfl, rfl, rfl, fun _ => rfl, rfl, fun _ => rfl, fun _ => Iff.rfl, fun _ => rfl⟩
  simp only [releaseContext]
  split
  · exact dropped.trans (keeps_note ..)
  · exact dropped

theorem keeps_releaseCallable (c : CallableId) : w.Keeps (w.releaseCallable t c) := by
  have dropped : w.Keeps { w with callables := w.callables.dropShare c } :=
    ⟨rfl, rfl, Arena.size_dropShare, rfl, fun _ => rfl, rfl, fun _ => rfl, fun _ => Iff.rfl,
      fun _ => rfl⟩
  simp only [releaseCallable]
  split
  · exact dropped.trans (keeps_note ..)
  · exact dropped

theorem keeps_releaseSnapshot (s : Snapshot) : w.Keeps (w.releaseSnapshot t s) := by
  obtain ⟨_ | c⟩ := s
  · exact .refl w
  · exact w.keeps_releaseContext t c

theorem keeps_releaseHandle (h : Handle) : w.Keeps (w.releaseHandle t h) := by
  cases h with
  | strong c => exact w.keeps_releaseCallable t c
  | weak c => exact .refl w

theorem keeps_releaseCall (c : CallId) : w.Keeps (w.releaseCall t c) := by
  have dropped : w.Keeps { w with calls := w.calls.dropShare c } :=
    ⟨rfl, rfl, rfl, Arena.size_dropShare, fun _ => Arena.get_dropShare, rfl, fun _ => rfl,
      fun _ => Iff.rfl, fun _ => rfl⟩
  simp only [releaseCall]
  split
  · exact (dropped.trans (keeps_releaseHandle ..)).trans (keeps_releaseSnapshot ..)
  · exact dropped

theorem keeps_releaseCalls (cs : List CallId) : w.Keeps (w.releaseCalls t cs) := by
  induction cs generalizing w with
  | nil => exact .refl w
  | cons c cs ih => exact (w.keeps_releaseCall t c).trans (ih _)

theorem keeps_releaseTask (task : Task) : w.Keeps (w.releaseTask t task) :=
  w.keeps_releaseCalls t task.holds

theorem keeps_releaseTasks (tasks : List Task) : w.Keeps (w.releaseTasks t tasks) := by
  induction tasks generalizing w with
  | nil => exact .refl w
  | cons task tasks ih => exact (w.keeps_releaseTask t task).trans (ih _)

variable {w} in
theorem keeps_acquire {s : Share} (alive : 0 < w.shareCount s) : w.Keeps (w.acquire s) := by
  cases s with
  | context c =>
    exact ⟨rfl, rfl, rfl, rfl, fun _ => rfl, rfl, fun _ => rfl, fun _ => Iff.rfl, fun _ => rfl⟩
  | callable c =>
    exact ⟨rfl, rfl, Arena.size_addShare, rfl, fun _ => rfl, rfl, fun _ => rfl, fun _ => Iff.rfl,
      fun _ => rfl⟩
  | call c =>
    exact ⟨rfl, rfl, rfl, Arena.size_addShare, fun _ => Arena.get_addShare, rfl, fun _ => rfl,
      fun _ => Iff.rfl, fun _ => rfl⟩
  | loop l =>
    have used : 0 < w.loops.shares l := alive
    refine ⟨rfl, rfl, rfl, rfl, fun _ => rfl, Arena.size_addShare, fun _ => Arena.get_addShare,
      fun k => ?_, fun _ => rfl⟩
    rw [acquire, Arena.shares_addShare (Arena.lt_size_of_shares_pos used)]
    split
    · next same =>
      rw [same]
      omega
    · exact Iff.rfl
  | manual m =>
    exact ⟨rfl, rfl, rfl, rfl, fun _ => rfl, rfl, fun _ => rfl, fun _ => Iff.rfl,
      fun _ => Arena.get_addShare⟩

variable {w} in
theorem keeps_acquireAll {shares : List Share} (alive : ∀ s ∈ shares, 0 < w.shareCount s) :
    w.Keeps (w.acquireAll shares) := by
  induction shares generalizing w with
  | nil => exact .refl w
  | cons s shares ih =>
    have first := alive s (List.mem_cons_self ..)
    refine (keeps_acquire first).trans (ih fun k member => ?_)
    rw [shareCount_acquire first]
    exact Nat.lt_of_lt_of_le (alive k (List.mem_cons_of_mem s member)) (Nat.le_add_right ..)

/-- A share that is not the last one of a loop or of a manual scheduler. -/
theorem keeps_release {s : Share} (loop : ∀ l, s = .loop l → w.loops.shares l ≠ 1)
    (manual : ∀ m, s = .manual m → w.manuals.shares m ≠ 1) (used : 0 < w.shareCount s) :
    w.Keeps (w.release t s) := by
  cases s with
  | context c => exact w.keeps_releaseContext t c
  | callable c => exact w.keeps_releaseCallable t c
  | call c => exact w.keeps_releaseCall t c
  | loop l =>
    have more := loop l rfl
    have used : 0 < w.loops.shares l := used
    simp only [release, releaseLoop, Arena.shares_dropShare, if_true]
    rw [if_neg (by omega)]
    refine ⟨rfl, rfl, rfl, rfl, fun _ => rfl, Arena.size_dropShare, fun _ => Arena.get_dropShare,
      fun k => ?_, fun _ => rfl⟩
    rw [Arena.shares_dropShare]
    split
    · next same =>
      rw [same]
      omega
    · exact Iff.rfl
  | manual m =>
    have more := manual m rfl
    have used : 0 < w.manuals.shares m := used
    simp only [release, releaseManual, Arena.shares_dropShare, if_true]
    rw [if_neg (by omega)]
    exact ⟨rfl, rfl, rfl, rfl, fun _ => rfl, rfl, fun _ => rfl, fun _ => Iff.rfl,
      fun _ => Arena.get_dropShare⟩

/-- What a manual scheduler has queued is gone with its last share. -/
theorem release_last_manual {m : ManualId} (last : w.manuals.shares m = 1) :
    { w with manuals := (w.manuals.dropShare m).modify m fun s => { s with queue := [] } }.Keeps
      (w.release t (.manual m)) := by
  simp only [release, releaseManual, Arena.shares_dropShare, if_true, last]
  exact keeps_releaseTasks ..

/-- A loop is closed with its last share, and what it has queued is gone. -/
theorem release_last_loop {l : LoopId} (last : w.loops.shares l = 1) : ∃ w' : World,
    { w with loops := (w.loops.dropShare l).modify l fun loop =>
      { loop with closed := true, queue := [] } }.Keeps w' ∧
    w.release t (.loop l) =
      w'.onThread t fun th => { th with currentLoop := (w.loops.get l).previous } := by
  simp only [release, releaseLoop, Arena.shares_dropShare, if_true, last, Nat.sub_self, discardLoop,
    abandoned, Arena.get_dropShare]
  refine ⟨_, ?_, rfl⟩
  refine Keeps.trans ?_ (keeps_releaseTasks ..)
  split
  · exact .refl _
  · exact keeps_log ..

end Shares

/-! ## Threads -/

section Threads

variable {w : World} {t u : ThreadId} {f : Thread → Thread}

theorem thread_onThread (inside : t.index < w.threads.size) :
    (w.onThread t f).thread u = if u = t then f (w.thread u) else w.thread u :=
  Arena.get_modify inside

theorem thread_onThread_self (inside : t.index < w.threads.size) :
    (w.onThread t f).thread t = f (w.thread t) := by
  rw [thread_onThread inside, if_pos rfl]

/-- What a change of a thread does not touch is as before on all threads. -/
theorem onThread_congr {β : Type} (g : Thread → β) (same : ∀ th, g (f th) = g th) (u : ThreadId) :
    g ((w.onThread t f).thread u) = g (w.thread u) :=
  Arena.get_modify_congr g same u

/-- A change of a thread that is not of what it keeps under names. -/
theorem named_onThread (same : ∀ th, (f th).holdings t = th.holdings t) :
    (w.onThread t f).named = w.named := by
  simp only [named, World.onThread]
  rw [Arena.total_modify_of_eq fun c => by rw [same]]

@[simp] theorem size_threads_onThread : (w.onThread t f).threads.size = w.threads.size :=
  Arena.size_modify

theorem callStack_enterCall {c : CallId} (inside : t.index < w.threads.size)
    (alive : 0 < w.calls.shares c) (u : ThreadId) : (w.enterCall t c).callStack u =
      if u = t then w.callStack u ++ [c] else w.callStack u := by
  have keeps := keeps_acquire (w := w) (s := .call c) alive
  have inside' : t.index < (w.acquire (.call c)).threads.size := by
    rw [keeps.threads]
    exact inside
  simp only [callStack, enterCall, thread_onThread inside', keeps.thread]
  split <;> rfl

theorem callStack_leaveCalls {level : Nat} (inside : t.index < w.threads.size) (u : ThreadId) :
    (w.leaveCalls t level).callStack u =
      if u = t then (w.callStack u).take level else w.callStack u := by
  simp only [leaveCalls, shortened, (keeps_releaseCalls ..).callStack]
  simp only [callStack, thread_onThread inside]
  split <;> rfl

end Threads

end World

end DeferredCalls
