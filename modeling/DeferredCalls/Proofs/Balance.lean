import DeferredCalls.Proofs.Frame

/-!
# Shares are accounted for

Making a share and giving one up keep the account of who holds what. A share is made from another
one, and the new one is in hand; a share that is in hand can be given up. What goes with it, when it
was the last one, is given up in its turn: the callable and the context of a call, the tasks of a
queue.
-/

namespace DeferredCalls.World

open Holding

variable {w : World} {t : ThreadId} {s : Share} {held : Multiset Holding}

theorem Balanced.shareCount_pos (h : w.Balanced (share s ::ₘ held)) : 0 < w.shareCount s := by
  have := h s
  simp only [tally_add, tally_cons, Holding.shares, List.count_singleton_self] at this
  omega

theorem balanced_note {e : Entry} : (w.note t e).Balanced held ↔ w.Balanced held := by
  obtain ⟨journal, remoteJournal, eq⟩ := w.note_eq t e
  rw [eq]
  exact Iff.rfl

theorem balanced_log {level : Level} {message : String} {fields : List (String × FieldValue)} :
    (w.log t level message fields).Balanced held ↔ w.Balanced held := by
  obtain ⟨journal, remoteJournal, eq⟩ := w.log_eq t level message fields
  rw [eq]
  exact Iff.rfl

/-- A change of what a thread holds and keeps under names, which goes along with what is in hand. -/
theorem Balanced.onThread {f : Thread → Thread} {held' : Multiset Holding} (h : w.Balanced held)
    (inside : t.index < w.threads.size)
    (moved : ∀ k, (f (w.thread t)).shares.count k + tally k ((f (w.thread t)).holdings t + held') =
      (w.thread t).shares.count k + tally k ((w.thread t).holdings t + held)) :
    (w.onThread t f).Balanced held' := by
  intro k
  have before := h k
  have same := moved k
  have shares := Arena.total_modify (f := fun _ c => c.value.shares.count k) (g := f) inside
  have names := Arena.total_modify (f := fun t c => c.value.holdings t) (g := f) inside
  have names := congrArg (tally k) names
  have counted : (w.onThread t f).shareCount k = w.shareCount k := by cases k <;> rfl
  rw [counted]
  simp only [thread, Arena.cell_value, tally_add] at same shares names
  simp only [holders, named, World.onThread, tally_add] at before ⊢
  omega

/-- A change of a thread that is neither of its shares nor of what it keeps under names. -/
theorem balanced_onThread {f : Thread → Thread} (shares : ∀ th, (f th).shares = th.shares)
    (holdings : ∀ th, (f th).holdings t = th.holdings t) :
    (w.onThread t f).Balanced held ↔ w.Balanced held := by
  have sameHolders : ∀ s, (w.onThread t f).holders s = w.holders s := fun s => by
    simp only [holders, World.onThread]
    rw [Arena.total_modify_of_eq fun c => by rw [shares]]
  apply forall_congr'
  intro s
  rw [sameHolders, named_onThread holdings]
  exact Iff.rfl

theorem balanced_currentLoop {l : Option LoopId} :
    (w.onThread t fun th => { th with currentLoop := l }).Balanced held ↔ w.Balanced held :=
  balanced_onThread (f := fun th => { th with currentLoop := l }) (fun _ => rfl) fun _ => rfl

/-! ## Making shares -/

theorem holders_acquire (alive : 0 < w.shareCount s) (k : Share) :
    (w.acquire s).holders k = w.holders k := by
  cases s with
  | call c =>
    have used : 0 < w.calls.shares c := alive
    have same := Arena.total_addShare (f := fun _ c =>
      if c.shares = 0 then 0 else c.value.shares.count k) (Arena.lt_size_of_shares_pos used)
    simp only [Arena.cell_shares, Arena.cell_value, Nat.succ_ne_zero, if_false,
      Nat.ne_of_gt used] at same
    simp only [holders, acquire]
    omega
  | context | callable => rfl
  | loop l =>
    have same := Arena.total_value_congr (b := w.loops.addShare l)
      (fun x => (queueShares x.queue).count k) Arena.size_addShare fun _ => Arena.get_addShare
    simp only [holders, acquire, same]
  | manual m =>
    have same := Arena.total_value_congr (b := w.manuals.addShare m)
      (fun x => (queueShares x.queue).count k) Arena.size_addShare fun _ => Arena.get_addShare
    simp only [holders, acquire, same]

theorem Balanced.acquire (h : w.Balanced held) (alive : 0 < w.shareCount s) :
    (w.acquire s).Balanced (share s ::ₘ held) := by
  intro k
  have same : (w.acquire s).named = w.named := by cases s <;> rfl
  rw [shareCount_acquire alive, holders_acquire alive, same]
  have := h k
  simp only [tally_add, tally_cons, Holding.shares, List.count_singleton] at this ⊢
  simp only [beq_iff_eq, eq_comm (a := s)]
  omega

theorem Balanced.acquireAll {shares : List Share} (h : w.Balanced held)
    (alive : ∀ s ∈ shares, 0 < w.shareCount s) :
    (w.acquireAll shares).Balanced (ofShares shares + held) := by
  induction shares generalizing w held with
  | nil => simpa [World.acquireAll] using h
  | cons s shares ih =>
    have first := h.acquire (alive s (List.mem_cons_self ..))
    have rest := ih first fun k hk => by
      rw [shareCount_acquire (alive s (List.mem_cons_self ..))]
      exact Nat.lt_of_lt_of_le (alive k (List.mem_cons_of_mem s hk)) (Nat.le_add_right ..)
    simpa [World.acquireAll] using rest

/-! ## Giving up shares -/

/-- One share fewer of an object. What the world does not hold any more for want of that share is in
hand instead. -/
theorem Balanced.drop {w' : World} (h : w.Balanced (share s ::ₘ held)) (freed : Multiset Holding)
    (counted : ∀ k, w'.shareCount k = w.shareCount k - if k = s then 1 else 0)
    (moved : ∀ k, w'.holders k + tally k w'.named + tally k freed =
      w.holders k + tally k w.named) : w'.Balanced (freed + held) := by
  intro k
  have before := h k
  have same := moved k
  rw [counted]
  simp only [tally_add, tally_cons, Holding.shares, List.count_singleton, beq_iff_eq,
    eq_comm (a := s)] at before ⊢
  omega

theorem Balanced.releaseContext {c : ContextId} (h : w.Balanced (share (.context c) ::ₘ held)) :
    (w.releaseContext t c).Balanced held := by
  have dropped : { w with contexts := w.contexts.dropShare c }.Balanced held := by
    refine zero_add held ▸ h.drop 0 (fun k => ?_) fun k => rfl
    cases k <;> simp [shareCount, Arena.shares_dropShare_eq_sub]
  simp only [World.releaseContext]
  split
  · exact balanced_note.mpr dropped
  · exact dropped

theorem Balanced.releaseCallable {c : CallableId}
    (h : w.Balanced (share (.callable c) ::ₘ held)) : (w.releaseCallable t c).Balanced held := by
  have dropped : { w with callables := w.callables.dropShare c }.Balanced held := by
    refine zero_add held ▸ h.drop 0 (fun k => ?_) fun k => rfl
    cases k <;> simp [shareCount, Arena.shares_dropShare_eq_sub]
  simp only [World.releaseCallable]
  split
  · exact balanced_note.mpr dropped
  · exact dropped

theorem Balanced.releaseSnapshot {x : Snapshot} (h : w.Balanced (ofShares x.shares + held)) :
    (w.releaseSnapshot t x).Balanced held := by
  obtain ⟨_ | c⟩ := x
  · simpa [World.releaseSnapshot, Snapshot.shares] using h
  · exact Balanced.releaseContext (by simpa [Snapshot.shares] using h)

theorem Balanced.releaseHandle {x : Handle} (h : w.Balanced (ofShares x.shares + held)) :
    (w.releaseHandle t x).Balanced held := by
  cases x with
  | weak => simpa [World.releaseHandle, Handle.shares] using h
  | strong c => exact Balanced.releaseCallable (by simpa [Handle.shares] using h)

/-- A call that goes out of use leaves the shares of its callable and its context behind. -/
theorem Balanced.dropCall {c : CallId} (h : w.Balanced (share (.call c) ::ₘ held)) :
    { w with calls := w.calls.dropShare c }.Balanced
      ((if w.calls.shares c = 1 then ofShares (w.calls.get c).shares else 0) + held) := by
  have used : 0 < w.calls.shares c := h.shareCount_pos
  refine h.drop _ (fun k => ?_) fun k => ?_
  · cases k <;> simp [shareCount, Arena.shares_dropShare_eq_sub]
  · have sum := Arena.total_dropShare (f := fun _ x =>
      if x.shares = 0 then 0 else x.value.shares.count k) (Arena.lt_size_of_shares_pos used)
    simp only [Arena.cell_shares, Arena.cell_value, Nat.ne_of_gt used, if_false] at sum
    change _ + tally k w.named + _ = _
    simp only [holders]
    split
    · next last =>
      simp only [last, Nat.sub_self, if_true] at sum
      simp only [tally_ofShares]
      omega
    · next more =>
      simp only [show w.calls.shares c - 1 ≠ 0 by omega, if_false] at sum
      simp only [tally_zero]
      omega

theorem Balanced.releaseCall {c : CallId} (h : w.Balanced (share (.call c) ::ₘ held)) :
    (w.releaseCall t c).Balanced held := by
  have used : 0 < w.calls.shares c := h.shareCount_pos
  have dropped := h.dropCall
  simp only [World.releaseCall, Arena.shares_dropShare, if_true]
  split at dropped
  · next last =>
    rw [if_pos (by omega)]
    rw [Call.shares, ofShares_append, add_assoc] at dropped
    simp only [Arena.get_dropShare]
    exact dropped.releaseHandle.releaseSnapshot
  · next more =>
    rw [if_neg (by omega)]
    simpa using dropped

theorem Balanced.releaseCalls {cs : List CallId}
    (h : w.Balanced (ofShares (cs.map .call) + held)) : (w.releaseCalls t cs).Balanced held := by
  induction cs generalizing w with
  | nil => simpa [World.releaseCalls] using h
  | cons c cs ih =>
    simp only [List.map_cons, ofShares_cons, Multiset.cons_add] at h
    exact ih h.releaseCall

theorem Balanced.releaseTask {task : Task} (h : w.Balanced (ofShares task.shares + held)) :
    (w.releaseTask t task).Balanced held :=
  Balanced.releaseCalls h

theorem Balanced.releaseTasks {tasks : List Task}
    (h : w.Balanced (ofShares (queueShares tasks) + held)) :
    (w.releaseTasks t tasks).Balanced held := by
  induction tasks generalizing w with
  | nil => simpa [World.releaseTasks, queueShares] using h
  | cons task tasks ih =>
    simp only [queueShares, List.flatMap_cons, ofShares_append, add_assoc] at h
    exact ih h.releaseTask

/-! ## Giving up queues -/

/-- Tasks go from the queue of a loop into somebody's hands, or the other way. -/
theorem Balanced.modifyLoop {l : LoopId} {f : EventLoop → EventLoop} {held' : Multiset Holding}
    (h : w.Balanced held) (inside : l.index < w.loops.size)
    (moved : ∀ k, (queueShares (f (w.loops.get l)).queue).count k + tally k held' =
      (queueShares (w.loops.get l).queue).count k + tally k held) :
    { w with loops := w.loops.modify l f }.Balanced held' := by
  intro k
  have before := h k
  have same := moved k
  have sum := Arena.total_modify (f := fun _ x => (queueShares x.value.queue).count k)
    (g := f) inside
  have counted : { w with loops := w.loops.modify l f }.shareCount k = w.shareCount k := by
    cases k <;> simp [shareCount]
  rw [counted]
  change _ = _ + tally k (w.named + held')
  simp only [Arena.cell_value] at sum
  simp only [holders, tally_add] at before ⊢
  omega

/-- Tasks go from the queue of a manual scheduler into somebody's hands, or the other way. -/
theorem Balanced.modifyManual {m : ManualId} {f : Manual → Manual} {held' : Multiset Holding}
    (h : w.Balanced held) (inside : m.index < w.manuals.size)
    (moved : ∀ k, (queueShares (f (w.manuals.get m)).queue).count k + tally k held' =
      (queueShares (w.manuals.get m).queue).count k + tally k held) :
    { w with manuals := w.manuals.modify m f }.Balanced held' := by
  intro k
  have before := h k
  have same := moved k
  have sum := Arena.total_modify (f := fun _ x => (queueShares x.value.queue).count k)
    (g := f) inside
  have counted : { w with manuals := w.manuals.modify m f }.shareCount k = w.shareCount k := by
    cases k <;> simp [shareCount]
  rw [counted]
  change _ = _ + tally k (w.named + held')
  simp only [Arena.cell_value] at sum
  simp only [holders, tally_add] at before ⊢
  omega

theorem Balanced.emptyLoop {l : LoopId} (h : w.Balanced held) (inside : l.index < w.loops.size) :
    { w with loops := w.loops.modify l fun loop =>
      { loop with closed := true, queue := [] } }.Balanced
      (ofShares (queueShares (w.loops.get l).queue) + held) := by
  apply h.modifyLoop inside
  intro k
  simp only [queueShares, List.flatMap_nil, List.count_nil, tally_add, tally_ofShares]
  omega

theorem Balanced.discardLoop {l : LoopId} (h : w.Balanced held) (inside : l.index < w.loops.size) :
    (w.discardLoop t l).Balanced held := by
  have emptied := h.emptyLoop inside
  rw [World.discardLoop, World.abandoned]
  refine balanced_currentLoop.mpr (Balanced.releaseTasks ?_)
  split
  · exact emptied
  · exact balanced_log.mpr emptied

theorem Balanced.dropLoop {l : LoopId} (h : w.Balanced (share (.loop l) ::ₘ held)) :
    { w with loops := w.loops.dropShare l }.Balanced held := by
  refine zero_add held ▸ h.drop 0 (fun k => ?_) fun k => ?_
  · cases k <;> simp [shareCount, Arena.shares_dropShare_eq_sub]
  · have same := Arena.total_value_congr (b := w.loops.dropShare l)
      (fun x => (queueShares x.queue).count k) Arena.size_dropShare fun _ => Arena.get_dropShare
    change _ + tally k w.named + _ = _
    simp only [holders, same, tally_zero, Nat.add_zero]

theorem Balanced.releaseLoop {l : LoopId} (h : w.Balanced (share (.loop l) ::ₘ held)) :
    (w.releaseLoop t l).Balanced held := by
  have used : 0 < w.loops.shares l := h.shareCount_pos
  simp only [World.releaseLoop]
  split
  · exact h.dropLoop.discardLoop (by simpa using Arena.lt_size_of_shares_pos used)
  · exact h.dropLoop

theorem Balanced.dropManual {m : ManualId} (h : w.Balanced (share (.manual m) ::ₘ held)) :
    { w with manuals := w.manuals.dropShare m }.Balanced held := by
  refine zero_add held ▸ h.drop 0 (fun k => ?_) fun k => ?_
  · cases k <;> simp [shareCount, Arena.shares_dropShare_eq_sub]
  · have same := Arena.total_value_congr (b := w.manuals.dropShare m)
      (fun x => (queueShares x.queue).count k) Arena.size_dropShare fun _ => Arena.get_dropShare
    change _ + tally k w.named + _ = _
    simp only [holders, same, tally_zero, Nat.add_zero]

theorem Balanced.clearManual {m : ManualId} (h : w.Balanced held)
    (inside : m.index < w.manuals.size) :
    { w with manuals := w.manuals.modify m fun s => { s with queue := [] } }.Balanced
      (ofShares (queueShares (w.manuals.get m).queue) + held) := by
  refine h.modifyManual inside fun k => ?_
  simp only [queueShares, List.flatMap_nil, List.count_nil, tally_add, tally_ofShares]
  omega

theorem Balanced.releaseManual {m : ManualId} (h : w.Balanced (share (.manual m) ::ₘ held)) :
    (w.releaseManual t m).Balanced held := by
  have used : 0 < w.manuals.shares m := h.shareCount_pos
  simp only [World.releaseManual]
  split
  · have inside : m.index < (w.manuals.dropShare m).size := by
      simpa using Arena.lt_size_of_shares_pos used
    exact (h.dropManual.clearManual inside).releaseTasks
  · exact h.dropManual

/-- Whatever share is in hand can be given up. -/
theorem Balanced.release (h : w.Balanced (share s ::ₘ held)) : (w.release t s).Balanced held := by
  cases s with
  | context => exact h.releaseContext
  | callable => exact h.releaseCallable
  | call => exact h.releaseCall
  | loop => exact h.releaseLoop
  | manual => exact h.releaseManual

end DeferredCalls.World
