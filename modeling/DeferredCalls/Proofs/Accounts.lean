import DeferredCalls.Proofs.Balance
import DeferredCalls.Proofs.Course

/-!
# Every operation keeps the account

Installs and guards, calls on the stacks of threads, new objects, and tasks on their way through
queues: whatever an operation puts in hand is accounted for by what it makes or takes out of the
world.
-/

namespace DeferredCalls.World

open Holding

variable {w : World} {t : ThreadId} {held : Multiset Holding}

theorem Balanced.quiet {w' : World} {held' : Multiset Holding} (h : w.Balanced held)
    (agrees : w.Agrees w') (moved : w'.named + held' = w.named + held) : w'.Balanced held' := by
  intro k
  have threads : w'.threads.total (fun _ c => c.value.shares.count k) =
      w.threads.total (fun _ c => c.value.shares.count k) := by
    apply Arena.total_congr agrees.threadCount
    intro u _
    obtain ⟨guards, loops, eq⟩ := agrees.thread u
    simp only [thread] at eq
    simp only [Arena.cell_value, eq]
    rfl
  rw [agrees.shareCount, moved, h k]
  simp only [holders, agrees.calls, agrees.loops, agrees.manuals, threads]

/-! ## Contexts -/

theorem Balanced.install {s : Snapshot} (h : w.Balanced held) (inside : t.index < w.threads.size)
    (alive : ∀ k ∈ s.shares, 0 < w.shareCount k) :
    (w.install t s).Balanced (guard t (w.contextStack t).nextGuard ::ₘ held) := by
  have acquired := h.acquireAll alive
  have keeps := keeps_acquireAll alive
  apply acquired.onThread (by rwa [keeps.threads])
  intro k
  rw [keeps.thread]
  simp only [Thread.shares, Thread.servedShares, Thread.holdings, ContextStack.install,
    ContextStack.nextGuard, contextStack, Holding.shares, List.count_append, tally_add, tally_cons,
    tally_ofShares]
  omega

theorem Balanced.warnGuard (h : w.Balanced held) (t : ThreadId) (warning : Option GuardWarning) :
    (w.warnGuard t warning).Balanced held := by
  match warning with
  | none => exact h
  | some (.outOfOrder ..) => exact balanced_log.mpr h
  | some (.unwound _) => exact balanced_log.mpr h

/-- What a guard gives up is in hand when the stack of installs already has its new value. -/
theorem Balanced.restoreContext {g : Guard} (h : w.Balanced (guard t g ::ₘ held))
    (inside : t.index < w.threads.size) :
    ((w.warnGuard t ((w.contextStack t).dropGuard g).warning).setContextStack t
      ((w.contextStack t).dropGuard g).stack).Balanced
      (ofShares ((w.contextStack t).dropGuard g).released.shares + held) := by
  have keeps := w.keeps_warnGuard t ((w.contextStack t).dropGuard g).warning
  have warned := h.warnGuard t ((w.contextStack t).dropGuard g).warning
  refine warned.onThread (by rwa [keeps.threads]) fun k => ?_
  rw [keeps.thread]
  have exchange := (w.contextStack t).dropGuard_exchange g
  simp only [contextStack] at exchange
  simp only [Thread.shares, Thread.servedShares, Thread.holdings, contextStack, Holding.shares,
    List.count_append, tally_add, tally_cons, tally_ofShares]
  rcases exchange with ⟨ambient, released⟩ | ⟨ambient, released⟩
  · rw [ambient, released]
  · rw [ambient, released]
    omega

theorem Balanced.dropGuard {g : Guard} (h : w.Balanced (guard t g ::ₘ held))
    (inside : t.index < w.threads.size) : (w.dropGuard t g).Balanced held :=
  (h.restoreContext inside).releaseSnapshot

/-! ## Calls -/

theorem Balanced.enterCall {c : CallId} (h : w.Balanced held) (inside : t.index < w.threads.size)
    (alive : 0 < w.calls.shares c) (level : Nat) :
    (w.enterCall t c).Balanced (entry t level c ::ₘ held) := by
  have keeps := keeps_acquire (w := w) (s := .call c) alive
  have acquired := h.acquire (s := .call c) alive
  apply acquired.onThread (by rwa [keeps.threads])
  intro k
  rw [keeps.thread]
  simp only [Thread.shares, Thread.servedShares, Thread.holdings, Holding.shares,
    List.count_append, List.map_append, List.map_cons, List.map_nil, List.count_nil, tally_add,
    tally_cons]
  omega

/-- The calls that are taken off a stack are in hand when the stack is already shorter. -/
theorem Balanced.shortenStack {level : Nat} {c : CallId} (h : w.Balanced (entry t level c ::ₘ held))
    (inside : t.index < w.threads.size) :
    (w.onThread t fun th => { th with callStack := th.callStack.take level }).Balanced
      (ofShares (((w.callStack t).drop level).map .call) + held) := by
  refine h.onThread inside fun k => ?_
  have parts : ((w.thread t).callStack.map Share.call).count k =
      (((w.thread t).callStack.take level).map Share.call).count k +
        (((w.thread t).callStack.drop level).map Share.call).count k := by
    rw [← List.count_append, ← List.map_append, List.take_append_drop]
  simp only [Thread.shares, Thread.servedShares, Thread.holdings, Holding.shares, callStack,
    List.count_append, List.count_nil, tally_add, tally_cons, tally_ofShares, parts]
  omega

theorem Balanced.leaveCalls {level : Nat} {c : CallId} (h : w.Balanced (entry t level c ::ₘ held))
    (inside : t.index < w.threads.size) : (w.leaveCalls t level).Balanced held :=
  (h.shortenStack inside).releaseCalls

/-! ## New objects -/

/-- A new object is in use by who made it, and takes over what was made for it. -/
theorem Balanced.push {w' : World} {s : Share} {used : Multiset Holding}
    (h : w.Balanced (used + held))
    (counted : ∀ k, w'.shareCount k = w.shareCount k + if k = s then 1 else 0)
    (kept : ∀ k, w'.holders k + tally k w'.named = w.holders k + tally k w.named + tally k used) :
    w'.Balanced (share s ::ₘ held) := by
  intro k
  have before := h k
  have same := kept k
  rw [counted]
  simp only [tally_add, tally_cons, Holding.shares, List.count_singleton, beq_iff_eq,
    eq_comm (a := s)] at before ⊢
  omega

theorem Balanced.newContext (x : ContextState) (h : w.Balanced held) :
    { w with contexts := w.contexts.push x }.Balanced
      (share (.context w.contexts.next) ::ₘ held) := by
  rw [← zero_add held] at h
  refine h.push (fun k => ?_) fun _ => rfl
  cases k <;> simp [shareCount, Arena.shares_push_eq_add]

theorem Balanced.newCallable (x : Callable) (h : w.Balanced held) :
    { w with callables := w.callables.push x }.Balanced
      (share (.callable w.callables.next) ::ₘ held) := by
  rw [← zero_add held] at h
  refine h.push (fun k => ?_) fun _ => rfl
  cases k <;> simp [shareCount, Arena.shares_push_eq_add]

theorem Balanced.newManual {x : Manual} (h : w.Balanced held) (empty : x.queue = []) :
    { w with manuals := w.manuals.push x }.Balanced
      (share (.manual w.manuals.next) ::ₘ held) := by
  rw [← zero_add held] at h
  refine h.push (fun k => ?_) fun k => ?_
  · cases k <;> simp [shareCount, Arena.shares_push_eq_add]
  · have sum := Arena.total_push (a := w.manuals) (v := x)
      (f := fun _ c => (queueShares c.value.queue).count k)
    simp only [empty, queueShares, List.flatMap_nil, List.count_nil] at sum
    change _ + tally k w.named = _
    simp only [holders, queueShares, tally_zero] at sum ⊢
    omega

/-- A new thread takes over the shares that it starts with. -/
theorem Balanced.newThread {th : Thread} {shares : List Share}
    (h : w.Balanced (ofShares shares + held)) (owns : th.shares = shares)
    (holdings : th.holdings w.threads.next = 0) :
    { w with threads := w.threads.push th }.Balanced held := by
  intro k
  have before := h k
  have sum := Arena.total_push (a := w.threads) (v := th)
    (f := fun _ c => c.value.shares.count k)
  have names := Arena.total_push (a := w.threads) (v := th) (f := fun t c => c.value.holdings t)
  simp only [owns, holdings, add_zero] at sum names
  have counted : { w with threads := w.threads.push th }.shareCount k = w.shareCount k := by
    cases k <;> rfl
  rw [counted]
  simp only [holders, named, tally_add, tally_ofShares, sum, names] at before ⊢
  omega

/-- A new call takes over the shares that were made for its callable and its context. -/
theorem Balanced.newCall {call : Call} (h : w.Balanced (ofShares call.shares + held)) :
    { w with calls := w.calls.push call }.Balanced (share (.call w.calls.next) ::ₘ held) := by
  refine h.push (fun k => ?_) fun k => ?_
  · cases k <;> simp [shareCount, Arena.shares_push_eq_add]
  · have sum := Arena.total_push (a := w.calls) (v := call)
      (f := fun _ c => if c.shares = 0 then 0 else c.value.shares.count k)
    simp only [Nat.one_ne_zero, if_false] at sum
    change _ + tally k w.named = _
    simp only [holders, tally_ofShares] at sum ⊢
    omega

theorem Balanced.build {b : CallBuilder} (h : w.Balanced held)
    (handle : ∀ k ∈ b.handle.shares, 0 < w.shareCount k)
    (context : ∀ k ∈ (b.context.getD (w.ambient t)).shares, 0 < w.shareCount k) :
    (w.build t b).2.Balanced (share (.call (w.build t b).1) ::ₘ held) := by
  have alive : ∀ k ∈ b.handle.shares ++ (b.context.getD (w.ambient t)).shares,
      0 < w.shareCount k := fun k member => (List.mem_append.mp member).elim (handle k) (context k)
  have acquired := h.acquireAll alive
  have keeps := keeps_acquireAll alive
  have next : w.calls.next = (w.acquireAll (b.handle.shares ++
      (b.context.getD (w.ambient t)).shares)).calls.next := congrArg Ref.mk keeps.callCount.symm
  simp only [World.build, next]
  exact balanced_log.mpr (Balanced.newCall acquired)

/-- A new loop is empty, and nothing refers to it yet. -/
theorem holders_pushLoop {loop : EventLoop} (empty : loop.queue = []) (k : Share) :
    { w with loops := w.loops.push loop }.holders k = w.holders k := by
  have sum := Arena.total_push (a := w.loops) (v := loop)
    (f := fun _ c => (queueShares c.value.queue).count k)
  simp only [empty, queueShares, List.flatMap_nil, List.count_nil] at sum
  simp only [holders, queueShares] at sum ⊢
  omega

theorem Balanced.pushLoop {loop : EventLoop} (h : w.Balanced held) (empty : loop.queue = []) :
    { w with loops := w.loops.push loop }.Balanced (share (.loop w.loops.next) ::ₘ held) := by
  rw [← zero_add held] at h
  refine h.push (fun k => ?_) fun k => ?_
  · cases k <;> simp [shareCount, Arena.shares_push_eq_add]
  · rw [holders_pushLoop empty]
    rfl

theorem Balanced.createLoop {settings : LoopSettings} (h : w.Balanced held) :
    (w.createLoop t settings).2.Balanced (share (.loop (w.createLoop t settings).1) ::ₘ held) := by
  rw [World.createLoop]
  exact balanced_log.mpr (balanced_currentLoop.mpr (h.pushLoop rfl))

/-- A loop thread has the only share of its loop. -/
theorem Balanced.startLoopThread {settings : LoopSettings} (h : w.Balanced held) :
    (w.startLoopThread settings).2.Balanced held := by
  have made {loop : EventLoop} (empty : loop.queue = []) :
      { w with
        loops := w.loops.push loop
        threads := w.threads.push
          { name := some settings.normalize.name, role := .serving w.loops.next } }.Balanced
        held := by
    have pushed : { w with loops := w.loops.push loop }.Balanced
        (ofShares [.loop w.loops.next] + held) := by
      simpa using h.pushLoop empty
    exact pushed.newThread rfl rfl
  rw [World.startLoopThread, World.createLoop]
  refine balanced_log.mpr (balanced_log.mpr ?_)
  exact balanced_currentLoop.mpr (made rfl)

/-! ## Loop threads -/

/-- A loop thread that leaves its loop has its share in hand. -/
theorem Balanced.finish {l : LoopId} (h : w.Balanced held) (inside : t.index < w.threads.size)
    (serves : (w.thread t).role = .serving l) (working : (w.thread t).finished = false) :
    (w.onThread t fun th => { th with finished := true }).Balanced (share (.loop l) ::ₘ held) := by
  apply h.onThread inside
  intro k
  simp only [Thread.shares, Thread.servedShares, Thread.holdings, Holding.shares, serves, working,
    List.count_append, List.count_nil, tally_add, tally_cons, if_true]
  simp only [Bool.false_eq_true, if_false]
  omega

theorem balanced_busy {b : Bool} :
    (w.onThread t fun th => { th with busy := b }).Balanced held ↔ w.Balanced held :=
  balanced_onThread (f := fun th => { th with busy := b }) (fun _ => rfl) fun _ => rfl

/-! ## Queues -/

theorem balanced_markDead {c : CallId} : (w.markDead t c).Balanced held ↔ w.Balanced held := by
  rw [World.markDead]
  split
  · exact Iff.rfl
  · refine balanced_log.trans (forall_congr' fun k => ?_)
    have same := Arena.total_modify_of_eq (a := w.calls) (r := c)
      (g := fun call => { call with dead := true })
      (f := fun _ c => if c.shares = 0 then 0 else c.value.shares.count k) fun _ => rfl
    have counted : { w with calls := w.calls.modify c fun call =>
        { call with dead := true } }.shareCount k = w.shareCount k := by
      cases k <;> simp [shareCount]
    rw [counted]
    simp only [holders, same]
    exact Iff.rfl

section Queues

variable {l : LoopId} {m : ManualId} {task : Task}

theorem Balanced.postToLoop (h : w.Balanced (ofShares task.shares + held))
    (inside : l.index < w.loops.size) : (w.postToLoop t l task).2.Balanced held := by
  rw [World.postToLoop]
  split
  · exact h.releaseTask
  · refine balanced_log.mpr (h.modifyLoop inside fun k => ?_)
    simp only [queueShares, List.flatMap_append, List.flatMap_singleton, List.count_append,
      tally_add, tally_ofShares]
    omega

theorem Balanced.postToManual (h : w.Balanced (ofShares task.shares + held))
    (alive : 0 < w.manuals.shares m) : (w.postToManual t m task).2.Balanced held := by
  rw [World.postToManual]
  split
  · exact h.releaseTask
  · apply h.modifyManual (Arena.lt_size_of_shares_pos alive)
    intro k
    simp only [queueShares, List.flatMap_append, List.flatMap_singleton, List.count_append,
      tally_add, tally_ofShares]
    omega

theorem Balanced.post {s : Scheduler} (h : w.Balanced (ofShares task.shares + held))
    (there : w.CanPost s) : (w.post t s task).2.Balanced held := by
  cases s with
  | loop l => exact h.postToLoop there
  | manual m => exact h.postToManual there

theorem Balanced.dequeue {w' : World} (h : w.Balanced held)
    (taken : w.dequeue? l = some (task, w')) : w'.Balanced (ofShares task.shares + held) := by
  obtain ⟨known, rest, queued, rfl⟩ := World.of_dequeue? taken
  apply h.modifyLoop known
  intro k
  simp only [World.loop] at queued
  simp only [queued, queueShares, List.flatMap_cons, List.count_append, tally_add, tally_ofShares]
  omega

theorem Balanced.emptyManual (h : w.Balanced held) (alive : 0 < w.manuals.shares m) :
    (w.emptyManual m).Balanced (ofShares (queueShares (w.queueOf (.manual m))) + held) :=
  h.clearManual (Arena.lt_size_of_shares_pos alive)

theorem balanced_shutdownLoop : (w.shutdownLoop t l).Balanced held ↔ w.Balanced held := by
  rw [World.shutdownLoop]
  refine balanced_log.trans (forall_congr' fun k => ?_)
  have same := Arena.total_modify_of_eq (a := w.loops) (r := l)
    (g := fun loop => { loop with closed := true })
    (f := fun _ c => (queueShares c.value.queue).count k) fun _ => rfl
  have counted : { w with loops := w.loops.modify l fun loop =>
      { loop with closed := true } }.shareCount k = w.shareCount k := by
    cases k <;> simp [shareCount]
  rw [counted]
  simp only [holders, same]
  exact Iff.rfl

end Queues

end DeferredCalls.World
