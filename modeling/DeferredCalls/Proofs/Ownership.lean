import DeferredCalls.Proofs.Running

/-!
# Who keeps a call in use

A call is in use as long as somebody holds a share of it: under a name or in hand, on a stack of
calls, or in a queued task that was scheduled strongly. Tasks that were scheduled weakly do not
count.
-/

namespace DeferredCalls

open Holding Moment

section Shares

variable {c : CallId}

/-- Contexts and callables are all that a call holds. -/
theorem call_notMem_callShares (x : Call) : Share.call c ∉ x.shares := by
  obtain ⟨handle, ⟨_ | s⟩, _, _, _⟩ := x <;> cases handle <;>
    simp [Call.shares, Handle.shares, Snapshot.shares]

theorem call_mem_threadShares {th : Thread} : Share.call c ∈ th.shares ↔ c ∈ th.callStack := by
  have served : Share.call c ∉ th.servedShares := by
    rw [Thread.servedShares]
    split
    · exact List.not_mem_nil
    · split <;> simp
  have ambient : Share.call c ∉ th.context.ambient.shares := by
    obtain ⟨_ | s⟩ := th.context.ambient <;> simp [Snapshot.shares]
  simp [Thread.shares, served, ambient]

theorem call_mem_queueShares {queue : List Task} :
    Share.call c ∈ queueShares queue ↔ ∃ task ∈ queue, c ∈ task.holds := by
  simp [queueShares, Task.shares]

theorem call_mem_holdingShares {h : Holding} : Share.call c ∈ h.shares ↔ h = share (.call c) := by
  cases h with
  | share s => simp [Holding.shares, eq_comm]
  | guard t g =>
    obtain ⟨⟨_ | s⟩, _⟩ := g <;> simp [Holding.shares, Snapshot.shares]
  | entry t level k => simp [Holding.shares]
  | turn t => simp [Holding.shares]

end Shares

variable {w : World} {t : ThreadId} {c : CallId} {H : Multiset Holding}

theorem World.Balanced.alive_of_queued {s : Scheduler} {k : Share} (balanced : w.Balanced H)
    (member : k ∈ queueShares (w.queueOf s)) : 0 < w.shareCount k := by
  have count := balanced k
  have one := List.count_pos_iff.mpr member
  rw [holders] at count
  cases s with
  | loop l =>
    have known : l.index < w.loops.size :=
      Arena.lt_size_of_ne (fun x => queueShares x.queue) (List.ne_nil_of_mem member)
    have some := Arena.le_total known fun _ x => (queueShares x.value.queue).count k
    simp only [Arena.cell_value] at some
    rw [queueOf] at one
    omega
  | manual m =>
    have known : m.index < w.manuals.size :=
      Arena.lt_size_of_ne (fun x => queueShares x.queue) (List.ne_nil_of_mem member)
    have some := Arena.le_total known fun _ x => (queueShares x.value.queue).count k
    simp only [Arena.cell_value] at some
    rw [queueOf] at one
    omega

/-- If the world holds a share of a call, it is on a stack of calls or in a queue. -/
theorem World.exists_of_holders_pos (some : 0 < w.holders (.call c)) :
    (∃ u, c ∈ w.callStack u) ∨ ∃ s, ∃ task ∈ w.queueOf s, c ∈ task.holds := by
  have calls : w.calls.total (fun _ x => if x.shares = 0 then 0 else x.value.shares.count (.call c))
      = 0 := by
    by_contra pos
    obtain ⟨r, _, found⟩ := Arena.exists_of_total_pos (Nat.pos_of_ne_zero pos)
    split at found
    · contradiction
    · exact call_notMem_callShares _ (List.count_pos_iff.mp found)
  rw [holders, calls] at some
  by_cases threads : 0 < w.threads.total fun _ x => x.value.shares.count (.call c)
  · obtain ⟨u, _, found⟩ := Arena.exists_of_total_pos threads
    exact .inl ⟨u, call_mem_threadShares.mp (List.count_pos_iff.mp found)⟩
  by_cases loops : 0 < w.loops.total fun _ x => (queueShares x.value.queue).count (.call c)
  · obtain ⟨l, _, found⟩ := Arena.exists_of_total_pos loops
    exact .inr ⟨.loop l, call_mem_queueShares.mp (List.count_pos_iff.mp found)⟩
  · obtain ⟨m, _, found⟩ := Arena.exists_of_total_pos
      (a := w.manuals) (f := fun _ x => (queueShares x.value.queue).count (.call c)) (by omega)
    exact .inr ⟨.manual m, call_mem_queueShares.mp (List.count_pos_iff.mp found)⟩

/-- A call is in use if and only if it is kept under a name or in hand, on a stack of calls, or held
by a queued task. -/
theorem World.Balanced.callAlive_iff (balanced : w.Balanced H) : w.callAlive c = true ↔
    share (.call c) ∈ w.named + H ∨ (∃ u, c ∈ w.callStack u) ∨
      ∃ s, ∃ task ∈ w.queueOf s, c ∈ task.holds := by
  have alive : w.callAlive c = true ↔ 0 < w.shareCount (.call c) := decide_eq_true_iff
  rw [alive]
  constructor
  · intro used
    have count := balanced (.call c)
    by_cases held : 0 < tally (.call c) (w.named + H)
    · obtain ⟨h, member, mine⟩ := exists_of_tally_pos held
      rw [call_mem_holdingShares.mp mine] at member
      exact .inl member
    · exact .inr (exists_of_holders_pos (by omega))
  · rintro (member | ⟨u, onStack⟩ | ⟨s, task, queued, mine⟩)
    · exact balanced.alive_of_mem member (List.mem_singleton_self _)
    · have inside : u.index < w.threads.size :=
        Arena.lt_size_of_ne Thread.callStack (List.ne_nil_of_mem onStack)
      exact balanced.alive_of_thread inside (call_mem_threadShares.mpr onStack)
    · exact balanced.alive_of_queued (call_mem_queueShares.mpr ⟨task, queued, mine⟩)

end DeferredCalls
