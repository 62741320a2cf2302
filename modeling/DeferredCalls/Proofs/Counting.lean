import DeferredCalls.Proofs.Activity
import Mathlib.Algebra.Ring.Nat

/-!
# Counting holders

How many shares of an object there are, counted by those who hold one: in the calls that are in use,
on threads, in queues, under names, in the runs and tasks in progress, and in the hands of the
embedder. Handles, references and tasks that are weak hold no share and are not counted.
-/

namespace DeferredCalls

open Holding

section Lists

variable {α β γ : Type} {l : List α} {f : α → List β} {b : β}

theorem count_flatMap_congr [BEq β] [BEq γ] {g : α → List γ} {c : γ}
    (same : ∀ a, (f a).count b = (g a).count c) :
    (l.flatMap f).count b = (l.flatMap g).count c := by
  induction l with
  | nil => rfl
  | cons a l ih => simp only [List.flatMap_cons, List.count_append, same, ih]

theorem count_flatMap_eq_zero [BEq β] (none : ∀ a, (f a).count b = 0) :
    (l.flatMap f).count b = 0 := by
  simp [List.count_flatMap, none, Function.comp_def]

theorem count_flatMap_eq_map [BEq β] [DecidableEq γ] {g : α → γ} {c : γ}
    (same : ∀ a, (f a).count b = if g a = c then 1 else 0) :
    (l.flatMap f).count b = (l.map g).count c := by
  rw [List.map_eq_flatMap]
  exact count_flatMap_congr fun a => by simp [same, List.count_singleton]

end Lists

namespace Arena

variable {kind : ObjectKind} {α M : Type} [Inhabited α] [AddCommMonoid M]

/-- The references that an arena gave out. -/
def refs (a : Arena kind α) : List (Ref kind) :=
  (List.range a.size).map Ref.mk

theorem total_eq_sum (a : Arena kind α) (f : Ref kind → Cell α → M) :
    a.total f = (a.refs.map fun r => f r (a.cell r)).sum := by
  rw [refs, List.map_map]
  rfl

omit [Inhabited α] in
theorem mem_refs {a : Arena kind α} {r : Ref kind} : r ∈ a.refs ↔ r.index < a.size := by
  obtain ⟨i⟩ := r
  simp [refs]

end Arena

namespace Holding

variable {s : Share} {α : Type}

theorem tally_sum (l : List α) (f : α → Multiset Holding) :
    tally s (l.map f).sum = (l.map fun a => tally s (f a)).sum := by
  induction l with
  | nil => rfl
  | cons a l ih => simp [ih]

theorem tally_singleton (h : Holding) : tally s {h} = h.shares.count s := by
  rw [← Multiset.cons_zero, tally_cons, tally_zero, Nat.add_zero]

variable {t : NameTable α}

/-- What is kept under names, counted by the shares in it. -/
theorem tally_table {f : α → Multiset Holding} {g : α → List Share}
    (shares : ∀ a, tally s (f a) = (g a).count s) :
    tally s (t.total f) = (t.values.flatMap g).count s := by
  rw [NameTable.total, tally_sum, List.count_flatMap]
  simp only [shares, Function.comp_def]

theorem tally_table_share {f : α → Share} :
    tally s (t.total fun a => {share (f a)}) = (t.values.map f).count s := by
  rw [List.map_eq_flatMap]
  exact tally_table fun a => tally_singleton _

end Holding

/-! ## Where shares are -/

namespace World

/-- The calls that are in use. -/
def callsInUse (w : World) : List Call :=
  (w.calls.refs.filter w.callAlive).map w.calls.get

/-- The ambient contexts of all threads. -/
def ambients (w : World) : List Snapshot :=
  w.threads.refs.map w.ambient

/-- The entries on the stacks of calls of all threads. -/
def stacked (w : World) : List CallId :=
  w.threads.refs.flatMap w.callStack

/-- The tasks that are queued anywhere. -/
def queued (w : World) : List Task :=
  w.loops.refs.flatMap (fun l => w.queueOf (.loop l)) ++
    w.manuals.refs.flatMap fun m => w.queueOf (.manual m)

/-- The guards that threads keep under names. -/
def guardsNamed (w : World) : List Guard :=
  w.threads.refs.flatMap fun t => (w.thread t).guards.values

/-- The loops that threads keep under names. -/
def loopsNamed (w : World) : List LoopId :=
  w.threads.refs.flatMap fun t => (w.thread t).loops.values

/-- The shares that the world holds. -/
theorem holders_eq (w : World) (s : Share) : w.holders s =
    (w.callsInUse.flatMap Call.shares).count s +
    (w.threads.refs.flatMap fun t => (w.thread t).shares).count s +
    (queueShares w.queued).count s := by
  have calls : w.calls.total (fun _ c => if c.shares = 0 then 0 else c.value.shares.count s) =
      (w.callsInUse.flatMap Call.shares).count s := by
    rw [Arena.total_eq_sum, callsInUse]
    induction w.calls.refs with
    | nil => rfl
    | cons c cs ih =>
      rw [List.map_cons, List.sum_cons, ih, List.filter_cons]
      by_cases used : w.calls.shares c = 0
      · simp [callAlive, used]
      · simp [callAlive, used, Nat.pos_of_ne_zero used]
  have queues : (queueShares w.queued).count s =
      w.loops.total (fun _ c => (queueShares c.value.queue).count s) +
      w.manuals.total (fun _ c => (queueShares c.value.queue).count s) := by
    rw [Arena.total_eq_sum, Arena.total_eq_sum]
    simp only [queued, queueShares, List.flatMap_append, List.count_append, List.flatMap_assoc]
    simp only [List.count_flatMap (l := Arena.refs _), Function.comp_def]
    rfl
  have threads : w.threads.total (fun _ c => c.value.shares.count s) =
      (w.threads.refs.flatMap fun t => (w.thread t).shares).count s := by
    rw [Arena.total_eq_sum, List.count_flatMap]
    rfl
  rw [holders, calls, queues, threads]
  omega

/-- The shares that are kept under names. -/
theorem tally_named (w : World) (s : Share) : tally s w.named =
    (w.names.contexts.values.flatMap Snapshot.shares).count s +
    (w.names.callables.values.map .callable).count s +
    (w.names.handles.values.flatMap Handle.shares).count s +
    (w.names.calls.values.map .call).count s +
    (w.names.manuals.values.map .manual).count s +
    (w.guardsNamed.flatMap fun g => g.previous.shares).count s +
    (w.loopsNamed.map .loop).count s := by
  have own : tally s (w.threads.total fun t c => c.value.holdings t) =
      (w.guardsNamed.flatMap fun g => g.previous.shares).count s +
      (w.loopsNamed.map .loop).count s := by
    rw [Arena.total_eq_sum, guardsNamed, loopsNamed]
    induction w.threads.refs with
    | nil => rfl
    | cons t ts ih =>
      have guards : tally s ((w.thread t).guards.total fun g => {Holding.guard t g}) =
          ((w.thread t).guards.values.flatMap fun g => g.previous.shares).count s :=
        tally_table fun g => tally_singleton _
      have here : tally s ((w.threads.cell t).value.holdings t) =
          ((w.thread t).guards.values.flatMap fun g => g.previous.shares).count s +
          ((w.thread t).loops.values.map .loop).count s := by
        rw [← guards, ← tally_table_share, ← tally_add]
        rfl
      simp only [List.map_cons, List.sum_cons, List.flatMap_cons, List.flatMap_append,
        List.map_append, List.count_append, tally_add, ih, here]
      omega
  have contexts : tally s (w.names.contexts.total fun x => ofShares x.shares) =
      (w.names.contexts.values.flatMap Snapshot.shares).count s :=
    tally_table fun _ => tally_ofShares
  have handles : tally s (w.names.handles.total fun h => ofShares h.shares) =
      (w.names.handles.values.flatMap Handle.shares).count s :=
    tally_table fun _ => tally_ofShares
  simp only [named, Names.holdings, tally_add, own, contexts, handles, tally_table_share]
  omega

end World

namespace Holding

/-- The guards among holdings. -/
def guards (H : Multiset Holding) : Multiset Guard :=
  H.filterMap fun
    | .guard _ g => some g
    | _ => none

/-- Among holdings, shares are either held as such or by guards. -/
theorem tally_eq (H : Multiset Holding) (s : Share) :
    tally s H = H.count (share s) + ((guards H).map fun g => g.previous.shares.count s).sum := by
  induction H using Multiset.induction with
  | empty => rfl
  | cons h H ih =>
    rw [tally_cons, ih]
    cases h with
    | share k =>
      have same : [k].count s = if share s = share k then 1 else 0 := by
        simp [List.count_singleton, eq_comm (a := k)]
      rw [Multiset.count_cons, Holding.shares, same]
      simp only [guards, Multiset.filterMap_cons_none]
      omega
    | guard t g =>
      simp [guards, Holding.shares, Nat.add_left_comm]
    | entry t i c => simp [guards, Holding.shares]
    | turn t => simp [guards, Holding.shares]

end Holding

namespace Activity

/-- The shares that are in somebody's hands. -/
theorem tally_held (a : Activity) (s : Share) : tally s a.held =
    (a.runs.map fun r => Share.callable r.callable).count s +
    (a.runs.flatMap fun r => r.guard.previous.shares).count s +
    (queueShares a.tasks).count s + tally s a.own := by
  have runs : tally s (a.runs.map Run.holdings).sum =
      (a.runs.map fun r => Share.callable r.callable).count s +
      (a.runs.flatMap fun r => r.guard.previous.shares).count s := by
    induction a.runs with
    | nil => rfl
    | cons r rs ih =>
      simp only [List.map_cons, List.sum_cons, tally_add, ih, List.flatMap_cons, List.count_append,
        Run.holdings, Multiset.insert_eq_cons, tally_cons, tally_singleton, Holding.shares,
        List.count_nil, List.count_cons]
      omega
  rw [held, tally_add, tally_add, runs, tally_ofShares]

end Activity

/-! ## Who holds a share of an object -/

namespace Activity

variable (a : Activity) (w : World)

/-- The snapshots that are held: under names, in calls that are in use, as ambient contexts, and by
guards as what was ambient before. -/
def snapshots : List Snapshot :=
  w.names.contexts.values ++ w.callsInUse.map Call.context ++ w.ambients ++
    w.guardsNamed.map Guard.previous ++ a.runs.map (·.guard.previous)

/-- The handles that are held: under names, and in calls that are in use. -/
def handles : List Handle :=
  w.names.handles.values ++ w.callsInUse.map Call.handle

/-- The callables that are held as such: under names, and by their runs in progress. -/
def callables : List CallableId :=
  w.names.callables.values ++ a.runs.map Run.callable

/-- The calls that are held: under names, by queued tasks and by tasks that are not over, and as
entries on stacks of calls. -/
def calls : List CallId :=
  w.names.calls.values ++ w.queued.flatMap Task.holds ++ a.tasks.flatMap Task.holds ++ w.stacked

end Activity

theorem queueShares_eq (tasks : List Task) :
    queueShares tasks = (tasks.flatMap Task.holds).map .call := by
  rw [queueShares, List.map_flatMap]
  rfl

theorem World.count_threadShares (w : World) (k : Share) :
    (w.threads.refs.flatMap fun t => (w.thread t).shares).count k =
      (w.ambients.flatMap Snapshot.shares).count k + (w.stacked.map .call).count k +
      (w.threads.refs.flatMap fun t => (w.thread t).servedShares).count k := by
  rw [ambients, stacked]
  induction w.threads.refs with
  | nil => rfl
  | cons t ts ih =>
    simp only [List.flatMap_cons, List.map_cons, List.map_append, List.count_append, ih]
    rw [Thread.shares, List.count_append, List.count_append]
    simp only [ambient, contextStack, callStack]
    omega

/-- The shares of an object are those of its holders. -/
theorem AtWork.shareCount_eq {a : Activity} {w : World} (work : AtWork a w) (k : Share) :
    w.shareCount k =
    ((a.snapshots w).flatMap Snapshot.shares).count k +
    ((Activity.handles w).flatMap Handle.shares).count k +
    ((a.callables w).map .callable).count k + ((a.calls w).map .call).count k +
    (w.names.manuals.values.map .manual).count k + (w.loopsNamed.map .loop).count k +
    (w.threads.refs.flatMap fun t => (w.thread t).servedShares).count k + tally k a.own := by
  have calls : (w.callsInUse.flatMap Call.shares).count k =
      ((w.callsInUse.map Call.handle).flatMap Handle.shares).count k +
      ((w.callsInUse.map Call.context).flatMap Snapshot.shares).count k := by
    induction w.callsInUse with
    | nil => rfl
    | cons c cs ih =>
      simp only [List.flatMap_cons, List.map_cons, List.count_append, ih, Call.shares]
      omega
  have guards (l : List Guard) : l.flatMap (fun g => g.previous.shares) =
      (l.map Guard.previous).flatMap Snapshot.shares := by
    rw [List.flatMap_map]
  have runs : a.runs.flatMap (fun r => r.guard.previous.shares) =
      (a.runs.map (·.guard.previous)).flatMap Snapshot.shares := by
    rw [List.flatMap_map]
  have started : a.runs.map (fun r => Share.callable r.callable) =
      (a.runs.map Run.callable).map .callable := by
    rw [List.map_map]
    rfl
  rw [work.sound.consistent.balanced k, tally_add, World.holders_eq, World.tally_named,
    Activity.tally_held, calls, World.count_threadShares, queueShares_eq, queueShares_eq, guards,
    runs, started]
  simp only [Activity.snapshots, Activity.handles, Activity.callables, Activity.calls,
    List.flatMap_append, List.map_append, List.count_append]
  omega

/-! ## Which shares are of an object -/

section Objects

variable {x : ContextId} {f : CallableId} {c : CallId} {k : Share}

theorem count_snapshotShares (l : List Snapshot) :
    (l.flatMap Snapshot.shares).count (.context x) = l.count (.of x) := by
  have one (s : Snapshot) : s.shares.count (.context x) = if s = .of x then 1 else 0 := by
    obtain ⟨_ | y⟩ := s <;> simp [Snapshot.shares, Snapshot.of, List.count_singleton]
  rw [count_flatMap_eq_map (g := id) one, List.map_id]

theorem count_snapshotShares_eq_zero (l : List Snapshot) (other : ∀ x, k ≠ .context x) :
    (l.flatMap Snapshot.shares).count k = 0 := by
  refine count_flatMap_eq_zero fun s => ?_
  obtain ⟨_ | y⟩ := s
  · rfl
  · simp [Snapshot.shares, Ne.symm (other y)]

theorem count_handleShares (l : List Handle) :
    (l.flatMap Handle.shares).count (.callable f) = l.count (.strong f) := by
  have one (h : Handle) : h.shares.count (.callable f) = if h = .strong f then 1 else 0 := by
    cases h <;> simp [Handle.shares, List.count_singleton]
  rw [count_flatMap_eq_map (g := id) one, List.map_id]

theorem count_handleShares_eq_zero (l : List Handle) (other : ∀ f, k ≠ .callable f) :
    (l.flatMap Handle.shares).count k = 0 := by
  refine count_flatMap_eq_zero fun h => ?_
  cases h with
  | strong f => simp [Handle.shares, Ne.symm (other f)]
  | weak f => rfl

theorem count_servedShares_eq_zero (w : World) (other : ∀ l, k ≠ .loop l) :
    (w.threads.refs.flatMap fun t => (w.thread t).servedShares).count k = 0 := by
  refine count_flatMap_eq_zero fun t => ?_
  rw [Thread.servedShares]
  split
  · rfl
  · next l _ => split <;> simp [Ne.symm (other l)]

theorem count_map_eq_zero {α : Type} {l : List α} {g : α → Share} (other : ∀ a, g a ≠ k) :
    (l.map g).count k = 0 := by
  refine List.count_eq_zero.mpr fun member => ?_
  obtain ⟨a, _, same⟩ := List.mem_map.mp member
  exact other a same

end Objects

namespace Holding

variable {H : Multiset Holding}

theorem tally_of_not_context {k : Share} (other : ∀ x, k ≠ .context x) :
    tally k H = H.count (share k) := by
  have none (g : Guard) : g.previous.shares.count k = 0 := by
    simpa using count_snapshotShares_eq_zero [g.previous] other
  rw [tally_eq, funext none, Multiset.map_const', Multiset.sum_replicate, nsmul_zero, Nat.add_zero]

theorem tally_context (x : ContextId) : tally (.context x) H =
    ((guards H).map Guard.previous).count (.of x) + H.count (share (.context x)) := by
  have one (g : Guard) : g.previous.shares.count (.context x) = [g.previous].count (.of x) := by
    simpa using count_snapshotShares [g.previous]
  rw [tally_eq, Nat.add_comm]
  congr 1
  induction guards H using Multiset.induction with
  | empty => rfl
  | cons g gs ih =>
    rw [Multiset.map_cons, Multiset.sum_cons, ih, one, Multiset.map_cons, Multiset.count_cons,
      List.count_singleton, Nat.add_comm]
    simp only [beq_iff_eq, eq_comm (a := g.previous)]

end Holding

/-! ## The counts -/

namespace AtWork

variable {a : Activity} {w : World}

/-- The shares of a callable are under names, as such or in strong handles, in the calls in use that
were built on a strong handle, in its runs in progress, and in the hands of the embedder. -/
theorem shares_callable (work : AtWork a w) (f : CallableId) : w.callables.shares f =
    w.names.callables.values.count f + w.names.handles.values.count (.strong f) +
    (w.callsInUse.map Call.handle).count (.strong f) + (a.runs.map Run.callable).count f +
    a.own.count (share (.callable f)) := by
  have total := work.shareCount_eq (.callable f)
  rw [count_snapshotShares_eq_zero _ (by simp), count_handleShares,
    List.count_map_of_injective _ _ (fun _ _ => Share.callable.inj), count_map_eq_zero (by simp),
    count_map_eq_zero (by simp), count_map_eq_zero (by simp),
    count_servedShares_eq_zero _ (by simp), tally_of_not_context (by simp)] at total
  simp only [World.shareCount, Activity.handles, Activity.callables, List.count_append] at total
  omega

/-- The shares of a call are under names, in queued tasks and in tasks that are not over, on stacks
of calls, and in the hands of the embedder. -/
theorem shares_call (work : AtWork a w) (c : CallId) : w.calls.shares c =
    w.names.calls.values.count c + (w.queued.flatMap Task.holds).count c +
    (a.tasks.flatMap Task.holds).count c + w.stacked.count c +
    a.own.count (share (.call c)) := by
  have total := work.shareCount_eq (.call c)
  rw [count_snapshotShares_eq_zero _ (by simp), count_handleShares_eq_zero _ (by simp),
    count_map_eq_zero (by simp), List.count_map_of_injective _ _ (fun _ _ => Share.call.inj),
    count_map_eq_zero (by simp), count_map_eq_zero (by simp),
    count_servedShares_eq_zero _ (by simp), tally_of_not_context (by simp)] at total
  simp only [World.shareCount, Activity.calls, List.count_append] at total
  omega

/-- The shares of a context state are under names, in the calls in use that are bound to it, in
ambient contexts, in guards as what was ambient before, and in the hands of the embedder. -/
theorem shares_context (work : AtWork a w) (x : ContextId) : w.contexts.shares x =
    w.names.contexts.values.count (.of x) + (w.callsInUse.map Call.context).count (.of x) +
    w.ambients.count (.of x) + (w.guardsNamed.map Guard.previous).count (.of x) +
    (a.runs.map (·.guard.previous)).count (.of x) +
    ((Holding.guards a.own).map Guard.previous).count (.of x) +
    a.own.count (share (.context x)) := by
  have total := work.shareCount_eq (.context x)
  rw [count_snapshotShares, count_handleShares_eq_zero _ (by simp), count_map_eq_zero (by simp),
    count_map_eq_zero (by simp), count_map_eq_zero (by simp), count_map_eq_zero (by simp),
    count_servedShares_eq_zero _ (by simp), tally_context] at total
  simp only [World.shareCount, Activity.snapshots, List.count_append] at total
  omega

end AtWork

end DeferredCalls
