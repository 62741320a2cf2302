import DeferredCalls.Proofs.Tally
import DeferredCalls.World.Shares

/-!
# Who holds what

At every moment of an execution, each share of an object is in somebody's hands: the world holds
some itself, some are kept under names, and the rest is held by code in progress. So are the rights
to end an install and the duties to take a call off a stack. The number of shares of an object is
the number of those who hold one.
-/

namespace DeferredCalls

/-- What code in progress, or a table of names, has in its hands. -/
inductive Holding
  | share (s : Share)
  /-- The right to end an install of a thread. -/
  | guard (t : ThreadId) (g : Guard)
  /-- The duty to take a call off the stack of a thread, at the level at which it stands. -/
  | entry (t : ThreadId) (level : Nat) (c : CallId)
  /-- The duty to end the turn of a loop thread. -/
  | turn (t : ThreadId)
  deriving DecidableEq, Repr

namespace Holding

/-- The shares in a holding. A guard has a share of what was ambient before its install. -/
def shares : Holding → List Share
  | share s => [s]
  | guard _ g => g.previous.shares
  | entry .. | turn .. => []

/-- Shares in hand. -/
def ofShares (shares : List Share) : Multiset Holding :=
  (shares.map share : List Holding)

@[simp] theorem ofShares_nil : ofShares [] = 0 := rfl

@[simp] theorem ofShares_cons (s : Share) (shares : List Share) :
    ofShares (s :: shares) = share s ::ₘ ofShares shares := rfl

@[simp] theorem ofShares_append (l k : List Share) :
    ofShares (l ++ k) = ofShares l + ofShares k := by
  simp [ofShares]

/-- How many shares of an object are among holdings. -/
def tally (s : Share) (holdings : Multiset Holding) : Nat :=
  (holdings.map fun h => h.shares.count s).sum

variable {s : Share} {h : Holding} {H K : Multiset Holding} {l : List Share}

@[simp] theorem tally_zero : tally s 0 = 0 := rfl

@[simp] theorem tally_add : tally s (H + K) = tally s H + tally s K := by simp [tally]

@[simp] theorem tally_cons : tally s (h ::ₘ H) = h.shares.count s + tally s H := by simp [tally]

@[simp] theorem tally_ofShares : tally s (ofShares l) = l.count s := by
  induction l with
  | nil => rfl
  | cons x l ih => simp [ih, shares, List.count_cons, Nat.add_comm]

theorem mem_ofShares : h ∈ ofShares l ↔ ∃ s ∈ l, share s = h := by
  simp [ofShares]

@[simp] theorem count_entry_ofShares {t : ThreadId} {i : Nat} {c : CallId} :
    (ofShares l).count (entry t i c) = 0 :=
  Multiset.count_eq_zero.mpr fun member => by simp [mem_ofShares] at member

@[simp] theorem count_turn_ofShares {t : ThreadId} : (ofShares l).count (turn t) = 0 :=
  Multiset.count_eq_zero.mpr fun member => by simp [mem_ofShares] at member

theorem le_tally (member : h ∈ H) : h.shares.count s ≤ tally s H := by
  obtain ⟨K, rfl⟩ := Multiset.exists_cons_of_mem member
  simp

theorem exists_of_tally_pos (pos : 0 < tally s H) : ∃ h ∈ H, s ∈ h.shares := by
  by_contra none
  simp only [not_exists, not_and] at none
  have zero : tally s H = 0 := Multiset.sum_eq_zero fun n hn => by
    obtain ⟨h, member, rfl⟩ := Multiset.mem_map.mp hn
    exact List.count_eq_zero.mpr (none h member)
  omega

end Holding

open Holding

/-! ## What is kept under names -/

/-- What all threads keep under names. -/
def Names.holdings (n : Names) : Multiset Holding :=
  n.contexts.total (fun s => ofShares s.shares) +
  n.callables.total (fun c => {share (.callable c)}) +
  n.handles.total (fun h => ofShares h.shares) +
  n.calls.total (fun c => {share (.call c)}) +
  n.manuals.total (fun m => {share (.manual m)})

/-- What a thread keeps for itself under names. -/
def Thread.holdings (t : ThreadId) (th : Thread) : Multiset Holding :=
  th.guards.total (fun g => {guard t g}) + th.loops.total (fun l => {share (.loop l)})

/-- What is kept under names. -/
def World.named (w : World) : Multiset Holding :=
  w.names.holdings + w.threads.total fun t c => c.value.holdings t

section Duties

variable {α : Type} {f : α → Multiset Holding} {h : Holding}

theorem count_table_eq_zero {table : NameTable α} (none : ∀ a, (f a).count h = 0) :
    (table.total f).count h = 0 := by
  rw [NameTable.total]
  induction table.values with
  | nil => rfl
  | cons a as ih => simp [none, ih]

theorem count_arena_eq_zero {kind : ObjectKind} [Inhabited α] {a : Arena kind α}
    {f : Ref kind → Cell α → Multiset Holding} (none : ∀ r c, (f r c).count h = 0) :
    (a.total f).count h = 0 := by
  rw [Arena.total]
  rw [Multiset.count_sum']
  exact Finset.sum_eq_zero fun i _ => none _ _

/-- Only shares and guards are kept under names. -/
theorem World.count_named_eq_zero {w : World} (notShare : ∀ s, h ≠ share s)
    (notGuard : ∀ t g, h ≠ guard t g) : w.named.count h = 0 := by
  have noShares : ∀ l, (ofShares l).count h = 0 := fun l =>
    Multiset.count_eq_zero.mpr fun member => by
      obtain ⟨s, _, same⟩ := mem_ofShares.mp member
      exact notShare s same.symm
  have noShare : ∀ s, Multiset.count h {share s} = 0 := fun s => by simp [notShare s]
  have noGuard : ∀ t g, Multiset.count h {guard t g} = 0 := fun t g => by simp [notGuard t g]
  have noNames : w.names.holdings.count h = 0 := by
    simp [Names.holdings, count_table_eq_zero, noShares, noShare]
  have noThread : ∀ t (th : Thread), (th.holdings t).count h = 0 := fun t th => by
    simp [Thread.holdings, count_table_eq_zero, noShare, noGuard]
  rw [named, Multiset.count_add, noNames, count_arena_eq_zero fun t c => noThread t c.value]

@[simp] theorem World.count_entry_named {w : World} {t : ThreadId} {i : Nat} {c : CallId} :
    w.named.count (entry t i c) = 0 :=
  count_named_eq_zero (fun _ => Holding.noConfusion) fun _ _ => Holding.noConfusion

@[simp] theorem World.count_turn_named {w : World} {t : ThreadId} :
    w.named.count (turn t) = 0 :=
  count_named_eq_zero (fun _ => Holding.noConfusion) fun _ _ => Holding.noConfusion

end Duties

/-! ## What the world holds itself -/

/-- The share that a loop thread has of its loop until it leaves it. -/
def Thread.servedShares (th : Thread) : List Share :=
  match th.role with
  | .commands => []
  | .serving l => if th.finished then [] else [.loop l]

/-- The shares that a thread holds: of what is ambient on it, of the calls it is executing, and of
the loop it serves. -/
def Thread.shares (th : Thread) : List Share :=
  th.context.ambient.shares ++ th.callStack.map .call ++ th.servedShares

/-- The shares that queued tasks hold. -/
def queueShares (queue : List Task) : List Share :=
  queue.flatMap Task.shares

namespace World

/-- How many shares of an object the world holds itself: in calls that are in use, on its threads,
and in its queues. -/
def holders (w : World) (s : Share) : Nat :=
  w.calls.total (fun _ c => if c.shares = 0 then 0 else c.value.shares.count s) +
  w.threads.total (fun _ c => c.value.shares.count s) +
  w.loops.total (fun _ c => (queueShares c.value.queue).count s) +
  w.manuals.total (fun _ c => (queueShares c.value.queue).count s)

/-- The number of shares of each object is the number of its holders: the world, the names, and
those who have something in hand. -/
def Balanced (w : World) (held : Multiset Holding) : Prop :=
  ∀ s, w.shareCount s = w.holders s + tally s (w.named + held)

/-- Every reference to a loop denotes one that was created, and every handle that is kept is one of
a callable that was made. -/
structure Known (w : World) : Prop where
  callable : ∀ h ∈ w.names.handles.values, h.callable.index < w.callables.size
  handle : ∀ l ∈ w.names.loopHandles.values, l.index < w.loops.size
  current : ∀ t l, (w.thread t).currentLoop = some l → l.index < w.loops.size
  served : ∀ t l, (w.thread t).role = .serving l → l.index < w.loops.size
  previous : ∀ k l, (w.loops.get k).previous = some l → l.index < w.loops.size

end World

/-! ## Moments -/

/-- A moment of an execution: the world, and what code in progress has in its hands. -/
structure Moment where
  world : World
  held : Multiset Holding

/-- What is true at every moment of an execution: shares are accounted for, the calls on the stacks
are those that somebody has to take off again, a loop thread is busy while somebody has to end its
turn and has not left its loop then, and whatever is referred to is known. -/
structure Moment.Consistent (m : Moment) : Prop where
  balanced : m.world.Balanced m.held
  entries : ∀ t i c, m.held.count (entry t i c) =
    if (m.world.callStack t)[i]? = some c then 1 else 0
  turns : ∀ t, m.held.count (turn t) = if (m.world.thread t).busy then 1 else 0
  working : ∀ t, (m.world.thread t).busy = true → (m.world.thread t).finished = false
  known : m.world.Known

end DeferredCalls
