import DeferredCalls.Proofs.Shedding
import DeferredCalls.Session.Run
import Mathlib.Data.List.Nodup
import Mathlib.Logic.Relation

/-!
# The current loop of a thread

A loop becomes the current one of its thread when it is created, and remembers which loop was
current until then. When the loop is dropped, that one becomes current again, whichever loop is
current at the moment.

So as long as loops are dropped in the reverse order of their creation, the current loop is the
newest one that has not been dropped. In any other order that fails: dropping a loop that is not
current takes the binding away from the one that is, and afterwards a loop can be current that has
been dropped long ago.
-/

namespace DeferredCalls

/-- A thread creates a loop, or drops one of those that it has created and not dropped. These are
listed with the newest one first. -/
inductive LoopStep (t : ThreadId) : World × List LoopId → World × List LoopId → Prop
  | create (w : World) (live : List LoopId) (settings : LoopSettings) :
    LoopStep t (w, live) ((w.createLoop t settings).2, (w.createLoop t settings).1 :: live)
  | drop {w : World} {live : List LoopId} {l : LoopId} :
    l ∈ live → LoopStep t (w, live) (w.release t (.loop l), live.erase l)

/-- The same, where only the newest loop is ever dropped. -/
inductive NestedLoopStep (t : ThreadId) : World × List LoopId → World × List LoopId → Prop
  | create (w : World) (live : List LoopId) (settings : LoopSettings) :
    NestedLoopStep t (w, live) ((w.createLoop t settings).2, (w.createLoop t settings).1 :: live)
  | drop (w : World) (l : LoopId) (outer : List LoopId) :
    NestedLoopStep t (w, l :: outer) (w.release t (.loop l), outer)

/-- Any number of changes. -/
abbrev LoopSteps (t : ThreadId) : World × List LoopId → World × List LoopId → Prop :=
  Relation.ReflTransGen (LoopStep t)

abbrev NestedLoopSteps (t : ThreadId) : World × List LoopId → World × List LoopId → Prop :=
  Relation.ReflTransGen (NestedLoopStep t)

variable {t : ThreadId} {w w' : World} {l k : LoopId} {live live' outer : List LoopId}
  {x y : World × List LoopId} {settings : LoopSettings}

theorem NestedLoopStep.change (h : NestedLoopStep t x y) : LoopStep t x y := by
  cases h with
  | create w live settings => exact .create w live settings
  | drop w l outer =>
    have dropped := LoopStep.drop (t := t) (w := w) (List.mem_cons_self (a := l) (l := outer))
    rwa [List.erase_cons_head] at dropped

namespace World

/-! ## Creating and dropping a loop -/

theorem fst_createLoop : (w.createLoop t settings).1 = w.loops.next := rfl

theorem loops_createLoop : (w.createLoop t settings).2.loops =
    w.loops.push (.ofSettings settings t (w.thread t).currentLoop) :=
  (sheds_log ..).loops

theorem thread_createLoop (inside : t.index < w.threads.size) :
    (w.createLoop t settings).2.thread t =
      { w.thread t with currentLoop := some (w.createLoop t settings).1 } := by
  rw [createLoop, thread, (sheds_log ..).threads]
  exact thread_onThread_self inside

/-- A dropped loop is closed, and its thread gets back the binding that the loop remembers. -/
theorem loops_dropLoop (last : w.loops.shares l = 1) : (w.release t (.loop l)).loops =
    (w.loops.dropShare l).modify l fun loop => { loop with closed := true, queue := [] } := by
  simp only [release, releaseLoop, Arena.shares_dropShare, if_true, last, Nat.sub_self, discardLoop,
    abandoned, Arena.get_dropShare]
  refine (sheds_releaseTasks ..).loops.trans ?_
  split
  · rfl
  · exact (sheds_log ..).loops

theorem thread_dropLoop (inside : t.index < w.threads.size) (last : w.loops.shares l = 1) :
    (w.release t (.loop l)).thread t =
      { w.thread t with currentLoop := (w.loops.get l).previous } := by
  obtain ⟨w', keeps, eq⟩ := w.release_last_loop t last
  have same : w'.thread t = w.thread t := keeps.thread
  rw [eq, thread_onThread_self (by rwa [keeps.threads]), same]

/-! ## What many changes keep -/

/-- A thread that has loops: each of them has one share, which is the one of the thread. -/
structure HasLoops (t : ThreadId) (w : World) (live : List LoopId) : Prop where
  inside : t.index < w.threads.size
  distinct : live.Nodup
  once : ∀ l ∈ live, w.loops.shares l = 1

theorem HasLoops.nothing (inside : t.index < w.threads.size) : HasLoops t w [] :=
  ⟨inside, List.nodup_nil, fun _ member => absurd member List.not_mem_nil⟩

theorem HasLoops.known (has : HasLoops t w live) (member : l ∈ live) : l.index < w.loops.size :=
  Arena.lt_size_of_shares_pos (by rw [has.once l member]; exact Nat.one_pos)

theorem HasLoops.create (has : HasLoops t w live) (settings : LoopSettings) :
    HasLoops t (w.createLoop t settings).2 ((w.createLoop t settings).1 :: live) where
  inside := by
    rw [createLoop, (sheds_log ..).threads, size_threads_onThread]
    exact has.inside
  distinct := List.nodup_cons.mpr ⟨fun member => Nat.lt_irrefl _ (has.known member), has.distinct⟩
  once l member := by
    rw [loops_createLoop, Arena.shares_push]
    rcases List.mem_cons.mp member with rfl | old
    · rw [if_pos fst_createLoop]
    · rw [if_neg fun same => Nat.lt_irrefl _ (same ▸ has.known old), has.once l old]

theorem HasLoops.drop (has : HasLoops t w live) (member : l ∈ live) :
    HasLoops t (w.release t (.loop l)) (live.erase l) where
  inside := by
    obtain ⟨w', keeps, eq⟩ := w.release_last_loop t (has.once l member)
    rw [eq, size_threads_onThread, keeps.threads]
    exact has.inside
  distinct := has.distinct.erase l
  once k left := by
    obtain ⟨other, old⟩ := has.distinct.mem_erase_iff.mp left
    rw [loops_dropLoop (has.once l member), Arena.shares_modify, Arena.shares_dropShare,
      if_neg other, has.once k old]

theorem HasLoops.change (change : LoopStep t x y) (has : HasLoops t x.1 x.2) :
    HasLoops t y.1 y.2 := by
  cases change with
  | create w live settings => exact has.create settings
  | drop member => exact has.drop member

theorem HasLoops.changes (changes : LoopSteps t x y) (has : HasLoops t x.1 x.2) :
    HasLoops t y.1 y.2 := by
  induction changes with
  | refl => exact has
  | tail _ last ih => exact ih.change last

/-- What a loop remembers stays what it was. -/
theorem previous_change (change : LoopStep t x y) (has : HasLoops t x.1 x.2)
    (known : k.index < x.1.loops.size) :
    k.index < y.1.loops.size ∧ (y.1.loops.get k).previous = (x.1.loops.get k).previous := by
  cases change with
  | create w live settings =>
    rw [loops_createLoop]
    refine ⟨by rw [Arena.size_push]; exact Nat.lt_succ_of_lt known, ?_⟩
    rw [Arena.get_push, if_neg fun same => Nat.lt_irrefl _ (same ▸ known)]
  | @drop w live l member =>
    rw [loops_dropLoop (has.once l member)]
    refine ⟨by rw [Arena.size_modify, Arena.size_dropShare]; exact known, ?_⟩
    have kept := (w.loops.dropShare l).get_modify_congr (r := l) (g := fun loop =>
      { loop with closed := true, queue := [] }) EventLoop.previous (fun _ => rfl) k
    rwa [Arena.get_dropShare] at kept

theorem previous_changes (changes : LoopSteps t x y) (has : HasLoops t x.1 x.2)
    (known : k.index < x.1.loops.size) :
    (y.1.loops.get k).previous = (x.1.loops.get k).previous := by
  have both : k.index < y.1.loops.size ∧
      (y.1.loops.get k).previous = (x.1.loops.get k).previous := by
    induction changes with
    | refl => exact ⟨known, rfl⟩
    | tail before last ih =>
      obtain ⟨known', same⟩ := ih
      obtain ⟨known'', same'⟩ := previous_change last (has.changes before) known'
      exact ⟨known'', same'.trans same⟩
  exact both.2

/-- A new loop remembers what is current. -/
theorem previous_createLoop :
    ((w.createLoop t settings).2.loops.get (w.createLoop t settings).1).previous =
      (w.thread t).currentLoop := by
  rw [loops_createLoop, Arena.get_push, if_pos fst_createLoop]
  rfl

/-! ## Loops within loops -/

/-- Loops that lie within each other: each remembers the next one, and the outermost one what was
current at first. -/
def Enclosed (w : World) (base : Option LoopId) : List LoopId → Prop
  | [] => True
  | l :: outer => (w.loops.get l).previous = outer.head?.or base ∧ Enclosed w base outer

theorem Enclosed.congr {base : Option LoopId} (h : w.Enclosed base live)
    (same : ∀ l ∈ live, (w'.loops.get l).previous = (w.loops.get l).previous) :
    w'.Enclosed base live := by
  induction live with
  | nil => trivial
  | cons l outer ih =>
    refine ⟨?_, ih h.2 fun k member => same k (List.mem_cons_of_mem l member)⟩
    rw [same l (List.mem_cons_self ..)]
    exact h.1

/-- Where only the newest loop is dropped, loops lie within each other, and the newest one is
current. -/
theorem enclosed_of_nested (inside : t.index < w.threads.size)
    (changes : NestedLoopSteps t (w, []) y) :
    y.1.Enclosed (w.thread t).currentLoop y.2 ∧
      (y.1.thread t).currentLoop = y.2.head?.or (w.thread t).currentLoop := by
  induction changes with
  | refl => exact ⟨trivial, rfl⟩
  | @tail x y before last ih =>
    obtain ⟨enclosed, current⟩ := ih
    have has : HasLoops t x.1 x.2 := (HasLoops.nothing inside).changes
      (Relation.ReflTransGen.mono (fun _ _ => NestedLoopStep.change) _ _ before)
    cases last with
    | create w' live settings =>
      have kept : ∀ l ∈ live, ((w'.createLoop t settings).2.loops.get l).previous =
          (w'.loops.get l).previous := fun l member =>
        (previous_change (.create w' live settings) has (has.known member)).2
      refine ⟨⟨previous_createLoop.trans current, enclosed.congr kept⟩, ?_⟩
      rw [thread_createLoop has.inside]
      rfl
    | drop w' l outer =>
      have mine : l ∈ l :: outer := List.mem_cons_self ..
      have kept : ∀ k ∈ outer, ((w'.release t (.loop l)).loops.get k).previous =
          (w'.loops.get k).previous := fun k member =>
        (previous_change (.drop mine) has (has.known (List.mem_cons_of_mem l member))).2
      refine ⟨enclosed.2.congr kept, ?_⟩
      rw [thread_dropLoop has.inside (has.once l mine)]
      exact enclosed.1

end World

open World

/-- Which loop is current on a thread that creates loops and drops them, from some world on. -/
structure BindsLoops (t : ThreadId) (w₀ : World) : Prop where
  /-- A new loop is current. -/
  created : ∀ w live settings, LoopSteps t (w₀, []) (w, live) →
    ((w.createLoop t settings).2.thread t).currentLoop = some (w.createLoop t settings).1
  /-- Whatever loops are created and dropped in between, in whatever order, when a loop is dropped,
  what was current when it was created is current again. -/
  dropped : ∀ w live settings w' live', LoopSteps t (w₀, []) (w, live) →
    LoopSteps t ((w.createLoop t settings).2, (w.createLoop t settings).1 :: live) (w', live') →
    (w.createLoop t settings).1 ∈ live' →
    ((w'.release t (.loop (w.createLoop t settings).1)).thread t).currentLoop =
      (w.thread t).currentLoop
  /-- If only the newest loop is ever dropped, the newest one that has not been dropped is current;
  when all have been dropped, it is what was current at first. -/
  nested : ∀ w live, NestedLoopSteps t (w₀, []) (w, live) →
    (w.thread t).currentLoop = live.head?.or (w₀.thread t).currentLoop
  /-- Loops that have not been dropped are in use, by one share. -/
  inUse : ∀ w live, LoopSteps t (w₀, []) (w, live) → ∀ l ∈ live, w.loops.shares l = 1

/-- The binding that a loop replaces is the one that comes back when the loop is dropped; so, and
only as far as loops are dropped in the reverse order of their creation, the current loop is the
newest one that has not been dropped. -/
theorem current_loop_of_changes (inside : t.index < w.threads.size) : BindsLoops t w where
  created w' live settings before :=
    have has := (HasLoops.nothing inside).changes before
    congrArg Thread.currentLoop (thread_createLoop has.inside)
  dropped w' live settings w'' live' before between member := by
    have has := (HasLoops.nothing inside).changes before
    have has' := has.create settings
    have has'' := has'.changes between
    rw [thread_dropLoop has''.inside (has''.once _ member)]
    exact (previous_changes between has' (has'.known (List.mem_cons_self ..))).trans
      previous_createLoop
  nested _ _ changes := (enclosed_of_nested inside changes).2
  inUse _ _ changes := ((HasLoops.nothing inside).changes changes).once

namespace Crossing

/-- A loop is created within another one. -/
def first : World := ((Session.start none).createLoop Session.driver { name := "first" }).2

def second : World := (first.createLoop Session.driver { name := "second" }).2

/-- The outer loop is dropped before the inner one. -/
def outerGone : World := second.release Session.driver (.loop ⟨0⟩)

def bothGone : World := outerGone.release Session.driver (.loop ⟨1⟩)

theorem changes_inner : LoopSteps Session.driver (first, [⟨0⟩]) (second, [⟨1⟩, ⟨0⟩]) :=
  .single (.create first [⟨0⟩] { name := "second" })

theorem changes_second :
    LoopSteps Session.driver (Session.start none, []) (second, [⟨1⟩, ⟨0⟩]) :=
  changes_inner.head (.create (Session.start none) [] { name := "first" })

theorem changes_outerGone :
    LoopSteps Session.driver (Session.start none, []) (outerGone, [⟨1⟩]) :=
  changes_second.tail (.drop (l := ⟨0⟩) (by decide))

theorem changes_bothGone :
    LoopSteps Session.driver (Session.start none, []) (bothGone, []) :=
  changes_outerGone.tail (.drop (l := ⟨1⟩) (by decide))

/-- No loop is current while the inner one has not been dropped yet; and when both have been
dropped, the outer one is current. So the newest loop that has not been dropped need not be
current. -/
theorem current_loop_after_crossing :
    (outerGone.thread Session.driver).currentLoop = none ∧ outerGone.loops.shares ⟨1⟩ = 1 ∧
    (bothGone.thread Session.driver).currentLoop = some ⟨0⟩ ∧
    bothGone.loops.shares ⟨0⟩ = 0 ∧ (bothGone.loops.get ⟨0⟩).closed = true ∧
    ¬ ∀ w live, LoopSteps Session.driver (Session.start none, []) (w, live) →
      (w.thread Session.driver).currentLoop = live.head? := by
  refine ⟨by decide +kernel, by decide +kernel, by decide +kernel, by decide +kernel,
    by decide +kernel, fun law => ?_⟩
  exact absurd (law bothGone [] changes_bothGone) (by decide +kernel)

/-- The binding that comes back is the one that the outer loop had replaced. -/
theorem outer_loop_dropped :
    (outerGone.thread Session.driver).currentLoop =
      ((Session.start none).thread Session.driver).currentLoop :=
  (current_loop_of_changes (t := Session.driver) (by decide +kernel)).dropped
    (Session.start none) []
    { name := "first" } second [⟨1⟩, ⟨0⟩] .refl changes_inner (by decide +kernel)

end Crossing

end DeferredCalls
