import DeferredCalls.Loop.Queue
import DeferredCalls.Proofs.Balance
import DeferredCalls.Proofs.Freeing

/-!
# Giving up shares, one at a time

When a share is given up that is not the last one of its object, nothing else happens. With the last
one the object is gone, and its release is noted; what code of its own an embedder runs then finds
the world of that moment. A call that is gone leaves the shares that it held, and they are next:
that of its callable comes before that of its context. So what is given up together is a chain of
single shares, and the moments at which objects go can be looked at, in their order.

Nothing but shares and notes changes along such a chain: at each of its moments, the threads, the
queues and the calls are as they were when it began. Loops and manual schedulers are not part of it.
They have queues to be emptied when they go.
-/

namespace DeferredCalls

open Holding

/-- Whether an object has a queue of tasks. -/
def Share.hasQueue : Share → Bool
  | .loop _ | .manual _ => true
  | .context _ | .callable _ | .call _ => false

/-- The moment at which the last share of an object has gone, and its release is not noted yet. -/
structure Parting where
  object : Share
  world : World

namespace World

/-- A world with one share fewer of an object. -/
def without (w : World) : Share → World
  | .context c => { w with contexts := w.contexts.dropShare c }
  | .callable c => { w with callables := w.callables.dropShare c }
  | .call c => { w with calls := w.calls.dropShare c }
  | .loop l => { w with loops := w.loops.dropShare l }
  | .manual m => { w with manuals := w.manuals.dropShare m }

/-- Notes the release of an object, where the thread is. -/
def noteRelease (w : World) (t : ThreadId) (s : Share) : World :=
  (w.releaseNote (w.position t) s).foldl (fun w e => w.note t e) w

/-- The shares that an object leaves when it goes. -/
def leftBy (w : World) : Share → List Share
  | .call c => (w.calls.get c).shares
  | _ => []

/-- A change by which no share is made or given up. -/
def SameShares (w w' : World) : Prop :=
  ∀ k, w'.shareCount k = w.shareCount k

/-- From one world to another, a thread gives up shares, in their order, and does nothing else. The
partings are those from the objects whose last share is given up. -/
inductive GivesUp (t : ThreadId) : World → List Share → List Parting → World → Prop
  | nil (w : World) : GivesUp t w [] [] w
  | share {w w' : World} {s : Share} {shares : List Share} {partings : List Parting} :
    s.hasQueue = false → 1 < w.shareCount s → GivesUp t (w.without s) shares partings w' →
    GivesUp t w (s :: shares) partings w'
  | last {w w' : World} {s : Share} {shares : List Share} {partings : List Parting} :
    s.hasQueue = false → w.shareCount s = 1 →
    GivesUp t ((w.without s).noteRelease t s) (w.leftBy s ++ shares) partings w' →
    GivesUp t w (s :: shares) (⟨s, w.without s⟩ :: partings) w'

variable {w w' w₁ : World} {t : ThreadId} {s k : Share} {shares more : List Share}
  {partings others : List Parting} {held : Multiset Holding}

/-! ## Single shares -/

theorem shareCount_without (w : World) (s k : Share) :
    (w.without s).shareCount k = w.shareCount k - if k = s then 1 else 0 := by
  cases s <;> cases k <;> simp [without, shareCount, Arena.shares_dropShare_eq_sub]

theorem keeps_without (plain : s.hasQueue = false) : w.Keeps (w.without s) := by
  cases s with
  | context c =>
    exact ⟨rfl, rfl, rfl, rfl, fun _ => rfl, rfl, fun _ => rfl, fun _ => Iff.rfl, fun _ => rfl⟩
  | callable c =>
    exact ⟨rfl, rfl, Arena.size_dropShare, rfl, fun _ => rfl, rfl, fun _ => rfl, fun _ => Iff.rfl,
      fun _ => rfl⟩
  | call c =>
    exact ⟨rfl, rfl, rfl, Arena.size_dropShare, fun _ => Arena.get_dropShare, rfl, fun _ => rfl,
      fun _ => Iff.rfl, fun _ => rfl⟩
  | loop l | manual m => contradiction

theorem keeps_noteRelease (w : World) (t : ThreadId) (s : Share) : w.Keeps (w.noteRelease t s) := by
  cases s with
  | context c | callable c => exact w.keeps_note t _
  | call c | loop l | manual m => exact .refl w

theorem frees_without (more : 1 < w.shareCount s) (p : Position) :
    w.Frees t p [] (w.without s) := by
  have used : 0 < w.shareCount s := Nat.lt_of_succ_lt more
  have counted := w.shareCount_without s
  cases s with
  | context c =>
    exact .notLast used (Nat.ne_of_gt more) counted rfl (fun _ => Arena.get_dropShare) fun _ => rfl
  | callable c =>
    exact .notLast used (Nat.ne_of_gt more) counted rfl (fun _ => rfl) fun _ => Arena.get_dropShare
  | call c | loop l | manual m =>
    exact .notLast used (Nat.ne_of_gt more) counted rfl (fun _ => rfl) fun _ => rfl

theorem frees_noteRelease (last : w.shareCount s = 1) :
    w.Frees t (w.position t) [s] ((w.without s).noteRelease t s) := by
  have counted := w.shareCount_without s
  cases s with
  | context c =>
    have keeps : w.Keeps (w.without (.context c)) := keeps_without rfl
    have position := keeps.position (u := t) fun _ => Arena.get_dropShare
    refine .last_note last counted rfl (fun _ => Arena.get_dropShare) (fun _ => rfl) ?_ rfl
    rw [position, without, Arena.get_dropShare]
    rfl
  | callable c =>
    have keeps : w.Keeps (w.without (.callable c)) := keeps_without rfl
    have position := keeps.position (u := t) fun _ => rfl
    refine .last_note last counted rfl (fun _ => rfl) (fun _ => Arena.get_dropShare) ?_ rfl
    rw [position, without, Arena.get_dropShare]
    rfl
  | call c | loop l | manual m =>
    exact .last last counted (List.append_nil _).symm (fun _ => rfl) fun _ => rfl

namespace GivesUp

protected theorem append (before : w.GivesUp t shares partings w₁)
    (after : w₁.GivesUp t more others w') :
    w.GivesUp t (shares ++ more) (partings ++ others) w' := by
  induction before with
  | nil w => exact after
  | share plain several _ ih => exact .share plain several (ih after)
  | last plain one _ ih =>
    refine .last plain one ?_
    have later := ih after
    rwa [List.append_assoc] at later

/-- A share is given up of an object that leaves nothing when it goes. -/
theorem single (plain : s.hasQueue = false) (leaf : w.leftBy s = []) (used : 0 < w.shareCount s) :
    ∃ partings, w.GivesUp t [s] partings
      (if (w.without s).shareCount s = 0 then (w.without s).noteRelease t s else w.without s) := by
  have fewer := w.shareCount_without s s
  rw [if_pos rfl] at fewer
  split
  · next gone =>
    refine ⟨[⟨s, w.without s⟩], .last plain (by omega) ?_⟩
    rw [leaf]
    exact .nil _
  · next more => exact ⟨[], .share plain (by omega) (.nil _)⟩

/-- At the end of a chain, and at each of its partings, threads, queues and calls are as they
were. -/
theorem keeps (chain : w.GivesUp t shares partings w') :
    w.Keeps w' ∧ ∀ p ∈ partings, w.Keeps p.world := by
  induction chain with
  | nil w => exact ⟨.refl w, fun _ none => absurd none List.not_mem_nil⟩
  | @share w w' s shares partings plain several _ ih =>
    have fewer : w.Keeps (w.without s) := keeps_without plain
    exact ⟨fewer.trans ih.1, fun p member => fewer.trans (ih.2 p member)⟩
  | @last w w' s shares partings plain one _ ih =>
    have gone : w.Keeps (w.without s) := keeps_without plain
    have noted := gone.trans ((w.without s).keeps_noteRelease t s)
    refine ⟨noted.trans ih.1, fun p member => ?_⟩
    obtain rfl | later := List.mem_cons.mp member
    · exact gone
    · exact noted.trans (ih.2 p later)

/-- The objects that go out of use are those from which there are partings, and their releases are
noted in the order of the partings. -/
theorem frees (chain : w.GivesUp t shares partings w') :
    w.Frees t (w.position t) (partings.map Parting.object) w' := by
  induction chain with
  | nil w => exact .refl w
  | @share w w' s shares partings plain several _ ih =>
    have first := frees_without (t := t) several (w.position t)
    have position := (keeps_without plain).position (u := t) first.context
    rw [position] at ih
    exact first.trans ih
  | @last w w' s shares partings plain one _ ih =>
    have first := frees_noteRelease (t := t) one
    have keeps := (keeps_without plain).trans ((w.without s).keeps_noteRelease t s)
    rw [keeps.position first.context] at ih
    exact first.trans ih

end GivesUp

/-! ## Operations that give up shares -/

namespace Balanced

theorem givesUp_releaseContext {c : ContextId} (h : w.Balanced (share (.context c) ::ₘ held)) :
    ∃ partings, w.GivesUp t [.context c] partings (w.releaseContext t c) :=
  GivesUp.single rfl rfl h.shareCount_pos

theorem givesUp_releaseCallable {c : CallableId}
    (h : w.Balanced (share (.callable c) ::ₘ held)) :
    ∃ partings, w.GivesUp t [.callable c] partings (w.releaseCallable t c) :=
  GivesUp.single rfl rfl h.shareCount_pos

theorem givesUp_releaseSnapshot {x : Snapshot} (h : w.Balanced (ofShares x.shares + held)) :
    ∃ partings, w.GivesUp t x.shares partings (w.releaseSnapshot t x) := by
  obtain ⟨_ | c⟩ := x
  · exact ⟨[], .nil w⟩
  · have inHand : w.Balanced (share (.context c) ::ₘ held) := h
    exact inHand.givesUp_releaseContext

theorem givesUp_releaseHandle {x : Handle} (h : w.Balanced (ofShares x.shares + held)) :
    ∃ partings, w.GivesUp t x.shares partings (w.releaseHandle t x) := by
  cases x with
  | weak c => exact ⟨[], .nil w⟩
  | strong c =>
    have inHand : w.Balanced (share (.callable c) ::ₘ held) := h
    exact inHand.givesUp_releaseCallable

/-- A call that goes gives up its callable, and then its context. -/
theorem givesUp_lastCall {c : CallId} (h : w.Balanced (share (.call c) ::ₘ held))
    (last : w.calls.shares c = 1) :
    ∃ callable context between,
      (w.without (.call c)).GivesUp t (w.calls.get c).handle.shares callable between ∧
      between.GivesUp t (w.calls.get c).context.shares context (w.releaseCall t c) := by
  have dropped := h.dropCall
  rw [if_pos last, Call.shares, ofShares_append, add_assoc] at dropped
  obtain ⟨callable, first⟩ := dropped.givesUp_releaseHandle (t := t)
  obtain ⟨context, second⟩ := dropped.releaseHandle.givesUp_releaseSnapshot (t := t)
  refine ⟨callable, context, _, first, ?_⟩
  simp only [World.releaseCall, Arena.shares_dropShare, if_true, Arena.get_dropShare, last]
  exact second

theorem givesUp_releaseCall {c : CallId} (h : w.Balanced (share (.call c) ::ₘ held)) :
    ∃ partings, w.GivesUp t [.call c] partings (w.releaseCall t c) := by
  have used : 0 < w.calls.shares c := h.shareCount_pos
  by_cases last : w.calls.shares c = 1
  · obtain ⟨_, _, _, first, second⟩ := h.givesUp_lastCall (t := t) last
    have chain := first.append second
    rw [← Call.shares, ← List.append_nil (w.calls.get c).shares] at chain
    exact ⟨_, .last (s := .call c) rfl last chain⟩
  · refine ⟨[], .share (s := .call c) rfl (Nat.lt_of_le_of_ne used (Ne.symm last)) ?_⟩
    simp only [World.releaseCall, Arena.shares_dropShare, if_true]
    rw [if_neg (by omega)]
    exact .nil _

theorem givesUp_releaseCalls {cs : List CallId} (h : w.Balanced (ofShares (cs.map .call) + held)) :
    ∃ partings, w.GivesUp t (cs.map .call) partings (w.releaseCalls t cs) := by
  induction cs generalizing w with
  | nil => exact ⟨[], .nil w⟩
  | cons c cs ih =>
    rw [List.map_cons, ofShares_cons, Multiset.cons_add] at h
    obtain ⟨_, first⟩ := h.givesUp_releaseCall (t := t)
    obtain ⟨_, rest⟩ := ih (h.releaseCall (t := t))
    exact ⟨_, first.append rest⟩

/-- Tasks are given up in the order of the queue. -/
theorem givesUp_releaseTasks {tasks : List Task}
    (h : w.Balanced (ofShares (queueShares tasks) + held)) :
    ∃ partings, w.GivesUp t (queueShares tasks) partings (w.releaseTasks t tasks) := by
  induction tasks generalizing w with
  | nil => exact ⟨[], .nil w⟩
  | cons task tasks ih =>
    rw [queueShares, List.flatMap_cons, ofShares_append, add_assoc] at h
    obtain ⟨_, first⟩ := h.givesUp_releaseCalls (t := t)
    obtain ⟨_, rest⟩ := ih (h.releaseTask (t := t))
    exact ⟨_, first.append rest⟩

end Balanced

/-! ## Loops -/

section Loops

variable {l : LoopId}

theorem sameShares_abandoned : w.SameShares (w.abandoned t l) := by
  have closed (k : Share) : { w with loops := w.loops.modify l fun loop =>
      { loop with closed := true, queue := [] } }.shareCount k = w.shareCount k := by
    cases k <;> simp [shareCount]
  intro k
  rw [abandoned]
  split
  · exact closed k
  · rw [shareCount_log, closed]

theorem frees_abandoned (p : Position) : w.Frees t p [] (w.abandoned t l) := by
  have closed : w.Frees t p [] { w with loops := w.loops.modify l fun loop =>
      { loop with closed := true, queue := [] } } :=
    frees_aside (fun k => by cases k <;> simp [shareCount]) rfl rfl rfl rfl fun _ => rfl
  rw [abandoned]
  split
  · exact closed
  · exact closed.log

theorem position_abandoned : (w.abandoned t l).position t = w.position t := by
  have name (k : LoopId) : ((w.loops.modify l fun loop =>
      { loop with closed := true, queue := [] }).get k).name = (w.loops.get k).name := by
    rw [Arena.get_modify_congr EventLoop.name]
    exact fun _ => rfl
  have closed : { w with loops := w.loops.modify l fun loop =>
      { loop with closed := true, queue := [] } }.position t = w.position t :=
    position_congr rfl (fun _ => rfl) name
  rw [abandoned]
  split
  · exact closed
  · rw [position_log, closed]

theorem Balanced.abandoned (h : w.Balanced held) (known : l.index < w.loops.size) :
    (w.abandoned t l).Balanced (ofShares (queueShares (w.loop l).queue) + held) := by
  have emptied := h.emptyLoop known
  rw [World.abandoned]
  split
  · exact emptied
  · exact balanced_log.mpr emptied

/-- An abandoned loop is closed and empty, and the threads are as they were. -/
theorem loop_abandoned (known : l.index < w.loops.size) :
    ((w.abandoned t l).loop l).closed = true ∧ ((w.abandoned t l).loop l).queue = [] ∧
    (w.abandoned t l).thread t = w.thread t := by
  have closed : (w.loops.modify l fun loop => { loop with closed := true, queue := [] }).get l =
      { w.loop l with closed := true, queue := [] } := by
    rw [Arena.get_modify known, if_pos rfl]
    rfl
  rw [abandoned]
  split
  · simp only [loop, closed]
    exact ⟨trivial, trivial, rfl⟩
  · rw [(keeps_log ..).thread, loop, (keeps_log ..).loop, closed]
    exact ⟨rfl, rfl, rfl⟩

theorem Balanced.givesUp_lastLoop (h : w.Balanced (share (.loop l) ::ₘ held))
    (last : w.loops.shares l = 1) : ∃ partings given,
      ((w.without (.loop l)).abandoned t l).GivesUp t (queueShares (w.loop l).queue)
        partings given ∧
      w.release t (.loop l) = given.onThread t (fun th =>
        { th with currentLoop := (w.loop l).previous }) ∧
      ∀ p ∈ partings, (p.world.loop l).closed = true ∧ (p.world.loop l).queue = [] ∧
        (p.world.thread t).currentLoop = (w.thread t).currentLoop := by
  have known : l.index < (w.without (.loop l)).loops.size := by
    simpa [without] using Arena.lt_size_of_shares_pos (h.shareCount_pos : 0 < w.loops.shares l)
  have same : (w.without (.loop l)).loop l = w.loop l := Arena.get_dropShare
  obtain ⟨closed, empty, thread⟩ := loop_abandoned (t := t) known
  have dropped : (w.without (.loop l)).Balanced held := h.dropLoop
  have inHand := dropped.abandoned (t := t) known
  rw [same] at inHand
  obtain ⟨partings, chain⟩ := inHand.givesUp_releaseTasks (t := t)
  refine ⟨partings, _, chain, ?_, fun p member => ?_⟩
  · simp only [World.release, World.releaseLoop, Arena.shares_dropShare, if_true, last,
      Nat.sub_self, World.discardLoop, Arena.get_dropShare]
    rfl
  · have alike := chain.keeps.2 p member
    rw [alike.thread, World.loop, alike.loop, thread]
    exact ⟨closed, empty, rfl⟩

end Loops

end World

end DeferredCalls
