import DeferredCalls.Proofs.Course
import DeferredCalls.Proofs.Shedding

/-!
# Operations touch one thread

An operation of the library touches no thread but the one that performs it, whoever has made the
objects that it is about. New threads may come into being; all others stay as they are.
-/

namespace DeferredCalls

/-- What a thread has for itself in the library: its installed contexts, the calls that it is
executing, and its current loop. -/
structure Slots where
  context : ContextStack
  callStack : List CallId
  currentLoop : Option LoopId
  deriving DecidableEq, Repr

def Thread.slots (th : Thread) : Slots :=
  ⟨th.context, th.callStack, th.currentLoop⟩

namespace World

/-- Of the threads that were there before, at most one is changed. -/
structure Touches (t : ThreadId) (w w' : World) : Prop where
  threadCount : w.threads.size ≤ w'.threads.size
  others : ∀ u, u ≠ t → u.index < w.threads.size → w'.thread u = w.thread u

namespace Touches

variable {w w' w'' : World} {t : ThreadId}

theorem of_threads (same : w'.threads = w.threads) : w.Touches t w' where
  threadCount := by rw [same]
  others _ _ _ := by rw [thread, same, thread]

protected theorem refl (w : World) : w.Touches t w :=
  .of_threads rfl

protected theorem trans (first : w.Touches t w') (second : w'.Touches t w'') : w.Touches t w'' where
  threadCount := Nat.le_trans first.threadCount second.threadCount
  others u other known := by
    rw [second.others u other (Nat.lt_of_lt_of_le known first.threadCount),
      first.others u other known]

theorem sheds (first : w.Touches t w') (second : w'.Sheds w'') : w.Touches t w'' :=
  first.trans (.of_threads second.threads)

theorem log {u : ThreadId} {level : Level} {message : String} {fields : List (String × FieldValue)}
    (h : w.Touches t w') : w.Touches t (w'.log u level message fields) :=
  h.sheds (sheds_log ..)

theorem onThread (f : Thread → Thread) : w.Touches t (w.onThread t f) where
  threadCount := Nat.le_of_eq size_threads_onThread.symm
  others _ other _ := Arena.get_modify_of_ne other

theorem pushThread (th : Thread) : w.Touches t { w with threads := w.threads.push th } where
  threadCount := by
    rw [Arena.size_push]
    exact Nat.le_succ _
  others u _ known := by
    have old : u ≠ w.threads.next := fun same => Nat.lt_irrefl _ (same ▸ known)
    simp only [thread, Arena.get_push, if_neg old]

end Touches

variable (w : World) (t : ThreadId)

theorem threads_acquire (s : Share) : (w.acquire s).threads = w.threads := by
  cases s <;> rfl

theorem threads_acquireAll (shares : List Share) : (w.acquireAll shares).threads = w.threads := by
  induction shares generalizing w with
  | nil => rfl
  | cons s shares ih => exact (ih _).trans (w.threads_acquire s)

theorem touches_discardLoop (l : LoopId) : w.Touches t (w.discardLoop t l) := by
  simp only [discardLoop, abandoned]
  refine Touches.trans ?_ (.onThread _)
  refine Touches.sheds ?_ (sheds_releaseTasks ..)
  split
  · exact .of_threads rfl
  · exact Touches.log (.of_threads rfl)

theorem touches_release (s : Share) : w.Touches t (w.release t s) := by
  cases s with
  | context c => exact (Touches.refl w).sheds (w.sheds_releaseContext t c)
  | callable c => exact (Touches.refl w).sheds (w.sheds_releaseCallable t c)
  | call c => exact (Touches.refl w).sheds (w.sheds_releaseCall t c)
  | loop l =>
    simp only [release, releaseLoop]
    split
    · refine Touches.trans ?_ (touches_discardLoop ..)
      exact .of_threads rfl
    · exact .of_threads rfl
  | manual m =>
    simp only [release, releaseManual]
    split
    · refine Touches.sheds ?_ (sheds_releaseTasks ..)
      exact .of_threads rfl
    · exact .of_threads rfl

theorem touches_install (s : Snapshot) : w.Touches t (w.install t s) :=
  Touches.trans (.of_threads (w.threads_acquireAll _)) (.onThread _)

theorem sheds_warnGuard (warning : Option GuardWarning) : w.Sheds (w.warnGuard t warning) := by
  match warning with
  | none => exact .refl w
  | some (.outOfOrder ..) => exact w.sheds_log ..
  | some (.unwound _) => exact w.sheds_log ..

theorem touches_dropGuard (g : Guard) : w.Touches t (w.dropGuard t g) := by
  have warned := (Touches.refl (t := t) w).sheds
    (w.sheds_warnGuard t ((w.contextStack t).dropGuard g).warning)
  exact (warned.trans (.onThread _)).sheds (sheds_releaseSnapshot ..)

theorem touches_enterCall (c : CallId) : w.Touches t (w.enterCall t c) :=
  Touches.trans (.of_threads (w.threads_acquire _)) (.onThread _)

theorem touches_leaveCalls (depth : Nat) : w.Touches t (w.leaveCalls t depth) :=
  (Touches.onThread _).sheds (sheds_releaseCalls ..)

theorem touches_build (b : CallBuilder) : w.Touches t (w.build t b).2 := by
  simp only [build]
  exact Touches.log (.of_threads (w.threads_acquireAll _))

theorem touches_markDead (c : CallId) : w.Touches t (w.markDead t c) := by
  rw [markDead]
  split
  · exact .refl w
  · exact Touches.log (.of_threads rfl)

theorem touches_createLoop (settings : LoopSettings) :
    w.Touches t (w.createLoop t settings).2 := by
  have pushed : w.Touches t
      { w with loops := w.loops.push (.ofSettings settings t (w.thread t).currentLoop) } :=
    .of_threads rfl
  exact (pushed.trans (.onThread _)).log

/-- A thread that starts a loop thread is not touched by it, and neither is any other. -/
theorem touches_startLoopThread (settings : LoopSettings) :
    w.Touches t (w.startLoopThread settings).2 := by
  let fresh : Thread := { name := some settings.normalize.name, role := .serving w.loops.next }
  have pushed : w.Touches t { w with threads := w.threads.push fresh } := .pushThread fresh
  have created : Touches w.threads.next { w with threads := w.threads.push fresh }
      (w.startLoopThread settings).2 :=
    (touches_createLoop _ w.threads.next settings.normalize).log
  refine ⟨Nat.le_trans pushed.threadCount created.threadCount, fun u other known => ?_⟩
  have old : u ≠ w.threads.next := fun same => Nat.lt_irrefl _ (same ▸ known)
  exact (created.others u old (Nat.lt_of_lt_of_le known pushed.threadCount)).trans
    (pushed.others u other known)

theorem touches_shutdownLoop (l : LoopId) : w.Touches t (w.shutdownLoop t l) :=
  Touches.log (.of_threads rfl)

theorem touches_post (s : Scheduler) (task : Task) : w.Touches t (w.post t s task).2 := by
  cases s with
  | loop l =>
    simp only [post, postToLoop]
    split
    · exact (Touches.refl w).sheds (sheds_releaseTask ..)
    · exact Touches.log (.of_threads rfl)
  | manual m =>
    simp only [post, postToManual]
    split
    · exact (Touches.refl w).sheds (sheds_releaseTask ..)
    · exact .of_threads rfl

theorem touches_keep (sink : Option SinkId) (d : Diagnostic) : w.Touches t (w.keep sink d) := by
  cases sink with
  | none => exact .refl w
  | some s => exact .of_threads rfl

/-- From one world to another, the slots of at most one of the threads change. -/
def Frames (t : ThreadId) (w w' : World) : Prop :=
  ∀ u, u ≠ t → u.index < w.threads.size → (w'.thread u).slots = (w.thread u).slots

theorem Touches.frames {w w' : World} {t : ThreadId} (h : w.Touches t w') : w.Frames t w' :=
  fun u other known => congrArg Thread.slots (h.others u other known)

end World

/-- Every operation changes the slots of one thread at most, namely of the one that performs it. -/
theorem Step.frames {m m' : Moment} {ops : List Operation} (step : Step m ops m') :
    ∃ t, m.world.Frames t m'.world := by
  have nobody {w w' : World} (same : w'.threads = w.threads) : ∃ t, w.Frames t w' :=
    ⟨⟨0⟩, (World.Touches.of_threads same).frames⟩
  cases step with
  | quiet agrees moved =>
    refine ⟨⟨0⟩, fun u _ _ => ?_⟩
    obtain ⟨guards, loops, eq⟩ := agrees.thread u
    rw [eq]
    rfl
  | acquire alive => exact nobody (World.threads_acquire ..)
  | @release w H t s inside => exact ⟨t, (w.touches_release t s).frames⟩
  | @install w H t s inside alive => exact ⟨t, (w.touches_install t s).frames⟩
  | @dropGuard w H t g inside => exact ⟨t, (w.touches_dropGuard t g).frames⟩
  | @enter w H t c inside alive => exact ⟨t, (w.touches_enterCall t c).frames⟩
  | @leave w H t level c inside top => exact ⟨t, (w.touches_leaveCalls t level).frames⟩
  | newContext x => exact nobody rfl
  | newCallable x => exact nobody rfl
  | newManual empty => exact nobody rfl
  | newThread name => exact ⟨⟨0⟩, (World.Touches.pushThread { name }).frames⟩
  | @build w H t b made handle context => exact ⟨t, (w.touches_build t b).frames⟩
  | @markDead w H t c => exact ⟨t, (w.touches_markDead t c).frames⟩
  | @createLoop w H t settings inside => exact ⟨t, (w.touches_createLoop t settings).frames⟩
  | @startLoopThread w H settings => exact ⟨⟨0⟩, (w.touches_startLoopThread ⟨0⟩ settings).frames⟩
  | @beginTurn w H t inside idle working => exact ⟨t, (World.Touches.onThread _).frames⟩
  | @endTurn w H t inside => exact ⟨t, (World.Touches.onThread _).frames⟩
  | @finish w H t l inside serves idle working => exact ⟨t, (World.Touches.onThread _).frames⟩
  | @post w H t s task there => exact ⟨t, (w.touches_post t s task).frames⟩
  | start taken =>
    obtain ⟨_, rest, _, rfl⟩ := World.of_dequeue? taken
    exact nobody rfl
  | takeAll alive => exact nobody rfl
  | @shutdown w H t l => exact ⟨t, (w.touches_shutdownLoop t l).frames⟩

end DeferredCalls
