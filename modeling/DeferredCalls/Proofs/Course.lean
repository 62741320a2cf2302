import DeferredCalls.Proofs.Holding
import DeferredCalls.Session.Run

/-!
# Courses of execution

An execution is taken apart into single operations of the library, performed by any threads in any
order. A step is one operation: it changes the world and what code in progress has in its hands. An
operation needs in hand what it gives up, and puts in hand what it makes, so a guard is given up at
most once, and only by who has it. What an embedder does besides, such as keeping an object under a
name, noting an entry or counting an invocation, is a quiet step.

A course is a sequence of steps. It is told by those of its operations that concern the contexts of
threads and the queues of schedulers.
-/

namespace DeferredCalls

open Holding

namespace World

/-- A change of nothing but names, notes, and what objects know about themselves. -/
structure Agrees (w w' : World) : Prop where
  shareCount : ∀ s, w'.shareCount s = w.shareCount s
  callableCount : w'.callables.size = w.callables.size
  calls : w'.calls = w.calls
  loops : w'.loops = w.loops
  manuals : w'.manuals = w.manuals
  threadCount : w'.threads.size = w.threads.size
  thread : ∀ t, ∃ guards loops, w'.thread t = { w.thread t with guards, loops }
  handles : ∀ l ∈ w'.names.loopHandles.values, l.index < w.loops.size
  callables : ∀ h ∈ w'.names.handles.values, h.callable.index < w.callables.size

/-- The queue of a scheduler. -/
def queueOf (w : World) : Scheduler → List Task
  | .loop l => (w.loops.get l).queue
  | .manual m => (w.manuals.get m).queue

/-- Whether a scheduler is there to be posted to. -/
def CanPost (w : World) : Scheduler → Prop
  | .loop l => l.index < w.loops.size
  | .manual m => 0 < w.manuals.shares m

/-- The task that is taken from the queue of a loop is the first one, and the others stay. -/
theorem of_dequeue? {w w' : World} {l : LoopId} {task : Task}
    (taken : w.dequeue? l = some (task, w')) : l.index < w.loops.size ∧
      ∃ rest, (w.loop l).queue = task :: rest ∧
        { w with loops := w.loops.modify l fun loop => { loop with queue := rest } } = w' := by
  rw [dequeue?] at taken
  split at taken
  · contradiction
  · next first rest queued =>
    obtain ⟨rfl, left⟩ : first = task ∧ _ = w' := by simpa using taken
    have known : l.index < w.loops.size :=
      Arena.lt_size_of_ne EventLoop.queue (ne_of_eq_of_ne queued (List.cons_ne_nil _ _))
    exact ⟨known, rest, queued, left⟩

instance (w : World) (s : Scheduler) : Decidable (w.CanPost s) :=
  match s with
  | .loop l => inferInstanceAs (Decidable (l.index < w.loops.size))
  | .manual m => inferInstanceAs (Decidable (0 < w.manuals.shares m))

end World

/-- What a course is told by. -/
inductive Operation
  | install (t : ThreadId) (s : Snapshot)
  | dropGuard (t : ThreadId) (g : Guard)
  | post (s : Scheduler) (task : Task) (accepted : Bool)
  /-- A task is taken from a queue in order to be run. -/
  | start (s : Scheduler) (task : Task)
  | shutdown (l : LoopId)
  /-- The tasks that are still queued are given up. -/
  | discard (s : Scheduler) (tasks : List Task)

/-- What is told of giving up a share: the last share of a scheduler takes its tasks along. -/
def World.releasing (w : World) (s : Share) : List Operation :=
  match s with
  | .loop l => if w.loops.shares l = 1 then [.discard (.loop l) (w.queueOf (.loop l))] else []
  | .manual m =>
    if w.manuals.shares m = 1 then [.discard (.manual m) (w.queueOf (.manual m))] else []
  | _ => []

/-- One operation of an execution. -/
inductive Step : Moment → List Operation → Moment → Prop
  | quiet {w w' : World} {H H' : Multiset Holding} :
    w.Agrees w' → w'.named + H' = w.named + H → Step ⟨w, H⟩ [] ⟨w', H'⟩
  | acquire {w : World} {H : Multiset Holding} {s : Share} :
    0 < w.shareCount s → Step ⟨w, H⟩ [] ⟨w.acquire s, share s ::ₘ H⟩
  | release {w : World} {H : Multiset Holding} {t : ThreadId} {s : Share} :
    t.index < w.threads.size →
    Step ⟨w, share s ::ₘ H⟩ (w.releasing s) ⟨w.release t s, H⟩
  | install {w : World} {H : Multiset Holding} {t : ThreadId} {s : Snapshot} :
    t.index < w.threads.size → (∀ k ∈ s.shares, 0 < w.shareCount k) →
    Step ⟨w, H⟩ [.install t s]
      ⟨w.install t s, guard t (w.contextStack t).nextGuard ::ₘ H⟩
  | dropGuard {w : World} {H : Multiset Holding} {t : ThreadId} {g : Guard} :
    t.index < w.threads.size →
    Step ⟨w, guard t g ::ₘ H⟩ [.dropGuard t g] ⟨w.dropGuard t g, H⟩
  | enter {w : World} {H : Multiset Holding} {t : ThreadId} {c : CallId} :
    t.index < w.threads.size → 0 < w.calls.shares c →
    Step ⟨w, H⟩ [] ⟨w.enterCall t c, entry t (w.callStack t).length c ::ₘ H⟩
  | leave {w : World} {H : Multiset Holding} {t : ThreadId} {level : Nat} {c : CallId} :
    t.index < w.threads.size → (w.callStack t).length = level + 1 →
    Step ⟨w, entry t level c ::ₘ H⟩ [] ⟨w.leaveCalls t level, H⟩
  | newContext {w : World} {H : Multiset Holding} (x : ContextState) :
    Step ⟨w, H⟩ []
      ⟨{ w with contexts := w.contexts.push x }, share (.context w.contexts.next) ::ₘ H⟩
  | newCallable {w : World} {H : Multiset Holding} (x : Callable) :
    Step ⟨w, H⟩ []
      ⟨{ w with callables := w.callables.push x }, share (.callable w.callables.next) ::ₘ H⟩
  | newManual {w : World} {H : Multiset Holding} {x : Manual} :
    x.queue = [] → Step ⟨w, H⟩ []
      ⟨{ w with manuals := w.manuals.push x }, share (.manual w.manuals.next) ::ₘ H⟩
  | newThread {w : World} {H : Multiset Holding} (name : Option String) :
    Step ⟨w, H⟩ [] ⟨{ w with threads := w.threads.push { name } }, H⟩
  | build {w : World} {H : Multiset Holding} {t : ThreadId} {b : CallBuilder} :
    b.handle.callable.index < w.callables.size →
    (∀ k ∈ b.handle.shares, 0 < w.shareCount k) →
    (∀ k ∈ (b.context.getD (w.ambient t)).shares, 0 < w.shareCount k) →
    Step ⟨w, H⟩ [] ⟨(w.build t b).2, share (.call (w.build t b).1) ::ₘ H⟩
  | markDead {w : World} {H : Multiset Holding} (t : ThreadId) (c : CallId) :
    Step ⟨w, H⟩ [] ⟨w.markDead t c, H⟩
  | createLoop {w : World} {H : Multiset Holding} {t : ThreadId} (settings : LoopSettings) :
    t.index < w.threads.size →
    Step ⟨w, H⟩ []
      ⟨(w.createLoop t settings).2, share (.loop (w.createLoop t settings).1) ::ₘ H⟩
  | startLoopThread {w : World} {H : Multiset Holding} (settings : LoopSettings) :
    Step ⟨w, H⟩ [] ⟨(w.startLoopThread settings).2, H⟩
  | beginTurn {w : World} {H : Multiset Holding} {t : ThreadId} :
    t.index < w.threads.size → (w.thread t).busy = false → (w.thread t).finished = false →
    Step ⟨w, H⟩ [] ⟨w.onThread t fun th => { th with busy := true }, turn t ::ₘ H⟩
  | endTurn {w : World} {H : Multiset Holding} {t : ThreadId} :
    t.index < w.threads.size →
    Step ⟨w, turn t ::ₘ H⟩ [] ⟨w.onThread t fun th => { th with busy := false }, H⟩
  | finish {w : World} {H : Multiset Holding} {t : ThreadId} {l : LoopId} :
    t.index < w.threads.size → w.servedLoop? t = some l → (w.thread t).busy = false →
    (w.thread t).finished = false →
    Step ⟨w, H⟩ []
      ⟨w.onThread t fun th => { th with finished := true }, share (.loop l) ::ₘ H⟩
  | post {w : World} {H : Multiset Holding} {t : ThreadId} {s : Scheduler} {task : Task} :
    w.CanPost s →
    Step ⟨w, ofShares task.shares + H⟩ [.post s task (w.post t s task).1.isOk]
      ⟨(w.post t s task).2, H⟩
  | start {w w' : World} {H : Multiset Holding} {l : LoopId} {task : Task} :
    w.dequeue? l = some (task, w') →
    Step ⟨w, H⟩ [.start (.loop l) task] ⟨w', ofShares task.shares + H⟩
  | takeAll {w : World} {H : Multiset Holding} {m : ManualId} :
    0 < w.manuals.shares m →
    Step ⟨w, H⟩ ((w.queueOf (.manual m)).map (.start (.manual m)))
      ⟨w.emptyManual m, ofShares (queueShares (w.queueOf (.manual m))) + H⟩
  | shutdown {w : World} {H : Multiset Holding} (t : ThreadId) (l : LoopId) :
    Step ⟨w, H⟩ [.shutdown l] ⟨w.shutdownLoop t l, H⟩

/-- A sequence of operations. -/
inductive Course : Moment → List Operation → Moment → Prop
  | refl (m : Moment) : Course m [] m
  | step {m m' m'' : Moment} {ops more : List Operation} :
    Course m ops m' → Step m' more m'' → Course m (ops ++ more) m''

namespace Course

variable {m m' m'' : Moment} {ops more : List Operation}

theorem single (h : Step m ops m') : Course m ops m' :=
  .step (.refl m) h

theorem trans (first : Course m ops m') (second : Course m' more m'') :
    Course m (ops ++ more) m'' := by
  induction second with
  | refl => simpa using first
  | step _ last ih =>
    rw [← List.append_assoc]
    exact ih.step last

/-- What holds at first and is kept by every step holds in the end. -/
theorem invariant {P : Moment → Prop} (course : Course m ops m') (first : P m)
    (kept : ∀ k more k', P k → Step k more k' → P k') : P m' := by
  induction course with
  | refl => exact first
  | step _ last ih => exact kept _ _ _ ih last

end Course

/-- The moment at which a session starts: nobody has anything in hand. -/
def Moment.start (verbosity : Verbosity) : Moment :=
  ⟨Session.start verbosity, 0⟩

end DeferredCalls
