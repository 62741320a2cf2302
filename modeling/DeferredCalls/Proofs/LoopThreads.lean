import DeferredCalls.Proofs.Counting
import DeferredCalls.Proofs.Order
import DeferredCalls.Proofs.Stopping

/-!
# Loop threads can be relied on

A loop thread is started at any moment of an execution. From then on its tasks are started in the
order in which they were accepted, one at a time and each of them once, on the thread itself,
whatever became of earlier ones. A post after the close is rejected. Whoever stops the thread from
elsewhere finds all of its tasks ended; whoever does so from one of its tasks does not wait, and the
tasks that are still queued are run after that one.

Nothing is assumed about the others: all this holds whenever the thread is looked at.
-/

namespace DeferredCalls

open World

/-! ## Starting a loop thread -/

section Start

variable {w : World} {held : Multiset Holding}

/-- Nobody keeps a loop that is not there yet. -/
theorem World.Balanced.next_unkept (balanced : w.Balanced held) (u : ThreadId) :
    w.loops.next ∉ (w.thread u).loops.values := by
  intro kept
  have inside : u.index < w.threads.size := by
    by_contra outside
    rw [World.thread, Arena.get_of_size_le (Nat.le_of_not_lt outside)] at kept
    contradiction
  have among : w.loops.next ∈ w.loopsNamed :=
    List.mem_flatMap.mpr ⟨u, Arena.mem_refs.mpr inside, kept⟩
  have unused : w.shareCount (.loop w.loops.next) = 0 :=
    Arena.shares_of_size_le (Nat.le_refl _)
  have counted := balanced (.loop w.loops.next)
  rw [unused, Holding.tally_add, tally_named] at counted
  have some : 0 < (w.loopsNamed.map Share.loop).count (.loop w.loops.next) :=
    List.count_pos_iff.mpr (List.mem_map_of_mem among)
  omega

/-- The new thread serves the new loop, and the other threads are as before. -/
theorem thread_startLoopThread (w : World) (settings : LoopSettings) (u : ThreadId) :
    (w.startLoopThread settings).2.thread u =
      if u = w.threads.next then
        { name := some settings.normalize.name
          role := .serving w.loops.next
          currentLoop := some w.loops.next }
      else w.thread u := by
  have inside (th : Thread) : w.threads.next.index < (w.threads.push th).size := by
    rw [Arena.size_push]
    exact Nat.lt_succ_self _
  rw [startLoopThread, createLoop, (spares_log ..).thread, (spares_log ..).thread,
    thread_onThread (inside _)]
  simp only [thread, Arena.get_push]
  split
  · rfl
  · rfl

/-- The new loop belongs to the new thread. -/
theorem loop_startLoopThread (w : World) (settings : LoopSettings) :
    (w.startLoopThread settings).2.loop w.loops.next =
      .ofSettings settings.normalize w.threads.next none := by
  rw [startLoopThread, createLoop, World.loop, (spares_log ..).loop, (spares_log ..).loop]
  simp only [onThread, thread, Arena.get_push, if_true]

theorem size_startLoopThread (w : World) (settings : LoopSettings) :
    (w.startLoopThread settings).2.loops.size = w.loops.size + 1 ∧
      (w.startLoopThread settings).2.threads.size = w.threads.size + 1 := by
  rw [startLoopThread, createLoop, (spares_log ..).loopCount, (spares_log ..).threads,
    (spares_log ..).loopCount, (spares_log ..).threads, size_threads_onThread]
  exact ⟨Arena.size_push, Arena.size_push⟩

/-- A loop thread and its loop belong to each other from the start. -/
theorem reserved_startLoopThread (balanced : w.Balanced held) (known : w.Known)
    (settings : LoopSettings) :
    (w.startLoopThread settings).2.Reserved w.threads.next w.loops.next := by
  obtain ⟨loops, threads⟩ := size_startLoopThread w settings
  refine ⟨?_, ?_, ?_, fun u => ?_, fun u => ?_⟩
  · rw [loops]
    exact Nat.lt_succ_self _
  · rw [threads]
    exact Nat.lt_succ_self _
  · rw [loop_startLoopThread]
    rfl
  · rw [thread_startLoopThread]
    split
    · next new => exact ⟨fun _ => new, fun _ => rfl⟩
    · next old =>
      exact ⟨fun serves => absurd (known.served u _ serves) (Nat.lt_irrefl _),
        fun new => absurd new old⟩
  · rw [thread_startLoopThread]
    split
    · exact List.not_mem_nil
    · exact balanced.next_unkept u

end Start

namespace Service

variable {t : ThreadId} {l : LoopId} {x : Service} {w : World}

/-- The service of a loop thread that has just been started. -/
def spawned (w : World) (settings : LoopSettings) : Service where
  world := (w.startLoopThread settings).2

/-- What a loop thread can be relied on for, whenever it is looked at and however deep scripts are
nested. -/
structure Reliable (depth : Nat) (t : ThreadId) (l : LoopId) (x : Service) : Prop where
  /-- The loop is the thread's own, and no other thread serves it. -/
  own : (x.world.loop l).owner = t ∧ ∀ u, x.world.servedLoop? u = some l ↔ u = t
  /-- The tasks that were started are the first ones that were accepted; the others are queued. -/
  inOrder : x.accepted = x.started ++ (x.world.loop l).queue
  /-- Of the tasks that were started, all have ended but the one that is being run. -/
  oneByOne : x.started = x.ended ++ x.stage.current
  /-- What was accepted, started or ended remains so, in this order. From the close on nothing is
  accepted, and once the thread has left its loop nothing is started. -/
  later : ∀ y, x.Path t l y → x.Precedes l y
  /-- A thread does not finish before its loop is closed and all tasks have ended. -/
  finished : (x.world.thread t).finished = true →
    (x.world.loop l).closed = true ∧ x.world.pending l = 0 ∧ x.ended = x.accepted
  /-- Whoever posts to the open loop has the task accepted. -/
  accepts : (x.world.loop l).closed = false → ∀ u task, ∃ w,
    x.Sequel t l { x with world := w, accepted := x.accepted ++ [task] } ∧
    Act.post (.loop l) task u x.world = (.ok (.ok ()), w)
  /-- Whoever posts to the closed loop has the task rejected. -/
  rejects : (x.world.loop l).closed = true → ∀ u task, ∃ w, x.Sequel t l { x with world := w } ∧
    Act.post (.loop l) task u x.world = (.ok (.error (.loopClosed (x.world.loop l).name)), w)
  /-- Whoever performs whatever command, tasks are run in turns of the thread and not otherwise. -/
  commands : ∀ command u, ∃ y, x.Sequel t l y ∧ x.stage.Within y.stage ∧
    y.world = (Act.performer depth command u x.world).2
  /-- A turn comes to its end, whatever becomes of the tasks, and then no task is left. -/
  turns : x.stage = .waiting → (x.world.loop l).queue ≠ [] ∨ (x.world.loop l).closed = true →
    ∀ u, ∃ y, x.Turn (Act.runTask (Act.performer depth)) t l y ∧
      Act.takeTurn (Act.runTask (Act.performer depth)) t u x.world = (.ok (), y.world) ∧
      y.ended = y.accepted ∧ y.world.pending l = 0 ∧
      y.stage = if (y.world.loop l).closed then .left else .waiting
  /-- Shutting the loop thread down returns, unless the thread waits for who does it. -/
  shutdown : ∀ id, x.world.names.loopThreads.get? id = some t → ∀ u, ∃ y, x.Stopped t l y ∧
    Act.shutdownLoopThread (Act.performer depth) id u x.world =
      (.ok (if u == t || !x.stage.inTurn then .accepted else .wouldBlock), y.world)
  /-- So does giving it up. -/
  drop : ∀ id, x.world.names.loopThreads.get? id = some t → ∀ u, ∃ y, x.Stopped t l y ∧
    Act.dropLoopThreadNamed (Act.performer depth) id u x.world =
      (.ok (if u == t || !x.stage.inTurn then .nothing else .wouldBlock), y.world)
  /-- To stop the thread once more, at any later time, changes neither threads nor loops. -/
  again : ∀ y, x.Stopped t l y → ∀ z, y.Path t l z → ∀ u,
    z.world.Spares (Act.stopLoopThread (Act.runTask (Act.performer depth)) t u z.world).2
  /-- Under a fair scheduler, and there is one, every task that is accepted comes to its end, and
  the thread leaves its loop after the close. -/
  fair : (∃ run, x.FairRun t l run) ∧ ∀ run, x.FairRun t l run → ∀ n,
    (∀ i, i < (run n).accepted.length → ∃ m, n ≤ m ∧ i < (run m).ended.length) ∧
    (((run n).world.loop l).closed = true → ∃ m, n ≤ m ∧ (run m).stage = .left)

theorem sound_spawned {held : Multiset Holding} (consistent : Moment.Consistent ⟨w, held⟩)
    (settings : LoopSettings) : (spawned w settings).Sound w.threads.next w.loops.next := by
  refine ⟨reserved_startLoopThread consistent.balanced consistent.known settings, ?_, rfl, ?_, ?_,
    nofun⟩
  · rw [spawned, loop_startLoopThread]
    rfl
  · rw [spawned, thread_startLoopThread, if_pos rfl]
    rfl
  · rw [spawned, thread_startLoopThread, if_pos rfl]
    rfl

/-- A post to the loop of the thread. -/
theorem Sound.post_eq (sound : x.Sound t l) (u : ThreadId) (task : Task) : ∃ w,
    if (x.world.loop l).closed then
      x.Sequel t l { x with world := w } ∧ Act.post (.loop l) task u x.world =
        (.ok (.error (.loopClosed (x.world.loop l).name)), w)
    else
      x.Sequel t l { x with world := w, accepted := x.accepted ++ [task] } ∧
        Act.post (.loop l) task u x.world = (.ok (.ok ()), w) := by
  have spares := x.world.spares_acquireAll task.shares
  have held := sequel_aside (spares.aside sound.reserved)
  have posted := meanwhile_postToLoop (spares.reserved sound.reserved) u task
  refine ⟨((x.world.acquireAll task.shares).postToLoop u l task).2, ?_⟩
  rw [World.loop, spares.loop, ← World.loop] at posted
  have result : Act.post (.loop l) task u x.world =
      (.ok ((x.world.acquireAll task.shares).postToLoop u l task).1,
        ((x.world.acquireAll task.shares).postToLoop u l task).2) := rfl
  rw [result]
  split at posted
  · next closed =>
    rw [if_pos closed, posted.1]
    exact ⟨held.trans (sequel_aside posted.2), rfl⟩
  · next opened =>
    rw [if_neg opened, posted.1]
    exact ⟨held.tail (.others posted.2.1), rfl⟩

theorem Sound.reliable (sound : x.Sound t l) (depth : Nat) : x.Reliable depth t l := by
  have performer : (Act.performer depth).Respects t l := Act.performer_respects depth
  have tasks := Act.runTask_respects performer
  refine
    { own := ⟨sound.reserved.owner, fun u => ?_⟩
      inOrder := sound.accepted
      oneByOne := sound.started
      later := fun y path => path.precedes sound
      finished := fun finished => ?_
      accepts := fun opened u task => ?_
      rejects := fun closed u task => ?_
      commands := fun command u => ?_
      turns := fun waiting reason u => ?_
      shutdown := fun id named u => Act.shutdownLoopThread_eq performer sound named u
      drop := fun id named u => Act.dropLoopThreadNamed_eq performer sound named u
      again := fun y stopped z path u => ?_
      fair := ⟨exists_fairRun sound, fun run fair n =>
        ⟨fun i accepted => fair.ends sound accepted, fun closed => fair.leaves sound closed⟩⟩ }
  · rw [servedLoop?_eq_some]
    exact sound.reserved.serves u
  · rw [sound.finished] at finished
    have left : x.stage = .left := Stage.eq_left_of_isLeft finished
    exact ⟨(sound.left left).1, (sound.ended_of_left left).2, (sound.ended_of_left left).1⟩
  · obtain ⟨w, posted⟩ := sound.post_eq u task
    rw [if_neg (by rw [opened]; decide)] at posted
    exact ⟨w, posted⟩
  · obtain ⟨w, posted⟩ := sound.post_eq u task
    rw [if_pos closed] at posted
    exact ⟨w, posted⟩
  · obtain ⟨y, passes, eq⟩ := performer.command command (u := u) sound
    exact ⟨y, passes.sequel, passes.stage, eq⟩
  · obtain ⟨y, _, eq, turn⟩ := Act.takeTurn_eq tasks sound u
    rw [if_pos (sound.wantsTurn_iff.mpr ⟨waiting, reason⟩)] at turn
    exact ⟨y, turn, eq, turn.ended sound⟩
  · have sound' := stopped.sequel.path.sound sound
    exact Act.stopLoopThread_again tasks (path.sound sound')
      ((path.precedes sound').closed stopped.closed).1 (stopped.never_waits sound path) u

end Service

open Service

/-- Loop threads can be relied on, whenever they are started, at every moment of their service. -/
theorem loopThread_reliable {verbosity : Verbosity} {ops : List Operation} {m : Moment}
    (course : Course (.start verbosity) ops m) (settings : LoopSettings) {x : Service}
    (path : (spawned m.world settings).Path m.world.threads.next m.world.loops.next x)
    (depth : Nat) : x.Reliable depth m.world.threads.next m.world.loops.next :=
  (path.sound (sound_spawned (course.consistent (consistent_start verbosity)) settings)).reliable
    depth

/-- A job without a script, which ends in some way. -/
def Job.bare (tag : String) (ending : Ending) : Job where
  tag := tag
  body := []
  ending := ending
  holds := []

/-- Two jobs are posted to a loop thread, the first of which is going to panic. Whoever shuts the
thread down then finds that both of them have ended. -/
theorem tasks_of_stopped_thread : ∃ (x y : Service),
    (spawned (Session.start none) {}).Path ⟨1⟩ ⟨0⟩ x ∧ x.started = [] ∧
    x.accepted = [.job (.bare "first" (.panic ⟨none⟩)), .job (.bare "second" .normal)] ∧
    Act.shutdownLoopThread (Act.performer 1) "loop" Session.driver x.world =
      (.ok .accepted, y.world) ∧
    y.stage = .left ∧ y.ended = x.accepted ∧ y.world.pending ⟨0⟩ = 0 := by
  have course : Course (.start none) [] (.start none) := .refl _
  have sound : (spawned (Session.start none) {}).Sound ⟨1⟩ ⟨0⟩ :=
    sound_spawned (consistent_start none) {}
  have named : Aside ⟨1⟩ ⟨0⟩ (spawned (Session.start none) {}).world
      { (spawned (Session.start none) {}).world with
        names := { loopThreads := ({} : NameTable ThreadId).insert "loop" ⟨1⟩ } } :=
    Spares.aside ⟨rfl, rfl, fun _ => rfl, rfl⟩ sound.reserved
  have known := (sequel_aside named).path
  obtain ⟨w, first, eq⟩ := (loopThread_reliable course {} known 1).accepts rfl Session.driver
    (.job (.bare "first" (.panic ⟨none⟩)))
  obtain rfl : _ = w := congrArg Prod.snd eq
  have once := known.trans first.path
  obtain ⟨w, second, eq⟩ := (loopThread_reliable course {} once 1).accepts rfl Session.driver
    (.job (.bare "second" .normal))
  obtain rfl : _ = w := congrArg Prod.snd eq
  have twice := once.trans second.path
  obtain ⟨y, stopped, eq⟩ :=
    (loopThread_reliable course {} twice 1).shutdown "loop" rfl Session.driver
  obtain ⟨left, ended, pending⟩ := stopped.left rfl
  exact ⟨_, y, twice, rfl, rfl, eq, left, ended.trans stopped.accepted, pending⟩

end DeferredCalls
