import DeferredCalls.Proofs.Consistency
import DeferredCalls.Proofs.Partings

/-!
# What is released, and when

An object is released by the operation that takes its last share away, and by no other: the count
falls to zero there, and it never rises again. The release of a context state or of a callable is
noted at that moment, once, with the position at which the thread then is. Giving up the last share
of a call or of a queue can release further objects; all of them are noted in the order in which
they go.
-/

namespace DeferredCalls

open Holding

namespace World

/-- Whether an object was ever made. -/
def Created (w : World) : Share → Prop
  | .context c => c.index < w.contexts.size
  | .callable c => c.index < w.callables.size
  | .call c => c.index < w.calls.size
  | .loop l => l.index < w.loops.size
  | .manual m => m.index < w.manuals.size

variable {w w' w'' : World} {t u : ThreadId} {p : Position} {gone more : List Share} {k s : Share}
  {held : Multiset Holding}

theorem created_log {level : Level} {message : String} {fields : List (String × FieldValue)} :
    (w.log t level message fields).Created k ↔ w.Created k := by
  obtain ⟨journal, remoteJournal, eq⟩ := w.log_eq t level message fields
  rw [eq]
  cases k <;> exact Iff.rfl

/-! ## Operations that give up shares -/

theorem Balanced.frees_releaseLoop {l : LoopId} (h : w.Balanced (share (.loop l) ::ₘ held)) :
    ∃ gone, w.Frees t (w.position t) gone (w.release t (.loop l)) := by
  have used : 0 < w.loops.shares l := h.shareCount_pos
  by_cases last : w.loops.shares l = 1
  · obtain ⟨_, given, chain, eq, _⟩ := h.givesUp_lastLoop (t := t) last
    have gone : w.Frees t (w.position t) [.loop l] (w.without (.loop l)) := frees_noteRelease last
    have same : (w.without (.loop l)).position t = w.position t :=
      position_congr rfl (fun _ => rfl) fun _ => congrArg EventLoop.name Arena.get_dropShare
    have tasks := chain.frees
    rw [position_abandoned, same] at tasks
    rw [eq]
    exact ⟨_, ((gone.trans (frees_abandoned _)).trans tasks).trans (frees_onThread fun _ => rfl)⟩
  · have more : 1 < w.loops.shares l := Nat.lt_of_le_of_ne used (Ne.symm last)
    simp only [World.release, World.releaseLoop, Arena.shares_dropShare, if_true]
    rw [if_neg (by omega)]
    exact ⟨[], frees_without (s := .loop l) more _⟩

theorem Balanced.frees_releaseManual {m : ManualId} (h : w.Balanced (share (.manual m) ::ₘ held)) :
    ∃ gone, w.Frees t (w.position t) gone (w.release t (.manual m)) := by
  have used : 0 < w.manuals.shares m := h.shareCount_pos
  simp only [World.release, World.releaseManual, Arena.shares_dropShare, if_true]
  by_cases last : w.manuals.shares m = 1
  · have inside : m.index < (w.manuals.dropShare m).size := by
      simpa using Arena.lt_size_of_shares_pos used
    have emptied : (w.without (.manual m)).Frees t (w.position t) []
        { w with manuals := (w.manuals.dropShare m).modify m fun s => { s with queue := [] } } :=
      frees_aside (fun k => by cases k <;> simp [shareCount, without]) rfl rfl rfl rfl fun _ => rfl
    have gone := (frees_noteRelease (t := t) (s := .manual m) last).trans emptied
    obtain ⟨_, chain⟩ := (h.dropManual.clearManual inside).givesUp_releaseTasks (t := t)
    rw [if_pos (by omega)]
    exact ⟨_, gone.trans chain.frees⟩
  · rw [if_neg (by omega)]
    exact ⟨[], frees_without (s := .manual m) (Nat.lt_of_le_of_ne used (Ne.symm last)) _⟩

theorem Balanced.frees_release (h : w.Balanced (share s ::ₘ held)) :
    ∃ gone, w.Frees t (w.position t) gone (w.release t s) := by
  cases s with
  | context =>
    obtain ⟨_, chain⟩ := h.givesUp_releaseContext (t := t)
    exact ⟨_, chain.frees⟩
  | callable =>
    obtain ⟨_, chain⟩ := h.givesUp_releaseCallable (t := t)
    exact ⟨_, chain.frees⟩
  | call =>
    obtain ⟨_, chain⟩ := h.givesUp_releaseCall (t := t)
    exact ⟨_, chain.frees⟩
  | loop => exact h.frees_releaseLoop
  | manual => exact h.frees_releaseManual

theorem frees_warnGuard (w : World) (warning : Option GuardWarning) :
    w.Frees t p [] (w.warnGuard t warning) := by
  match warning with
  | none => exact .refl w
  | some (.outOfOrder ..) => exact (Frees.refl w).log
  | some (.unwound _) => exact (Frees.refl w).log

theorem Balanced.frees_dropGuard {g : Guard} (h : w.Balanced (guard t g ::ₘ held))
    (inside : t.index < w.threads.size) :
    ∃ gone, w.Frees t ((w.dropGuard t g).position t) gone (w.dropGuard t g) := by
  obtain ⟨_, chain⟩ := (h.restoreContext inside).givesUp_releaseSnapshot (t := t)
  have freed := chain.frees
  have position := (keeps_releaseSnapshot ..).position (u := t) freed.context
  rw [← position] at freed
  have restored := (w.frees_warnGuard (t := t) (p := (w.dropGuard t g).position t)
    ((w.contextStack t).dropGuard g).warning).trans
    (frees_setContextStack (u := t) (x := ((w.contextStack t).dropGuard g).stack))
  exact ⟨_, restored.trans freed⟩

theorem Balanced.frees_leaveCalls {level : Nat} {c : CallId}
    (h : w.Balanced (entry t level c ::ₘ held)) (inside : t.index < w.threads.size) :
    ∃ gone, w.Frees t ((w.leaveCalls t level).position t) gone (w.leaveCalls t level) := by
  obtain ⟨partings, chain⟩ := (h.shortenStack inside).givesUp_releaseCalls (t := t)
  have freed := chain.frees
  have position := (keeps_releaseCalls ..).position (u := t) freed.context
  rw [← position] at freed
  refine ⟨[] ++ partings.map Parting.object, Frees.trans ?_ freed⟩
  exact frees_onThread fun _ => rfl

/-- A task that is posted in vain is given up where the thread is. -/
theorem Balanced.frees_post {x : Scheduler} {task : Task}
    (h : w.Balanced (ofShares task.shares + held)) :
    ∃ gone, w.Frees t ((w.post t x task).2.position t) gone (w.post t x task).2 := by
  have rejected : ∃ gone,
      w.Frees t ((w.releaseTask t task).position t) gone (w.releaseTask t task) := by
    obtain ⟨_, chain⟩ := h.givesUp_releaseCalls (t := t)
    have freed := chain.frees
    rw [← (keeps_releaseTask ..).position freed.context] at freed
    exact ⟨_, freed⟩
  cases x with
  | loop l =>
    simp only [World.post, World.postToLoop]
    split
    · exact rejected
    · have queued (p : Position) : w.Frees t p [] (w.enqueue l task) :=
        frees_aside (fun k => by cases k <;> simp [shareCount, enqueue]) rfl rfl rfl rfl
          fun _ => rfl
      exact ⟨_, (queued _).log⟩
  | manual m =>
    simp only [World.post, World.postToManual]
    split
    · exact rejected
    · exact ⟨[], frees_aside (fun k => by cases k <;> simp [shareCount]) rfl rfl rfl rfl
        fun _ => rfl⟩

/-- Where a thread was when it gave up a share: it is there still, but for its current loop, which
the last share of a loop gives back. -/
theorem position_release (used : 0 < w.shareCount s) {p : Position} {gone : List Share}
    (freed : w.Frees t p gone (w.release t s)) :
    ∃ loop, w.position t = { (w.release t s).position t with loop } := by
  have label := describeSnapshot_congr freed.context
  by_cases lastLoop : ∃ l, s = .loop l ∧ w.loops.shares l = 1
  · obtain ⟨l, rfl, isLast⟩ := lastLoop
    obtain ⟨w₁, keeps, eq⟩ := w.release_last_loop t isLast
    have context : ((w.release t (.loop l)).thread t).context = (w.thread t).context := by
      rw [eq, onThread_congr Thread.context, keeps.thread]
      · rfl
      · exact fun _ => rfl
    have callStack : ((w.release t (.loop l)).thread t).callStack = (w.thread t).callStack := by
      rw [eq, onThread_congr Thread.callStack, keeps.thread]
      · rfl
      · exact fun _ => rfl
    exact ⟨(w.position t).loop, by simp only [World.position, context, callStack, label]⟩
  refine ⟨((w.release t s).position t).loop, Eq.symm ?_⟩
  by_cases lastManual : ∃ m, s = .manual m ∧ w.manuals.shares m = 1
  · obtain ⟨m, rfl, isLast⟩ := lastManual
    have keeps := w.release_last_manual t isLast
    exact position_congr keeps.thread freed.context fun l => by rw [keeps.loop]
  · have keeps := w.keeps_release t (fun l eq last => lastLoop ⟨l, eq, last⟩)
      (fun m eq last => lastManual ⟨m, eq, last⟩) used
    exact keeps.position freed.context

/-! ## Operations that give up no last share -/

/-- A change by which no object goes out of use, and none that was made before comes back. -/
structure Retains (w w' : World) : Prop where
  used : ∀ k, 0 < w.shareCount k → 0 < w'.shareCount k
  unused : ∀ k, w.Created k → w.shareCount k = 0 → w'.shareCount k = 0

/-- The same for a change that leaves all objects where they are. -/
structure Extends (w w' : World) : Prop extends Retains w w' where
  created : ∀ k, w.Created k → w'.Created k

namespace Extends

theorem of_same (counted : ∀ k, w'.shareCount k = w.shareCount k)
    (created : ∀ k, w.Created k → w'.Created k) : w.Extends w' where
  used k pos := by rwa [counted]
  unused k _ zero := by rwa [counted]
  created := created

protected theorem trans (first : w.Extends w') (second : w'.Extends w'') : w.Extends w'' where
  used k pos := second.used k (first.used k pos)
  unused k made zero := second.unused k (first.created k made) (first.unused k made zero)
  created k made := second.created k (first.created k made)

protected theorem log {level : Level} {message : String} {fields : List (String × FieldValue)}
    (h : w.Extends w') : w.Extends (w'.log t level message fields) :=
  h.trans (.of_same (fun _ => shareCount_log) fun _ => created_log.mpr)

theorem onThread {f : Thread → Thread} (h : w.Extends w') : w.Extends (w'.onThread t f) :=
  h.trans (.of_same (fun k => by cases k <;> rfl) fun k => by cases k <;> exact id)

/-- A new share of an object that is in use, or of one that was not there before. -/
theorem made (counted : ∀ k, w'.shareCount k = w.shareCount k + if k = s then 1 else 0)
    (source : w.Created s → 0 < w.shareCount s) (created : ∀ k, w.Created k → w'.Created k) :
    w.Extends w' where
  used k pos := by
    rw [counted]
    exact Nat.add_pos_left pos _
  unused k made zero := by
    have other : k ≠ s := fun same => by
      have pos := source (same ▸ made)
      rw [← same] at pos
      omega
    rw [counted, zero, if_neg other]
  created := created

theorem acquire (alive : 0 < w.shareCount s) : w.Extends (w.acquire s) :=
  .made (shareCount_acquire alive) (fun _ => alive) fun k => by
    cases s <;> cases k <;> simp [Created, World.acquire]

theorem acquireAll {shares : List Share} (alive : ∀ s ∈ shares, 0 < w.shareCount s) :
    w.Extends (w.acquireAll shares) := by
  induction shares generalizing w with
  | nil => exact .of_same (fun _ => rfl) fun _ => id
  | cons s shares ih =>
    have first := acquire (alive s (List.mem_cons_self ..))
    exact first.trans (ih fun k member => first.used k (alive k (List.mem_cons_of_mem s member)))

end Extends

theorem extends_pushContext (x : ContextState) :
    w.Extends { w with contexts := w.contexts.push x } := by
  refine .made (s := .context w.contexts.next) (fun k => ?_)
    (fun made => absurd made (Nat.lt_irrefl _)) fun k made => ?_
  · cases k <;> simp [shareCount, Arena.shares_push_eq_add]
  · cases k <;> simp only [Created, Arena.size_push] at made ⊢ <;> omega

theorem extends_pushCallable (x : Callable) :
    w.Extends { w with callables := w.callables.push x } := by
  refine .made (s := .callable w.callables.next) (fun k => ?_)
    (fun made => absurd made (Nat.lt_irrefl _)) fun k made => ?_
  · cases k <;> simp [shareCount, Arena.shares_push_eq_add]
  · cases k <;> simp only [Created, Arena.size_push] at made ⊢ <;> omega

theorem extends_pushCall (x : Call) : w.Extends { w with calls := w.calls.push x } := by
  refine .made (s := .call w.calls.next) (fun k => ?_)
    (fun made => absurd made (Nat.lt_irrefl _)) fun k made => ?_
  · cases k <;> simp [shareCount, Arena.shares_push_eq_add]
  · cases k <;> simp only [Created, Arena.size_push] at made ⊢ <;> omega

theorem extends_pushLoop (x : EventLoop) : w.Extends { w with loops := w.loops.push x } := by
  refine .made (s := .loop w.loops.next) (fun k => ?_)
    (fun made => absurd made (Nat.lt_irrefl _)) fun k made => ?_
  · cases k <;> simp [shareCount, Arena.shares_push_eq_add]
  · cases k <;> simp only [Created, Arena.size_push] at made ⊢ <;> omega

theorem extends_pushManual (x : Manual) : w.Extends { w with manuals := w.manuals.push x } := by
  refine .made (s := .manual w.manuals.next) (fun k => ?_)
    (fun made => absurd made (Nat.lt_irrefl _)) fun k made => ?_
  · cases k <;> simp [shareCount, Arena.shares_push_eq_add]
  · cases k <;> simp only [Created, Arena.size_push] at made ⊢ <;> omega

theorem extends_pushThread (x : Thread) : w.Extends { w with threads := w.threads.push x } :=
  .of_same (fun k => by cases k <;> rfl) fun k => by cases k <;> exact id

end World

/-- What a step releases: every step either releases at one position exactly the objects whose last
share it takes away, and notes them there, or it takes no last share. The position is the one at
which the thread is afterwards, but for its current loop, which the last share of a loop gives
back. -/
theorem Step.frees {m m' : Moment} {ops : List Operation} (h : m.Consistent)
    (step : Step m ops m') :
    (∃ t loop gone, m.world.Frees t { m'.world.position t with loop } gone m'.world) ∨
      m.world.Retains m'.world := by
  cases step with
  | quiet agrees moved =>
    refine .inr ⟨fun k used => ?_, fun k _ zero => ?_⟩
    · rwa [agrees.shareCount]
    · rwa [agrees.shareCount]
  | acquire alive => exact .inr (World.Extends.acquire alive).toRetains
  | @release w H t s inside =>
    obtain ⟨gone, freed⟩ := h.balanced.frees_release (t := t)
    obtain ⟨loop, eq⟩ := World.position_release h.balanced.shareCount_pos freed
    rw [eq] at freed
    exact .inl ⟨t, loop, gone, freed⟩
  | install inside alive => exact .inr (World.Extends.acquireAll alive).onThread.toRetains
  | @dropGuard w H t g inside =>
    obtain ⟨gone, freed⟩ := h.balanced.frees_dropGuard inside
    exact .inl ⟨t, _, gone, freed⟩
  | @enter w H t c inside alive =>
    exact .inr (World.Extends.acquire (s := .call c) alive).onThread.toRetains
  | @leave w H t level c inside top =>
    obtain ⟨gone, freed⟩ := h.balanced.frees_leaveCalls inside
    exact .inl ⟨t, _, gone, freed⟩
  | newContext x => exact .inr (World.extends_pushContext x).toRetains
  | newCallable x => exact .inr (World.extends_pushCallable x).toRetains
  | newManual empty => exact .inr (World.extends_pushManual _).toRetains
  | newThread name => exact .inr (World.extends_pushThread _).toRetains
  | @build w H t b made handle context =>
    have alive : ∀ k ∈ b.handle.shares ++ (b.context.getD (w.ambient t)).shares,
        0 < w.shareCount k := fun k member =>
      (List.mem_append.mp member).elim (handle k) (context k)
    exact .inr ((World.Extends.acquireAll alive).trans (World.extends_pushCall _)).log.toRetains
  | @markDead w H t c =>
    refine .inr ?_
    simp only [World.markDead]
    split
    · exact (World.Extends.of_same (fun _ => rfl) fun _ => id).toRetains
    · exact (World.Extends.log (.of_same (fun k => by cases k <;> simp [World.shareCount])
        fun k => by cases k <;> simp [World.Created])).toRetains
  | createLoop settings inside =>
    exact .inr (World.extends_pushLoop _).onThread.log.toRetains
  | startLoopThread settings =>
    exact .inr ((World.extends_pushThread _).trans
      (World.extends_pushLoop _).onThread.log).log.toRetains
  | beginTurn =>
    exact .inr (World.Extends.onThread (.of_same (fun _ => rfl) fun _ => id)).toRetains
  | endTurn =>
    exact .inr (World.Extends.onThread (.of_same (fun _ => rfl) fun _ => id)).toRetains
  | finish =>
    exact .inr (World.Extends.onThread (.of_same (fun _ => rfl) fun _ => id)).toRetains
  | @post w H t s task there =>
    obtain ⟨gone, freed⟩ := h.balanced.frees_post (t := t) (x := s)
    exact .inl ⟨t, _, gone, freed⟩
  | start taken =>
    obtain ⟨_, rest, _, rfl⟩ := World.of_dequeue? taken
    exact .inr (World.Extends.of_same (fun k => by cases k <;> simp [World.shareCount])
      fun k => by cases k <;> simp [World.Created]).toRetains
  | takeAll alive =>
    exact .inr (World.Extends.of_same
      (fun k => by cases k <;> simp [World.shareCount, World.emptyManual])
      fun k => by cases k <;> simp [World.Created, World.emptyManual]).toRetains
  | shutdown t l =>
    exact .inr (World.Extends.log (.of_same (fun k => by cases k <;> simp [World.shareCount])
      fun k => by cases k <;> simp [World.Created])).toRetains

/-- From one world to another, some objects are released: exactly those whose last share is taken
away in between, each of them once, and in the order in which that is noted. No object that was made
before comes back into use. -/
structure World.Releases (w w' : World) (gone : List Share) : Prop where
  once : gone.Nodup
  mem_iff : ∀ k, k ∈ gone ↔ 0 < w.shareCount k ∧ w'.shareCount k = 0
  noted : gone = [] ∨
    ∃ t p, w'.releaseNotes t = w.releaseNotes t ++ gone.flatMap (w.releaseNote p)
  final : ∀ k, w.Created k → w.shareCount k = 0 → w'.shareCount k = 0

/-- Every step releases what it takes the last share of, and nothing else. -/
theorem Step.releases {m m' : Moment} {ops : List Operation} (h : m.Consistent)
    (step : Step m ops m') : ∃ gone, m.world.Releases m'.world gone := by
  rcases step.frees h with ⟨t, loop, gone, freed⟩ | retains
  · refine ⟨gone, freed.once, freed.mem_iff, .inr ⟨t, _, freed.notes⟩, fun k _ zero => ?_⟩
    have falls := freed.falls k
    omega
  · refine ⟨[], List.nodup_nil, fun k => ?_, .inl rfl, retains.unused⟩
    have used := retains.used k
    simp only [List.not_mem_nil, false_iff, not_and]
    omega

end DeferredCalls
