import DeferredCalls.Proofs.Nesting
import DeferredCalls.Session.Run

/-!
# Sessions are courses

Every command is performed by operations of the library only, given that those of nested scripts
are. So whatever a session performs is a course that starts with nothing in anybody's hands and ends
like that.
-/

namespace DeferredCalls

open Holding Moment

namespace Act

variable {M : Manner} {α : Type} {t : ThreadId} {w w' : World} {H : Multiset Holding}
  {self : Performer}

/-! ## Contexts and callables -/

theorem reaches_keepSnapshot {id : String} {s : Snapshot} (ready : Ready ⟨w, H⟩ t)
    (alive : ∀ k ∈ s.shares, 0 < w.shareCount k) :
    Reaches ⟨w, H⟩ ⟨(keepSnapshot id s t w).2, H⟩ M := by
  have acquired : Reaches ⟨w, H⟩ _ M := reaches_of_course (course_acquireAll ready alive) (by simp)
  have kept := Drawer.accounted_contexts.reaches_put (M := M) id (ready.reaches acquired) trivial
  exact acquired.trans kept

theorem reaches_keepHandle {id : String} {h : Handle} (ready : Ready ⟨w, H⟩ t)
    (made : h.callable.index < w.callables.size) (alive : ∀ k ∈ h.shares, 0 < w.shareCount k) :
    Reaches ⟨w, H⟩ ⟨(keepHandle id h t w).2, H⟩ M := by
  have acquired : Reaches ⟨w, H⟩ _ M := reaches_of_course (course_acquireAll ready alive) (by simp)
  have known := (World.keeps_acquireAll alive).callableCount.symm ▸ made
  have kept := Drawer.accounted_handles.reaches_put (M := M) id (ready.reaches acquired) known
  exact acquired.trans kept

theorem reaches_keepCall {id : String} {c : CallId} (ready : Ready ⟨w, H⟩ t)
    (used : 0 < w.calls.shares c) : Reaches ⟨w, H⟩ ⟨(keepCall id c t w).2, H⟩ M := by
  have acquired : Reaches ⟨w, H⟩ ⟨w.acquire (.call c), share (.call c) ::ₘ H⟩ M :=
    reaches_of_step (.acquire used) (by simp)
  have kept := Drawer.accounted_calls.reaches_put (M := M) id (a := c) (ready.reaches acquired)
    trivial
  exact acquired.trans kept

theorem lawful_newContext (id label : String) : (newContext id label).Lawful M := by
  intro t w H ready
  have made : Reaches ⟨w, H⟩ ⟨_, _⟩ M :=
    reaches_of_step (.newContext { name := id, label }) (by simp)
  exact made.trans (Drawer.accounted_contexts.reaches_put _ (a := .of w.contexts.next)
    (ready.reaches made) trivial)

theorem lawful_newCallable (id : String) (title : Option String) (body : Script) (limit : Nat)
    (endings : List Ending) : (newCallable id title body limit endings).Lawful M := by
  intro t w H ready
  have made : Reaches ⟨w, H⟩ ⟨_, _⟩ M :=
    reaches_of_step (.newCallable { name := id, title, body, limit, endings }) (by simp)
  exact made.trans (Drawer.accounted_callables.reaches_put _ (a := w.callables.next)
    (ready.reaches made) trivial)

/-- Shares that are held while an action is performed are in use all the while. -/
theorem reaches_holdingAll {shares : List Share} {m : Act α} (ready : Ready ⟨w, H⟩ t)
    (alive : ∀ k ∈ shares, 0 < w.shareCount k)
    (body : ∀ w', Ready ⟨w', ofShares shares + H⟩ t →
      Reaches ⟨w', ofShares shares + H⟩ ⟨(m t w').2, ofShares shares + H⟩ M) :
    Reaches ⟨w, H⟩ ⟨(holdingAll shares m t w).2, H⟩ M := by
  induction shares generalizing w H with
  | nil =>
    rw [ofShares_nil, zero_add] at body
    exact body w ready
  | cons s shares ih =>
    have used := alive s (List.mem_cons_self ..)
    have acquired : Reaches ⟨w, H⟩ ⟨w.acquire s, share s ::ₘ H⟩ M :=
      reaches_of_step (.acquire used) (by simp)
    refine reaches_holding ready used (ih (ready.reaches acquired) ?_ ?_)
    · intro k member
      rw [World.shareCount_acquire used]
      exact Nat.lt_of_lt_of_le (alive k (List.mem_cons_of_mem s member)) (Nat.le_add_right ..)
    · rw [ofShares_cons, Multiset.cons_add, ← Multiset.add_cons] at body
      exact body

/-- Who holds the shares of a snapshot can install it. -/
theorem alive_of_held {s : Snapshot} (ready : Ready ⟨w, ofShares s.shares + H⟩ t) :
    ∀ k ∈ s.shares, 0 < w.shareCount k := by
  apply Sustained.ofShares
  apply sustained_of_held ready.consistent.balanced
  intro h member
  exact Multiset.mem_add.mpr (.inr (Multiset.mem_add.mpr (.inl member)))

theorem lawful_installNamed (context guardName : String) :
    (installNamed context guardName).Lawful M := by
  refine (Lawful.read _).bind fun serving => .ite (fun _ => .pure _) fun _ => ?_
  apply lawful_withKept Drawer.accounted_contexts
  intro t w H s ready sustained _
  apply reaches_holdingAll ready sustained.ofShares
  intro w' ready
  have installed : Reaches ⟨w', ofShares s.shares + H⟩
      ⟨w'.install t s, guard t (w'.contextStack t).nextGuard ::ₘ (ofShares s.shares + H)⟩ M :=
    reaches_of_step (.install ready.inside (alive_of_held ready)) (by simp)
  exact installed.trans (Drawer.accounted_guards.reaches_put _
    (a := (w'.contextStack t).nextGuard) (ready.reaches installed) trivial)

theorem lawful_within (lawful : self.Lawful M) (context : String) (body : Script)
    (ending : Ending) : (within self context body ending).Lawful M := by
  apply lawful_withKept Drawer.accounted_contexts
  intro t w H s ready sustained _
  apply reaches_holdingAll ready sustained.ofShares
  intro w' ready
  have inner : (do
      note fun t w => .inside (w.position t)
      script self body
      let _ ← finish ending : Act Unit).Lawful M :=
    (Lawful.note _).bind fun _ => (lawful_script lawful body).bind fun _ =>
      (lawful_finish ending).bind fun _ => .pure ()
  have alive := alive_of_held ready
  have installed : Reaches ⟨w', ofShares s.shares + H⟩
      ⟨w'.install t s, guard t (w'.contextStack t).nextGuard ::ₘ (ofShares s.shares + H)⟩ M :=
    reaches_of_step (.install ready.inside alive) (by simp)
  have ran := reaches_installing ready alive (inner (ready.reaches installed))
  refine reaches_bind ran (fun _ _ => .refl _) fun _ _ => rfl

/-- An action on a named object of which it holds a share for as long as it lasts. -/
theorem lawful_holdingKept {d : Drawer α} {hold : ThreadId → α → Multiset Holding}
    {known : World → α → Prop} {name : String} {s : α → Share} {f : α → Act Reply}
    (acc : d.Accounted hold known) (held : ∀ t a, hold t a = {share (s a)})
    (rest : ∀ ⦃t w H a⦄, Ready ⟨w, share (s a) ::ₘ H⟩ t →
      Reaches ⟨w, share (s a) ::ₘ H⟩ ⟨(f a t w).2, share (s a) ::ₘ H⟩ M) :
    (withNamed d name fun a => holding (s a) (f a)).Lawful M := by
  apply lawful_withKept acc
  intro t w H a ready sustained _
  rw [held] at sustained
  have acquired : Reaches ⟨w, H⟩ ⟨w.acquire (s a), share (s a) ::ₘ H⟩ M :=
    reaches_of_step (.acquire sustained.share) (by simp)
  exact reaches_holding ready sustained.share (rest (ready.reaches acquired))

theorem lawful_holdingNamed {d : Drawer α} {hold : ThreadId → α → Multiset Holding}
    {known : World → α → Prop} {name : String} {s : α → Share} {f : α → Act Reply}
    (acc : d.Accounted hold known) (held : ∀ t a, hold t a = {share (s a)})
    (lawful : ∀ a, (f a).Lawful M) :
    (withNamed d name fun a => holding (s a) (f a)).Lawful M :=
  lawful_holdingKept acc held fun _ _ _ a ready => lawful a ready

theorem lawful_invokeNamed (lawful : self.Lawful M) (id : String) (args : Option CallArgs) :
    (invokeNamed self id args).Lawful M := by
  apply lawful_holdingNamed Drawer.accounted_callables (fun _ _ => rfl)
  intro f
  apply (lawful_invoke lawful f args).bind
  intro ended
  cases ended with
  | ok u => exact .pure _
  | error e => exact .pure _

/-- The callable that is obtained from a handle in use is in use. -/
theorem alive_of_obtain {h : Handle} {f : CallableId} (sustained : Sustained w (ofShares h.shares))
    (obtained : w.obtain h = .ok f) : 0 < w.callables.shares f := by
  unfold World.obtain World.obtain? World.handleAlive at obtained
  cases h with
  | strong c =>
    obtain rfl : c = f := by simpa [Handle.callable] using obtained
    exact sustained.ofShares (.callable c) (List.mem_singleton_self _)
  | weak c =>
    by_cases alive : 0 < w.callables.shares c
    · obtain rfl : c = f := by simpa [alive, Handle.callable] using obtained
      exact alive
    · simp [alive] at obtained

theorem lawful_obtainNamed (id : String) (name : Option String) :
    (obtainNamed id name).Lawful M := by
  apply lawful_withKept Drawer.accounted_handles
  intro t w H h ready sustained _
  rw [bind_apply, read_apply]
  match obtained : w.obtain h with
  | .error e => exact .refl _
  | .ok f =>
    have used : 0 < w.callables.shares f := alive_of_obtain sustained obtained
    have acquired : Reaches ⟨w, H⟩ ⟨w.acquire (.callable f), share (.callable f) ::ₘ H⟩ M :=
      reaches_of_step (.acquire used) (by simp)
    refine reaches_holding ready used ?_
    have held := ready.reaches acquired
    rw [bind_apply, read_apply]
    cases name with
    | none => exact .refl _
    | some name =>
      have again : Reaches ⟨w.acquire (.callable f), share (.callable f) ::ₘ H⟩ ⟨_, _⟩ M :=
        reaches_of_step (.acquire (s := .callable f) held.consistent.balanced.shareCount_pos)
          (by simp)
      exact again.trans (Drawer.accounted_callables.reaches_put _ (a := f) (held.reaches again)
        trivial)

theorem lawful_newSink (id : String) (kind : SinkKind) : (newSink id kind).Lawful M := by
  intro t w H ready
  have made : Reaches ⟨w, H⟩ ⟨{ w with sinks := w.sinks.push { kind } }, 0 + H⟩ M := by
    rw [zero_add]
    exact reaches_aside (ready.consistent.agrees_beside ..) rfl
  exact made.trans (Drawer.accounted_sinks.reaches_put _ (a := w.sinks.next) (ready.reaches made)
    trivial)

theorem lawful_readSink (s : SinkId) (take : Bool) : (readSink s take).Lawful M := by
  intro t w H ready
  obtain ⟨sinks, eq⟩ : ∃ sinks, (readSink s take t w).2 = { w with sinks } := by
    simp only [readSink, update_apply]
    split
    · split
      · exact ⟨_, rfl⟩
      · exact ⟨w.sinks, rfl⟩
    · exact ⟨w.sinks, rfl⟩
  rw [eq]
  exact reaches_aside (ready.consistent.agrees_beside ..) rfl

/-! ## Calls -/

/-- The context that a call is going to be bound to is in use. -/
theorem alive_of_builder {b : CallBuilder} (ready : Ready ⟨w, H⟩ t)
    (context : ∀ s, b.context = some s → ∀ k ∈ s.shares, 0 < w.shareCount k) :
    ∀ k ∈ (b.context.getD (w.ambient t)).shares, 0 < w.shareCount k := by
  intro k member
  cases given : b.context with
  | none =>
    rw [given] at member
    exact ready.consistent.balanced.alive_of_ambient ready.inside member
  | some s =>
    rw [given] at member
    exact context s given k member

theorem reaches_buildNamed {id : String} {b : CallBuilder} (ready : Ready ⟨w, H⟩ t)
    (made : b.handle.callable.index < w.callables.size)
    (handle : ∀ k ∈ b.handle.shares, 0 < w.shareCount k)
    (context : ∀ s, b.context = some s → ∀ k ∈ s.shares, 0 < w.shareCount k) :
    Reaches ⟨w, H⟩ ⟨(buildNamed id b t w).2, H⟩ M := by
  have built : Reaches ⟨w, H⟩ ⟨(w.build t b).2, share (.call (w.build t b).1) ::ₘ H⟩ M :=
    reaches_of_step (.build made handle (alive_of_builder ready context)) (by simp)
  exact built.trans (Drawer.accounted_calls.reaches_put _ (a := (w.build t b).1)
    (ready.reaches built) trivial)

theorem shareCount_note {e : Entry} {k : Share} : (w.note t e).shareCount k = w.shareCount k := by
  obtain ⟨_, _, eq⟩ := w.note_eq t e
  rw [eq]
  cases k <;> rfl

/-- A call is built from a handle and a context that are in use. -/
theorem reaches_buildFrom {id : String} {options : Option CallOptions} {h : Handle}
    (ready : Ready ⟨w, H⟩ t) (made : h.callable.index < w.callables.size)
    (handle : ∀ k ∈ h.shares, 0 < w.shareCount k) :
    Reaches ⟨w, H⟩ ⟨(buildFrom id options h t w).2, H⟩ M := by
  cases options with
  | none => exact reaches_buildNamed ready made handle fun _ given => nomatch given
  | some o =>
    apply reaches_withOptional Drawer.accounted_contexts ready
    intro context kept
    apply reaches_withOptional Drawer.accounted_sinks ready
    intro sink _
    have alive : ∀ s, context = some s → ∀ k ∈ s.shares, 0 < w.shareCount k :=
      fun s given => (kept s given).ofShares
    simp only
    split
    · have noted (e : Entry) : Reaches ⟨w, H⟩ ⟨w.note t e, H⟩ M :=
        reaches_of_course (ready.consistent.note t e) (by simp)
      refine (noted _).trans (reaches_buildNamed (ready.reaches (noted _)) ?_ ?_ ?_)
      · exact (w.keeps_note t _).callableCount.symm ▸ made
      · intro k member
        rw [shareCount_note]
        exact handle k member
      · intro s given k member
        rw [shareCount_note]
        exact alive s given k member
    · exact reaches_buildNamed ready made handle alive

theorem lawful_newCall (id : String) (source : CallSource) (options : Option CallOptions) :
    (newCall id source options).Lawful M := by
  cases source with
  | callable name =>
    apply lawful_withKept Drawer.accounted_callables
    intro t w H f ready sustained _
    have used : 0 < w.callables.shares f := sustained.share
    exact reaches_buildFrom ready (Arena.lt_size_of_shares_pos used) sustained.ofShares
  | handle name =>
    apply lawful_withKept Drawer.accounted_handles
    intro t w H h ready sustained made
    exact reaches_buildFrom ready made sustained.ofShares

theorem lawful_currentCall (id : String) : (currentCall id).Lawful M := by
  apply Lawful.read_bind
  intro t w H ready
  match last : (w.callStack t).getLast? with
  | none => exact .refl _
  | some c =>
    have member : Share.call c ∈ (w.thread t).shares := by
      have onStack : c ∈ (w.thread t).callStack := List.mem_of_getLast? last
      exact List.mem_append_left _ (List.mem_append_right _ (List.mem_map_of_mem onStack))
    have used : 0 < w.calls.shares c :=
      ready.consistent.balanced.alive_of_thread ready.inside member
    exact (reaches_keepCall ready used).trans (.refl _)

theorem lawful_upgrade (id call : String) : (upgrade id call).Lawful M := by
  apply lawful_withNamed
  intro c
  apply Lawful.read_bind
  intro t w H ready
  split
  · next alive => exact (reaches_keepCall ready (of_decide_eq_true alive)).trans (.refl _)
  · exact .refl _

/-! ## Schedulers -/

theorem lawful_newLoop (id : String) (settings : LoopSettings) :
    (newLoop id settings).Lawful M := by
  refine (Lawful.read _).bind fun serving => .ite (fun _ => .pure _) fun _ => ?_
  intro t w H ready
  have made : Reaches ⟨w, H⟩
      ⟨(w.createLoop t settings).2, share (.loop (w.createLoop t settings).1) ::ₘ H⟩ M :=
    reaches_of_step (.createLoop settings ready.inside) (by simp)
  exact made.trans (Drawer.accounted_loops.reaches_put _ (a := (w.createLoop t settings).1)
    (ready.reaches made) trivial)

theorem lawful_driveUntilIdle (lawful : self.Lawful M) (l : LoopId) :
    (driveUntilIdle self l).Lawful M := by
  refine (Lawful.read _).bind fun fuel => Lawful.bind ?_ fun _ => .pure _
  exact lawful_runUntilIdle (runTask_lawful lawful) fuel

theorem lawful_driveUntilClosed (lawful : self.Lawful M) (l : LoopId) (trusting : Bool) :
    (driveUntilClosed self l trusting).Lawful M := by
  refine (Lawful.read _).bind fun closed => .ite (fun _ => ?_) fun _ => .pure _
  refine (Lawful.read _).bind fun fuel => Lawful.bind ?_ fun halt => ?_
  · exact lawful_runUntilHalt (runTask_lawful lawful) fuel
  · split
    · exact .pure _
    · exact .pure _

theorem lawful_currentLoopNamed (id : Option String) : (currentLoopNamed id).Lawful M := by
  apply Lawful.read_bind
  intro t w H ready
  match current : (w.thread t).currentLoop with
  | none => exact .refl _
  | some l =>
    cases id with
    | none => exact .refl _
    | some id =>
      have known := ready.consistent.known.current t l current
      exact Drawer.accounted_loopHandles.reaches_keep _ ready known

theorem lawful_newManual (id : String) {s : Manual} (empty : s.queue = []) :
    (newManual id s).Lawful M := by
  intro t w H ready
  have made : Reaches ⟨w, H⟩ ⟨_, _⟩ M := reaches_of_step (.newManual empty) (by simp)
  exact made.trans (Drawer.accounted_manuals.reaches_put _ (a := w.manuals.next)
    (ready.reaches made) trivial)

/-- Posting a job takes shares of the calls that it holds. -/
theorem reaches_postJob {s : Scheduler} {j : Job} (ready : Ready ⟨w, H⟩ t) (there : w.CanPost s)
    (alive : ∀ c ∈ j.holds, 0 < w.calls.shares c) :
    Reaches ⟨w, H⟩ ⟨(post s (.job j) t w).2, H⟩ M := by
  have inUse : ∀ k ∈ (Task.job j).shares, 0 < w.shareCount k := by
    intro k member
    obtain ⟨c, held, rfl⟩ := List.mem_map.mp member
    exact alive c held
  exact reaches_of_course (course_post ready there inUse) (by simp)

/-! ## Threads -/

theorem lawful_openJournal : openJournal.Lawful M :=
  lawful_update fun _ _ _ ready => ⟨ready.consistent.agrees_beside .., rfl⟩

theorem lawful_closeJournal (outer : Array Entry) : (closeJournal outer).Lawful M :=
  lawful_update fun _ _ _ ready => ⟨ready.consistent.agrees_beside .., rfl⟩

theorem lawful_perform (lawful : self.Lawful M) (command : Command) :
    (perform self command).Lawful M := by
  apply lawful_openJournal.bind
  intro outer
  apply (lawful.command command).attempt.bind
  intro reply
  apply (lawful_settleAll (runTask_lawful lawful)).bind
  intro _
  apply (Lawful.read _).bind
  intro _
  exact (lawful_closeJournal outer).bind fun _ => .pure _

theorem lawful_performAll (lawful : self.Lawful M) (script : Script) :
    (performAll self script).Lawful M := by
  induction script with
  | nil => exact .pure []
  | cons first rest ih =>
    obtain ⟨verb, command⟩ := first
    exact (lawful_perform lawful command).bind fun _ => ih.bind fun _ => .pure _

theorem lawful_closeThread : closeThread.Lawful M :=
  (lawful_clear Drawer.accounted_guards).bind fun _ => lawful_clear Drawer.accounted_loops

theorem lawful_newThread (lawful : self.Lawful M) (name : Option String) (body : Script) :
    (newThread self name body).Lawful M := by
  intro t w H ready
  have made : Reaches ⟨w, H⟩ ⟨{ w with threads := w.threads.push { name } }, H⟩ M :=
    reaches_of_step (.newThread name) (by simp)
  have inside : w.threads.next.index < (w.threads.push { name }).size := by
    rw [Arena.size_push]
    exact Nat.lt_succ_self _
  have there := (ready.reaches made).on inside
  have records := lawful_performAll lawful body there
  refine made.trans (reaches_bind (m := on w.threads.next (performAll self body)) records ?_ ?_)
  · intro records' _
    have closed := lawful_closeThread (M := M) (there.reaches records)
    exact reaches_bind (m := on w.threads.next closeThread) closed (fun _ _ => .refl _)
      fun _ _ => rfl
  · intro _ _
    rfl

/-- The names of loop threads hold nothing. -/
theorem agrees_loopThreads (ready : Ready ⟨w, H⟩ t) (loopThreads : NameTable ThreadId) :
    w.Agrees { w with names := { w.names with loopThreads } } := by
  exact ⟨fun s => by cases s <;> rfl, rfl, rfl, rfl, rfl, rfl, fun u => ⟨_, _, rfl⟩,
    ready.consistent.known.handle, ready.consistent.known.callable⟩

theorem lawful_forgetLoopThread (id : String) : (forgetLoopThread id).Lawful M :=
  lawful_change fun _ _ _ ready => ⟨agrees_loopThreads ready _, rfl⟩

theorem lawful_dropLoopThread (lawful : self.Lawful M) (u : ThreadId) :
    (dropLoopThread self u).Lawful M :=
  lawful_stopLoopThread (runTask_lawful lawful) u

theorem lawful_dropLoopThreadNamed (lawful : self.Lawful M) (id : String) :
    (dropLoopThreadNamed self id).Lawful M := by
  apply (Lawful.read _).bind
  intro named
  cases named with
  | none => exact .pure _
  | some u =>
    exact (lawful_forgetLoopThread id).bind fun _ =>
      (lawful_dropLoopThread lawful u).bind fun _ => .pure _

theorem lawful_shutdownLoopThread (lawful : self.Lawful M) (id : String) :
    (shutdownLoopThread self id).Lawful M := by
  apply (Lawful.read _).bind
  intro named
  cases named with
  | none => exact .pure _
  | some u =>
    apply (lawful_forgetLoopThread id).bind
    intro _
    apply (lawful_stopLoopThread (runTask_lawful lawful) u).bind
    intro ended
    apply (Lawful.read _).bind
    intro served
    cases served with
    | none => exact .pure _
    | some l => exact (lawful_shutdownLoop l).bind fun _ => .pure _

theorem servedLoop?_known {u : ThreadId} {l : LoopId} (ready : Ready ⟨w, H⟩ t)
    (serves : w.servedLoop? u = some l) : l.index < w.loops.size :=
  ready.consistent.known.served u l (World.servedLoop?_eq_some.mp serves)

theorem lawful_spawnLoopThread (lawful : self.Lawful M) (id : String) (settings : LoopSettings) :
    (spawnLoopThread self id settings).Lawful M := by
  have start : (update fun _ w => w.startLoopThread settings).Lawful M :=
    fun _ _ _ _ => reaches_of_step (.startLoopThread settings) (by simp)
  apply start.bind
  intro u
  apply (Lawful.read _).bind
  intro old
  have keep : (change fun _ w =>
      { w with
        names := { w.names with loopThreads := w.names.loopThreads.insert id u } }).Lawful M :=
    lawful_change fun _ _ _ ready => ⟨agrees_loopThreads ready _, rfl⟩
  apply keep.bind
  intro _
  rcases old with _ | old
  on_goal 1 => refine (Lawful.pure true).bind fun ended => ?_
  on_goal 2 => refine (lawful_dropLoopThread lawful old).bind fun ended => ?_
  -- Whatever became of the thread that had the name, the handle of the new loop is kept.
  all_goals
    apply Lawful.read_bind
    intro t w H ready
    cases serves : w.servedLoop? u with
    | none => exact .refl _
    | some l =>
      exact Drawer.accounted_loopHandles.reaches_keep _ ready (servedLoop?_known ready serves)

theorem reaches_syncLoopThread (lawful : self.Lawful M) {l : LoopId} {j : Job}
    (ready : Ready ⟨w, H⟩ t) (known : l.index < w.loops.size)
    (alive : ∀ c ∈ j.holds, 0 < w.calls.shares c) :
    Reaches ⟨w, H⟩ ⟨(syncLoopThread self l j t w).2, H⟩ M := by
  have opened : Reaches ⟨w, H⟩ ⟨{ w with tickets := w.tickets.push none }, H⟩ M :=
    reaches_aside (ready.consistent.agrees_beside ..) rfl
  have posted :=
    reaches_postJob (M := M) (s := .loop l) (j := { j with ticket := some w.tickets.size })
    (ready.reaches opened) known alive
  rw [syncLoopThread, bind_apply, update_apply]
  refine opened.trans (reaches_bind posted (fun answer _ => ?_) fun _ _ => rfl)
  have after := ready.reaches (opened.trans posted)
  cases answer with
  | error e => exact Lawful.pure _ after
  | ok u =>
    refine Lawful.bind (Lawful.read _) (fun owner => ?_) after
    apply (lawful_takeTurn (runTask_lawful lawful) owner).bind
    intro _
    apply (Lawful.read _).bind
    intro ended
    split
    · exact .pure _
    · exact .pure _
    · exact .pure _

/-! ## Commands -/

end Act

/-- Whether a command is a request to a scheduler: to post a task, to schedule a call, or to
close. -/
def Command.requests : Command → Bool
  | .post .. | .schedule .. | .shutdown _ => true
  | _ => false

namespace Act

variable {M : Manner} {self : Performer}

/-- Requests are lawful, however nested commands are performed. -/
theorem lawful_request {command : Command} (requests : command.requests = true) :
    (interpret self command).Lawful M := by
  cases command with
  | post scheduler onlyHandle tag body ending holds =>
    intro t w H ready
    apply reaches_withScheduler ready
    intro s there
    refine reaches_bind (m := callsNamed holds) (.refl _) (fun cs found => ?_) fun _ _ => rfl
    refine reaches_bind (m := DeferredCalls.Act.post s (.job { tag, body, ending, holds := cs })) ?_
      (fun _ _ => .refl _) fun _ _ => rfl
    exact reaches_postJob ready there fun _ => alive_of_callsNamed ready found
  | schedule call scheduler weakly args =>
    apply lawful_withKept Drawer.accounted_calls
    intro t w H c ready sustained _
    apply reaches_withScheduler ready
    intro s there
    exact reaches_bind (reaches_schedule ready there sustained.share) (fun _ _ => .refl _)
      fun _ _ => rfl
  | shutdown handle =>
    exact lawful_withNamed fun l => (lawful_shutdownLoop l).bind fun _ => .pure _
  | _ => exact absurd requests Bool.false_ne_true

theorem lawful_interpret (lawful : self.Lawful M) (command : Command) :
    (interpret self command).Lawful M := by
  have tasks := runTask_lawful lawful
  cases command with
  | newContext id label => exact lawful_newContext id label
  | emptyContext id =>
    intro t w H ready
    exact reaches_keepSnapshot ready fun _ member => nomatch member
  | cloneContext id source =>
    apply lawful_withKept Drawer.accounted_contexts
    intro t w H s ready sustained _
    exact reaches_keepSnapshot ready sustained.ofShares
  | wrapContext id source =>
    apply lawful_withKept Drawer.accounted_contexts
    intro t w H s ready sustained _
    split
    · exact .refl _
    · exact reaches_keepSnapshot ready sustained.ofShares
  | dropContext id => exact lawful_dropNamed Drawer.accounted_contexts
  | capture id =>
    apply Lawful.read_bind
    intro t w H ready
    exact reaches_keepSnapshot ready fun _ =>
      ready.consistent.balanced.alive_of_ambient ready.inside
  | describeContext id => exact lawful_withNamed fun _ => .read _
  | sameContext a b => exact lawful_withNamed fun _ => lawful_withNamed fun _ => .pure _
  | install context guardName => exact lawful_installNamed context guardName
  | dropGuard guardName => exact lawful_dropNamed Drawer.accounted_guards
  | describeGuard guardName => exact lawful_withNamed fun _ => .read _
  | within context body ending => exact lawful_within lawful context body ending
  | observe => exact .read _
  | newCallable id title body limit endings =>
    exact lawful_newCallable id title body limit endings
  | dropCallable id => exact lawful_dropNamed Drawer.accounted_callables
  | describeCallable id => exact lawful_withNamed fun _ => .read _
  | countShares id => exact lawful_withNamed fun _ => .read _
  | invoke id args => exact lawful_invokeNamed lawful id args
  | describeArgs args => exact .pure _
  | newHandle id callable mode =>
    apply lawful_withKept Drawer.accounted_callables
    intro t w H f ready sustained _
    have used : 0 < w.callables.shares f := sustained.share
    have made := Arena.lt_size_of_shares_pos used
    cases mode with
    | strong => exact reaches_keepHandle ready made sustained.ofShares
    | weak => exact reaches_keepHandle ready made fun _ member => nomatch member
  | cloneHandle id source =>
    apply lawful_withKept Drawer.accounted_handles
    intro t w H h ready sustained made
    exact reaches_keepHandle ready made sustained.ofShares
  | downgradeHandle id source =>
    apply lawful_withKept Drawer.accounted_handles
    intro t w H h ready _ made
    exact reaches_keepHandle ready made fun _ member => nomatch member
  | describeHandle id => exact lawful_withNamed fun _ => .read _
  | obtain id callable => exact lawful_obtainNamed id callable
  | dropHandle id => exact lawful_dropNamed Drawer.accounted_handles
  | newSink id kind => exact lawful_newSink id kind
  | readSink id take => exact lawful_withNamed fun s => lawful_readSink s take
  | emitReport sink call =>
    apply lawful_withNamed
    intro s
    apply lawful_withNamed
    intro c
    apply (Lawful.read _).bind
    intro d
    exact (lawful_emit (some s) d).bind fun _ => .pure _
  | newCall id source options => exact lawful_newCall id source options
  | cloneCall id source =>
    apply lawful_withKept Drawer.accounted_calls
    intro t w H c ready sustained _
    exact (reaches_keepCall ready sustained.share).trans (.refl _)
  | dropCall id => exact lawful_dropNamed Drawer.accounted_calls
  | markDead call =>
    apply lawful_withNamed
    intro c t w H ready
    exact reaches_of_step (.markDead t c) (by simp)
  | run call args =>
    apply lawful_holdingKept Drawer.accounted_calls (fun _ _ => rfl)
    intro t w H c ready
    have used : 0 < w.calls.shares c := ready.consistent.balanced.shareCount_pos
    have ran := reaches_run (embedder_lawful lawful) args ready used
    exact reaches_bind ran (fun _ _ => .refl _) fun _ _ => rfl
  | schedule call scheduler weakly args => exact lawful_request rfl
  | describeCall call => exact lawful_withNamed fun _ => .read _
  | callExists call => exact lawful_withNamed fun _ => .read _
  | reportContext call => exact lawful_withNamed fun _ => .read _
  | printContext call =>
    apply lawful_withNamed
    intro c t w H ready
    exact reaches_of_course (ready.consistent.log ..) (by simp)
  | sameCall a b => exact lawful_withNamed fun _ => lawful_withNamed fun _ => .pure _
  | olderCall a b => exact lawful_withNamed fun _ => lawful_withNamed fun _ => .pure _
  | currentCall id => exact lawful_currentCall id
  | downgradeCall id call =>
    apply lawful_withNamed
    intro c t w H ready
    exact Drawer.accounted_weaks.reaches_keep _ ready trivial
  | cloneWeak id source =>
    apply lawful_withNamed
    intro c t w H ready
    exact Drawer.accounted_weaks.reaches_keep _ ready trivial
  | dropWeak id => exact lawful_dropNamed Drawer.accounted_weaks
  | describeWeak id => exact lawful_withNamed fun _ => .read _
  | upgrade id call => exact lawful_upgrade id call
  | newLoop id settings => exact lawful_newLoop id settings
  | dropLoop id => exact lawful_dropNamed Drawer.accounted_loops
  | runPending loop =>
    apply lawful_holdingNamed Drawer.accounted_loops (fun _ _ => rfl)
    intro l
    exact (lawful_runPending tasks).bind fun _ => .pure _
  | runUntilIdle loop =>
    exact lawful_holdingNamed Drawer.accounted_loops (fun _ _ => rfl) (lawful_driveUntilIdle lawful)
  | runLoop loop trusting =>
    apply lawful_holdingNamed Drawer.accounted_loops (fun _ _ => rfl)
    intro l
    exact lawful_driveUntilClosed lawful l trusting
  | describeLoop loop => exact lawful_withNamed fun _ => .read _
  | newLoopHandle id loop =>
    apply lawful_withKept Drawer.accounted_loops
    intro t w H l ready sustained _
    exact Drawer.accounted_loopHandles.reaches_keep _ ready
      (Arena.lt_size_of_shares_pos sustained.share)
  | currentLoop id => exact lawful_currentLoopNamed id
  | describeLoopHandle handle => exact lawful_withNamed fun _ => .read _
  | shutdown handle => exact lawful_request rfl
  | dropLoopHandle id => exact lawful_dropNamed Drawer.accounted_loopHandles
  | post scheduler onlyHandle tag body ending holds => exact lawful_request rfl
  | describeScheduler scheduler =>
    intro t w H ready
    exact reaches_withScheduler ready fun _ _ => .refl _
  | newManual id designated violation reject => exact lawful_newManual id rfl
  | runManual id =>
    apply lawful_holdingKept Drawer.accounted_manuals (fun _ _ => rfl)
    intro t w H m ready
    have ran := reaches_runManual tasks ready ready.consistent.balanced.shareCount_pos
    exact reaches_bind ran (fun _ _ => .refl _) fun _ _ => rfl
  | dropManual id => exact lawful_dropNamed Drawer.accounted_manuals
  | thread name body => exact lawful_newThread lawful name body
  | spawnLoopThread id settings => exact lawful_spawnLoopThread lawful id settings
  | syncLoopThread id tag body ending holds =>
    apply lawful_withKept Drawer.accounted_loopHandles
    intro t w H l ready _ known
    refine reaches_bind (m := callsNamed holds) (.refl _) (fun cs found => ?_) fun _ _ => rfl
    exact reaches_syncLoopThread lawful ready known fun _ => alive_of_callsNamed ready found
  | shutdownLoopThread id => exact lawful_shutdownLoopThread lawful id
  | dropLoopThread id => exact lawful_dropLoopThreadNamed lawful id
  | note text => exact .pure _
  | unknown verb => exact .pure _

theorem lawful_spend {m : Act Reply} (lawful : m.Lawful M) : (spend m).Lawful M := by
  refine (Lawful.read _).bind fun spent => .ite (fun _ => .pure _) fun _ => ?_
  refine Lawful.bind (lawful_change ?_) fun _ => lawful
  intro t w H ready
  exact ⟨ready.consistent.agrees_beside .., rfl⟩

/-- However deep scripts are nested, commands are performed by operations of the library only, if
the manner knows how their tasks are run. -/
theorem performer_lawful_of_runs (known : ∀ depth, M.runs (runTask (performer depth)))
    (depth : Nat) : (performer depth).Lawful M := by
  induction depth with
  | zero => exact ⟨fun _ => .pure _, known 0⟩
  | succ depth ih => exact ⟨fun command => lawful_spend (lawful_interpret ih command), known _⟩

theorem performer_lawful (depth : Nat) : (performer depth).Lawful :=
  performer_lawful_of_runs (fun _ => trivial) depth

end Act

namespace Session

open Act

/-- The ways in which the tasks of a session are run: by performing their scripts, which are nested
up to some depth. -/
def runs (runTask : RunTask) : Prop :=
  ∃ depth, runTask = Act.runTask (Act.performer depth)

/-- Every task that is taken in a session is run in one of these ways. -/
theorem performer_diligent (depth : Nat) : (Act.performer depth).Lawful (.diligent runs) :=
  performer_lawful_of_runs (M := .diligent runs) (fun depth => ⟨depth, rfl⟩) depth

section Whole

variable {M : Manner} (lawful : Session.performer.Lawful M)

include lawful

theorem lawful_close : close.Lawful M := by
  refine (Lawful.read _).bind fun names => Lawful.bind ?_ fun _ => ?_
  · refine Lawful.each (fun id => ?_) names
    exact (lawful_dropLoopThreadNamed lawful id).bind fun _ => .pure _
  apply (lawful_settleAll (runTask_lawful lawful)).bind
  intro _
  apply lawful_closeThread.bind
  intro _
  apply (lawful_clear Drawer.accounted_manuals).bind
  intro _
  apply (lawful_clear Drawer.accounted_calls).bind
  intro _
  apply (lawful_clear Drawer.accounted_weaks).bind
  intro _
  apply (lawful_clear Drawer.accounted_handles).bind
  intro _
  apply (lawful_clear Drawer.accounted_loopHandles).bind
  intro _
  apply (lawful_clear Drawer.accounted_callables).bind
  intro _
  apply (lawful_clear Drawer.accounted_contexts).bind
  intro _
  exact lawful_clear Drawer.accounted_sinks

theorem lawful_perform (script : Script) : (perform script).Lawful M :=
  (lawful_performAll lawful script).bind fun _ => (lawful_close lawful).bind fun _ => .pure _

end Whole

theorem ready_start (verbosity : Verbosity) : (Moment.start verbosity).Ready driver where
  consistent := consistent_start verbosity
  inside := Nat.zero_lt_one

/-- What a session performs is a course, and a diligent one: every task that is taken from the queue
of a loop is run. -/
theorem reaches_perform (verbosity : Verbosity) (script : Script) :
    (Moment.start verbosity).Reaches ⟨(perform script driver (start verbosity)).2, 0⟩
      (.diligent runs) :=
  lawful_perform (performer_diligent _) script (ready_start verbosity)

end Session

end DeferredCalls
