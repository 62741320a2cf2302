import DeferredCalls.Proofs.Guards
import DeferredCalls.Proofs.Restoring
import DeferredCalls.Proofs.UnawareCommands

/-!
# Threads are apart

Each thread has installs, a stack of calls and a current loop of its own. What a thread does neither
depends on those of another thread nor changes them, even if it runs calls, gives up last shares or
posts to loops that the other one has made; so threads affect each other through shared objects
only. A loop thread that waits for tasks may take its turn in the course of a command; its own turn,
too, leaves all other threads alone.

A call takes its context along to whatever thread it is run on. There it covers what is ambient,
which comes back unless the callable or the sink has ended the run's install by giving up the guard
of an enclosing one.
-/

namespace DeferredCalls

open World

/-! ## Other slots for one thread -/

namespace World

/-- The world in which a thread has other slots. -/
def withSlots (w : World) (u : ThreadId) (s : Slots) : World :=
  w.onThread u (·.withSlots s)

end World

/-- A veil that hides nothing but the slots of one thread. -/
def Veil.ofThread (u : ThreadId) (s : Slots) (turns : Bool) : Veil where
  hidden x := if x = u then some s else none
  turns := turns

namespace Veil

variable {t u : ThreadId} {s : Slots} {turns : Bool} {w : World}

theorem hidden_ofThread (other : u ≠ t) : (ofThread u s turns).hidden t = none :=
  if_neg (Ne.symm other)

theorem eq_of_hidden {x : ThreadId} (hidden : (ofThread u s turns).hidden x ≠ none) : x = u := by
  by_contra other
  exact hidden (if_neg other)

theorem fits_ofThread (inside : u.index < w.threads.size)
    (waits : turns = true → w.waits u = true) : (ofThread u s turns).Fits w where
  known x hidden := by rwa [eq_of_hidden hidden]
  waits taken x hidden := by
    rw [eq_of_hidden hidden]
    exact waits taken

end Veil

theorem Arena.modify_eq_mapRefs {kind : ObjectKind} {α : Type} (a : Arena kind α) (r : Ref kind)
    (g : α → α) : a.modify r g = a.mapRefs fun i x => if i = r then g x else x := by
  obtain ⟨j⟩ := r
  simp only [modify, mapRefs]
  congr 1
  apply Array.ext
  · simp
  · intro i _ _
    by_cases e : i = j
    · simp [Array.getElem_modify, e]
    · simp [Array.getElem_modify, e, Ne.symm e]

theorem World.under_ofThread {w : World} {u : ThreadId} {s : Slots} {turns : Bool} :
    w.under (.ofThread u s turns) = w.withSlots u s := by
  have threads : w.threads.mapRefs (Veil.ofThread u s turns).cover =
      w.threads.modify u (·.withSlots s) := by
    rw [Arena.modify_eq_mapRefs]
    congr 1
    funext x th
    simp only [Veil.cover, Veil.ofThread]
    split <;> simp_all
  have journal : (Veil.ofThread u s turns).journal w.journal = w.journal := by
    rw [← Array.toList_inj, Veil.toList_journal]
    exact Entry.allUpTo_trace _
  have remote : (Veil.ofThread u s turns).remoteJournal w.remoteJournal = w.remoteJournal := by
    simp [Veil.remoteJournal, Veil.ofThread, Entry.isWithin_trace, Entry.upTo_trace]
  have least : (Veil.ofThread u s turns).limit.least w.verbosity = w.verbosity :=
    Verbosity.trace_least
  rw [World.under, threads, journal, remote, least]
  rfl

theorem World.slots_withSlots {w : World} {u : ThreadId} {s : Slots}
    (inside : u.index < w.threads.size) :
    ((w.withSlots u s).thread u).slots = s := by
  rw [withSlots, thread, World.onThread, Arena.get_modify inside, if_pos rfl]
  rfl

theorem World.withSlots_slots (w : World) (u : ThreadId) :
    w.withSlots u (w.thread u).slots = w := by
  have same : w.threads.modify u (·.withSlots (w.thread u).slots) = w.threads :=
    Arena.modify_eq_self rfl
  exact congrArg (fun threads => { w with threads }) same

/-! ## Actions that keep off the slots of others -/

/-- What a thread does neither depends on the slots of another thread nor changes them. -/
structure Act.KeepsOff {α : Type} (m : Act α) (t u : ThreadId) (w : World) : Prop where
  /-- Were the slots of the other thread different, they would stay so, and all else would happen in
  the same way. -/
  unread : ∀ s, m t (w.withSlots u s) = ((m t w).1, (m t w).2.withSlots u s)
  /-- They stay what they are. -/
  unchanged : ((m t w).2.thread u).slots = (w.thread u).slots
  /-- The other thread is still there. -/
  there : u.index < (m t w).2.threads.size

/-- An action that keeps off the slots of all threads but the one that performs it; or at least of
those of which something is known. -/
def Act.Apart {α : Type} (m : Act α) (known : World → ThreadId → Bool := fun _ _ => true) : Prop :=
  ∀ ⦃t u : ThreadId⦄ ⦃w : World⦄, u ≠ t → u.index < w.threads.size → known w u = true →
    m.KeepsOff t u w

namespace Act

variable {α : Type} {seen : α → α} {m : Act α} {t u : ThreadId} {w : World} {turns : Bool}

theorem KeepsOff.of_shows (shows : ∀ s, m.Shows (.ofThread u s turns) seen m)
    (plain : ∀ a, seen a = a) (other : u ≠ t) (inside : u.index < w.threads.size)
    (waits : turns = true → w.waits u = true) : m.KeepsOff t u w := by
  have both (s : Slots) := shows s (Veil.hidden_ofThread other) (Veil.fits_ofThread inside waits)
  have unread (s : Slots) : m t (w.withSlots u s) = ((m t w).1, (m t w).2.withSlots u s) := by
    have same := (both s).1
    rw [under_ofThread, under_ofThread, (funext plain : seen = id)] at same
    rw [same]
    cases (m t w).1 <;> rfl
  have there : u.index < (m t w).2.threads.size :=
    (both (w.thread u).slots).2.known u (by simp [Veil.ofThread])
  refine ⟨unread, ?_, there⟩
  have own := congrArg Prod.snd (unread (w.thread u).slots)
  rw [withSlots_slots] at own
  rw [own, slots_withSlots there]

theorem Apart.of_shows (shows : ∀ u s, m.Shows (.ofThread u s false) seen m)
    (plain : ∀ a, seen a = a) : m.Apart :=
  fun _ u _ other inside _ => .of_shows (shows u) plain other inside nofun

/-- Loop threads may take turns meanwhile; the others wait. -/
theorem Apart.of_turns (shows : ∀ u s, m.Shows (.ofThread u s true) seen m)
    (plain : ∀ a, seen a = a) : m.Apart World.waits :=
  fun _ u _ other inside waits => .of_shows (shows u) plain other inside fun _ => waits

theorem Apart.shows (apart : m.Apart) (plain : ∀ a, seen a = a) (u : ThreadId) (s : Slots) :
    m.Shows (.ofThread u s false) seen m := by
  intro t w own fits
  have hidden : (Veil.ofThread u s false).hidden u ≠ none := by simp [Veil.ofThread]
  have other : u ≠ t := fun same => hidden (same ▸ own)
  have off := apart other (fits.known u hidden) rfl
  rw [under_ofThread, under_ofThread]
  refine ⟨?_, Veil.fits_ofThread off.there nofun⟩
  rw [off.unread, (funext plain : seen = id)]
  cases (m t w).1 <;> rfl

end Act

/-! ## Calls that are run elsewhere -/

open Holding Moment Act

/-- A call that was built on one thread and that another thread is about to run. In between, any
threads may have done anything. -/
structure Carried (u t : ThreadId) (b : CallBuilder) (c : CallId) (w₀ w : World)
    (H : Multiset Holding) : Prop where
  journey : ∃ verbosity before later H₀, Course (.start verbosity) before ⟨w₀, H₀⟩ ∧
    Course ⟨(w₀.build u b).2, share (.call c) ::ₘ H₀⟩ later ⟨w, H⟩
  built : (w₀.build u b).1 = c
  builder : u.index < w₀.threads.size
  handle : ∀ k ∈ b.handle.shares, 0 < w₀.shareCount k
  context : ∀ s, b.context = some s → ∀ k ∈ s.shares, 0 < w₀.shareCount k
  runner : t.index < w.threads.size
  used : 0 < w.calls.shares c
  live : w.callExists c = true

namespace Carried

variable {u t : ThreadId} {b : CallBuilder} {c : CallId} {w₀ w : World} {H : Multiset Holding}
  {code : Embedder} {args : Option CallArgs}

/-- The call is bound to what was ambient where it was built, or to what its builder was given. -/
theorem arrived (h : Carried u t b c w₀ w H) : Ready ⟨w, H⟩ t ∧
    (w.contextStack t).Numbered ∧ (w.calls.get c).context = b.context.getD (w₀.ambient u) := by
  obtain ⟨_, _, _, _, course, lasting⟩ := h.journey
  exact bound_of_build course h.builder h.handle h.context h.built lasting h.runner

/-- The callable is entered under that context. -/
theorem ambient_entered (h : Carried u t b c w₀ w H) :
    (w.entered t c).ambient t = b.context.getD (w₀.ambient u) := by
  obtain ⟨ready, _, bound⟩ := h.arrived
  rw [World.ambient, contextStack_entered ready h.used h.live, ContextStack.ambient_install, bound]

/-- What the run makes of the installs of its thread, after what callable and sink have made of
them. -/
theorem contextStack_left (h : Carried u t b c w₀ w H) (lawful : code.Lawful)
    {w₁ : World} (invoked : (invokeFor code c (w.callableOf c) args t (w.entered t c)).2 = w₁)
    (few : (w₁.contextStack t).installs < 2 ^ 64) :
    (run code c args t w).2.contextStack t =
      if (w.runGuard t).token ∈ (w₁.contextStack t).active then
        { w₁.contextStack t with ambient := w.ambient t, active := (w.contextStack t).active }
      else w₁.contextStack t := by
  obtain ⟨ready, numbered, _⟩ := h.arrived
  have after := ready_invoked lawful args ready h.used h.live
  obtain ⟨ops, invocation⟩ := lawful_invokeFor lawful (w.callableOf c) args (c := c)
    (ready.after (course_entered ready h.used h.live))
  rw [invoked] at after invocation
  obtain ⟨fresh, rests⟩ := rests_of_course ready numbered h.used h.live invocation few
  rw [run_of_exists h.live, invoked, contextStack_exited ready h.used h.live after]
  split
  · next active => exact rests.dropGuard_eq fresh active
  · next ended => rw [ContextStack.dropGuard_of_not_mem ended]

end Carried

/-! ## Threads are apart -/

theorem ContextStack.foldl_of_spares {u : ThreadId} {ops : List Operation} (s : ContextStack)
    (spares : ∀ op ∈ ops, op.Spares u) : ops.foldl (ContextStack.after u) s = s := by
  induction ops with
  | nil => rfl
  | cons op ops ih =>
    rw [List.foldl_cons, ContextStack.after_of_spares (spares op (List.mem_cons_self ..))]
    exact ih fun op' member => spares op' (List.mem_cons_of_mem _ member)

/-- That threads affect each other through shared objects only, and what calls take along. -/
structure ThreadsApart : Prop where
  /-- An operation of the library changes the slots of one thread at most. -/
  operation : ∀ {m m' ops}, Step m ops m' → ∃ t, m.world.Frames t m'.world
  /-- Whatever all threads do, the installs of a thread are changed by its own operations only. -/
  installs : ∀ {m m' ops u}, m.Consistent → Course m ops m' → (∀ op ∈ ops, op.Spares u) →
    m'.world.contextStack u = m.world.contextStack u
  /-- A run keeps off the slots of other threads if its callable and its sink do. -/
  run : ∀ code : Embedder, (∀ f args, (code.invoke f args).Apart) →
    (∀ sink d, (code.emit sink d).Apart) → ∀ c args, (Act.run code c args).Apart ∧
      (Act.runStrong code c args).Apart ∧ (Act.runWeak code c args).Apart
  /-- So does scheduling, also if it fails. -/
  schedule : ∀ s c weakly args, (Act.schedule s c weakly args).Apart
  /-- So does a loop that runs its tasks. -/
  tasks : ∀ runTask : RunTask, (∀ task, Apart (runTask task)) →
    ∀ l limit, (Act.runTasks runTask l limit).Apart
  /-- So does every command that does not let loop threads take turns. -/
  command : ∀ self : Performer, (∀ command, Apart (self command)) →
    ∀ command : Command, command.letsTurns = false → (Act.interpret self command).Apart
  /-- While loop threads take turns, with all that commands in their tasks do, each other thread
  that waits is left alone. -/
  program : ∀ depth command, (Act.performer depth command).Apart World.waits
  /-- A turn leaves all other threads alone that wait, also the one in whose command it is taken. -/
  turn : ∀ depth l, (Act.turn (Act.runTask (Act.performer depth)) l).Apart World.waits
  /-- A call enters its callable under the context that it was built under, on whatever thread. -/
  entered : ∀ {u t b c w₀ w H}, Carried u t b c w₀ w H →
    (w.entered t c).ambient t = b.context.getD (w₀.ambient u)
  /-- However the run ends, what was ambient on its thread comes back, with all installs, if the
  run's own install is active until then; otherwise the run leaves the installs as they are. -/
  left : ∀ {u t b c w₀ w H} (code : Embedder) (args : Option CallArgs), Carried u t b c w₀ w H →
    code.Lawful → ∀ w₁, (invokeFor code c (w.callableOf c) args t (w.entered t c)).2 = w₁ →
    (w₁.contextStack t).installs < 2 ^ 64 →
    if (w.runGuard t).token ∈ (w₁.contextStack t).active then
      (Act.run code c args t w).2.ambient t = w.ambient t ∧
      ((Act.run code c args t w).2.contextStack t).active = (w.contextStack t).active
    else (Act.run code c args t w).2.contextStack t = w₁.contextStack t

theorem threads_are_apart : ThreadsApart where
  operation step := step.frames
  installs consistent course spares := by
    rw [(course.follows consistent).contextStack]
    exact ContextStack.foldl_of_spares _ spares
  run code invoked emitted c args := by
    have unaware u s : code.Unaware (.ofThread u s false) :=
      ⟨fun f args => (invoked f args).shows (fun _ => rfl) u s,
        fun sink d => (emitted sink d).shows (fun _ => rfl) u s⟩
    exact ⟨.of_shows (fun u s => unaware_run (unaware u s) c args) fun _ => rfl,
      .of_shows (fun u s => unaware_runStrong (unaware u s) c args) fun _ => rfl,
      .of_shows (fun u s => unaware_runWeak (unaware u s) c args) fun _ => rfl⟩
  schedule s c weakly args := .of_shows (fun _ _ => unaware_schedule s c weakly args) fun _ => rfl
  tasks runTask apart l limit := .of_shows
    (fun u s => unaware_runTasks (fun task => (apart task).shows (fun _ => rfl) u s) l limit)
      fun _ => rfl
  command self apart command plain := by
    have unaware u s : self.Unaware (.ofThread u s false) :=
      fun command => (apart command).shows Reply.upTo_trace u s
    refine .of_shows (fun u s => answers_interpret (unaware u s) fun takes => ?_) Reply.upTo_trace
    rw [plain] at takes
    contradiction
  program depth command := .of_turns (fun _ _ => performer_unaware rfl depth command)
    Reply.upTo_trace
  turn depth l := .of_turns
    (fun _ _ => unaware_turn (runTask_unaware (performer_unaware rfl depth)) l) fun _ => rfl
  entered carried := carried.ambient_entered
  left code args carried lawful w₁ invoked few := by
    have stack := carried.contextStack_left lawful invoked few
    rw [World.ambient, stack]
    split
    · exact ⟨rfl, rfl⟩
    · rfl

namespace Abroad

/-- What the callable of a call does: it leaves a guard behind and fails, or it gives up the guard
of an install that it found. -/
def body (intrudes : Bool) : Script :=
  if intrudes then [("drop_guard", .dropGuard "gate")] else [("install", .install "room" "door")]

/-- There are two contexts and a callable. -/
def prepare (intrudes : Bool) : Act Unit := do
  let _ ← newContext "hall" "hall"
  let _ ← newContext "room" "room"
  let _ ← newCallable "visit" none (body intrudes) 1
    [if intrudes then .normal else .fail { description := "lost" }]

/-- The call is bound to the second context. -/
def builder : CallBuilder where
  handle := .strong ⟨0⟩
  context := some (.of ⟨1⟩)

def home (intrudes : Bool) : World :=
  (prepare intrudes Session.driver (Session.start none)).2

/-- There is a new thread. -/
def crossing (intrudes : Bool) : World :=
  let w := ((home intrudes).build Session.driver builder).2
  { w with threads := w.threads.push { name := some "guest" } }

/-- On the new thread the first context is ambient. -/
def world (intrudes : Bool) : World :=
  (installNamed "hall" "gate" ⟨1⟩ (crossing intrudes)).2

theorem prepare_lawful (intrudes : Bool) : (prepare intrudes).Lawful := by
  apply (lawful_newContext _ _).bind
  intro _
  apply (lawful_newContext _ _).bind
  intro _
  exact (lawful_newCallable _ _ _ _ _).bind fun _ => .pure ()

theorem carried (intrudes : Bool) : Carried Session.driver ⟨1⟩ builder ⟨0⟩ (home intrudes)
    (world intrudes) {share (.call ⟨0⟩)} := by
  obtain ⟨before, course⟩ := prepare_lawful intrudes (Session.ready_start none)
  have handle : ∀ k ∈ builder.handle.shares, 0 < (home intrudes).shareCount k := by
    cases intrudes <;> decide
  have context : ∀ k ∈ (builder.context.getD ((home intrudes).ambient Session.driver)).shares,
      0 < (home intrudes).shareCount k := by
    cases intrudes <;> decide
  have built : ((home intrudes).build Session.driver builder).1 = ⟨0⟩ := by
    cases intrudes <;> decide
  have build : Step ⟨home intrudes, 0⟩ [] ⟨((home intrudes).build Session.driver builder).2,
      {share (.call ⟨0⟩)}⟩ := by
    rw [← built]
    exact .build (by cases intrudes <;> decide) handle context
  have cross : Step ⟨((home intrudes).build Session.driver builder).2, {share (.call ⟨0⟩)}⟩ []
      ⟨crossing intrudes, {share (.call ⟨0⟩)}⟩ := .newThread (some "guest")
  have ready : Ready ⟨crossing intrudes, {share (.call ⟨0⟩)}⟩ ⟨1⟩ :=
    ⟨((course.step build).step cross).consistent (consistent_start none), by
      cases intrudes <;> decide⟩
  obtain ⟨later, installed⟩ := lawful_installNamed (M := .course) "hall" "gate" ready
  have installed : Course _ later ⟨world intrudes, _⟩ := installed
  exact {
    journey := ⟨none, before, _, 0, course, (Course.single cross).trans installed⟩
    built := built
    builder := by cases intrudes <;> decide
    handle := handle
    context := fun s given => by
      obtain rfl := Option.some.inj given
      exact context
    runner := by cases intrudes <;> decide
    used := by cases intrudes <;> decide
    live := by cases intrudes <;> decide }

/-- The callable fails and leaves a guard behind: what was ambient on the new thread is ambient
there again. -/
theorem context_after_visit :
    ((world false).entered ⟨1⟩ ⟨0⟩).ambient ⟨1⟩ = .of ⟨1⟩ ∧
    (run (embedder (performer 2)) ⟨0⟩ none ⟨1⟩ (world false)).2.ambient ⟨1⟩ = .of ⟨0⟩ ∧
    ((run (embedder (performer 2)) ⟨0⟩ none ⟨1⟩ (world false)).2.contextStack ⟨1⟩).active =
      [0] := by
  have left := threads_are_apart.left (embedder (performer 2)) none (carried false)
    (embedder_lawful (performer_lawful 2)) _ rfl (by decide)
  rw [if_pos (by decide)] at left
  exact ⟨threads_are_apart.entered (carried false), left⟩

/-- If the callable gives up the guard of the install that was active on the new thread, then
nothing is ambient there when the run is over; so what was ambient before does not come back on
every way out. -/
theorem context_after_intrusion :
    (world true).ambient ⟨1⟩ = .of ⟨0⟩ ∧
    ((world true).entered ⟨1⟩ ⟨0⟩).ambient ⟨1⟩ = .of ⟨1⟩ ∧
    (run (embedder (performer 2)) ⟨0⟩ none ⟨1⟩ (world true)).1 = .ok .completed ∧
    (run (embedder (performer 2)) ⟨0⟩ none ⟨1⟩ (world true)).2.ambient ⟨1⟩ = .empty ∧
    ¬ ∀ u t b c w₀ w H, Carried u t b c w₀ w H → ∀ code : Embedder, code.Lawful → ∀ args,
      (run code c args t w).2.ambient t = w.ambient t := by
  refine ⟨by decide, by decide, by decide, by decide, fun law => ?_⟩
  have restored := law _ _ _ _ _ _ _ (carried true) (embedder (performer 2))
    (embedder_lawful (performer_lawful 2)) none
  exact absurd restored (by decide)

end Abroad

end DeferredCalls
