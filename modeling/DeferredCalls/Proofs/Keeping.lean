import DeferredCalls.Proofs.Lawful
import Mathlib.Tactic.Abel

/-!
# Keeping objects is a course

What is kept in a drawer is held by the world. Putting an object into a drawer takes it out of
somebody's hands, and taking an object out puts it in hand; both are quiet. Giving an object up is
up to the drawer, and has to use up what the object holds.
-/

namespace DeferredCalls

open Holding Moment

variable {α : Type}

/-- A drawer whose objects hold what they are said to hold. Some objects can be kept only if they
are known to the world. -/
structure Drawer.Accounted (d : Drawer α) (hold : ThreadId → α → Multiset Holding)
    (known : World → α → Prop) : Prop where
  look_known : ∀ ⦃t w H⦄, Ready ⟨w, H⟩ t → ∀ a ∈ (d.look t w).values, known w a
  fill : ∀ ⦃t w H⦄, Ready ⟨w, H⟩ t → ∀ table : NameTable α,
    (∀ a ∈ table.values, known w a) → w.Agrees (d.fill t w table)
  named : ∀ ⦃t w⦄, t.index < w.threads.size → ∀ table : NameTable α,
    (d.fill t w table).named + (d.look t w).total (hold t) = w.named + table.total (hold t)
  discard : ∀ ⦃M t w H a⦄, Ready ⟨w, hold t a + H⟩ t →
    Reaches ⟨w, hold t a + H⟩ ⟨d.discard t w a, H⟩ M

namespace NameTable

variable {t : NameTable α} {name : String} {a b : α}

theorem mem_values_insert (h : b ∈ (t.insert name a).values) : b = a ∨ b ∈ t.values := by
  obtain ⟨e, member, rfl⟩ := List.mem_map.mp h
  rcases mem_insertEntry member with rfl | old
  · exact .inl rfl
  · exact .inr (List.mem_map_of_mem old)

theorem mem_values_erase (h : b ∈ (t.erase name).values) : b ∈ t.values := by
  obtain ⟨e, member, rfl⟩ := List.mem_map.mp h
  exact List.mem_map_of_mem (List.mem_of_mem_filter member)

end NameTable

namespace Drawer.Accounted

variable {M : Manner} {d : Drawer α} {hold : ThreadId → α → Multiset Holding}
  {known : World → α → Prop} {t : ThreadId} {w : World} {H : Multiset Holding} {name : String}
    {a : α}

/-- Who takes an object out of a drawer has in hand what it holds. -/
theorem named_take (acc : d.Accounted hold known) (inside : t.index < w.threads.size)
    (found : d.find? t w name = some a) : w.named = (d.take name t w).named + hold t a := by
  have filled := acc.named inside ((d.look t w).erase name)
  have apart := NameTable.total_erase (d.look t w) name (hold t)
  rw [show (d.look t w).get? name = some a from found, Option.map_some, Option.getD_some] at apart
  apply add_right_cancel (b := ((d.look t w).erase name).total (hold t))
  rw [← filled, ← apart, Drawer.take]
  abel

/-- What a kept object holds is held under names. -/
theorem mem_named (acc : d.Accounted hold known) (inside : t.index < w.threads.size)
    (found : d.find? t w name = some a) {h : Holding} (member : h ∈ hold t a) : h ∈ w.named := by
  rw [acc.named_take inside found]
  exact Multiset.mem_add.mpr (.inr member)

theorem known_of_find? (acc : d.Accounted hold known) (ready : Ready ⟨w, H⟩ t)
    (found : d.find? t w name = some a) : known w a :=
  acc.look_known ready a (NameTable.mem_values_of_get? found)

/-- Putting an object in a drawer uses up what it holds. -/
theorem reaches_put (acc : d.Accounted hold known) (name : String)
    (ready : Ready ⟨w, hold t a + H⟩ t) (fits : known w a) :
    Reaches ⟨w, hold t a + H⟩ ⟨d.put name a t w, H⟩ M := by
  have agrees : w.Agrees (d.fill t w ((d.look t w).insert name a)) := by
    apply acc.fill ready
    intro b member
    rcases NameTable.mem_values_insert member with rfl | old
    · exact fits
    · exact acc.look_known ready b old
  have filled := acc.named ready.inside ((d.look t w).insert name a)
  have inserted := NameTable.total_insert (d.look t w) name a (hold t)
  have moved : ∀ old, (((d.look t w).get? name).map (hold t)).getD 0 = old →
      (d.fill t w ((d.look t w).insert name a)).named + (old + H) = w.named + (hold t a + H) := by
    rintro old rfl
    apply add_right_cancel (b := (d.look t w).total (hold t))
    calc _ = ((d.fill t w ((d.look t w).insert name a)).named + (d.look t w).total (hold t)) +
          (((d.look t w).get? name).map (hold t)).getD 0 + H := by abel
      _ = w.named + (((d.look t w).insert name a).total (hold t) +
          (((d.look t w).get? name).map (hold t)).getD 0) + H := by rw [filled, add_assoc w.named]
      _ = _ := by rw [inserted]; abel
  rw [Drawer.put]
  match found : d.find? t w name with
  | none =>
    have before := moved 0 (by rw [show (d.look t w).get? name = none from found]; rfl)
    rw [zero_add] at before
    exact reaches_of_step (.quiet agrees before) (by simp)
  | some b =>
    have before := moved (hold t b) (by rw [show (d.look t w).get? name = some b from found]; rfl)
    have first : Reaches ⟨w, hold t a + H⟩
        ⟨d.fill t w ((d.look t w).insert name a), hold t b + H⟩ M :=
      reaches_of_step (.quiet agrees before) (by simp)
    exact first.trans (acc.discard (ready.reaches first))

/-- Objects that hold nothing are put in a drawer by whoever knows them. -/
theorem reaches_keep (acc : d.Accounted (fun _ _ => 0) known) (name : String)
    (ready : Ready ⟨w, H⟩ t) (fits : known w a) : Reaches ⟨w, H⟩ ⟨d.put name a t w, H⟩ M := by
  rw [← zero_add H] at ready
  have kept := acc.reaches_put (M := M) name ready fits
  rwa [zero_add] at kept

theorem reaches_drop (acc : d.Accounted hold known) (name : String) (ready : Ready ⟨w, H⟩ t) :
    Reaches ⟨w, H⟩ ⟨d.drop name t w, H⟩ M := by
  rw [Drawer.drop]
  match found : d.find? t w name with
  | none => exact .refl _
  | some a =>
    have agrees : w.Agrees (d.take name t w) := by
      apply acc.fill ready
      intro b member
      exact acc.look_known ready b (NameTable.mem_values_erase member)
    have taken := acc.named_take ready.inside found
    have first : Reaches ⟨w, H⟩ ⟨d.take name t w, hold t a + H⟩ M :=
      reaches_of_step (.quiet agrees (by rw [taken, add_assoc])) (by simp)
    exact first.trans (acc.discard (ready.reaches first))

theorem reaches_clear (acc : d.Accounted hold known) (ready : Ready ⟨w, H⟩ t) :
    Reaches ⟨w, H⟩ ⟨d.clear t w, H⟩ M := by
  rw [Drawer.clear]
  generalize (d.look t w).names = names
  induction names generalizing w with
  | nil => exact .refl _
  | cons name names ih =>
    have first := acc.reaches_drop (M := M) name ready
    exact first.trans (ih (ready.reaches first))

end Drawer.Accounted

/-! ## The drawers of a session -/

namespace Drawer

/-- Every object can be kept. -/
def anything (_ : World) (_ : α) : Prop := True

/-- A drawer that all threads share. -/
theorem accounted_common {look : Names → NameTable α} {fill : Names → NameTable α → Names}
    {discard : ThreadId → World → α → World} {hold : α → Multiset Holding}
    (named : ∀ n table, (fill n table).holdings + (look n).total hold =
      n.holdings + table.total hold)
    (loopHandles : ∀ n table, (fill n table).loopHandles = n.loopHandles)
    (handles : ∀ n table, (fill n table).handles = n.handles)
    (discards : ∀ ⦃M t w H a⦄, Ready ⟨w, hold a + H⟩ t →
      Reaches ⟨w, hold a + H⟩ ⟨discard t w a, H⟩ M) :
    (common look fill discard).Accounted (fun _ => hold) anything where
  look_known _ _ _ _ _ _ := trivial
  fill t w H ready table _ := by
    refine ⟨fun s => by cases s <;> rfl, rfl, rfl, rfl, rfl, rfl, fun t => ⟨_, _, rfl⟩,
      fun l member => ?_, fun h member => ?_⟩
    · rw [common, loopHandles] at member
      exact ready.consistent.known.handle l member
    · rw [common, handles] at member
      exact ready.consistent.known.callable h member
  named t w _ table := by
    simp only [common, World.named]
    rw [add_right_comm, named, add_right_comm]
  discard := discards

/-- A drawer that each thread has for itself. -/
theorem accounted_own {look : Thread → NameTable α} {fill : Thread → NameTable α → Thread}
    {discard : ThreadId → World → α → World} {hold : ThreadId → α → Multiset Holding}
    (named : ∀ t th table, (fill th table).holdings t + (look th).total (hold t) =
      th.holdings t + table.total (hold t))
    (apart : ∀ th table, ∃ guards loops, fill th table = { th with guards, loops })
    (discards : ∀ ⦃M t w H a⦄, Ready ⟨w, hold t a + H⟩ t →
      Reaches ⟨w, hold t a + H⟩ ⟨discard t w a, H⟩ M) :
    (own look fill discard).Accounted hold anything where
  look_known _ _ _ _ _ _ := trivial
  fill t w H ready table _ := by
    refine ⟨fun s => by cases s <;> rfl, rfl, rfl, rfl, rfl, World.size_threads_onThread, ?_,
      ready.consistent.known.handle, ready.consistent.known.callable⟩
    intro u
    simp only [own]
    rw [World.thread_onThread ready.inside]
    split
    · exact apart _ table
    · exact ⟨_, _, rfl⟩
  named t w inside table := by
    have changed := Arena.total_modify (f := fun t c => c.value.holdings t)
      (g := fun th => fill th table) inside
    have here := named t (w.threads.get t) table
    simp only [Arena.cell_value] at changed
    simp only [own, World.named, World.onThread, World.thread]
    apply add_right_cancel (b := (w.threads.get t).holdings t)
    calc _ = w.names.holdings + ((w.threads.modify t fun th => fill th table).total
            (fun t c => c.value.holdings t) + (w.threads.get t).holdings t) +
          (look (w.threads.get t)).total (hold t) := by abel
      _ = w.names.holdings + w.threads.total (fun t c => c.value.holdings t) +
          ((fill (w.threads.get t) table).holdings t +
            (look (w.threads.get t)).total (hold t)) := by rw [changed]; abel
      _ = _ := by rw [here]; abel
  discard := discards

variable {M : Manner} {t : ThreadId} {w : World} {H : Multiset Holding}

theorem reaches_releaseSnapshot {s : Snapshot} (ready : Ready ⟨w, ofShares s.shares + H⟩ t) :
    Reaches ⟨w, ofShares s.shares + H⟩ ⟨w.releaseSnapshot t s, H⟩ M := by
  obtain ⟨_ | c⟩ := s
  · have nothing : ofShares (Snapshot.shares ⟨none⟩) + H = H := zero_add H
    rw [nothing]
    exact .refl _
  · exact reaches_release ready

theorem reaches_releaseHandle {x : Handle} (ready : Ready ⟨w, ofShares x.shares + H⟩ t) :
    Reaches ⟨w, ofShares x.shares + H⟩ ⟨w.releaseHandle t x, H⟩ M := by
  cases x with
  | weak f =>
    have nothing : ofShares (Handle.weak f).shares + H = H := zero_add H
    rw [nothing]
    exact .refl _
  | strong f => exact reaches_release ready

theorem accounted_contexts :
    contexts.Accounted (fun _ s => ofShares s.shares) anything := by
  refine accounted_common (fun n table => ?_) (fun _ _ => rfl) (fun _ _ => rfl) ?_
  · simp only [Names.holdings]
    abel
  · exact fun _ _ _ _ _ => reaches_releaseSnapshot

theorem accounted_callables :
    callables.Accounted (fun _ f => {share (.callable f)}) anything := by
  refine accounted_common (fun n table => ?_) (fun _ _ => rfl) (fun _ _ => rfl) ?_
  · simp only [Names.holdings]
    abel
  · exact fun _ _ _ _ _ => reaches_release

/-- A handle of a callable can be kept if the callable was made. -/
theorem accounted_handles : handles.Accounted (fun _ x => ofShares x.shares)
    fun w x => x.callable.index < w.callables.size where
  look_known _ _ _ ready := ready.consistent.known.callable
  fill t w H ready table known := ⟨fun s => by cases s <;> rfl, rfl, rfl, rfl, rfl, rfl,
    fun t => ⟨_, _, rfl⟩, ready.consistent.known.handle, known⟩
  named t w _ table := by
    simp only [handles, common, World.named, Names.holdings]
    abel
  discard _ _ _ _ _ := reaches_releaseHandle

theorem accounted_calls : calls.Accounted (fun _ c => {share (.call c)}) anything := by
  refine accounted_common (fun n table => ?_) (fun _ _ => rfl) (fun _ _ => rfl) ?_
  · simp only [Names.holdings]
    abel
  · exact fun _ _ _ _ _ => reaches_release

theorem accounted_manuals : manuals.Accounted (fun _ m => {share (.manual m)}) anything := by
  refine accounted_common (fun n table => ?_) (fun _ _ => rfl) (fun _ _ => rfl) ?_
  · simp only [Names.holdings]
    abel
  · exact fun _ _ _ _ _ => reaches_release

/-- Objects that hold nothing are given up without a trace. -/
theorem reaches_nothing : Reaches ⟨w, 0 + H⟩ ⟨w, H⟩ M := by
  rw [zero_add]
  exact .refl _

theorem total_nothing (table : NameTable α) :
    table.total (fun _ => (0 : Multiset Holding)) = 0 := by
  simp [NameTable.total]

theorem accounted_sinks : sinks.Accounted (fun _ _ => 0) anything := by
  refine accounted_common (fun n table => ?_) (fun _ _ => rfl) (fun _ _ => rfl) ?_
  · rw [total_nothing, total_nothing]
    rfl
  · exact fun _ _ _ _ _ _ => reaches_nothing

theorem accounted_weaks : weaks.Accounted (fun _ _ => 0) anything := by
  refine accounted_common (fun n table => ?_) (fun _ _ => rfl) (fun _ _ => rfl) ?_
  · rw [total_nothing, total_nothing]
    rfl
  · exact fun _ _ _ _ _ _ => reaches_nothing

/-- A handle of a loop can be kept if the loop was created. -/
theorem accounted_loopHandles :
    loopHandles.Accounted (fun _ _ => 0) fun w l => l.index < w.loops.size where
  look_known _ _ _ ready := ready.consistent.known.handle
  fill t w H ready table known :=
    ⟨fun s => by cases s <;> rfl, rfl, rfl, rfl, rfl, rfl, fun t => ⟨_, _, rfl⟩, known,
      ready.consistent.known.callable⟩
  named t w _ table := by
    rw [total_nothing, total_nothing]
    rfl
  discard _ _ _ _ _ _ := reaches_nothing

theorem accounted_guards : guards.Accounted (fun t g => {guard t g}) anything := by
  refine accounted_own (fun t th table => ?_) (fun _ _ => ⟨_, _, rfl⟩) ?_
  · simp only [Thread.holdings]
    abel
  · exact fun M t w H g ready => reaches_of_step (.dropGuard ready.inside) (by simp)

theorem accounted_loops : loops.Accounted (fun _ l => {share (.loop l)}) anything := by
  refine accounted_own (fun t th table => ?_) (fun _ _ => ⟨_, _, rfl⟩) ?_
  · simp only [Thread.holdings]
    abel
  · exact fun _ _ _ _ _ => reaches_release

end Drawer

end DeferredCalls
