import DeferredCalls.Proofs.Manner
import DeferredCalls.Proofs.Telling

/-!
# Lawful actions

An action is lawful if all that it does, on whatever thread and at whatever moment, is a course of
operations after which it has nothing more in its hands than before, whether it panics or not. In
particular it gives up no guard and no share that others have in theirs.

The rules below derive that an action is lawful from its parts. A part that is lawful only at some
moments, such as the use of an object that has to be in use, is treated at the moment at which it is
performed.

All this holds in any manner of execution. Where none is mentioned, all courses count.
-/

namespace DeferredCalls

open Holding

namespace Moment

/-- Whether a course leads from one moment to another. -/
def Reaches (m m' : Moment) (M : Manner := .course) : Prop :=
  ∃ ops, M.admits m ops m'

/-- A moment at which a thread can act. -/
structure Ready (m : Moment) (t : ThreadId) : Prop where
  consistent : m.Consistent
  inside : t.index < m.world.threads.size

variable {M : Manner} {m m' m'' : Moment} {t u : ThreadId} {w w' : World} {H H' : Multiset Holding}

protected theorem Reaches.refl (m : Moment) : m.Reaches m M :=
  ⟨[], M.refl m⟩

protected theorem Reaches.trans (first : m.Reaches m' M) (second : m'.Reaches m'' M) :
    m.Reaches m'' M := by
  obtain ⟨ops, first⟩ := first
  obtain ⟨more, second⟩ := second
  exact ⟨ops ++ more, M.trans first second⟩

theorem reaches_of_course {ops : List Operation} (course : Course m ops m')
    (resting : Resting ops) : m.Reaches m' M :=
  ⟨ops, M.admits_of_course course resting⟩

theorem reaches_of_step {ops : List Operation} (step : Step m ops m')
    (resting : Resting ops) : m.Reaches m' M :=
  reaches_of_course (.single step) resting

/-- Who can act can act after a course. -/
theorem Ready.after {ops : List Operation} (ready : m.Ready t) (course : Course m ops m') :
    m'.Ready t where
  consistent := course.consistent ready.consistent
  inside := Nat.lt_of_lt_of_le ready.inside (course.follows ready.consistent).threadCount

theorem Ready.reaches (ready : m.Ready t) (reaches : m.Reaches m' M) : m'.Ready t := by
  obtain ⟨ops, admitted⟩ := reaches
  exact ready.after (M.sound admitted)

/-- A share in hand can be given up. -/
theorem reaches_release {s : Share} (ready : Ready ⟨w, share s ::ₘ H⟩ t) :
    Reaches ⟨w, share s ::ₘ H⟩ ⟨w.release t s, H⟩ M :=
  reaches_of_step (.release ready.inside) (by simp)

theorem Ready.on (ready : m.Ready t) (inside : u.index < m.world.threads.size) : m.Ready u :=
  ⟨ready.consistent, inside⟩

/-- Who has the same duties finds the same calls on the stacks. -/
theorem Consistent.callStack_congr (before : m.Consistent) (after : m'.Consistent)
    (same : ∀ t i c, m'.held.count (entry t i c) = m.held.count (entry t i c)) (t : ThreadId) :
    m'.world.callStack t = m.world.callStack t := by
  apply List.ext_getElem?
  intro i
  have found : ∀ c, (m'.world.callStack t)[i]? = some c ↔ (m.world.callStack t)[i]? = some c := by
    intro c
    have both := (after.entries t i c).symm.trans ((same t i c).trans (before.entries t i c))
    split at both <;> split at both <;> simp_all
  exact Option.ext found

theorem Consistent.callStack_eq (before : Moment.Consistent ⟨w, H⟩)
    (after : Moment.Consistent ⟨w', H⟩) (t : ThreadId) : w'.callStack t = w.callStack t :=
  before.callStack_congr after (fun _ _ _ => rfl) t

/-! ## Quiet changes -/

/-- A change of what a world knows besides its objects. -/
theorem Consistent.agrees_beside (h : Moment.Consistent ⟨w, H⟩) (sinks : Arena .sink Sink)
    (tickets : Array (Option Bool)) (journal : Array Entry)
    (remoteJournal : Array (String × Entry)) (allowance : Nat) :
    w.Agrees { w with sinks, tickets, journal, remoteJournal, allowance } :=
  ⟨fun s => by cases s <;> rfl, rfl, rfl, rfl, rfl, rfl, fun t => ⟨_, _, rfl⟩, h.known.handle,
    h.known.callable⟩

theorem Consistent.note (h : Moment.Consistent ⟨w, H⟩) (t : ThreadId) (e : Entry) :
    Course ⟨w, H⟩ [] ⟨w.note t e, H⟩ := by
  have keeps := w.keeps_note t e
  refine .single (.quiet ?_ (by rw [keeps.named]))
  obtain ⟨journal, remoteJournal, eq⟩ := w.note_eq t e
  rw [eq]
  exact h.agrees_beside ..

theorem Consistent.step_log (h : Moment.Consistent ⟨w, H⟩) (t : ThreadId) (level : Level)
    (message : String) (fields : List (String × FieldValue)) :
    Step ⟨w, H⟩ [] ⟨w.log t level message fields, H⟩ := by
  have keeps := w.keeps_log t level message fields
  refine .quiet ?_ (by rw [keeps.named])
  obtain ⟨journal, remoteJournal, eq⟩ := w.log_eq t level message fields
  rw [eq]
  exact h.agrees_beside ..

theorem Consistent.log (h : Moment.Consistent ⟨w, H⟩) (t : ThreadId) (level : Level)
    (message : String) (fields : List (String × FieldValue)) :
    Course ⟨w, H⟩ [] ⟨w.log t level message fields, H⟩ :=
  .single (h.step_log ..)

end Moment

open Moment

namespace Act

variable {M : Manner} {α β : Type} {t u : ThreadId} {w : World} {H K H' : Multiset Holding}

/-- An action that is a course of operations whenever it is performed, and has nothing more in its
hands afterwards than before. -/
def Lawful (m : Act α) (M : Manner := .course) : Prop :=
  ∀ ⦃t : ThreadId⦄ ⦃w : World⦄ ⦃H : Multiset Holding⦄, Ready ⟨w, H⟩ t →
    Reaches ⟨w, H⟩ ⟨(m t w).2, H⟩ M

theorem reaches_bind {m : Act α} {f : α → Act β} (first : Reaches ⟨w, H⟩ ⟨(m t w).2, K⟩ M)
    (rest : ∀ a, (m t w).1 = .ok a → Reaches ⟨(m t w).2, K⟩ ⟨(f a t (m t w).2).2, H'⟩ M)
    (panicked : ∀ p, (m t w).1 = .error p → K = H') :
    Reaches ⟨w, H⟩ ⟨((m >>= f) t w).2, H'⟩ M := by
  rw [bind_apply]
  match result : m t w with
  | (.ok a, w') =>
    rw [result] at first rest
    exact first.trans (rest a rfl)
  | (.error p, w') =>
    rw [result] at first panicked
    obtain rfl := panicked p rfl
    exact first

namespace Lawful

variable {m : Act α} {f : α → Act β}

protected theorem pure (a : α) : (pure a : Act α).Lawful M :=
  fun _ _ _ _ => .refl _

protected theorem panic (p : Panic) : (panic p : Act α).Lawful M :=
  fun _ _ _ _ => .refl _

protected theorem read (g : ThreadId → World → α) : (read g).Lawful M :=
  fun _ _ _ _ => .refl _

protected theorem bind (first : m.Lawful M) (rest : ∀ a, (f a).Lawful M) : (m >>= f).Lawful M := by
  intro t w H ready
  refine reaches_bind (first ready) (fun a _ => ?_) fun _ _ => rfl
  exact rest a (ready.reaches (first ready))

protected theorem attempt (h : m.Lawful M) : (attempt m).Lawful M :=
  fun _ _ _ ready => h ready

/-- A look at the world before an action that may depend on what was seen. -/
protected theorem read_bind {g : ThreadId → World → β} {k : β → Act α}
    (rest : ∀ ⦃t w H⦄, Ready ⟨w, H⟩ t → Reaches ⟨w, H⟩ ⟨(k (g t w) t w).2, H⟩ M) :
    (read g >>= k).Lawful M :=
  rest

protected theorem note (e : ThreadId → World → Entry) : (note e).Lawful M :=
  fun _ _ _ ready => reaches_of_course (ready.consistent.note _ _) (by simp)

protected theorem log (level : Level) (message : String)
    (fields : World → List (String × FieldValue)) : (log level message fields).Lawful M :=
  fun _ _ _ ready => reaches_of_course (ready.consistent.log _ _ _ _) (by simp)

protected theorem each {f : β → Act Unit} (h : ∀ b, (f b).Lawful M) (bs : List β) :
    (each f bs).Lawful M := by
  induction bs with
  | nil => exact .pure ()
  | cons b bs ih => exact (h b).bind fun _ => ih

protected theorem ite {p : Prop} [Decidable p] {k : Act α} (yes : p → m.Lawful M)
    (no : ¬p → k.Lawful M) : (if p then m else k).Lawful M := by
  split
  · next h => exact yes h
  · next h => exact no h

end Lawful

/-! ## Cleanups -/

/-- An action that holds a share while another one is performed. -/
theorem reaches_holding {s : Share} {m : Act α} (ready : Ready ⟨w, H⟩ t)
    (alive : 0 < w.shareCount s)
    (body : Reaches ⟨w.acquire s, share s ::ₘ H⟩ ⟨(m t (w.acquire s)).2, share s ::ₘ H⟩ M) :
    Reaches ⟨w, H⟩ ⟨(holding s m t w).2, H⟩ M := by
  have first : Reaches ⟨w, H⟩ ⟨w.acquire s, share s ::ₘ H⟩ M :=
    reaches_of_step (.acquire alive) (by simp)
  have after := ready.reaches (first.trans body)
  exact (first.trans body).trans (reaches_release after)

theorem reaches_installing {s : Snapshot} {m : Act α} (ready : Ready ⟨w, H⟩ t)
    (alive : ∀ k ∈ s.shares, 0 < w.shareCount k)
    (body : Reaches ⟨w.install t s, guard t (w.contextStack t).nextGuard ::ₘ H⟩
      ⟨(m t (w.install t s)).2, guard t (w.contextStack t).nextGuard ::ₘ H⟩ M) :
    Reaches ⟨w, H⟩ ⟨(installing s m t w).2, H⟩ M := by
  have first : Reaches ⟨w, H⟩ ⟨w.install t s, guard t (w.contextStack t).nextGuard ::ₘ H⟩ M :=
    reaches_of_step (.install ready.inside alive) (by simp)
  have after := ready.reaches (first.trans body)
  exact (first.trans body).trans (reaches_of_step (.dropGuard after.inside) (by simp))

end Act

end DeferredCalls
