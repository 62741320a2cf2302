import DeferredCalls.Proofs.Frame

/-!
# Giving up calls

What is given up together with a call, a context or a callable is a matter of shares and of notes.
Threads, loops and all that is kept under names are not touched, and no callable gains a share.
-/

namespace DeferredCalls.World

/-- A change of nothing but the shares of contexts, callables and calls, and of the journals, by
which no call is changed and no callable gains a share. -/
structure Sheds (w w' : World) : Prop where
  rest : ∃ contexts callables calls journal remoteJournal,
    w' = { w with contexts, callables, calls, journal, remoteJournal }
  callCount : w'.calls.size = w.calls.size
  call : ∀ c, w'.calls.get c = w.calls.get c
  callableCount : w'.callables.size = w.callables.size
  callable : ∀ f, w'.callables.shares f ≤ w.callables.shares f

namespace Sheds

variable {w w' w'' : World}

protected theorem refl (w : World) : w.Sheds w :=
  ⟨⟨_, _, _, _, _, rfl⟩, rfl, fun _ => rfl, rfl, fun _ => Nat.le_refl _⟩

protected theorem trans (first : w.Sheds w') (second : w'.Sheds w'') : w.Sheds w'' where
  rest := by
    obtain ⟨_, _, _, _, _, rfl⟩ := first.rest
    obtain ⟨_, _, _, _, _, rfl⟩ := second.rest
    exact ⟨_, _, _, _, _, rfl⟩
  callCount := second.callCount.trans first.callCount
  call c := (second.call c).trans (first.call c)
  callableCount := second.callableCount.trans first.callableCount
  callable f := Nat.le_trans (second.callable f) (first.callable f)

theorem loops (h : w.Sheds w') : w'.loops = w.loops := by
  obtain ⟨_, _, _, _, _, rfl⟩ := h.rest
  rfl

theorem threads (h : w.Sheds w') : w'.threads = w.threads := by
  obtain ⟨_, _, _, _, _, rfl⟩ := h.rest
  rfl

end Sheds

variable (w : World) (t : ThreadId)

theorem sheds_note (e : Entry) : w.Sheds (w.note t e) := by
  obtain ⟨journal, remoteJournal, eq⟩ := w.note_eq t e
  rw [eq]
  exact ⟨⟨_, _, _, _, _, rfl⟩, rfl, fun _ => rfl, rfl, fun _ => Nat.le_refl _⟩

theorem sheds_log (level : Level) (message : String) (fields : List (String × FieldValue)) :
    w.Sheds (w.log t level message fields) := by
  obtain ⟨journal, remoteJournal, eq⟩ := w.log_eq t level message fields
  rw [eq]
  exact ⟨⟨_, _, _, _, _, rfl⟩, rfl, fun _ => rfl, rfl, fun _ => Nat.le_refl _⟩

theorem sheds_releaseContext (c : ContextId) : w.Sheds (w.releaseContext t c) := by
  have dropped : w.Sheds { w with contexts := w.contexts.dropShare c } :=
    ⟨⟨_, _, _, _, _, rfl⟩, rfl, fun _ => rfl, rfl, fun _ => Nat.le_refl _⟩
  simp only [releaseContext]
  split
  · exact dropped.trans (sheds_note ..)
  · exact dropped

theorem sheds_releaseCallable (c : CallableId) : w.Sheds (w.releaseCallable t c) := by
  have dropped : w.Sheds { w with callables := w.callables.dropShare c } := by
    refine ⟨⟨_, _, _, _, _, rfl⟩, rfl, fun _ => rfl, Arena.size_dropShare, fun f => ?_⟩
    rw [Arena.shares_dropShare]
    split <;> omega
  simp only [releaseCallable]
  split
  · exact dropped.trans (sheds_note ..)
  · exact dropped

theorem sheds_releaseSnapshot (s : Snapshot) : w.Sheds (w.releaseSnapshot t s) := by
  obtain ⟨_ | c⟩ := s
  · exact .refl w
  · exact w.sheds_releaseContext t c

theorem sheds_releaseHandle (h : Handle) : w.Sheds (w.releaseHandle t h) := by
  cases h with
  | strong c => exact w.sheds_releaseCallable t c
  | weak c => exact .refl w

theorem sheds_releaseCall (c : CallId) : w.Sheds (w.releaseCall t c) := by
  have dropped : w.Sheds { w with calls := w.calls.dropShare c } :=
    ⟨⟨_, _, _, _, _, rfl⟩, Arena.size_dropShare, fun _ => Arena.get_dropShare, rfl,
      fun _ => Nat.le_refl _⟩
  simp only [releaseCall]
  split
  · exact (dropped.trans (sheds_releaseHandle ..)).trans (sheds_releaseSnapshot ..)
  · exact dropped

theorem sheds_releaseCalls (cs : List CallId) : w.Sheds (w.releaseCalls t cs) := by
  induction cs generalizing w with
  | nil => exact .refl w
  | cons c cs ih => exact (w.sheds_releaseCall t c).trans (ih _)

theorem sheds_releaseTask (task : Task) : w.Sheds (w.releaseTask t task) :=
  w.sheds_releaseCalls t task.holds

theorem sheds_releaseTasks (tasks : List Task) : w.Sheds (w.releaseTasks t tasks) := by
  induction tasks generalizing w with
  | nil => exact .refl w
  | cons task tasks ih => exact (w.sheds_releaseTask t task).trans (ih _)

end DeferredCalls.World
