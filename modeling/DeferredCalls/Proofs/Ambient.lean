import DeferredCalls.Proofs.Guards

/-!
# What is ambient

The ambient context of a thread, told by its history: the innermost install that is still active
decides, however guards were given up in the meantime. Guards need not be given up in the reverse
order of their installs; one that comes too late changes nothing.
-/

namespace DeferredCalls

open Holding

/-- Giving up a guard does to the stack of contexts what the guard says. -/
theorem World.contextStack_dropGuard {w : World} {t : ThreadId} {g : Guard}
    (inside : t.index < w.threads.size) :
    (w.dropGuard t g).contextStack t = ((w.contextStack t).dropGuard g).stack := by
  rw [(World.follows_dropGuard inside).contextStack t]
  exact if_pos rfl

/-- A thread that does not exist has nothing ambient. -/
theorem World.contextStack_of_outside {w : World} {t : ThreadId}
    (outside : w.threads.size ≤ t.index) : w.contextStack t = {} := by
  rw [contextStack, thread, Arena.get_of_size_le outside]
  rfl

theorem World.size_threads_dropGuard {w : World} {t : ThreadId} {g : Guard} :
    (w.dropGuard t g).threads.size = w.threads.size := by
  rw [dropGuard, (keeps_releaseSnapshot ..).threads, unguarded, setContextStack,
    size_threads_onThread, (keeps_warnGuard ..).threads]

/-- At every moment of an execution, what is ambient on a thread is what its innermost active
install made ambient, and nothing if there is none; the depth is the number of active installs; and
the guards that exist are those of the installs whose guard was not given up. So a guard whose
install was ended by another one changes nothing when it is given up, and without guards nothing is
left. -/
theorem ambient_of_innermost {verbosity : Verbosity} {ops : List Operation} {m : Moment}
    (course : Course (.start verbosity) ops m) (t : ThreadId)
    (few : (History.told t ops).size < 2 ^ 64) :
    m.world.ambient t = (History.told t ops).ambient ∧
    (m.world.contextStack t).depth = (History.told t ops).active.length ∧
    m.guards t = (History.told t ops).guards ∧
    (∀ g ∈ m.guards t, g.token.toNat ∉ (History.told t ops).active →
      (m.world.dropGuard t g).contextStack t = m.world.contextStack t) ∧
    (m.guards t = 0 → m.world.ambient t = .empty ∧ (m.world.contextStack t).depth = 0) := by
  have fits := course.matches t (Nat.le_of_lt few)
  refine ⟨fits.ambient, ?_, fits.guards, ?_, ?_⟩
  · rw [ContextStack.depth, fits.active, List.length_map]
  · intro g member stale
    have unchanged := fits.dropGuard_of_stale (Nat.le_of_lt few) member stale
    rcases Nat.lt_or_ge t.index m.world.threads.size with inside | outside
    · rw [World.contextStack_dropGuard inside, unchanged]
    · rw [World.contextStack_of_outside outside, World.contextStack_of_outside]
      rwa [World.size_threads_dropGuard]
  · intro none
    rw [none] at fits
    obtain ⟨ambient, active⟩ := fits.of_no_guards
    exact ⟨ambient, congrArg List.length active⟩

/-- A second install is ended by the guard of the first one. Its own guard, given up after a third
install, changes nothing. -/
theorem ambient_after_late_guard : ∃ m,
    Course (.start none)
      [.install Session.driver (.of ⟨0⟩), .install Session.driver (.of ⟨1⟩),
        .dropGuard Session.driver ⟨.empty, 0⟩, .install Session.driver (.of ⟨1⟩),
        .dropGuard Session.driver ⟨.of ⟨0⟩, 1⟩] m ∧
    m.world.ambient Session.driver = .of ⟨1⟩ ∧
    (m.world.contextStack Session.driver).depth = 1 := by
  have first : Course (.start none) [.install Session.driver (.of ⟨0⟩),
      .install Session.driver (.of ⟨1⟩)] ⟨_, _⟩ :=
    .step (.step (.step (.step (.refl _)
      (.newContext ⟨"hall", "hall"⟩))
      (.newContext ⟨"room", "room"⟩))
      (.install (t := Session.driver) (s := .of ⟨0⟩) (by decide) (by decide)))
      (.install (t := Session.driver) (s := .of ⟨1⟩) (by decide) (by decide))
  rw [Multiset.cons_swap] at first
  have second := first.step (.dropGuard (by decide))
  have third := second.step (.install (t := Session.driver) (s := .of ⟨1⟩) (by decide) (by decide))
  rw [Multiset.cons_swap] at third
  have whole := third.step (.dropGuard (by decide))
  refine ⟨_, whole, ?_⟩
  have facts := ambient_of_innermost whole Session.driver (by decide)
  exact ⟨facts.1.trans (by decide), facts.2.1.trans (by decide)⟩

end DeferredCalls
