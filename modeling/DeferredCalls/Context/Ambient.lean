import DeferredCalls.Act

/-!
# The ambient context of a thread

Installs and guards on the thread that performs an action. An install holds a share of what it makes
ambient, and its guard takes over the share of what was ambient before. Misuse of guards is logged
as a warning, before anything changes; what a guard gives up is released when the stack of installs
already has its new value.
-/

namespace DeferredCalls

namespace World

/-- What is ambient on a thread. -/
def ambient (w : World) (t : ThreadId) : Snapshot :=
  (w.contextStack t).ambient

/-- Replaces the stack of installed contexts of a thread. -/
def setContextStack (w : World) (t : ThreadId) (s : ContextStack) : World :=
  w.onThread t fun th => { th with context := s }

/-- Makes a snapshot ambient, which takes a share of it. -/
def install (w : World) (t : ThreadId) (s : Snapshot) : World :=
  (w.acquireAll s.shares).setContextStack t ((w.contextStack t).install s)

/-- Logs what is wrong with giving up a guard. -/
def warnGuard (w : World) (t : ThreadId) : Option GuardWarning → World
  | none => w
  | some (.outOfOrder expected current) =>
    w.log t .warn "context guard restored out of LIFO order"
      [("expected_depth", .number expected), ("current_depth", .number current)]
  | some (.unwound current) =>
    w.log t .warn "context guard dropped after its install was unwound"
      [("current_depth", .number current)]

/-- The first half of giving up a guard: what is wrong with it is logged, and the stack of installs
gets its new value. What that frees is still in hand. -/
def unguarded (w : World) (t : ThreadId) (g : Guard) : World :=
  let d := (w.contextStack t).dropGuard g
  (w.warnGuard t d.warning).setContextStack t d.stack

/-- Gives up a guard. -/
def dropGuard (w : World) (t : ThreadId) (g : Guard) : World :=
  (w.unguarded t g).releaseSnapshot t ((w.contextStack t).dropGuard g).released

end World

namespace Act

/-- Performs an action while a snapshot is ambient. The guard is given up on every way out. -/
def installing (s : Snapshot) (m : Act α) : Act α := fun t w =>
  ensuring (fun t' w' => w'.dropGuard t' (w.contextStack t).nextGuard) m t (w.install t s)

@[simp] theorem installing_apply (s : Snapshot) (m : Act α) (t : ThreadId) (w : World) :
    installing s m t w =
      ((m t (w.install t s)).1,
        (m t (w.install t s)).2.dropGuard t (w.contextStack t).nextGuard) := rfl

end Act

end DeferredCalls
