import DeferredCalls.World.Shares

/-!
# Actions

An action is performed by a thread. It changes the world and either returns a value or panics; what
it changed before it panicked stays changed. A cleanup is a change of the world that cannot panic,
so `ensuring` performs it on every way out of an action.

The equations below say what each way of composing actions does; they are all that later modules
need to know about actions.
-/

namespace DeferredCalls

/-- What a thread does to the world. -/
def Act (α : Type) : Type :=
  ThreadId → World → Except Panic α × World

namespace Act

variable {α β : Type}

/-- Does nothing and returns a value. -/
protected def pure (a : α) : Act α := fun _ w => (.ok a, w)

/-- Performs one action after another; a panic of the first one ends both. -/
protected def bind (m : Act α) (f : α → Act β) : Act β := fun t w =>
  match m t w with
  | (.ok a, w') => f a t w'
  | (.error p, w') => (.error p, w')

instance : Monad Act where
  pure := Act.pure
  bind := Act.bind

instance [Inhabited α] : Inhabited (Act α) := ⟨pure default⟩

/-- Looks at the world. -/
def read (f : ThreadId → World → α) : Act α := fun t w => (.ok (f t w), w)

/-- Changes the world. -/
def change (f : ThreadId → World → World) : Act Unit := fun t w => (.ok (), f t w)

/-- Changes the world and returns a value. -/
def update (f : ThreadId → World → α × World) : Act α := fun t w =>
  let (a, w') := f t w
  (.ok a, w')

/-- Panics. -/
def panic (p : Panic) : Act α := fun _ w => (.error p, w)

/-- Performs an action and catches its panic. -/
def attempt (m : Act α) : Act (Except Panic α) := fun t w =>
  let (result, w') := m t w
  (.ok result, w')

/-- Performs an action and then a cleanup, whether the action panics or not. -/
def ensuring (cleanup : ThreadId → World → World) (m : Act α) : Act α := fun t w =>
  let (result, w') := m t w
  (result, cleanup t w')

/-- Performs an action while holding a share of an object. -/
def holding (s : Share) (m : Act α) : Act α := fun t w =>
  ensuring (fun t w => w.release t s) m t (w.acquire s)

/-- Performs an action while holding shares of several objects. -/
def holdingAll : List Share → Act α → Act α
  | [], m => m
  | s :: ss, m => holding s (holdingAll ss m)

/-- Makes shares, for an object that is about to be kept. -/
def acquireAll (shares : List Share) : Act Unit :=
  change fun _ w => w.acquireAll shares

/-- Lets another thread perform an action. -/
def on (t : ThreadId) (m : Act α) : Act α := fun _ w => m t w

/-- Notes an entry in the journal. -/
def note (e : ThreadId → World → Entry) : Act Unit :=
  change fun t w => w.note t (e t w)

/-- Logs an event. -/
def log (level : Level) (message : String) (fields : World → List (String × FieldValue)) :
    Act Unit :=
  change fun t w => w.log t level message (fields w)

/-- Performs an action for each element of a list, in order. -/
def each (f : α → Act Unit) : List α → Act Unit
  | [] => pure ()
  | a :: as => do
    f a
    each f as

section Lemmas

variable {t u : ThreadId} {w : World} {m : Act α} {f : α → Act β} {a : α} {p : Panic}

@[simp] theorem pure_apply : (pure a : Act α) t w = (.ok a, w) := rfl

theorem bind_apply : (m >>= f) t w =
    match m t w with
    | (.ok a, w') => f a t w'
    | (.error p, w') => (.error p, w') := rfl

theorem bind_of_ok {w' : World} (h : m t w = (.ok a, w')) : (m >>= f) t w = f a t w' := by
  rw [bind_apply, h]

@[simp] theorem read_apply (g : ThreadId → World → α) : read g t w = (.ok (g t w), w) := rfl

@[simp] theorem change_apply (g : ThreadId → World → World) :
    change g t w = (.ok (), g t w) := rfl

@[simp] theorem update_apply (g : ThreadId → World → α × World) :
    update g t w = (.ok (g t w).1, (g t w).2) := rfl

@[simp] theorem panic_apply : (panic p : Act α) t w = (.error p, w) := rfl

@[simp] theorem attempt_apply : attempt m t w = (.ok (m t w).1, (m t w).2) := rfl

@[simp] theorem ensuring_apply (g : ThreadId → World → World) :
    ensuring g m t w = ((m t w).1, g t (m t w).2) := rfl

@[simp] theorem on_apply : on u m t w = m u w := rfl

instance : LawfulMonad Act := LawfulMonad.mk' Act
  (by
    intro α x
    funext t w
    show Act.bind x (fun a => Act.pure a) t w = x t w
    unfold Act.bind Act.pure
    split <;> next h => exact h.symm)
  (fun _ _ => rfl)
  (by
    intro α β γ x f g
    funext t w
    show Act.bind (Act.bind x f) g t w = Act.bind x (fun a => Act.bind (f a) g) t w
    unfold Act.bind
    rcases x t w with ⟨_ | _, _⟩ <;> rfl)

end Lemmas

end Act

end DeferredCalls
