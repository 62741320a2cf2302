import DeferredCalls.Arena
import DeferredCalls.Text.Layout

/-!
# Arguments, panics and handles of callables

A callable is called with a value of one of four types or with no arguments. It returns, fails or
panics; a panic may carry a text. A handle refers to a callable: a strong handle holds a share of
it, a weak one does not and may outlive it.
-/

namespace DeferredCalls

/-- The arguments of a call. -/
inductive CallArgs
  | int (n : Int)
  | text (s : String)
  | pair (n : Int) (s : String)
  | unit
  deriving DecidableEq, Repr

/-- How arguments are written: their type is not known to the writer. -/
def CallArgs.debug (_ : CallArgs) : String := "CallArgs(..)"

/-- What a panic carries. -/
structure Panic where
  text? : Option String
  deriving DecidableEq, Repr

/-- The text of a panic, where one has to be shown. -/
def Panic.message (p : Panic) : String :=
  p.text?.getD "unknown panic"

/-- How a handle holds its callable. -/
inductive RefMode
  | strong
  | weak
  deriving DecidableEq, Repr

/-- The name under which a mode is shown. -/
def RefMode.name : RefMode → String
  | .strong => "Strong"
  | .weak => "Weak"

/-- A reference to a callable that does or does not hold a share of it. -/
inductive Handle
  | strong (callable : CallableId)
  | weak (callable : CallableId)
  deriving DecidableEq, Repr

namespace Handle

instance : Inhabited Handle := ⟨weak default⟩

/-- The handle of a mode. -/
def ofMode : RefMode → CallableId → Handle
  | .strong => strong
  | .weak => weak

/-- The mode of a handle. -/
def mode : Handle → RefMode
  | strong _ => .strong
  | weak _ => .weak

/-- The callable that a handle refers to. -/
def callable : Handle → CallableId
  | strong c => c
  | weak c => c

/-- A handle to the same callable that holds no share. -/
def downgrade (h : Handle) : Handle :=
  weak h.callable

/-- How a handle is written, where it is known whether its callable exists. -/
def debug (h : Handle) (alive : Bool) : String :=
  Text.Layout.record "CallableHandle" [⟨"mode", h.mode.name⟩, ⟨"exists", Text.Layout.flag alive⟩]

@[simp] theorem mode_ofMode (m : RefMode) (c : CallableId) : (ofMode m c).mode = m := by
  cases m <;> rfl

@[simp] theorem callable_ofMode (m : RefMode) (c : CallableId) : (ofMode m c).callable = c := by
  cases m <;> rfl

end Handle

end DeferredCalls
