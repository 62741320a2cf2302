import DeferredCalls.Proofs.Grammar
import DeferredCalls.Session.Editing

/-!
# Overriding settings

Settings are overridden by the values that are there, one after another. The first value that
denotes nothing ends this: what came before it was applied and stays, nothing after it is looked at,
and the failure names the setting with that value. New settings are made from old ones in the same
way, but where that fails there are none, and the old ones are what they were.
-/

namespace DeferredCalls

variable {α : Type}

/-! ## Values that are there -/

/-- A value is there, and it denotes nothing. -/
def Unacceptable (means : String → α → Prop) (value? : Option String) : Prop :=
  ∃ s, value? = some s ∧ ∀ a, ¬means s a

section Values

variable {means : String → α → Prop} {read : String → Except ConfigError α} {value? : Option String}
  {a? : Option α}

/-- A value that may be missing is missing, denotes something, or is not acceptable. -/
theorem acceptable_or_unacceptable (means : String → α → Prop) (value? : Option String) :
    (∃ a?, Option.Rel means value? a?) ∨ Unacceptable means value? := by
  cases value? with
  | none => exact .inl ⟨none, .none⟩
  | some s =>
    by_cases known : ∃ a, means s a
    · obtain ⟨a, known⟩ := known
      exact .inl ⟨some a, .some known⟩
    · exact .inr ⟨s, rfl, fun a denotes => known ⟨a, denotes⟩⟩

theorem not_unacceptable (acceptable : Option.Rel means value? a?) :
    ¬Unacceptable means value? := by
  rintro ⟨s, rfl, nothing⟩
  cases acceptable with
  | some denotes => exact nothing _ denotes

theorem readOptional_of_acceptable (reads : ∀ s a, read s = .ok a ↔ means s a)
    (acceptable : Option.Rel means value? a?) : readOptional read value? = .ok a? := by
  cases acceptable with
  | none => rfl
  | some denotes =>
    rw [readOptional, (reads _ _).mpr denotes]
    rfl

theorem readOptional_of_unacceptable (reads : ∀ s a, read s = .ok a ↔ means s a)
    (bad : Unacceptable means value?) :
    ∃ s e, read s = .error e ∧ readOptional read value? = .error e := by
  obtain ⟨s, rfl, nothing⟩ := bad
  cases result : read s with
  | ok a => exact absurd ((reads s a).mp result) (nothing a)
  | error e => exact ⟨s, e, result, by rw [readOptional, result]; rfl⟩

theorem readBudget_of_unacceptable (setting : String)
    (bad : Unacceptable BudgetValue value?) :
    ∃ reason, readOptional (readBudget setting) value? = .error (.invalidValue setting reason) := by
  obtain ⟨s, e, refused, eq⟩ := readOptional_of_unacceptable (fun _ _ => readBudget_eq_ok) bad
  obtain ⟨why, rfl⟩ := of_readBudget_error refused
  exact ⟨_, eq⟩

theorem readViolation_of_unacceptable (setting : String)
    (bad : Unacceptable ResponseValue value?) :
    ∃ reason, readOptional (readViolation setting) value? =
      .error (.invalidValue setting reason) := by
  obtain ⟨s, e, refused, eq⟩ := readOptional_of_unacceptable (fun _ _ => readViolation_eq_ok) bad
  obtain rfl := of_readViolation_error refused
  exact ⟨_, eq⟩

end Values

/-! ## Overriding in place -/

/-- Values for settings of a loop. Those that are missing are left as they are. -/
structure Layer where
  name : Option String := none
  cycleBudget : Option Nat := none
  violation : Option ViolationResponse := none
  deriving DecidableEq

namespace LoopSettings

/-- Settings with the values of a layer in the place of their own. -/
def overridden (s : LoopSettings) (layer : Layer) : LoopSettings where
  name := layer.name.getD s.name
  cycleBudget := layer.cycleBudget.getD s.cycleBudget
  violation := layer.violation.getD s.violation

end LoopSettings

/-- The values in the environment are acceptable, and make up a layer. -/
structure Environment.Holds (env : Environment) (layer : Layer) : Prop where
  name : layer.name = env.read? nameVariable
  cycleBudget : Option.Rel BudgetValue (env.read? budgetVariable) layer.cycleBudget
  violation : Option.Rel ResponseValue (env.read? violationVariable) layer.violation

/-- The values in the environment are acceptable, or one of them is there and denotes nothing. -/
theorem Environment.exists_holds (env : Environment) : (∃ layer, env.Holds layer) ↔
    ¬(Unacceptable BudgetValue (env.read? budgetVariable) ∨
      Unacceptable ResponseValue (env.read? violationVariable)) := by
  constructor
  · rintro ⟨layer, holds⟩ (bad | bad)
    · exact not_unacceptable holds.cycleBudget bad
    · exact not_unacceptable holds.violation bad
  · intro fine
    obtain ⟨goodBudget, goodResponse⟩ := not_or.mp fine
    obtain ⟨budget?, budget⟩ := (acceptable_or_unacceptable _ _).resolve_right goodBudget
    obtain ⟨response?, response⟩ := (acceptable_or_unacceptable _ _).resolve_right goodResponse
    exact ⟨⟨_, budget?, response?⟩, rfl, budget, response⟩

/-- The values in a settings file are acceptable, and make up a layer. -/
structure FileSettings.Holds (file : FileSettings) (layer : Layer) : Prop where
  name : layer.name = file.name
  cycleBudget : layer.cycleBudget = file.cycleBudget
  violation : Option.Rel ResponseValue file.violation layer.violation

/-- How the environment overrides settings in place. -/
structure EnvironmentApplied (s : LoopSettings) (env : Environment) : Prop where
  fails : (s.applyEnvironment env).failure ≠ none ↔
    Unacceptable BudgetValue (env.read? budgetVariable) ∨
      Unacceptable ResponseValue (env.read? violationVariable)
  applied : ∀ layer, env.Holds layer → s.applyEnvironment env = ⟨s.overridden layer, none⟩
  /-- A bad budget is found when the name has been applied. -/
  budget : Unacceptable BudgetValue (env.read? budgetVariable) →
    ∃ reason, s.applyEnvironment env = ⟨s.overridden { name := env.read? nameVariable },
      some (.invalidValue budgetVariable reason)⟩
  /-- A bad response is found when the name and the budget have been applied. -/
  violation : ∀ budget?, Option.Rel BudgetValue (env.read? budgetVariable) budget? →
    Unacceptable ResponseValue (env.read? violationVariable) →
    ∃ reason, s.applyEnvironment env =
      ⟨s.overridden { name := env.read? nameVariable, cycleBudget := budget? },
        some (.invalidValue violationVariable reason)⟩

/-- How a settings file overrides settings in place. -/
structure FileApplied (s : LoopSettings) (file : FileSettings) : Prop where
  fails : (s.applyFile file).failure ≠ none ↔ Unacceptable ResponseValue file.violation
  applied : ∀ layer, file.Holds layer → s.applyFile file = ⟨s.overridden layer, none⟩
  /-- A bad response is found when the name and the budget have been applied. -/
  violation : Unacceptable ResponseValue file.violation →
    ∃ reason, s.applyFile file =
      ⟨s.overridden { name := file.name, cycleBudget := file.cycleBudget },
        some (.invalidValue violationKey reason)⟩

namespace LoopSettings

variable {s : LoopSettings} {env : Environment} {file : FileSettings} {layer : Layer}
  {budget? : Option Nat}

theorem applyEnvironment_of_holds (holds : env.Holds layer) :
    s.applyEnvironment env = ⟨s.overridden layer, none⟩ := by
  have budget : readOptional (readBudget budgetVariable) (env.read? budgetVariable) =
      .ok layer.cycleBudget :=
    readOptional_of_acceptable (fun _ _ => readBudget_eq_ok) holds.cycleBudget
  have response : readOptional (readViolation violationVariable) (env.read? violationVariable) =
      .ok layer.violation :=
    readOptional_of_acceptable (fun _ _ => readViolation_eq_ok) holds.violation
  rw [applyEnvironment, budget]
  simp only [response, ← holds.name]
  rfl

theorem applyEnvironment_of_bad_budget (bad : Unacceptable BudgetValue (env.read? budgetVariable)) :
    ∃ reason, s.applyEnvironment env = ⟨s.overridden { name := env.read? nameVariable },
      some (.invalidValue budgetVariable reason)⟩ := by
  obtain ⟨reason, refused⟩ := readBudget_of_unacceptable budgetVariable bad
  refine ⟨reason, ?_⟩
  rw [applyEnvironment, refused]
  rfl

theorem applyEnvironment_of_bad_violation
    (acceptable : Option.Rel BudgetValue (env.read? budgetVariable) budget?)
    (bad : Unacceptable ResponseValue (env.read? violationVariable)) :
    ∃ reason, s.applyEnvironment env =
      ⟨s.overridden { name := env.read? nameVariable, cycleBudget := budget? },
        some (.invalidValue violationVariable reason)⟩ := by
  have budget : readOptional (readBudget budgetVariable) (env.read? budgetVariable) = .ok budget? :=
    readOptional_of_acceptable (fun _ _ => readBudget_eq_ok) acceptable
  obtain ⟨reason, refused⟩ := readViolation_of_unacceptable violationVariable bad
  refine ⟨reason, ?_⟩
  rw [applyEnvironment, budget]
  simp only [refused]
  rfl

theorem applyFile_of_holds (holds : file.Holds layer) :
    s.applyFile file = ⟨s.overridden layer, none⟩ := by
  have response : readOptional (readViolation violationKey) file.violation = .ok layer.violation :=
    readOptional_of_acceptable (fun _ _ => readViolation_eq_ok) holds.violation
  rw [applyFile, response]
  simp only [← holds.name, ← holds.cycleBudget]
  rfl

theorem applyFile_of_bad_violation (bad : Unacceptable ResponseValue file.violation) :
    ∃ reason, s.applyFile file =
      ⟨s.overridden { name := file.name, cycleBudget := file.cycleBudget },
        some (.invalidValue violationKey reason)⟩ := by
  obtain ⟨reason, refused⟩ := readViolation_of_unacceptable violationKey bad
  refine ⟨reason, ?_⟩
  rw [applyFile, refused]
  rfl

/-- Overriding by the environment succeeds if and only if all its values are acceptable. -/
theorem failure_applyEnvironment (s : LoopSettings) (env : Environment) :
    (s.applyEnvironment env).failure = none ↔ ∃ layer, env.Holds layer := by
  constructor
  · intro fine
    have goodBudget : ¬Unacceptable BudgetValue (env.read? budgetVariable) := by
      intro bad
      obtain ⟨reason, eq⟩ := applyEnvironment_of_bad_budget (s := s) bad
      simp [eq] at fine
    rw [Environment.exists_holds, not_or]
    refine ⟨goodBudget, fun bad => ?_⟩
    obtain ⟨_, good⟩ := (acceptable_or_unacceptable _ _).resolve_right goodBudget
    obtain ⟨reason, eq⟩ := applyEnvironment_of_bad_violation (s := s) good bad
    simp [eq] at fine
  · rintro ⟨layer, holds⟩
    rw [applyEnvironment_of_holds holds]

theorem environmentApplied (s : LoopSettings) (env : Environment) : EnvironmentApplied s env where
  fails := by rw [ne_eq, failure_applyEnvironment, Environment.exists_holds, not_not]
  applied _ := applyEnvironment_of_holds
  budget := applyEnvironment_of_bad_budget
  violation _ := applyEnvironment_of_bad_violation

theorem fileApplied (s : LoopSettings) (file : FileSettings) : FileApplied s file where
  fails := by
    constructor
    · intro failed
      by_contra fine
      obtain ⟨response?, response⟩ := (acceptable_or_unacceptable _ _).resolve_right fine
      have holds : file.Holds ⟨_, _, response?⟩ := ⟨rfl, rfl, response⟩
      rw [applyFile_of_holds holds] at failed
      contradiction
    · intro bad
      obtain ⟨reason, eq⟩ := applyFile_of_bad_violation (s := s) bad
      simp [eq]
  applied _ := applyFile_of_holds
  violation := applyFile_of_bad_violation

end LoopSettings

/-! ## New settings -/

namespace LoopSettings

variable {s : LoopSettings} {env : Environment} {around : Surroundings} {path : String} {e : Error}

theorem withEnvironment_eq : s.withEnvironment env =
    match (s.applyEnvironment env).failure with
    | some c => .error (.ofConfigError c)
    | none => .ok (s.applyEnvironment env).settings.normalize := by
  unfold withEnvironment
  split <;> simp_all

theorem withEnvironment_eq_error : s.withEnvironment env = .error e ↔
    ∃ c, (s.applyEnvironment env).failure = some c ∧ e = .ofConfigError c := by
  rw [withEnvironment_eq]
  cases (s.applyEnvironment env).failure with
  | none => simp
  | some c => simp [eq_comm]

theorem fromFile_of_read {file : FileSettings} (read : FileSettings.read around path = .ok file) :
    fromFile around path =
      match ((ofBuild around.build).applyFile file).failure with
      | some c => .error (.ofConfigError c)
      | none => .ok ((ofBuild around.build).applyFile file).settings.normalize := by
  unfold fromFile
  rw [read]
  simp only
  split <;> simp_all

theorem fromFile_eq_error : fromFile around path = .error e ↔
    (∃ c, FileSettings.read around path = .error c ∧ e = .ofConfigError c) ∨
    ∃ file c, FileSettings.read around path = .ok file ∧
      ((ofBuild around.build).applyFile file).failure = some c ∧ e = .ofConfigError c := by
  cases read : FileSettings.read around path with
  | error c => simp [fromFile, read, eq_comm]
  | ok file =>
    rw [fromFile_of_read read]
    cases failure : ((ofBuild around.build).applyFile file).failure with
    | none => simp [failure]
    | some c => simp [failure, eq_comm]

theorem fromFileAndEnvironment_eq_error : fromFileAndEnvironment around path env = .error e ↔
    fromFile around path = .error e ∨
    ∃ s, fromFile around path = .ok s ∧ s.withEnvironment env = .error e := by
  unfold fromFileAndEnvironment
  split <;> simp_all

theorem replace_failed {made : Except Error LoopSettings} {e : Error}
    (failed : (s.replace made).1 = .failed e) : made = .error e ∧ (s.replace made).2 = s := by
  cases made with
  | ok s' => contradiction
  | error c => exact ⟨congrArg _ (SettingsReply.failed.inj failed), rfl⟩

/-- Settings that are overridden in place are kept, even when that fails. -/
theorem reply_ne_failed {o : Override} : o.reply.1 ≠ .failed e := by
  unfold Override.reply
  split <;> simp

end LoopSettings

/-- How new settings are refused. The stages in which they are made are gone through in order, and
the first one that fails is reported, as an error about settings that says what went wrong. -/
structure SettingsRefused (s : LoopSettings) (env : Environment) (around : Surroundings)
    (path : String) : Prop where
  withEnvironment : ∀ e, s.withEnvironment env = .error e ↔
    ∃ c, (s.applyEnvironment env).failure = some c ∧ e = .ofConfigError c
  fromEnvironment : ∀ e, LoopSettings.fromEnvironment around env = .error e ↔
    ∃ c, ((LoopSettings.ofBuild around.build).applyEnvironment env).failure = some c ∧
      e = .ofConfigError c
  /-- The file is read before it is applied. -/
  fromFile : ∀ e, LoopSettings.fromFile around path = .error e ↔
    (∃ c, FileSettings.read around path = .error c ∧ e = .ofConfigError c) ∨
    ∃ file c, FileSettings.read around path = .ok file ∧
      ((LoopSettings.ofBuild around.build).applyFile file).failure = some c ∧ e = .ofConfigError c
  fromFileAndEnvironment : ∀ e, LoopSettings.fromFileAndEnvironment around path env = .error e ↔
    LoopSettings.fromFile around path = .error e ∨
    ∃ s', LoopSettings.fromFile around path = .ok s' ∧ s'.withEnvironment env = .error e
  reported : ∀ c, (Error.ofConfigError c).kind = .config ∧
    (Error.ofConfigError c).message = some c.message ∧
    (Error.ofConfigError c).causes.head? = some (.config c)
  /-- Where new settings are refused, the edited ones stay. -/
  kept : ∀ step e, (SettingsStep.perform around s step).1 = .failed e →
    (SettingsStep.perform around s step).2 = s

/-- Overriding settings stops at the first value that denotes nothing, in the order name, budget,
response. The failure names the setting with that value, and just what came before it has been
applied, as it was written. New settings are refused exactly when a stage of their making fails,
with the failure of that stage as the cause, and the settings that were there stay as they were. -/
theorem overriding_stops_at_first_failure (s : LoopSettings) (env : Environment)
    (file : FileSettings) (around : Surroundings) (path : String) :
    EnvironmentApplied s env ∧ FileApplied s file ∧ SettingsRefused s env around path := by
  refine ⟨s.environmentApplied env, s.fileApplied file, ?_⟩
  constructor
  case withEnvironment => exact fun _ => LoopSettings.withEnvironment_eq_error
  case fromEnvironment => exact fun _ => LoopSettings.withEnvironment_eq_error
  case fromFile => exact fun _ => LoopSettings.fromFile_eq_error
  case fromFileAndEnvironment => exact fun _ => LoopSettings.fromFileAndEnvironment_eq_error
  case reported =>
    rintro (_ | _ | _)
    · exact ⟨rfl, rfl, rfl⟩
    · exact ⟨rfl, rfl, rfl⟩
    · exact ⟨rfl, rfl, rfl⟩
  case kept =>
    intro step e failed
    cases step with
    | withEnvironment | fromEnvironment | fromFile | fromFileAndEnvironment =>
      exact (LoopSettings.replace_failed failed).2
    | applyEnvironment env => exact absurd failed LoopSettings.reply_ne_failed
    | applyText text =>
      simp only [SettingsStep.perform] at failed
      split at failed
      · exact absurd failed LoopSettings.reply_ne_failed
      · contradiction
    | showText | showFile => rfl
    | reset | setName | setBudget | setViolation | normalize | createLoop | isDefault | unknown =>
      contradiction

/-- A budget of "lots" is refused before the response is looked at. The blank name that was applied
before it stays, for nothing is repaired then. -/
example : (LoopSettings.applyEnvironment { cycleBudget := 7 } ⟨[(nameVariable, "\t".toUTF8),
      (budgetVariable, "lots".toUTF8), (violationVariable, "shrug".toUTF8)]⟩).settings =
    { name := "\t", cycleBudget := 7 } := by
  decide +kernel

end DeferredCalls
