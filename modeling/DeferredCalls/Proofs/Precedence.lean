import DeferredCalls.Proofs.Bindings
import DeferredCalls.Proofs.LoopThreads
import DeferredCalls.Proofs.Overriding

/-!
# Precedence of settings

Settings are chosen in layers. What was set by hand comes first, then the environment, then a
settings file, then the defaults; where a layer has no value for a setting, the one below it counts.
A name that is blank when all layers are applied gives way to the default name, and it does not
matter that settings are repaired in between as well: a blank name from above does not bring back
the name from below.

Settings that were set by hand may have a blank name, but no loop that is made from them has one.
-/

namespace DeferredCalls

/-! ## Layers -/

namespace Layer

/-- Where the upper layer has no value, the lower one counts. -/
def onto (upper lower : Layer) : Layer where
  name := upper.name.or lower.name
  cycleBudget := upper.cycleBudget.or lower.cycleBudget
  violation := upper.violation.or lower.violation

/-- Layers that are put on a layer, one after another. -/
def pile (bottom : Layer) (layers : List Layer) : Layer :=
  layers.foldl (fun lower upper => upper.onto lower) bottom

end Layer

/-- What a setter sets. -/
def SettingsStep.sets : SettingsStep → Option Layer
  | setName name => some { name := name }
  | setBudget budget => some { cycleBudget := budget }
  | setViolation violation => some { violation := violation }
  | _ => none

namespace LoopSettings

variable {s s' : LoopSettings} {upper lower layer : Layer} {env : Environment}
  {around : Surroundings}
  {path : String} {file : FileSettings}

theorem overridden_onto :
    s.overridden (upper.onto lower) = (s.overridden lower).overridden upper := by
  simp [overridden, Layer.onto, Option.getD_or]

theorem overridden_overridden : (s.overridden layer).overridden layer = s.overridden layer := by
  rw [← overridden_onto]
  simp [Layer.onto]

/-- A name from above comes in the place of the one from below, be that one repaired or not. Without
one, there is nothing left to repair. -/
theorem normalize_overridden_normalize :
    (s.normalize.overridden layer).normalize = (s.overridden layer).normalize := by
  obtain ⟨name?, budget?, response?⟩ := layer
  cases name? with
  | some name => simp [overridden]
  | none =>
    by_cases blank : Text.allBlank s.name
    · have fine : Text.allBlank defaultLoopName = false := by decide
      simp [overridden, normalize, blank, fine]
    · simp [overridden, normalize, blank]

theorem overridden_of_sets {step : SettingsStep} (set : step.sets = some layer) :
    (step.perform around s).2 = s.overridden layer := by
  cases step with
  | setName | setBudget | setViolation =>
    obtain rfl := Option.some.inj set
    rfl
  | _ => contradiction

/-- Setters put their layers on what is there. -/
theorem foldl_setters {steps : List SettingsStep} {layers : List Layer}
    (set : List.Forall₂ (fun step layer => step.sets = some layer) steps layers)
    (s : LoopSettings) (below : Layer) :
    steps.foldl (fun s step => (step.perform around s).2) (s.overridden below) =
      s.overridden (below.pile layers) := by
  induction set generalizing below with
  | nil => rfl
  | cons first rest ih =>
    rw [List.foldl_cons, overridden_of_sets first, ← overridden_onto, ih]
    rfl

theorem withEnvironment_of_holds (holds : env.Holds layer) :
    s.withEnvironment env = .ok (s.overridden layer).normalize := by
  rw [withEnvironment_eq, applyEnvironment_of_holds holds]

theorem fromFile_of_holds (read : FileSettings.read around path = .ok file)
    (holds : file.Holds layer) :
    fromFile around path = .ok ((ofBuild around.build).overridden layer).normalize := by
  rw [fromFile_of_read read, applyFile_of_holds holds]

theorem withEnvironment_eq_ok : s.withEnvironment env = .ok s' ↔
    ∃ layer, env.Holds layer ∧ s' = (s.overridden layer).normalize := by
  constructor
  · intro made
    have fine : (s.applyEnvironment env).failure = none := by
      rw [withEnvironment_eq] at made
      split at made
      · contradiction
      · assumption
    obtain ⟨layer, holds⟩ := (failure_applyEnvironment s env).mp fine
    rw [withEnvironment_of_holds holds] at made
    exact ⟨layer, holds, (Except.ok.inj made).symm⟩
  · rintro ⟨layer, holds, rfl⟩
    exact withEnvironment_of_holds holds

/-- The environment has nothing to add to settings that it has overridden already. -/
theorem withEnvironment_again (made : s.withEnvironment env = .ok s') :
    s'.withEnvironment env = .ok s' := by
  obtain ⟨layer, holds, rfl⟩ := withEnvironment_eq_ok.mp made
  rw [withEnvironment_of_holds holds, normalize_overridden_normalize, overridden_overridden]

theorem named_of_withEnvironment (made : s.withEnvironment env = .ok s') :
    Text.allBlank s'.name = false := by
  obtain ⟨layer, holds, rfl⟩ := withEnvironment_eq_ok.mp made
  exact allBlank_normalize_name _

theorem named_of_fromFile (made : fromFile around path = .ok s') :
    Text.allBlank s'.name = false := by
  cases read : FileSettings.read around path with
  | error e => simp [fromFile, read] at made
  | ok file =>
    rw [fromFile_of_read read] at made
    split at made
    · contradiction
    · rw [← Except.ok.inj made]
      exact allBlank_normalize_name _

end LoopSettings

/-! ## Loops -/

section Loops

open World

variable {m m' : Moment} {ops : List Operation} {l : LoopId} {x y : LoopState}

/-- Nothing that happens to a loop changes its name. -/
theorem LoopChange.name (change : LoopChange l (some x) ops (some y)) :
    y.loop.name = x.loop.name := by
  cases change with
  | other | accept | reject | start | shutdown | discard => rfl

/-- A new loop is made from its settings. -/
theorem World.loop_createLoop (w : World) (t : ThreadId) (settings : LoopSettings) :
    (w.createLoop t settings).2.loop w.loops.next =
      .ofSettings settings t (w.thread t).currentLoop := by
  rw [loop, loops_createLoop, Arena.get_push, if_pos rfl]

theorem World.size_loops_release {w : World} {t : ThreadId} {s : Share}
    (used : 0 < w.shareCount s) : (w.release t s).loops.size = w.loops.size := by
  by_cases lastLoop : ∃ k, s = .loop k ∧ w.loops.shares k = 1
  · obtain ⟨k, rfl, last⟩ := lastLoop
    rw [loops_dropLoop last, Arena.size_modify, Arena.size_dropShare]
  · by_cases lastManual : ∃ k, s = .manual k ∧ w.manuals.shares k = 1
    · obtain ⟨k, rfl, last⟩ := lastManual
      exact (w.release_last_manual t last).loopCount
    · exact (w.keeps_release t (fun k eq last => lastLoop ⟨k, eq, last⟩)
        (fun k eq last => lastManual ⟨k, eq, last⟩) used).loopCount

/-- A loop that was not there before a step is made from settings by it. -/
theorem Step.new_loop (h : m.Consistent) (step : Step m ops m')
    (old : ¬l.index < m.world.loops.size) (new : l.index < m'.world.loops.size) :
    ∃ settings owner previous, m'.world.loop l = .ofSettings settings owner previous := by
  have nothing (same : m'.world.loops.size = m.world.loops.size) :
      ∃ settings owner previous, m'.world.loop l = .ofSettings settings owner previous :=
    absurd (same ▸ new) old
  have latest (grown : m'.world.loops.size = m.world.loops.size + 1) : l = m.world.loops.next := by
    have last : l.index = m.world.loops.size := by omega
    cases l
    exact congrArg Ref.mk last
  cases step with
  | @createLoop w H t settings inside =>
    have last := latest (by rw [loops_createLoop, Arena.size_push])
    exact ⟨_, _, _, last ▸ loop_createLoop w t settings⟩
  | startLoopThread settings =>
    have last := latest (size_startLoopThread _ settings).1
    exact ⟨_, _, _, last ▸ loop_startLoopThread _ settings⟩
  | release inside => exact nothing (World.size_loops_release h.balanced.shareCount_pos)
  | quiet agrees moved => exact nothing (congrArg Arena.size agrees.loops)
  | acquire alive => exact nothing (keeps_acquire alive).loopCount
  | install inside alive => exact nothing (steady_install alive).loopCount
  | dropGuard inside => exact nothing steady_dropGuard.loopCount
  | enter inside alive => exact nothing (keeps_acquire (s := .call _) alive).loopCount
  | leave inside top => exact nothing (keeps_releaseCalls ..).loopCount
  | build made handle context => exact nothing (steady_build handle context).loopCount
  | markDead t c => exact nothing steady_markDead.loopCount
  | post there => exact nothing steady_post.loopCount
  | start taken => exact nothing (steady_dequeue taken).loopCount
  | shutdown t k => exact nothing steady_shutdownLoop.loopCount
  | newContext | newCallable | newManual | newThread | beginTurn | endTurn | finish | takeAll =>
    exact nothing rfl

/-- No loop ever has a blank name. -/
theorem Course.loop_named {verbosity : Verbosity} (course : Course (.start verbosity) ops m)
    (known : l.index < m.world.loops.size) : Text.allBlank (m.world.loop l).name = false := by
  induction course with
  | refl => contradiction
  | step before last ih =>
    have h := before.consistent (consistent_start verbosity)
    rcases Nat.lt_or_ge l.index _ with old | fresh
    · have change := last.loopChange h l
      rw [loopState_of_lt old, loopState_of_lt known] at change
      exact (congrArg Text.allBlank change.name).trans (ih old)
    · obtain ⟨settings, owner, previous, eq⟩ := last.new_loop h (Nat.not_lt.mpr fresh) known
      rw [eq]
      exact LoopSettings.allBlank_normalize_name settings

end Loops

/-! ## Layers in order -/

/-- Settings that are chosen from two layers above the defaults of a build. -/
structure LoopSettings.ChosenFrom (s : LoopSettings) (build : Build) (upper lower : Layer) :
    Prop where
  name : s.name =
    let chosen := (upper.name.or lower.name).getD defaultLoopName
    if Text.allBlank chosen then defaultLoopName else chosen
  cycleBudget : s.cycleBudget = (upper.cycleBudget.or lower.cycleBudget).getD 0
  violation : s.violation = (upper.violation.or lower.violation).getD build.violation

/-- What comes of a settings file and the environment above it. -/
structure Layered (around : Surroundings) (path : String) (file : FileSettings) (env : Environment)
    (upper lower : Layer) (s : LoopSettings) : Prop where
  made : LoopSettings.fromFileAndEnvironment around path env = .ok s
  chosen : s.ChosenFrom around.build upper lower
  /-- It is enough to repair the name at the end. -/
  repairedOnce :
    (((LoopSettings.ofBuild around.build).applyFile file).settings.applyEnvironment
      env).settings.normalize = s
  /-- A blank name in the environment does not bring back the name in the file. -/
  blank : ∀ name, env.read? nameVariable = some name → Text.allBlank name = true →
    s.name = defaultLoopName
  /-- What is set by hand afterwards lies on top. -/
  setters : ∀ steps layers, List.Forall₂ (fun step layer => SettingsStep.sets step = some layer)
    steps layers → steps.foldl (fun s step => (step.perform around s).2) s =
      s.overridden (Layer.pile {} layers)

/-- Settings that are made have a name that is not blank, and so have all loops. -/
structure NeverBlank : Prop where
  withEnvironment : ∀ s env s', LoopSettings.withEnvironment s env = .ok s' →
    Text.allBlank s'.name = false
  fromEnvironment : ∀ around env s, LoopSettings.fromEnvironment around env = .ok s →
    Text.allBlank s.name = false
  fromFile : ∀ around path s, LoopSettings.fromFile around path = .ok s →
    Text.allBlank s.name = false
  /-- A loop can be made from any settings. -/
  loop : ∀ settings owner previous,
    Text.allBlank (EventLoop.ofSettings settings owner previous).name = false
  session : ∀ verbosity ops m l, Course (.start verbosity) ops m → l.index < m.world.loops.size →
    Text.allBlank (m.world.loop l).name = false

namespace LoopSettings

theorem chosenFrom (build : Build) (upper lower : Layer) :
    ((ofBuild build).overridden (upper.onto lower)).normalize.ChosenFrom build upper lower where
  name := normalize_name _
  cycleBudget := normalize_cycleBudget _
  violation := normalize_violation _

theorem layered {around : Surroundings} {path : String} {file : FileSettings} {env : Environment}
    {upper lower : Layer} (read : FileSettings.read around path = .ok file)
    (below : file.Holds lower) (above : env.Holds upper) : Layered around path file env upper lower
      ((ofBuild around.build).overridden (upper.onto lower)).normalize where
  made := by
    rw [fromFileAndEnvironment, fromFile_of_holds read below]
    simp only
    rw [withEnvironment_of_holds above, normalize_overridden_normalize, overridden_onto]
  chosen := chosenFrom around.build upper lower
  repairedOnce := by
    rw [applyFile_of_holds below, applyEnvironment_of_holds above, overridden_onto]
  blank name set blank := by
    have first : upper.name = some name := above.name.trans set
    rw [(chosenFrom around.build upper lower).name, first]
    exact if_pos blank
  setters steps layers set := foldl_setters set _ {}

end LoopSettings

/-- Each setting has the value from the environment, where there is one, or else the one from the
file, or else the default; only a name that is blank then is replaced, by the default name. To apply
the environment once more changes nothing, what is set by hand afterwards lies above both layers,
and no settings that are made and no loop have a blank name. -/
theorem environment_over_file_over_defaults :
    (∀ around path file env upper lower, FileSettings.read around path = .ok file →
      file.Holds lower → env.Holds upper → ∃ s, Layered around path file env upper lower s) ∧
    (∀ s env s', LoopSettings.withEnvironment s env = .ok s' → s'.withEnvironment env = .ok s') ∧
    NeverBlank := by
  refine ⟨fun around path file env upper lower read below above => ?_, ?_, ?_⟩
  · exact ⟨_, LoopSettings.layered read below above⟩
  · exact fun s env s' => LoopSettings.withEnvironment_again
  · constructor
    case withEnvironment => exact fun s env s' => LoopSettings.named_of_withEnvironment
    case fromEnvironment => exact fun _ _ _ => LoopSettings.named_of_withEnvironment
    case fromFile => exact fun around path s => LoopSettings.named_of_fromFile
    case loop => exact fun settings _ _ => settings.allBlank_normalize_name
    case session => exact fun verbosity ops m l => Course.loop_named

/-! ## A blank name above a settings file -/

def Folder.sample : Folder :=
  Folder.write {} "f" "[event_loop]\nname = \"logic\"\ncycle_budget = 64\n".toUTF8

def Environment.sample : Environment :=
  ⟨[(nameVariable, "\t".toUTF8), (violationVariable, " Log ".toUTF8)]⟩

theorem read_sample : FileSettings.read Folder.sample.surroundings "f" =
    .ok { name := some "logic", cycleBudget := some 64 } := by
  have single : "f".splitOn "/" = ["f"] := by
    rw [String.splitOn, if_neg (by decide), String.splitOnAux, if_neg (by decide +kernel),
      if_neg (by decide +kernel), String.splitOnAux, if_pos (by decide +kernel)]
    decide +kernel
  simp only [FileSettings.read, Folder.surroundings, Folder.readText, Folder.resolve, single]
  decide +kernel

/-- The name is the default one and not the one in the file, the budget is the one in the file, and
the response is the one in the environment. -/
theorem blank_name_over_file : ∃ s,
    LoopSettings.fromFileAndEnvironment Folder.sample.surroundings "f" Environment.sample = .ok s ∧
    s.name = "ctxcall-loop" ∧ s.cycleBudget = 64 ∧ s.violation = .log := by
  have below : FileSettings.Holds ⟨some "logic", some 64, none⟩ ⟨some "logic", some 64, none⟩ :=
    ⟨rfl, rfl, .none⟩
  have above : Environment.sample.Holds ⟨some "\t", none, some .log⟩ := by
    constructor
    case name => decide +kernel
    case cycleBudget =>
      have missing : Environment.sample.read? budgetVariable = none := by decide +kernel
      rw [missing]
      exact .none
    case violation =>
      have there : Environment.sample.read? violationVariable = some " Log " := by decide +kernel
      rw [there]
      exact .some ((@readViolation_eq_ok "" _ _).mp (by decide +kernel))
  obtain ⟨s, layered⟩ := environment_over_file_over_defaults.1 Folder.sample.surroundings "f"
    _ _ _ _ read_sample below above
  exact ⟨s, layered.made, layered.chosen.name, layered.chosen.cycleBudget, layered.chosen.violation⟩

end DeferredCalls
