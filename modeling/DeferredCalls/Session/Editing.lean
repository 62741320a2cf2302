import DeferredCalls.Config.Reading
import DeferredCalls.World

/-!
# Editing settings

Settings of a loop are edited step by step, starting from the default. A step that makes new
settings replaces the edited ones only if it succeeds; a step that overrides settings in place keeps
what it changed before it failed.
-/

namespace DeferredCalls

/-- One step of editing settings. -/
inductive SettingsStep
  | reset
  | setName (name : String)
  | setBudget (budget : Nat)
  | setViolation (violation : ViolationResponse)
  | normalize
  /-- Overrides in place by the environment. -/
  | applyEnvironment (env : Environment)
  | withEnvironment (env : Environment)
  | fromEnvironment (env : Environment)
  /-- Overrides in place by the text of a settings file. -/
  | applyText (text : String)
  | showText (text : String)
  | showFile (path : String)
  | fromFile (path : String)
  | fromFileAndEnvironment (path : String) (env : Environment)
  /-- Creates a loop with the edited settings. -/
  | createLoop
  | isDefault
  | unknown (verb : String)

/-- A step of editing, before which the settings file may be written. -/
structure SettingsCommand where
  /-- What the settings file holds from then on. -/
  content : Option ByteArray := none
  step : SettingsStep

/-- The name of the settings file that is written. -/
def settingsFileName : String := "config.toml"

/-- The reply to a step of editing. -/
inductive SettingsReply
  | accepted
  | rejected (e : ConfigError)
  | failed (e : Error)
  | file (settings : FileSettings)
  | loop (name : String) (violation : ViolationResponse) (debug : String)
  | flag (b : Bool)
  | unknown (verb : String)

namespace LoopSettings

/-- The default settings, overridden by a settings file and then by the environment. -/
def fromFileAndEnvironment (around : Surroundings) (path : String) (env : Environment) :
    Except Error LoopSettings :=
  match fromFile around path with
  | .error e => .error e
  | .ok s => s.withEnvironment env

/-- New settings take the place of the old ones; if there are none, the old ones stay. -/
def replace (s : LoopSettings) : Except Error LoopSettings → SettingsReply × LoopSettings
  | .ok s' => (.accepted, s')
  | .error e => (.failed e, s)

end LoopSettings

namespace Override

/-- The settings as far as they were overridden. -/
def reply (o : Override) : SettingsReply × LoopSettings :=
  match o.failure with
  | none => (.accepted, o.settings)
  | some e => (.rejected e, o.settings)

end Override

/-- What a settings file holds, or why that is not known. -/
def SettingsReply.ofFile : Except ConfigError FileSettings → SettingsReply
  | .ok settings => file settings
  | .error e => rejected e

namespace SettingsStep

/-- The reply to a step, and the settings after it. -/
def perform (around : Surroundings) (s : LoopSettings) : SettingsStep → SettingsReply × LoopSettings
  | reset => (.accepted, .ofBuild around.build)
  | setName name => (.accepted, { s with name })
  | setBudget budget => (.accepted, { s with cycleBudget := budget })
  | setViolation violation => (.accepted, { s with violation })
  | normalize => (.accepted, s.normalize)
  | applyEnvironment env => (s.applyEnvironment env).reply
  | withEnvironment env => s.replace (s.withEnvironment env)
  | fromEnvironment env => s.replace (LoopSettings.fromEnvironment around env)
  | applyText text =>
    match FileSettings.ofText around text with
    | .ok file => (s.applyFile file).reply
    | .error e => (.rejected e, s)
  | showText text => (.ofFile (FileSettings.ofText around text), s)
  | showFile path => (.ofFile (FileSettings.read around path), s)
  | fromFile path => s.replace (LoopSettings.fromFile around path)
  | fromFileAndEnvironment path env =>
    s.replace (LoopSettings.fromFileAndEnvironment around path env)
  | createLoop =>
    let loop := EventLoop.ofSettings s ⟨0⟩ none
    (.loop loop.name loop.violation loop.debug, s)
  | isDefault => (.flag (s = .ofBuild around.build), s)
  | unknown verb => (.unknown verb, s)

end SettingsStep

namespace SettingsCommand

/-- The working folder once a command has written its settings file. -/
def prepare (folder : Folder) (command : SettingsCommand) : Folder :=
  match command.content with
  | none => folder
  | some content => folder.write settingsFileName content

/-- The replies to commands, each with the settings after it. -/
def performAll (folder : Folder) (s : LoopSettings) :
    List SettingsCommand → List (SettingsReply × LoopSettings)
  | [] => []
  | command :: commands =>
    let folder := command.prepare folder
    let result := command.step.perform folder.surroundings s
    result :: performAll folder result.2 commands

end SettingsCommand

end DeferredCalls
