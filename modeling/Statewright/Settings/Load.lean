import Statewright.Settings.Basic
import Statewright.Settings.Format
import Statewright.Settings.Key
import Statewright.Text.Utf8

/-!
# Loading settings

Each setting is taken from its environment variable, else from the settings file, else it has its
default. Names of variables and keys of the file count in any case.
-/

namespace Statewright.Settings

inductive LoadError where
  /-- The path leads somewhere, but to no file in a known format. -/
  | noSettingsFile
  | notText (f : Text.Utf8.Fault)
  | illFormed
  | wrongValue (setting : String)
  deriving DecidableEq, Repr

/-- The settings file that is looked for in the working directory. -/
def fileName : String := "fsm-designer.toml"

/-- What the names of environment variables for settings begin with. -/
def variableStart : String := "FSM_DESIGNER_"

/-- Values by setting, in the order in which they are given. -/
abbrev Values := List (String × SettingValue)

def ofEnvironment (environment : List (String × String)) : Values :=
  environment.filterMap (fun (name, value) =>
    let letters := (Text.upper name).toList
    if variableStart.toList.isPrefixOf letters then
      let key := String.ofList (letters.drop variableStart.length)
      some (SettingKey.assign key (.ofEnvironment value))
    else none)

def find? (values : Values) (setting : String) : Option SettingValue :=
  (values.reverse.find? (fun v => Text.sameWord v.1 setting)).map Prod.snd

/-- The value of a setting in the first source that has one. -/
def pick {α : Type} (sources : List Values) (setting : String) (read : SettingValue → Option α) :
    Except LoadError (Option α) :=
  match sources.findSome? (find? · setting) with
  | none => .ok none
  | some v =>
    match read v with
    | some a => .ok (some a)
    | none => .error (.wrongValue setting)

def ofSources (sources : List Values) : Except LoadError Settings := do
  let draft : Draft := {
    prompt := ← pick sources "prompt" SettingValue.toText?
    compiledExtension := ← pick sources "compiled_extension" SettingValue.toText?
    logLevel := ← pick sources "log_level" SettingValue.toText?
    echoScript := ← pick sources "echo_script" SettingValue.toBool? }
  return draft.finish

/-- The values of a settings file. A path that leads nowhere gives none. -/
def ofFile (t : FileTree) (path : String) : Except LoadError Values :=
  if !t.exists? path then .ok []
  else
    match SettingsFormat.find? t path with
    | none => .error .noSettingsFile
    | some (format, bytes) =>
      match Text.Utf8.decode bytes with
      | .error f => .error (.notText f)
      | .ok document =>
        match format.read? document with
        | none => .error .illFormed
        | some entries => .ok (entries.map (fun (key, v) => SettingKey.assign key v))

def loadFrom (t : FileTree) (environment : List (String × String)) (path : String) :
    Except LoadError Settings := do
  let file ← ofFile t path
  ofSources [ofEnvironment environment, file]

def load (t : FileTree) (environment : List (String × String)) : Except LoadError Settings :=
  loadFrom t environment fileName

end Statewright.Settings
