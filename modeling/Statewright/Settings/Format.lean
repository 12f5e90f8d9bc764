import Statewright.FileTree.Basic
import Statewright.Settings.Ini
import Statewright.Settings.Json
import Statewright.Settings.Json5
import Statewright.Settings.Ron
import Statewright.Settings.Toml.Document
import Statewright.Settings.Yaml

/-!
# Formats of settings files

The extension of a settings file tells its format. Where a directory has the name of the settings
file, the file is looked for beside it, with an extension more.
-/

namespace Statewright

inductive SettingsFormat where
  | toml
  | json
  | yaml
  | ini
  | ron
  | json5
  deriving DecidableEq, Repr

namespace SettingsFormat

def all : List SettingsFormat := [toml, json, yaml, ini, ron, json5]

def extensions : SettingsFormat → List String
  | toml => ["toml"]
  | json => ["json"]
  | yaml => ["yaml", "yml"]
  | ini => ["ini"]
  | ron => ["ron"]
  | json5 => ["json5"]

/-- The settings in a document, by key; `none` for an ill-formed document. -/
def read? : SettingsFormat → (document : List Char) → Option (List (String × SettingValue))
  | toml => Toml.settings?
  | json => SettingValue.ofJson?
  | yaml => Yaml.settings?
  | ini => Ini.settings?
  | ron => Ron.settings?
  | json5 => Json5.settings?

def ofPath? (path : String) : Option SettingsFormat := do
  let e ← Path.extension? path
  all.find? (fun f => f.extensions.contains e)

def byExtension : List (String × SettingsFormat) :=
  all.flatMap (fun f => f.extensions.map (fun e => (e, f)))

/-- The paths at which the settings file of a path may be. -/
def candidates (path : String) : List String :=
  path :: byExtension.filterMap (fun (e, _) => Path.addExtension? path e)

/-- The settings file that a path leads to: the bytes of that file if it is one, else of the first
file beside it that has its name and an extension more. -/
def find? (t : FileTree) (path : String) : Option (SettingsFormat × List UInt8) :=
  match t.regular? path with
  | some bytes => (ofPath? path).map (fun f => (f, bytes))
  | none =>
    byExtension.findSome? (fun (e, f) => do
      let bytes ← t.regular? (← Path.addExtension? path e)
      return (f, bytes))

end SettingsFormat

end Statewright
