import AccessRules.Settings.Json
import AccessRules.Settings.Yaml.Document

/-!
# Settings in documents and files

The ending of the name of a file, in any case, tells the format of its text. Settings are checked
wherever they are read.
-/
namespace AccessRules.Settings

/-- Settings from a JSON document. -/
def ofJson (document : Text) : Except SettingsError Settings :=
  match (Json.read? document).bind (·.settings? true) with
  | some settings => settings.validate
  | none => .error .json

/-- Settings from a YAML document. -/
def ofYaml (document : Text) : Except SettingsError Settings :=
  match (Yaml.read? document).bind (·.settings? false) with
  | some settings => settings.validate
  | none => .error .yaml

/-- The ending of a name: what follows the last point, unless that is its first character. -/
def ending? (name : Text) : Option Text :=
  let ending := (name.reverse.takeWhile (· != '.')).reverse
  if ending.length + 1 < name.length then some ending else none

/-- Settings from a file with a name and a text, if it has one. -/
def ofFile (name : Text) (text? : Option Text) : Except SettingsError Settings :=
  match text? with
  | none => .error .noText
  | some text =>
    match (ending? name).map Text.lower with
    | none => .error (.invalid (.unknownFormat name))
    | some ending =>
      if ending = "yaml".toList ∨ ending = "yml".toList then ofYaml text
      else if ending = "json".toList then ofJson text
      else .error (.invalid (.unknownFormat name))

end AccessRules.Settings
