import AccessRules.Rule.Limits

/-!
# Settings

The settings of an engine are the limits on reading rules and how many compiled rules are kept.
Limits of zero, which no rule could keep, are refused; the depth is looked at first.
-/
namespace AccessRules

/-- How compiled rules are kept. -/
structure CacheSettings where
  /-- Compiled rules are kept. -/
  enabled : Bool := true
  /-- Most compiled rules that are kept. -/
  maxEntries : Nat := 1024
deriving DecidableEq

/-- The settings of an engine. -/
structure Settings where
  /-- Bounds on reading rules. -/
  limits : Limits := {}
  /-- How compiled rules are kept. -/
  cache : CacheSettings := {}
deriving DecidableEq

/-- Why settings are refused. -/
inductive SettingsFault where
  /-- No nesting is allowed. -/
  | zeroDepth
  /-- No text is allowed. -/
  | zeroLength
  /-- The name of the file does not tell the format. -/
  | unknownFormat (file : Text)
  /-- A reason in the words of whoever made the settings. -/
  | reported (reason : String)
deriving DecidableEq

/-- Why there are no settings. -/
inductive SettingsError where
  /-- They are refused. -/
  | invalid (fault : SettingsFault)
  /-- The file has no text. -/
  | noText
  /-- The text is no YAML document of settings. -/
  | yaml
  /-- The text is no JSON document of settings. -/
  | json
deriving DecidableEq

/-- The message of refused settings. -/
def SettingsFault.message : SettingsFault → String
  | zeroDepth => "limits.max_depth must be greater than 0"
  | zeroLength => "limits.max_input_len must be greater than 0"
  | unknownFormat file => "unsupported config file type: " ++ String.ofList file
  | reported reason => reason

/-- The message of missing settings. -/
def SettingsError.message : SettingsError → String
  | invalid fault => "Configuration error: " ++ fault.message
  | noText => "I/O error: the file cannot be read as text"
  | yaml => "YAML error: the text is no document of settings"
  | json => "JSON error: the text is no document of settings"

/-- Disabled: no compiled rule is kept. -/
def CacheSettings.disabled : CacheSettings := { enabled := false }

/-- The settings of the cache with all their parts named. -/
def CacheSettings.inspect (settings : CacheSettings) : Text :=
  "CacheConfig \x7b enabled: ".toList ++ (if settings.enabled then "true" else "false").toList ++
    ", max_entries: ".toList ++ Text.decimal settings.maxEntries ++ " \x7d".toList

/-- The settings, if some rule can keep their limits. -/
def Settings.validate (settings : Settings) : Except SettingsError Settings :=
  if settings.limits.maxDepth = 0 then .error (.invalid .zeroDepth)
  else if settings.limits.maxLength = 0 then .error (.invalid .zeroLength)
  else .ok settings

/-- Settings are valid exactly if neither limit is zero, and are then kept as they are. -/
theorem Settings.validate_eq_ok_iff {settings valid : Settings} :
    settings.validate = .ok valid ↔
      settings.limits.maxDepth ≠ 0 ∧ settings.limits.maxLength ≠ 0 ∧ valid = settings := by
  unfold validate
  split
  · simp [*]
  · split <;> simp [*, eq_comm]

end AccessRules
