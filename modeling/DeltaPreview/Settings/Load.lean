import DeltaPreview.Settings.Basic
import DeltaPreview.Yaml.Value

/-!
# Loading settings

Settings are read from a YAML file.  Where there is none, or where it is malformed or does not fit,
the defaults hold, and the severity of the log message tells these cases apart.
-/

namespace DeltaPreview

/-- How serious a log message is. -/
inductive Severity where
  | debug
  | info
  | warning
  deriving DecidableEq, Repr

/-- Settings, and how serious the message is that was logged when they were loaded. -/
structure LoadedSettings where
  settings : Settings
  severity : Severity
  deriving DecidableEq, Repr

namespace Settings

/-- The settings of a YAML value; one that counts as false has none. -/
def ofYaml (v : Json) : Except Misfit Settings := ofJson (if v.truthy then v else .object [])

/-- The settings in the text of a file, which may be missing. -/
def load : Option (List Char) → Except Yaml.Fault LoadedSettings
  | none => return ⟨default, .info⟩
  | some text =>
    match Yaml.read text with
    | .error .malformed => return ⟨default, .warning⟩
    | .error fault => throw fault
    | .ok v => match ofYaml v with
      | .ok settings => return ⟨settings, .debug⟩
      | .error _ => return ⟨default, .warning⟩

end Settings

end DeltaPreview
