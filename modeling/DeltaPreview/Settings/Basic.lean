import DeltaPreview.Lenient
import DeltaPreview.Misfit

/-!
# Settings

What a preview can be configured with: the colour of formula errors and whether formulas are looked
for in plain text, the size and the alternative text of images, and the level of log messages.
-/

namespace DeltaPreview

structure FormulaSettings where
  errorColor : Text
  expandInlineMath : Bool
  deriving DecidableEq, Repr

structure ImageSettings where
  width : Int
  height : Int
  alt : Text
  deriving DecidableEq, Repr

structure LoggingSettings where
  level : Text
  deriving DecidableEq, Repr

structure Settings where
  formula : FormulaSettings
  image : ImageSettings
  logging : LoggingSettings
  deriving DecidableEq, Repr

namespace Settings

/-- The settings that hold where nothing else is said. -/
def default : Settings where
  formula := ⟨Text.ofString "#f00", false⟩
  image := ⟨300, 200, Text.ofString "Embedded content"⟩
  logging := ⟨Text.ofString "INFO"⟩

instance : Inhabited Settings := ⟨default⟩

/-- The names of the log levels. -/
def levels : List String :=
  ["CRITICAL", "FATAL", "ERROR", "WARN", "WARNING", "INFO", "DEBUG", "NOTSET"]

/-- A code point in upper case, as far as the names of levels can contain it. -/
def upperCase : CodePoint → CodePoint
  | .char 'ı' => .char 'I'
  | .char 'ſ' => .char 'S'
  | .char c => .char c.toUpper
  | g => g

/-- A log level, in whatever case it is given. -/
def level? (v : Json) : Option Text := do
  let name := (← Lenient.text? v).map upperCase
  if (levels.map Text.ofString).contains name then some name else none

/-- A member that may be missing. -/
def member {α : Type} (name : String) (usual : α) (ofJson? : Json → Option α)
    (members : List (Text × Json)) : Except Misfit α :=
  match Json.lookup (Text.ofString name) members with
  | none => .ok usual
  | some v => match ofJson? v with
    | some a => .ok a
    | none => .error .settings

/-- A group of settings that may be missing. -/
def group {α : Type} (name : String) (ofMembers : List (Text × Json) → Except Misfit α)
    (members : List (Text × Json)) : Except Misfit α :=
  match Json.lookup (Text.ofString name) members with
  | none => ofMembers []
  | some (.object group) => ofMembers group
  | some _ => .error .settings

def formulaOfMembers (members : List (Text × Json)) : Except Misfit FormulaSettings := do
  let errorColor ← member "error_color" default.formula.errorColor Lenient.text? members
  let expand ← member "expand_inline_math" default.formula.expandInlineMath Lenient.bool? members
  return ⟨errorColor, expand⟩

def imageOfMembers (members : List (Text × Json)) : Except Misfit ImageSettings := do
  let width ← member "width" default.image.width Lenient.int? members
  let height ← member "height" default.image.height Lenient.int? members
  let alt ← member "alt" default.image.alt Lenient.text? members
  return ⟨width, height, alt⟩

def loggingOfMembers (members : List (Text × Json)) : Except Misfit LoggingSettings := do
  let level ← member "level" default.logging.level level? members
  return ⟨level⟩

/-- Reads settings; unknown members are ignored. -/
def ofJson : Json → Except Misfit Settings
  | .object members => do
    let formula ← group "formula" formulaOfMembers members
    let image ← group "image" imageOfMembers members
    let logging ← group "logging" loggingOfMembers members
    return ⟨formula, image, logging⟩
  | _ => .error .settings

end Settings

end DeltaPreview
