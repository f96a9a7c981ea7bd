import DeltaPreview.Json.Number
import DeltaPreview.Text.Blank

/-!
# Lenient scalars

Fields that hold a number or a truth value accept other spellings of one: numbers for each other
where nothing is lost, truth values for numbers, and texts that spell a number or a truth value.
-/

namespace DeltaPreview.Lenient

open Json

/-- A text without its underscores, which may stand alone between other characters only. -/
def withoutUnderscores? (s : Text) : Option Text :=
  let underscore : CodePoint := .char '_'
  let rec doubled : Text → Bool
    | a :: b :: rest => (a = underscore && b = underscore) || doubled (b :: rest)
    | _ => false
  if s.head? = some underscore || s.getLast? = some underscore || doubled s then none
  else some (s.filter (· ≠ underscore))

/-- A sign, and the text after it. -/
def signed : Text → Bool × Text
  | .char '-' :: rest => (true, rest)
  | .char '+' :: rest => (false, rest)
  | s => (false, s)

/-- Digits, and after them nothing but the zeros of an empty fraction. -/
def integerText? (s : Text) : Option Int := do
  let (negative, t) := signed (← withoutUnderscores? s.trim)
  let (whole, rest) := spanDigits t
  if whole = [] then none
  let complete := match rest with
    | [] => true
    | .char '.' :: zeros => zeros ≠ [] && zeros.all (· = .char '0')
    | _ => false
  if !complete || maxDigits < whole.length then none
  return if negative then -(ofDigits whole : Int) else ofDigits whole

/-- A text in lower-case ASCII letters. -/
def lowercase (s : Text) : Text := s.map fun
  | .char c => .char c.toLower
  | g => g

/-- The words for doubles that have no digits. -/
def doubleWords : List (String × (Bool → Double)) :=
  [("inf", Double.infinity), ("infinity", Double.infinity), ("nan", fun _ => .nan)]

/-- Digits with an optional point anywhere among them and an optional exponent, or a word. -/
def doubleText? (s : Text) : Option Double := do
  let (negative, t) := signed (← withoutUnderscores? s.trim)
  match doubleWords.lookup (lowercase t).toString with
  | some word => return word negative
  | none =>
    let (whole, afterWhole) := spanDigits t
    let (fraction, afterFraction) := match afterWhole with
      | .char '.' :: rest => spanDigits rest
      | _ => ([], afterWhole)
    if whole = [] ∧ fraction = [] then none
    match afterFraction with
    | [] => return Double.ofDecimal negative (ofDigits (whole ++ fraction)) (-fraction.length)
    | rest =>
      match spanExponent rest with
      | some (exponent, []) =>
        return Double.ofDecimal negative (ofDigits (whole ++ fraction)) (exponent - fraction.length)
      | _ => none

/-- The texts for true and for false. -/
def truthWords : List (String × Bool) :=
  [("1", true), ("on", true), ("t", true), ("true", true), ("y", true), ("yes", true),
    ("0", false), ("off", false), ("f", false), ("false", false), ("n", false), ("no", false)]

/-- The integer that a scalar stands for. -/
def int? : Json → Option Int
  | .int n => some n
  | .bool b => some b.toNat
  | .float x => x.toInt?.bind fun n => if n.natAbs < Nat.pow 2 63 then some n else none
  | .string s => integerText? s
  | _ => none

/-- The double that a scalar stands for. -/
def double? : Json → Option Double
  | .float x => some x
  | .int n => Double.ofInt? n
  | .bool b => Double.ofInt? b.toNat
  | .string s => doubleText? s
  | _ => none

/-- The truth value that a scalar stands for. -/
def bool? : Json → Option Bool
  | .bool b => some b
  | .int 0 => some false
  | .int 1 => some true
  | .float x => match x.toInt? with
    | some 0 => some false
    | some 1 => some true
    | _ => none
  | .string s => truthWords.lookup (lowercase s).toString
  | _ => none

/-- A text; nothing else stands for one. -/
def text? : Json → Option Text
  | .string s => some s
  | _ => none

end DeltaPreview.Lenient
