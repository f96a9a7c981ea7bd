import DeltaPreview.Lenient
import DeltaPreview.Yaml.Node

/-!
# Values of scalars

What a scalar stands for: null, a truth value, a number in one of several notations, a date, or a
text.  A date has no JSON form of its own and becomes the list of its numbers.
-/

namespace DeltaPreview.Yaml

/-- The words for null. -/
def nullWords : List String := ["", "~", "null", "Null", "NULL"]

/-- The words for truth values. -/
def truthWords : List (String × Bool) :=
  [("yes", true), ("Yes", true), ("YES", true), ("no", false), ("No", false), ("NO", false),
    ("true", true), ("True", true), ("TRUE", true), ("false", false), ("False", false),
    ("FALSE", false), ("on", true), ("On", true), ("ON", true), ("off", false), ("Off", false),
    ("OFF", false)]

/-- The words for infinity, after their sign. -/
def infinityWords : List String := [".inf", ".Inf", ".INF"]

def nanWords : List String := [".nan", ".NaN", ".NAN"]

/-- The key under which the entries of other mappings are merged. -/
def mergeWord : String := "<<"

/-- The words that have no value. -/
def reservedWords : List String := [mergeWord, "="]

/-! ### Numbers -/

def isDigit (c : Char) : Bool := c.isDigit

def isDigitOrGap (c : Char) : Bool := c.isDigit || c == '_'

def isHexDigit (c : Char) : Bool := c.isDigit || ('a' ≤ c && c ≤ 'f') || ('A' ≤ c && c ≤ 'F')

/-- The value of a hexadecimal digit. -/
def digitValue (c : Char) : Nat :=
  if c.isDigit then c.toNat - '0'.toNat else c.toLower.toNat - 'a'.toNat + 10

/-- The number that digits spell in a base. -/
def numberOf (base : Nat) (digits : List Char) : Nat :=
  digits.foldl (fun n c => base * n + digitValue c) 0

/-- A text without the underscores that group its digits. -/
def withoutGaps (s : List Char) : List Char := s.filter (· != '_')

/-- Whether a text is not empty and has only characters of a class. -/
def consistsOf (p : Char → Bool) (s : List Char) : Bool := !s.isEmpty && s.all p

/-- A sign, and the text after it. -/
def signed : List Char → Bool × List Char
  | '-' :: rest => (true, rest)
  | '+' :: rest => (false, rest)
  | s => (false, s)

/-- An integer of a sign and a size. -/
def withSign (negative : Bool) (n : Nat) : Int := if negative then -(n : Int) else n

/-- Whether a text is a part of a number in base sixty after the first. -/
def isSixtieth : List Char → Bool
  | [c] => c.isDigit
  | [c, d] => '0' ≤ c && c ≤ '5' && d.isDigit
  | _ => false

/-- The number of parts in base sixty, each of which may have gaps. -/
def sexagesimal (parts : List (List Char)) : Nat :=
  parts.foldl (fun n part => 60 * n + numberOf 10 (withoutGaps part)) 0

/-- Whether a text without a sign is an integer in one of the notations. -/
def spellsInteger : List Char → Bool
  | [] => false
  | ['0'] => true
  | '0' :: 'b' :: digits => consistsOf (fun c => c == '0' || c == '1' || c == '_') digits
  | '0' :: 'x' :: digits => consistsOf (fun c => isHexDigit c || c == '_') digits
  | '0' :: digits => consistsOf (fun c => ('0' ≤ c && c ≤ '7') || c == '_') digits
  | c :: rest =>
    c.isDigit && match (c :: rest).splitOn ':' with
      | first :: parts => first.all isDigitOrGap && parts.all isSixtieth
      | [] => false

/-- An integer in a base: digits of that base. -/
def inBase (base : Nat) (s : List Char) : Except Fault Nat :=
  if consistsOf (fun c => isHexDigit c && digitValue c < base) s then
    if base = 10 ∧ Json.maxDigits < s.length then throw (.tooManyDigits s.length)
    else return numberOf base s
  else throw (.noInteger base s)

/-- The integer of a text without a sign; its notation shows in how it begins. -/
def natural (s : List Char) : Except Fault Nat :=
  match withoutGaps s with
  | ['0'] => return 0
  | '0' :: 'b' :: digits => inBase 2 digits
  | '0' :: 'x' :: digits => inBase 16 digits
  | '0' :: digits => inBase 8 ('0' :: digits)
  | digits =>
    if digits.contains ':' then do
      let parts ← (digits.splitOn ':').mapM (inBase 10)
      return parts.foldl (fun n part => 60 * n + part) 0
    else inBase 10 digits

/-- The exponent of a number with a point: a letter, a sign and digits. -/
def exponent? (s : List Char) : Option Int :=
  match s with
  | [] => some 0
  | e :: sign :: digits =>
    if (e == 'e' || e == 'E') && (sign == '+' || sign == '-') && consistsOf isDigit digits then
      some (withSign (sign == '-') (numberOf 10 digits))
    else none
  | _ => none

/-- The double of digits, some of them after the point. -/
def pointed (negative : Bool) (whole : Nat) (fraction : List Char) (exponent : Int) : Double :=
  let kept := withoutGaps fraction
  Double.ofDecimal negative (whole * Nat.pow 10 kept.length + numberOf 10 kept) (exponent - kept.length)

/-- A number with a point.  One without digits before the point has no sign. -/
def pointed? (s : List Char) : Option Double :=
  let (negative, body) := signed s
  let whole := body.takeWhile fun c => isDigitOrGap c || c == ':'
  match body.dropWhile fun c => isDigitOrGap c || c == ':' with
  | '.' :: rest =>
    let fraction := rest.takeWhile isDigitOrGap
    match whole.splitOn ':', exponent? (rest.dropWhile isDigitOrGap) with
    | [[]], some e =>
      if body.length = s.length ∧ fraction.head?.any isDigit then
        some (pointed negative 0 fraction e)
      else none
    | [digits], some e =>
      if digits.head?.any isDigit then
        some (pointed negative (numberOf 10 (withoutGaps digits)) fraction e)
      else none
    | first :: parts, some 0 =>
      if first.head?.any isDigit && first.all isDigitOrGap && parts.all isSixtieth &&
          (rest.dropWhile isDigitOrGap).isEmpty then
        some (pointed negative (sexagesimal (first :: parts)) fraction 0)
      else none
    | _, _ => none
  | _ => none

/-- A number with a point, or a word for one. -/
def float? (s : List Char) : Option Double :=
  let (negative, body) := signed s
  if nanWords.contains (String.ofList s) then some .nan
  else if infinityWords.contains (String.ofList body) then some (Double.infinity negative)
  else pointed? s

/-! ### Dates -/

/-- Digits at the beginning of a text, as many as one of some counts. -/
def digits? (counts : List Nat) (s : List Char) : Option (Nat × List Char) :=
  let digits := s.takeWhile isDigit
  if counts.contains digits.length then some (numberOf 10 digits, s.drop digits.length) else none

/-- The text after a character that it must begin with. -/
def after? (c : Char) : List Char → Option (List Char)
  | d :: rest => if d = c then some rest else none
  | [] => none

def isBlankMark (c : Char) : Bool := c == ' ' || c == '\t'

/-- Whether a text is a time zone, or empty. -/
def isZone (s : List Char) : Bool :=
  match s.dropWhile isBlankMark with
  | [] => s.isEmpty
  | ['Z'] => true
  | sign :: rest =>
    (sign == '+' || sign == '-') && match digits? [1, 2] rest with
      | some (_, []) => true
      | some (_, ':' :: minutes) => minutes.length == 2 && minutes.all isDigit
      | _ => false

/-- The numbers of a time of day, with an optional fraction and time zone after them. -/
def timeOfDay? (s : List Char) : Option (List Nat) := do
  let (hour, s) ← digits? [1, 2] s
  let (minute, s) ← digits? [2] (← after? ':' s)
  let (second, s) ← digits? [2] (← after? ':' s)
  let zone := match s with
    | '.' :: fraction => fraction.dropWhile isDigit
    | s => s
  if isZone zone then some [hour, minute, second] else none

/-- The numbers of a date, and of a time after it if there is one. -/
def date? (s : List Char) : Option (List Nat) := do
  let (year, afterYear) ← digits? [4] s
  let (month, afterMonth) ← digits? [1, 2] (← after? '-' afterYear)
  let (day, rest) ← digits? [1, 2] (← after? '-' afterMonth)
  match rest with
  | [] => if s.length = 10 then some [year, month, day] else none
  | c :: more =>
    let time := if c == 'T' || c == 't' then more else rest.dropWhile isBlankMark
    if time.length = rest.length then none
    else return [year, month, day] ++ (← timeOfDay? time)

/-- The number of days of a month. -/
def daysOf (year month : Nat) : Nat :=
  if month = 2 then if year % 4 = 0 ∧ (year % 100 ≠ 0 ∨ year % 400 = 0) then 29 else 28
  else if [4, 6, 9, 11].contains month then 30
  else 31

/-- The first part of a date that is out of its range. -/
def badPart? : List Nat → Option DatePart
  | year :: month :: day :: time =>
    if year = 0 then some (.year year)
    else if month = 0 ∨ 12 < month then some .month
    else if day = 0 ∨ daysOf year month < day then some .day
    else match time with
      | [hour, minute, second] =>
        if 23 < hour then some .hour
        else if 59 < minute then some .minute
        else if 59 < second then some .second
        else none
      | _ => none
  | _ => none

/-! ### Values -/

/-- The text of a value that is a text. -/
def textValue (s : List Char) : Json := .string (Text.ofChars s)

/-- What a scalar stands for by its spelling. -/
def implicitValue (s : List Char) : Except Fault Json :=
  let word := String.ofList s
  let (negative, body) := signed s
  if reservedWords.contains word then throw .malformed
  else if nullWords.contains word then return .null
  else match truthWords.lookup word, float? s with
    | some b, _ => return .bool b
    | none, some x => return .float x
    | none, none =>
      if spellsInteger body then return .int (withSign negative (← natural body))
      else match date? s with
        | some numbers => match badPart? numbers with
          | some part => throw (.noDate part)
          | none => return .array (numbers.map fun n => .int (n : Nat))
        | none => return textValue s

/-- What a scalar stands for that is known to be a double: other spellings of one count as well. -/
def doubleValue (s : List Char) : Except Fault Json :=
  match float? s, Lenient.doubleText? (Text.ofChars (withoutGaps s)) with
  | some x, _ => return .float x
  | none, some x => return .float x
  | none, none => throw (.noDouble ((withoutGaps (signed s).2).map Char.toLower))

/-- What a scalar stands for. -/
def scalarValue : Kind → List Char → Except Fault Json
  | .implicit, s => implicitValue s
  | .text, s => return textValue s
  | .integer, s => do
    let (negative, body) := signed s
    return .int (withSign negative (← natural body))
  | .double, s => doubleValue s
  | .truth, s =>
    match truthWords.lookup (String.ofList (s.map Char.toLower)) with
    | some b => return .bool b
    | none => throw (.noTruth (s.map Char.toLower))
  | .null, _ => return .null

end DeltaPreview.Yaml
