import DeltaPreview.Text.Digit

/-!
# Arguments of the command line

`input` is the only positional argument and may be missing; `-o` and `--output` take a value, `-h`
and `--help` none.  A long option may be shortened as long as only one begins that way, and its
value may follow an equals sign; the value of a short option may follow it immediately.  After `--`
nothing is an option.  Words that begin with a dash but look like a negative number, or contain a
space, are no options either.
-/

namespace DeltaPreview.CommandLine

/-- What the arguments ask for. -/
structure Arguments where
  input : Option Text
  output : Option Text
  deriving DecidableEq, Repr

/-- Why the arguments ask for nothing that can be done. -/
inductive Refusal where
  /-- Help is asked for. -/
  | help
  /-- The arguments are not understood. -/
  | usage
  deriving DecidableEq, Repr

/-- A single argument, classified by its spelling. -/
inductive Word where
  | positional (value : Text)
  | separator
  | help
  /-- Help together with the output option, whose value comes next. -/
  | helpAndOutput
  | output (value : Option Text)
  | unknown
  /-- An option that is not used as it should be. -/
  | misused
  deriving DecidableEq, Repr

/-! ### Classification -/

/-- The names of the long options. -/
def helpName : Text := Text.ofString "--help"

def outputName : Text := Text.ofString "--output"

def separatorWord : Text := [.char '-', .char '-']

/-- The parts of a word before and after its first equals sign. -/
def splitValue (word : Text) : Text × Option Text :=
  (word.takeWhile (· != .char '='), (word.dropWhile (· != .char '=')).tail?)

/-- A long option that may be shortened; shortened beyond distinction it is no word at all. -/
def longOption (word : Text) : Except Refusal Word :=
  let (name, value) := splitValue word
  match name.isPrefixOf helpName, name.isPrefixOf outputName with
  | true, true => .error .usage
  | true, false => .ok (if value.isSome then .misused else .help)
  | false, true => .ok (.output value)
  | false, false => .ok .unknown

/-- The characters after the short help option are short options too.  The output option takes the
rest of them as its value; one that is not known does not matter, because help is given first. -/
def helpCluster : Text → Word
  | [] => .help
  | .char '-' :: _ => .misused
  | .char 'h' :: .char '=' :: _ => .misused
  | .char 'h' :: rest => helpCluster rest
  | [.char 'o'] => .helpAndOutput
  | _ => .help

/-- A word without the line end at its end. -/
def withoutLineEnd (word : Text) : Text :=
  if word.getLast? = some (.char '\n') then word.dropLast else word

/-- Whether a word looks like a negative number: digits with at most one point, which digits
follow.  A line end at the end does not count. -/
def isNegativeNumber (word : Text) : Bool :=
  match withoutLineEnd word with
  | .char '-' :: body =>
    let digits (t : Text) : Bool := t.all CodePoint.isDecimal
    let whole := body.takeWhile (· != .char '.')
    let last := (body.dropWhile (· != .char '.')).tail?.getD whole
    digits whole && digits last && !last.isEmpty
  | _ => false

/-- The word for one that is no known option. -/
def unknownWord (word : Text) : Word :=
  if isNegativeNumber word || word.contains (.char ' ') then .positional word else .unknown

/-- A single argument that is not the separator. -/
def Word.ofText (word : Text) : Except Refusal Word :=
  match word with
  | .char '-' :: .char '-' :: _ => do
    match ← longOption word with
    | .unknown => return unknownWord word
    | option => return option
  | [.char '-', .char 'h'] => return .help
  | [.char '-', .char 'o'] => return .output none
  | .char '-' :: .char 'h' :: .char '=' :: _ => return .misused
  | .char '-' :: .char 'h' :: cluster => return helpCluster cluster
  | .char '-' :: .char 'o' :: .char '=' :: value => return .output (some value)
  | .char '-' :: .char 'o' :: value => return .output (some value)
  | .char '-' :: _ :: _ => return unknownWord word
  | _ => return .positional word

/-- All arguments; those after the separator are positional. -/
def Word.listOfTexts : List Text → Except Refusal (List Word)
  | [] => return []
  | word :: rest =>
    if word = separatorWord then return .separator :: rest.map .positional
    else return (← Word.ofText word) :: (← listOfTexts rest)

/-! ### Reading -/

namespace Arguments

/-- The arguments after some that are read.  Words that are left over are refused, but only when all
words have been read. -/
def read (found : Arguments) (takenInput leftOver : Bool) : List Word → Except Refusal Arguments
  | [] => if leftOver then .error .usage else .ok found
  | .help :: _ => .error .help
  | .helpAndOutput :: .positional _ :: _ => .error .help
  | .helpAndOutput :: _ => .error .usage
  | .misused :: _ => .error .usage
  | .unknown :: rest => read found takenInput true rest
  | .output (some value) :: rest => read ⟨found.input, some value⟩ takenInput leftOver rest
  | .output none :: .positional value :: rest =>
    read ⟨found.input, some value⟩ takenInput leftOver rest
  | .output none :: _ => .error .usage
  | .separator :: rest =>
    match takenInput, rest with
    | false, [] => read found true leftOver []
    | false, .positional value :: rest => read ⟨some value, found.output⟩ true leftOver rest
    | _, rest => read found takenInput true rest
  | .positional value :: rest =>
    if takenInput then read found takenInput true rest
    else match rest with
      | .separator :: rest => read ⟨some value, found.output⟩ true leftOver rest
      | rest => read ⟨some value, found.output⟩ true leftOver rest

/-- What arguments ask for. -/
def ofWords (words : List Text) : Except Refusal Arguments := do
  read ⟨none, none⟩ false false (← Word.listOfTexts words)

end Arguments

end DeltaPreview.CommandLine
