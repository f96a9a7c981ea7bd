import DeltaPreview.Latex.Error
import DeltaPreview.Latex.Meaning

/-!
# Parsing formulas

The tokens of a formula become a sequence of parts, which a `Builder` puts together while they are
found.  Each step takes tokens from the front and leaves the others: what it leaves is never longer
than what it was given.  A sequence runs up to a token that stops it; what encloses the sequence then
checks which token that is.
-/

namespace DeltaPreview.Latex

/-- What was parsed, and fewer than `bound` tokens that are left. -/
structure Parsed (α : Type) (bound : Nat) where
  value : α
  rest : List Token
  bounded : rest.length < bound

/-- The result of parsing some tokens. -/
abbrev Parse (α : Type) (bound : Nat) := Except Fault (Parsed α bound)

/-- Stops at nothing. -/
def stopNever (_ : Token) : Bool := false

/-- Stops at one token. -/
def stopAt (mark : Token) (t : Token) : Bool := t == mark

/-- Stops where a cell of an environment ends. -/
def stopAtCell (environment : String) (t : Token) : Bool :=
  t == .separator || t == .newRow || t == .ending environment

/-- The leaf of a text, which must be fit for markup. -/
def leafOf {α : Type} [Builder α] (kind : LeafKind) (text : Text) (role : LeafRole)
    (variant : Option Variant) : Except Fault α :=
  match text.toMarkup with
  | .error refusal => .error (.refused refusal)
  | .ok cs => .ok (Builder.leaf ⟨kind, cs, role, variant⟩)

/-- Takes a token that must be a certain one. -/
def expect (mark : Token) (ts : List Token) : Parse Unit ts.length :=
  match ts with
  | [] => .error (.malformed (.expected mark none))
  | t :: rest =>
    if t = mark then .ok ⟨(), rest, by simp⟩ else .error (.malformed (.expected mark (some t)))

/-- Takes the delimiter after a command. -/
def delimiter (command : Token) (ts : List Token) : Parse (List Char) ts.length :=
  match ts with
  | [] => .error (.malformed (.unknownDelimiter command none))
  | t :: rest =>
    match t.delimiter? with
    | some text => .ok ⟨text, rest, by simp⟩
    | none => .error (.malformed (.unknownDelimiter command (some t)))

section

variable {α : Type}

/-- Adds the script that a caret or an underscore begins. -/
def Scripts.add (found : Scripts α) (t : Token) (ms : List α) : Scripts α :=
  if t = .subscript then { found with lower := some ms } else { found with upper := some ms }

/-- What is wrong with a script at a place where some are found already. -/
def Scripts.double? (found : Scripts α) (t : Token) : Option SyntaxFault :=
  if t = .subscript then found.lower.map fun _ => .doubleSubscript
  else found.upper.map fun _ => .doubleSuperscript

/-- Puts a cell in front of the first row. -/
def consCell (cell : List α) : List (List (List α)) → List (List (List α))
  | [] => [[cell]]
  | row :: rows => (cell :: row) :: rows

/-- The rows of a table without a last row that is a single empty cell. -/
def dropEmptyRow (rows : List (List (List α))) : List (List (List α)) :=
  match rows.getLast? with
  | some [[]] => rows.dropLast
  | _ => rows

/-- An environment with the given rows. -/
def Environment.build [Builder α] (e : Environment) (rows : List (List (List α))) : α :=
  let table := Builder.table e.leftAligned (dropEmptyRow rows)
  if e.left.isEmpty && e.right.isEmpty then table else Builder.fenced e.left [table] e.right

end

section

variable {α : Type} [Builder α]

mutual

/-- A sequence of parts, up to a token at which it stops. -/
def sequence (stop : Token → Bool) (ts : List Token) : Parse (List α) (ts.length + 1) :=
  match ts with
  | [] => .ok ⟨[], [], by simp⟩
  | t :: rest =>
    if stop t then .ok ⟨[], t :: rest, by simp⟩
    else if t.isScript then
      match argument rest with
      | .error fault => .error fault
      | .ok ⟨ms, after, h⟩ =>
        match scripts (Scripts.none.add t ms) after with
        | .error fault => .error fault
        | .ok ⟨both, after', h'⟩ =>
          match sequence stop after' with
          | .error fault => .error fault
          | .ok ⟨more, last, h''⟩ => .ok ⟨Builder.attach [] both ++ more, last, by simp; omega⟩
    else
      match element t rest with
      | .error fault => .error fault
      | .ok ⟨base, after, h⟩ =>
        match scripts Scripts.none after with
        | .error fault => .error fault
        | .ok ⟨both, after', h'⟩ =>
          match sequence stop after' with
          | .error fault => .error fault
          | .ok ⟨more, last, h''⟩ => .ok ⟨Builder.attach base both ++ more, last, by simp; omega⟩
termination_by 4 * ts.length + 1
decreasing_by all_goals (try simp at *) <;> omega

/-- The scripts that follow a base, after those that it already has. -/
def scripts (found : Scripts α) (ts : List Token) : Parse (Scripts α) (ts.length + 1) :=
  match ts with
  | [] => .ok ⟨found, [], by simp⟩
  | t :: rest =>
    if t.isScript then
      match found.double? t with
      | some fault => .error (.malformed fault)
      | none =>
        match argument rest with
        | .error fault => .error fault
        | .ok ⟨ms, after, h⟩ =>
          match scripts (found.add t ms) after with
          | .error fault => .error fault
          | .ok ⟨both, last, h'⟩ => .ok ⟨both, last, by simp; omega⟩
    else .ok ⟨found, t :: rest, by simp⟩
termination_by 4 * ts.length
decreasing_by all_goals (try simp at *) <;> omega

/-- The argument of a command or a script: a braced group or a single element. -/
def argument (ts : List Token) : Parse (List α) ts.length :=
  match ts with
  | [] => .error (.malformed (.expectedArgument none))
  | t :: rest =>
    if t.endsArgument then .error (.malformed (.expectedArgument (some t)))
    else if t = .openBrace then
      match group rest with
      | .error fault => .error fault
      | .ok ⟨ms, after, h⟩ => .ok ⟨ms, after, by rw [List.length_cons]; omega⟩
    else
      match element t rest with
      | .error fault => .error fault
      | .ok ⟨ms, after, h⟩ => .ok ⟨ms, after, by rw [List.length_cons]; omega⟩
termination_by 4 * ts.length
decreasing_by
  all_goals
    try simp at *
    omega

/-- The inside of a braced group and its closing brace. -/
def group (ts : List Token) : Parse (List α) ts.length :=
  match sequence (stopAt .closeBrace) ts with
  | .error fault => .error fault
  | .ok ⟨ms, after, h⟩ =>
    match expect .closeBrace after with
    | .error fault => .error fault
    | .ok ⟨(), rest, h'⟩ => .ok ⟨ms, rest, by omega⟩
termination_by 4 * ts.length + 2
decreasing_by all_goals omega

/-- The optional argument in brackets. -/
def optionalArgument (ts : List Token) : Parse (Option (List α)) (ts.length + 1) :=
  match ts with
  | .openBracket :: rest =>
    match sequence (stopAt .closeBracket) rest with
    | .error fault => .error fault
    | .ok ⟨ms, after, h⟩ =>
      match expect .closeBracket after with
      | .error fault => .error fault
      | .ok ⟨(), last, h'⟩ => .ok ⟨some ms, last, by simp; omega⟩
  | other => .ok ⟨none, other, by simp⟩
termination_by 4 * ts.length
decreasing_by
  all_goals
    try simp at *
    omega

/-- The cells of an environment, row by row, up to and including its end. -/
def rows (environment : String) (ts : List Token) :
    Parse (List (List (List α))) ts.length :=
  match sequence (stopAtCell environment) ts with
  | .error fault => .error fault
  | .ok ⟨cell, [], _⟩ => .error (.malformed (.unterminated environment none))
  | .ok ⟨cell, t :: after, h⟩ =>
    if t = .separator then
      match rows environment after with
      | .error fault => .error fault
      | .ok ⟨more, last, h'⟩ => .ok ⟨consCell cell more, last, by simp at h; omega⟩
    else if t = .newRow then
      match rows environment after with
      | .error fault => .error fault
      | .ok ⟨more, last, h'⟩ => .ok ⟨[cell] :: more, last, by simp at h; omega⟩
    else if t = .ending environment then .ok ⟨[[cell]], after, by simp at h; omega⟩
    else .error (.malformed (.unterminated environment (some t)))
termination_by 4 * ts.length + 2
decreasing_by all_goals (try simp at *) <;> omega

/-- The element that a token begins. -/
def element (t : Token) (ts : List Token) : Parse (List α) (ts.length + 1) :=
  match t.meaning with
  | .leaf kind text role variant =>
    match leafOf kind text role variant with
    | .error fault => .error fault
    | .ok m => .ok ⟨[m], ts, by simp⟩
  | .space width => .ok ⟨[Builder.space width], ts, by simp⟩
  | .newline => .ok ⟨[Builder.newline], ts, by simp⟩
  | .group =>
    match group ts with
    | .error fault => .error fault
    | .ok ⟨ms, rest, h⟩ => .ok ⟨[Builder.row ms], rest, by omega⟩
  | .fraction =>
    match argument ts with
    | .error fault => .error fault
    | .ok ⟨numerator, after, h⟩ =>
      match argument after with
      | .error fault => .error fault
      | .ok ⟨denominator, rest, h'⟩ =>
        .ok ⟨[Builder.fraction true numerator denominator], rest, by omega⟩
  | .binomial =>
    match argument ts with
    | .error fault => .error fault
    | .ok ⟨upper, after, h⟩ =>
      match argument after with
      | .error fault => .error fault
      | .ok ⟨lower, rest, h'⟩ =>
        .ok ⟨[Builder.fenced ['('] [Builder.fraction false upper lower] [')']], rest, by omega⟩
  | .radical =>
    match optionalArgument ts with
    | .error fault => .error fault
    | .ok ⟨index, after, h⟩ =>
      match argument after with
      | .error fault => .error fault
      | .ok ⟨base, rest, h'⟩ => .ok ⟨[Builder.radical index base], rest, by omega⟩
  | .accent mark =>
    match argument ts with
    | .error fault => .error fault
    | .ok ⟨base, rest, h⟩ => .ok ⟨[Builder.accent base mark], rest, by omega⟩
  | .font variant =>
    match argument ts with
    | .error fault => .error fault
    | .ok ⟨ms, rest, h⟩ => .ok ⟨Builder.withVariants variant ms, rest, by omega⟩
  | .bigDelimiter =>
    match delimiter t ts with
    | .error fault => .error fault
    | .ok ⟨text, rest, h⟩ => .ok ⟨[Builder.leaf (.operator text .fixed)], rest, by omega⟩
  | .leftDelimiter =>
    match delimiter t ts with
    | .error fault => .error fault
    | .ok ⟨left, inside, h⟩ =>
      match sequence (stopAt (.word "right")) inside with
      | .error fault => .error fault
      | .ok ⟨_, [], _⟩ => .error (.malformed .missingRight)
      | .ok ⟨content, mark :: after, h'⟩ =>
        if mark = .word "right" then
          match delimiter mark after with
          | .error fault => .error fault
          | .ok ⟨right, rest, h''⟩ =>
            .ok ⟨[Builder.fenced left content right], rest, by simp at h'; omega⟩
        else .error (.malformed .missingRight)
  | .environment name =>
    match environments.lookup name with
    | none => .error (.malformed (.unknownEnvironment name))
    | some e =>
      match columns name ts with
      | .error fault => .error fault
      | .ok ⟨(), after, h⟩ =>
        match rows name after with
        | .error fault => .error fault
        | .ok ⟨cells, rest, h'⟩ => .ok ⟨[e.build cells], rest, by omega⟩
  | .namelessEnvironment => .error (.malformed .namelessEnvironment)
  | .strayBrace => .error (.malformed .strayBrace)
  | .straySeparator => .error (.malformed .straySeparator)
  | .strayEnd => .error (.malformed (.strayEnd t))
  | .undefined => .error (.malformed (.undefined t))
termination_by 4 * ts.length + 3
decreasing_by all_goals (try simp at *) <;> omega

/-- The column specification that may begin an array; it is read and not used. -/
def columns (environment : String) (ts : List Token) : Parse Unit (ts.length + 1) :=
  match ts with
  | .openBrace :: rest =>
    if environment = "array" then
      match group rest with
      | .error fault => .error fault
      | .ok ⟨_, after, h⟩ => .ok ⟨(), after, by simp; omega⟩
    else .ok ⟨(), .openBrace :: rest, by simp⟩
  | other => .ok ⟨(), other, by simp⟩
termination_by 4 * ts.length
decreasing_by
  all_goals
    try simp at *
    omega

end

end

/-- The parts of a formula that a token list stands for. -/
def parseAs (α : Type) [Builder α] (ts : List Token) : Except Fault (List α) :=
  match (sequence stopNever ts : Parse (List α) _) with
  | .error fault => .error fault
  | .ok ⟨ms, [], _⟩ => .ok ms
  | .ok ⟨_, t :: _, _⟩ => .error (.malformed (.unexpected t))

end DeltaPreview.Latex
