import DeltaPreview.Latex.Builder
import DeltaPreview.Latex.Token
import DeltaPreview.Text.Digit
import DeltaPreview.Text.Letter

/-!
# What tokens mean

The tables of the control sequences that stand for symbols, and the meaning of every token: a leaf
of the formula, a space, a construction with arguments, or something that cannot stand where an
element is expected.
-/

namespace DeltaPreview.Latex

/-- The Greek letters and letter-like symbols. -/
def greekLetters : List (String × Char) := [
  ("alpha", 'α'), ("beta", 'β'), ("gamma", 'γ'), ("delta", 'δ'), ("epsilon", 'ϵ'), ("zeta", 'ζ'),
  ("eta", 'η'), ("theta", 'θ'), ("iota", 'ι'), ("kappa", 'κ'), ("lambda", 'λ'), ("mu", 'μ'),
  ("nu", 'ν'), ("xi", 'ξ'), ("omicron", 'ο'), ("pi", 'π'), ("rho", 'ρ'), ("sigma", 'σ'),
  ("tau", 'τ'), ("upsilon", 'υ'), ("phi", 'ϕ'), ("chi", 'χ'), ("psi", 'ψ'), ("omega", 'ω'),
  ("Gamma", 'Γ'), ("Delta", 'Δ'), ("Theta", 'Θ'), ("Lambda", 'Λ'), ("Xi", 'Ξ'), ("Pi", 'Π'),
  ("Sigma", 'Σ'), ("Upsilon", 'Υ'), ("Phi", 'Φ'), ("Psi", 'Ψ'), ("Omega", 'Ω'),
  ("varepsilon", 'ε'), ("vartheta", 'ϑ'), ("varpi", 'ϖ'), ("varrho", 'ϱ'), ("varsigma", 'ς'),
  ("varphi", 'φ'), ("hbar", 'ℏ'), ("ell", 'ℓ')]

/-- The operators, relations and arrows. -/
def operators : List (String × Char) := [
  ("pm", '±'), ("mp", '∓'), ("times", '×'), ("div", '÷'), ("cdot", '⋅'), ("ast", '∗'),
  ("cup", '∪'), ("cap", '∩'), ("in", '∈'), ("notin", '∉'), ("ni", '∋'), ("subset", '⊂'),
  ("supset", '⊃'), ("subseteq", '⊆'), ("supseteq", '⊇'), ("neq", '≠'), ("ne", '≠'),
  ("equiv", '≡'), ("approx", '≈'), ("sim", '∼'), ("simeq", '≃'), ("propto", '∝'), ("le", '≤'),
  ("leq", '≤'), ("ge", '≥'), ("geq", '≥'), ("ll", '≪'), ("gg", '≫'), ("infty", '∞'),
  ("nabla", '∇'), ("partial", '∂'), ("forall", '∀'), ("exists", '∃'), ("neg", '¬'), ("land", '∧'),
  ("lor", '∨'), ("wedge", '∧'), ("vee", '∨'), ("angle", '∠'), ("prime", '′'), ("circ", '∘'),
  ("bullet", '∙'), ("oplus", '⊕'), ("otimes", '⊗'), ("perp", '⊥'), ("parallel", '∥'),
  ("mid", '∣'), ("setminus", '∖'), ("emptyset", '∅'), ("leftarrow", '←'), ("rightarrow", '→'),
  ("to", '→'), ("gets", '←'), ("mapsto", '↦'), ("uparrow", '↑'), ("downarrow", '↓'),
  ("leftrightarrow", '↔'), ("Leftarrow", '⇐'), ("Rightarrow", '⇒'), ("implies", '⟹'),
  ("iff", '⟺'), ("Uparrow", '⇑'), ("Downarrow", '⇓'), ("Leftrightarrow", '⇔')]

/-- The delimiters and dots that have a name. -/
def symbolWords : List (String × Char) := [
  ("langle", '⟨'), ("rangle", '⟩'), ("lvert", '|'), ("rvert", '|'), ("lfloor", '⌊'),
  ("rfloor", '⌋'), ("lceil", '⌈'), ("rceil", '⌉'), ("ldots", '…'), ("cdots", '⋯'), ("ddots", '⋱'),
  ("vdots", '⋮'), ("dots", '…')]

/-- The characters that a backslash makes literal symbols. -/
def symbolEscapes : List (Char × Char) := [
  ('\x7b', '\x7b'), ('\x7d', '\x7d'), ('|', '‖'), ('%', '%'), ('$', '$'), ('#', '#'), ('&', '&'),
  ('_', '_')]

/-- The spaces that have a name. -/
def spaceWords : List (String × String) := [("quad", "1em"), ("qquad", "2em")]

/-- The spaces that are a backslash and a character. -/
def spaceEscapes : List (Char × String) := [
  (',', "0.1667em"), (':', "0.2222em"), (';', "0.2778em"), (' ', "0.25em"), ('!', "-0.1667em")]

/-- The width of the space that a tilde stands for. -/
def tildeWidth : String := "0.25em"

/-- The functions that are set upright under their own name. -/
def functions : List String := [
  "sin", "cos", "tan", "csc", "sec", "cot", "sinh", "cosh", "tanh", "coth", "arcsin", "arccos",
  "arctan", "log", "ln", "lg", "exp", "det", "dim", "ker", "deg", "gcd", "arg", "min", "max",
  "sup", "inf", "lim", "limsup", "liminf", "Pr"]

/-- The large operators. -/
def largeOperators : List (String × Char) := [
  ("sum", '∑'), ("prod", '∏'), ("coprod", '∐'), ("int", '∫'), ("iint", '∬'), ("iiint", '∭'),
  ("oint", '∮'), ("bigcup", '⋃'), ("bigcap", '⋂'), ("bigoplus", '⨁'), ("bigotimes", '⨂')]

/-- The accents. -/
def accents : List (String × Char) := [
  ("hat", '^'), ("widehat", '^'), ("vec", '→'), ("dot", '˙'), ("ddot", '¨'), ("bar", '¯'),
  ("overline", '¯'), ("tilde", '~'), ("widetilde", '~')]

/-- The alphabets of the font commands. -/
def fonts : List (String × Variant) := [
  ("mathbf", .bold), ("mathrm", .normal), ("mathit", .italic), ("mathcal", .script),
  ("mathbb", .doubleStruck), ("mathfrak", .fraktur), ("mathsf", .sansSerif),
  ("mathtt", .monospace), ("boldsymbol", .boldItalic)]

/-- The commands for fractions. -/
def fractions : List String := ["frac", "dfrac", "tfrac"]

/-- The commands that make the delimiter after them big. -/
def bigDelimiters : List String := [
  "big", "Big", "bigg", "Bigg", "bigl", "bigr", "Bigl", "Bigr", "biggl", "biggr"]

/-- The characters that are written otherwise as operators. -/
def operatorGlyphs : List (Char × Char) := [('-', '−'), ('*', '∗'), ('\'', '′')]

/-- The delimiters that are single characters and stand for themselves. -/
def delimiterGlyphs : List Char := ['(', ')', '[', ']', '|', '/']

/-- The delimiters that are a backslash and a character. -/
def delimiterEscapes : List (Char × Char) := [('\x7b', '\x7b'), ('\x7d', '\x7d'), ('|', '‖')]

/-- The delimiters that have a name. -/
def delimiterWords : List (String × Char) := [
  ("langle", '⟨'), ("rangle", '⟩'), ("lvert", '|'), ("rvert", '|'), ("lVert", '‖'),
  ("rVert", '‖'), ("lfloor", '⌊'), ("rfloor", '⌋'), ("lceil", '⌈'), ("rceil", '⌉')]

/-- The operators that take limits in display layout. -/
def limitOperators : List Char := ['∑', '∏', '∐', '⋃', '⋂', '⨁', '⨂']

/-- The functions that take limits in display layout. -/
def limitFunctions : List String := [
  "lim", "limsup", "liminf", "min", "max", "sup", "inf", "det", "gcd", "Pr"]

/-- How an environment is set: the delimiters around the table and the alignment of its cells. -/
structure Environment where
  left : List Char
  right : List Char
  leftAligned : Bool
  deriving DecidableEq, Repr

/-- The environments.  One without delimiters is the bare table. -/
def environments : List (String × Environment) := [
  ("matrix", ⟨[], [], false⟩), ("pmatrix", ⟨['('], [')'], false⟩),
  ("bmatrix", ⟨['['], [']'], false⟩), ("Bmatrix", ⟨['\x7b'], ['\x7d'], false⟩),
  ("vmatrix", ⟨['|'], ['|'], false⟩), ("Vmatrix", ⟨['‖'], ['‖'], false⟩),
  ("cases", ⟨['\x7b'], [], true⟩), ("aligned", ⟨[], [], true⟩), ("array", ⟨[], [], false⟩)]

/-- What a token means where an element may stand. -/
inductive Meaning where
  /-- A leaf whose text comes from the source or from a table. -/
  | leaf (kind : LeafKind) (text : Text) (role : LeafRole) (variant : Option Variant)
  | space (width : String)
  | newline
  /-- A braced group follows. -/
  | group
  | fraction
  | binomial
  | radical
  | accent (mark : Char)
  | font (variant : Variant)
  | bigDelimiter
  | leftDelimiter
  | environment (name : String)
  /-- The beginning of an environment without a name. -/
  | namelessEnvironment
  | strayBrace
  | straySeparator
  /-- The right or the end of something that was not begun. -/
  | strayEnd
  | undefined
  deriving DecidableEq, Repr

namespace Meaning

/-- An operator from a table. -/
def operator (c : Char) : Meaning := leaf .operator [.char c] .plain none

/-- An identifier from a table. -/
def identifier (name : String) : Meaning := leaf .identifier (Text.ofString name) .plain none

/-- The first meaning that is found. -/
def first (candidates : List (Option Meaning)) : Meaning :=
  (candidates.findSome? id).getD undefined

/-- A meaning, if a condition holds. -/
def when (condition : Bool) (meaning : Meaning) : Option Meaning :=
  if condition then some meaning else none

/-- The meaning of a control word. -/
def ofWord (name : String) : Meaning :=
  first [
    (greekLetters.lookup name).map fun c => leaf .identifier [.char c] .plain none,
    (operators.lookup name).map operator,
    (symbolWords.lookup name).map operator,
    (spaceWords.lookup name).map space,
    when (functions.contains name) (identifier name),
    (largeOperators.lookup name).map fun c => leaf .operator [.char c] .large none,
    when (fractions.contains name) fraction,
    when (name == "binom") binomial,
    when (name == "sqrt") radical,
    (accents.lookup name).map accent,
    (fonts.lookup name).map font,
    when (bigDelimiters.contains name) bigDelimiter,
    when (name == "left") leftDelimiter,
    when ("begin".toList.isPrefixOf name.toList) namelessEnvironment,
    when (name == "right" || "end".toList.isPrefixOf name.toList) strayEnd]

/-- The meaning of a backslash and a code point. -/
def ofEscape : CodePoint → Meaning
  | .char '\\' => newline
  | .char c => first [(symbolEscapes.lookup c).map operator, (spaceEscapes.lookup c).map space]
  | .surrogate _ => undefined

/-- The meaning of a single code point. -/
def ofGlyph (g : CodePoint) : Meaning :=
  match g with
  | .char '\x7b' => group
  | .char '\x7d' => strayBrace
  | .char '&' => straySeparator
  | .char '~' => space tildeWidth
  | g =>
    if g.isDigit then leaf .number [g] .plain none
    else if g.isLetter then leaf .identifier [g] .plain none
    else
      match g.toChar?.bind fun c => operatorGlyphs.lookup c with
      | some c => operator c
      | none => leaf .operator [g] .plain none

/-- The meaning of a text command. -/
def ofTextCommand (command : String) (body : Text) : Meaning :=
  if command = "operatorname" ∨ command = "operatorname*" then
    leaf .identifier body.trim .plain (some .normal)
  else leaf .text body .plain none

end Meaning

/-- What a token means. -/
def Token.meaning : Token → Meaning
  | .word name => .ofWord name
  | .symbol g => .ofEscape g
  | .backslash => .undefined
  | .text command _ body => .ofTextCommand command body
  | .beginning name => .environment name
  | .ending _ => .strayEnd
  | .number digits => .leaf .number (Text.ofChars digits) .plain none
  | .glyph g => .ofGlyph g

/-- The delimiter that a token stands for; the point is the invisible one. -/
def Token.delimiter? : Token → Option (List Char)
  | .glyph (.char '.') => some []
  | .glyph (.char c) => if delimiterGlyphs.contains c then some [c] else none
  | .symbol (.char c) => (delimiterEscapes.lookup c).map ([·])
  | .word name => (delimiterWords.lookup name).map ([·])
  | _ => none

/-- A token of a script: a caret or an underscore. -/
def Token.isScript : Token → Bool
  | .superscript => true
  | .subscript => true
  | _ => false

/-- A token that ends what an argument would have to stand in. -/
def Token.endsArgument : Token → Bool
  | .closeBrace => true
  | .separator => true
  | .newRow => true
  | .superscript => true
  | .subscript => true
  | .ending _ => true
  | .word name => name == "right" || "end".toList.isPrefixOf name.toList
  | _ => false

end DeltaPreview.Latex
