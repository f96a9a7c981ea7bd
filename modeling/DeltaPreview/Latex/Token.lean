import DeltaPreview.Text.Blank

/-!
# Tokens of a formula source

A formula source is a sequence of control sequences, numbers and single code points, with blanks
between them.  A text command is one token together with its braced text, and so are the two ends
of an environment together with its braced name.
-/

namespace DeltaPreview.Latex

/-- A token of a formula source. -/
inductive Token where
  /-- A control word: letters, and possibly a star. -/
  | word (name : String)
  /-- A backslash and a code point that is no letter. -/
  | symbol (g : CodePoint)
  /-- A backslash that ends the source. -/
  | backslash
  /-- A text command, the blanks after its name, and the text between its braces. -/
  | text (command : String) (gap body : Text)
  /-- The beginning of an environment. -/
  | beginning (environment : String)
  /-- The end of an environment. -/
  | ending (environment : String)
  /-- A number: digits, and possibly a point and more digits. -/
  | number (digits : List Char)
  /-- Any other code point that is not blank. -/
  | glyph (g : CodePoint)
  deriving DecidableEq, Repr

namespace Token

@[match_pattern] abbrev openBrace : Token := .glyph (.char '\x7b')
@[match_pattern] abbrev closeBrace : Token := .glyph (.char '\x7d')
@[match_pattern] abbrev openBracket : Token := .glyph (.char '[')
@[match_pattern] abbrev closeBracket : Token := .glyph (.char ']')
@[match_pattern] abbrev separator : Token := .glyph (.char '&')
@[match_pattern] abbrev newRow : Token := .symbol (.char '\\')
@[match_pattern] abbrev superscript : Token := .glyph (.char '^')
@[match_pattern] abbrev subscript : Token := .glyph (.char '_')

/-- A control word as it is spelled. -/
def spellWord (name : String) : Text := .char '\\' :: Text.ofString name

/-- A text between braces. -/
def braced (t : Text) : Text := .char '\x7b' :: (t ++ [.char '\x7d'])

/-- A token as it is spelled. -/
def spelled : Token → Text
  | word name => spellWord name
  | symbol g => [.char '\\', g]
  | backslash => [.char '\\']
  | text command gap body => spellWord command ++ gap ++ braced body
  | beginning environment => spellWord "begin" ++ braced (Text.ofString environment)
  | ending environment => spellWord "end" ++ braced (Text.ofString environment)
  | number digits => Text.ofChars digits
  | glyph g => [g]

end Token

/-- The commands whose braced argument is text. -/
def textCommands : List String :=
  ["text", "textrm", "textit", "textbf", "mbox", "operatorname*", "operatorname"]

/-- An ASCII letter. -/
def isLetter : CodePoint → Bool
  | .char c => c.isAlpha
  | .surrogate _ => false

/-- An ASCII digit. -/
def isDigit : CodePoint → Bool
  | .char c => c.isDigit
  | .surrogate _ => false

/-- A token at the beginning of a text of a given length, and the text after it, which is shorter
or, for `scanCommand`, not longer. -/
structure Scan (bound : Nat) where
  token : Token
  rest : Text
  bounded : rest.length < bound

/-- The text up to a closing brace, if no opening brace comes before it, and the text after it. -/
def bracedBody? : Text → Option (Text × Text)
  | [] => none
  | .char '\x7d' :: rest => some ([], rest)
  | .char '\x7b' :: _ => none
  | g :: rest => (bracedBody? rest).map fun (body, after) => (g :: body, after)

/-- A text between braces at the beginning of a text, and the text after it. -/
def bracedText? : Text → Option (Text × Text)
  | .char '\x7b' :: rest => bracedBody? rest
  | _ => none

/-- Letters, and a star if one follows them; empty when no letter comes first. -/
def controlName (s : Text) : Text × Text :=
  match s.takeWhile isLetter, s.dropWhile isLetter with
  | [], _ => ([], s)
  | letters, .char '*' :: rest => (letters ++ [.char '*'], rest)
  | letters, rest => (letters, rest)

/-- The name of an environment between braces, and the text after it. -/
def environmentName? (s : Text) : Option (String × Text) :=
  match s with
  | .char '\x7b' :: t =>
    match controlName t with
    | ([], _) => none
    | (name, .char '\x7d' :: rest) => some (Text.toString name, rest)
    | _ => none
  | _ => none

theorem bracedBody?_length {s body rest : Text} (h : bracedBody? s = some (body, rest)) :
    rest.length < s.length := by
  fun_induction bracedBody? s generalizing body rest with
  | case1 => simp at h
  | case2 => simp at h; obtain ⟨-, rfl⟩ := h; simp
  | case3 => simp at h
  | case4 g r _ _ ih =>
    simp only [Option.map_eq_some_iff, Prod.mk.injEq] at h
    obtain ⟨⟨b, a⟩, hb, -, rfl⟩ := h
    have := ih hb
    simp
    omega

theorem bracedText?_length {s body rest : Text} (h : bracedText? s = some (body, rest)) :
    rest.length < s.length := by
  unfold bracedText? at h
  split at h
  · have := bracedBody?_length h; simp; omega
  · simp at h

theorem controlName_length (s : Text) :
    (controlName s).1.length + (controlName s).2.length = s.length := by
  have h := congrArg List.length (List.takeWhile_append_dropWhile (p := isLetter) (l := s))
  rw [List.length_append] at h
  unfold controlName
  split
  · simp
  · rename_i rest h₁ _
    rw [h₁] at h
    simp at h ⊢
    omega
  · exact h

theorem environmentName?_length {s rest : Text} {name : String}
    (h : environmentName? s = some (name, rest)) : rest.length < s.length := by
  unfold environmentName? at h
  split at h
  · rename_i t
    have hl := controlName_length t
    split at h
    · simp at h
    · rename_i hc
      rw [hc] at hl
      simp at h hl
      obtain ⟨-, rfl⟩ := h
      simp
      omega
    · simp at h
  · simp at h

/-- A text command with its argument, given the text after the backslash. -/
def textToken? (command : String) (s : Text) : Option (Scan (s.length + 1)) :=
  match hw : Text.afterWord? command s with
  | none => none
  | some afterName =>
    match hb : bracedText? (afterName.dropWhile CodePoint.isBlank) with
    | none => none
    | some (body, rest) => some ⟨.text command (afterName.takeWhile CodePoint.isBlank) body, rest, by
        have h₁ := Text.afterWord?_length hw
        have h₂ := bracedText?_length hb
        have h₃ := (List.dropWhile_sublist CodePoint.isBlank (l := afterName)).length_le
        omega⟩

/-- One end of an environment, given the text after the backslash. -/
def environmentToken? (word : String) (token : String → Token) (s : Text) :
    Option (Scan (s.length + 1)) :=
  match hw : Text.afterWord? word s with
  | none => none
  | some afterName =>
    match he : environmentName? afterName with
    | none => none
    | some (name, rest) => some ⟨token name, rest, by
        have := Text.afterWord?_length hw; have := environmentName?_length he; omega⟩

/-- A control word, given the text after the backslash. -/
def wordToken? (s : Text) : Option (Scan (s.length + 1)) :=
  match h : controlName s with
  | ([], _) => none
  | (name, rest) => some ⟨.word (Text.toString name), rest, by
      have := controlName_length s; rw [h] at this; simp at this; omega⟩

/-- The control sequence after a backslash: a text command with its text, an end of an environment,
a control word, or a control symbol. -/
def scanCommand (s : Text) : Scan (s.length + 1) :=
  let command? := textCommands.findSome? (textToken? · s) <|>
    environmentToken? "begin" .beginning s <|> environmentToken? "end" .ending s <|> wordToken? s
  match command? with
  | some found => found
  | none =>
    match s with
    | [] => ⟨.backslash, [], by simp⟩
    | g :: rest => ⟨.symbol g, rest, by simp only [List.length_cons]; omega⟩

/-- The number at the beginning of a text. -/
def scanNumber (s : Text) : Text × Text :=
  let digits := s.takeWhile isDigit
  match s.dropWhile isDigit with
  | .char '.' :: rest =>
    match rest.takeWhile isDigit with
    | [] => (digits, .char '.' :: rest)
    | fraction => (digits ++ .char '.' :: fraction, rest.dropWhile isDigit)
  | rest => (digits, rest)

theorem scanNumber_length (s : Text) : (scanNumber s).2.length ≤ (s.dropWhile isDigit).length := by
  unfold scanNumber
  split
  · rename_i rest h
    simp only [h]
    split
    · simp
    · have := (List.dropWhile_sublist isDigit (l := rest)).length_le
      simp
      omega
  · rename_i h; simp

/-- The tokens of a formula source. -/
def tokenize (s : Text) : List Token :=
  match s with
  | [] => []
  | g :: rest =>
    if g = .char '\\' then
      match scanCommand rest with
      | ⟨token, after, _⟩ => token :: tokenize after
    else if g.isBlank then tokenize rest
    else if h : isDigit g then
      have : (scanNumber (g :: rest)).2.length < (g :: rest).length := by
        have h₁ := scanNumber_length (g :: rest)
        have h₂ := (List.dropWhile_sublist isDigit (l := rest)).length_le
        rw [List.dropWhile_cons_of_pos h] at h₁
        simp
        omega
      .number (scanNumber (g :: rest)).1.chars :: tokenize (scanNumber (g :: rest)).2
    else .glyph g :: tokenize rest
termination_by s.length
decreasing_by all_goals simp at * <;> omega

end DeltaPreview.Latex
