import DeltaPreview.Proofs.Latex.Expression

/-!
# Spelled tokens are read back

The tokens of expressions are spelled with visible ASCII characters.  Such a token, with a space or
nothing after it, is read back as it is (`Token.Spellable.tokenize_append`), and so are tokens with one
space between them (`tokenize_spaced`).  Trimming leaves their spelling as it is, and markup can hold
it.
-/

namespace DeltaPreview.Latex

/-! ### Tokens with a plain spelling -/

/-- A visible ASCII character. -/
def isVisible (c : Char) : Bool := 0x21 ≤ c.toNat && c.toNat ≤ 0x7E

/-- A name of letters. -/
def isWord (name : String) : Bool := !name.toList.isEmpty && name.toList.all Char.isAlpha

/-- A token that is read back when a space follows its spelling. -/
inductive Token.Spellable : Token → Prop
  | glyph {c : Char} (hvisible : isVisible c = true) (hslash : c ≠ '\\')
      (hdigit : c.isDigit = false) : Spellable (.glyph (.char c))
  | symbol {c : Char} (hvisible : isVisible c = true) (hletter : c.isAlpha = false) :
      Spellable (.symbol (.char c))
  | number (d : Expression.Decimal) : Spellable (.number d.digits)
  | word {name : String} (hword : isWord name = true) (htext : name ∉ textCommands) :
      Spellable (.word name)
  | beginning {name : String} (hword : isWord name = true) : Spellable (.beginning name)
  | ending {name : String} (hword : isWord name = true) : Spellable (.ending name)

/-- What may follow a token: nothing, or a space. -/
def EndsToken (rest : Text) : Prop := ∀ g ∈ rest.head?, g = .char ' '

theorem endsToken_nil : EndsToken [] := by simp [EndsToken]

theorem endsToken_space (rest : Text) : EndsToken (.char ' ' :: rest) := by simp [EndsToken]

/-! ### Spans -/

section Spans

variable {α : Type} {p : α → Bool} {body rest : List α}

theorem takeWhile_exact (hbody : ∀ a ∈ body, p a = true) (hrest : ∀ a ∈ rest.head?, p a = false) :
    (body ++ rest).takeWhile p = body := by
  rw [List.takeWhile_append_of_pos hbody]
  cases rest with
  | nil => simp
  | cons a rest => simp [hrest a rfl]

theorem dropWhile_exact (hbody : ∀ a ∈ body, p a = true) (hrest : ∀ a ∈ rest.head?, p a = false) :
    (body ++ rest).dropWhile p = rest := by
  rw [List.dropWhile_append_of_pos hbody]
  cases rest with
  | nil => rfl
  | cons a rest => simp [hrest a rfl]

end Spans

/-! ### Names -/

theorem isWord_iff {name : String} :
    isWord name = true ↔ name.toList ≠ [] ∧ ∀ c ∈ name.toList, c.isAlpha = true := by
  simp [isWord]

theorem isLetter_ofChars {cs : List Char} (h : ∀ c ∈ cs, c.isAlpha = true) :
    ∀ g ∈ Text.ofChars cs, isLetter g = true := by
  simpa [Text.ofChars, isLetter] using h

/-- Letters are a control name, up to something that is neither a letter nor a star. -/
theorem controlName_letters {letters rest : Text} (hne : letters ≠ [])
    (hall : ∀ g ∈ letters, isLetter g = true)
    (hrest : ∀ g ∈ rest.head?, isLetter g = false ∧ g ≠ .char '*') :
    controlName (letters ++ rest) = (letters, rest) := by
  have hend : ∀ g ∈ rest.head?, isLetter g = false := fun g hg => (hrest g hg).1
  unfold controlName
  rw [takeWhile_exact hall hend, dropWhile_exact hall hend]
  split
  · exact absurd rfl hne
  · exact absurd rfl (hrest _ rfl).2
  · rfl

theorem controlName_word {name : String} (hword : isWord name = true) {rest : Text}
    (hrest : ∀ g ∈ rest.head?, isLetter g = false ∧ g ≠ .char '*') :
    controlName (Text.ofString name ++ rest) = (Text.ofString name, rest) := by
  obtain ⟨hne, halpha⟩ := isWord_iff.mp hword
  refine controlName_letters (fun hnil => ?_) (isLetter_ofChars halpha) hrest
  exact hne (List.map_eq_nil_iff.mp hnil)

theorem ofChars_injective : Function.Injective Text.ofChars := fun a b h => by
  rw [← Text.chars_ofChars a, h, Text.chars_ofChars]

/-- A word without a space that begins a name and what follows it begins the name. -/
theorem afterWord?_name {word : String} {cs : List Char} {rest after : Text}
    (hspace : ' ' ∉ word.toList) (hrest : EndsToken rest)
    (h : Text.afterWord? word (Text.ofChars cs ++ rest) = some after) :
    ∃ more, cs = word.toList ++ more ∧ after = Text.ofChars more ++ rest := by
  unfold Text.afterWord? at h
  split at h
  · rename_i hprefix
    cases h
    obtain ⟨more, hmore⟩ := List.isPrefixOf_iff_prefix.mp hprefix
    have hdrop : (Text.ofChars cs ++ rest).drop word.toList.length = more := by
      rw [← hmore]
      exact List.drop_left' (Text.length_ofChars _)
    rw [hdrop]
    rcases List.append_eq_append_iff.mp hmore with ⟨m, hcs, hafter⟩ | ⟨m, hword, hafter⟩
    · obtain ⟨front, back, rfl, hfront, hback⟩ := List.map_eq_append_iff.mp hcs
      obtain rfl := ofChars_injective hfront
      obtain rfl : Text.ofChars back = m := hback
      exact ⟨back, rfl, hafter⟩
    · cases m with
      | nil =>
        obtain rfl := ofChars_injective (hword.trans (List.append_nil _))
        exact ⟨[], (List.append_nil _).symm, hafter.symm⟩
      | cons g m =>
        -- The word would go on with what follows the name.
        have hg : g = .char ' ' := hrest g (by rw [hafter]; rfl)
        have hmem : .char ' ' ∈ Text.ofString word := by rw [hword, hg]; simp
        simp [Text.ofString, Text.ofChars] at hmem
        exact absurd hmem hspace
  · cases h

/-! ### Visible characters -/

theorem isVisible_of_isAlphanum {c : Char} (h : c.isAlphanum = true) : isVisible c = true := by
  have hrange := toNat_word (c := c) (by simp [h])
  simp only [isVisible, Bool.and_eq_true, decide_eq_true_eq]
  omega

theorem isVisible_of_isAlpha {c : Char} (h : c.isAlpha = true) : isVisible c = true :=
  isVisible_of_isAlphanum (by simp [Char.isAlphanum, h])

theorem isVisible_of_isDigit {c : Char} (h : c.isDigit = true) : isVisible c = true :=
  isVisible_of_isAlphanum (by simp [Char.isAlphanum, h])

theorem isBlank_of_isVisible {c : Char} (h : isVisible c = true) :
    (CodePoint.char c).isBlank = false := by
  simp only [isVisible, Bool.and_eq_true, decide_eq_true_eq] at h
  have hvalue : 0x21 ≤ (CodePoint.char c).value ∧ (CodePoint.char c).value ≤ 0x7E := h
  simp [CodePoint.isBlank, CodePoint.blankRanges, -CodePoint.value_char]
  omega

theorem compatibleChar_of_isVisible {c : Char} (h : isVisible c = true) :
    compatibleChar c = true := by
  simp only [isVisible, Bool.and_eq_true, decide_eq_true_eq] at h
  simp [compatibleChar]
  omega

/-- A text of visible characters. -/
def Visible (s : Text) : Prop := ∃ cs, s = Text.ofChars cs ∧ ∀ c ∈ cs, isVisible c = true

theorem visible_ofChars (cs : List Char) (h : ∀ c ∈ cs, isVisible c = true) :
    Visible (Text.ofChars cs) := ⟨cs, rfl, h⟩

theorem Visible.append {s t : Text} (hs : Visible s) (ht : Visible t) : Visible (s ++ t) := by
  obtain ⟨cs, rfl, hcs⟩ := hs
  obtain ⟨ds, rfl, hds⟩ := ht
  exact ⟨cs ++ ds, (Text.ofChars_append cs ds).symm, List.forall_mem_append.mpr ⟨hcs, hds⟩⟩

theorem Visible.cons {c : Char} {s : Text} (hc : isVisible c = true) (hs : Visible s) :
    Visible (.char c :: s) :=
  (visible_ofChars [c] (by simpa using hc)).append hs

theorem Visible.isBlank {s : Text} (hs : Visible s) : ∀ g ∈ s, g.isBlank = false := by
  obtain ⟨cs, rfl, hcs⟩ := hs
  intro g hg
  obtain ⟨c, hc, rfl⟩ := List.mem_map.mp hg
  exact isBlank_of_isVisible (hcs c hc)

/-! ### Tokens after a backslash -/

theorem textToken?_eq_none {command : String} {s : Text}
    (h : ∀ after, Text.afterWord? command s = some after →
      bracedText? (after.dropWhile CodePoint.isBlank) = none) : textToken? command s = none := by
  unfold textToken?
  split
  · rfl
  · rename_i after hafter
    split
    · rfl
    · rename_i hsome
      rw [h after hafter] at hsome
      cases hsome

theorem environmentToken?_eq_none {word : String} {token : String → Token} {s : Text}
    (h : ∀ after, Text.afterWord? word s = some after → environmentName? after = none) :
    environmentToken? word token s = none := by
  unfold environmentToken?
  split
  · rfl
  · rename_i after hafter
    split
    · rfl
    · rename_i hsome
      rw [h after hafter] at hsome
      cases hsome

theorem textToken?_word {command name : String} (hspace : ' ' ∉ command.toList)
    (hword : isWord name = true) (hne : name ≠ command) {rest : Text} (hrest : EndsToken rest) :
    textToken? command (Text.ofString name ++ rest) = none := by
  refine textToken?_eq_none fun after hafter => ?_
  obtain ⟨more, hname, rfl⟩ := afterWord?_name hspace hrest hafter
  cases more with
  | nil =>
    rw [List.append_nil] at hname
    exact absurd (String.toList_inj.mp hname) hne
  | cons c more =>
    -- The name goes on with a letter, which is neither blank nor a brace.
    have halpha : c.isAlpha = true := (isWord_iff.mp hword).2 c (by simp [hname])
    have hblank := isBlank_of_isVisible (isVisible_of_isAlpha halpha)
    have hbrace : c ≠ '\x7b' := by
      rintro rfl
      exact absurd halpha (by decide)
    simp [hblank, bracedText?, hbrace]

theorem environmentToken?_word (word : String) {name : String} (token : String → Token)
    (hspace : ' ' ∉ word.toList) (hword : isWord name = true) {rest : Text}
    (hrest : EndsToken rest) :
    environmentToken? word token (Text.ofString name ++ rest) = none := by
  refine environmentToken?_eq_none fun after hafter => ?_
  obtain ⟨more, hname, rfl⟩ := afterWord?_name hspace hrest hafter
  unfold environmentName?
  split
  · rename_i hbrace
    cases more with
    | nil =>
      have hspace := hrest (.char '\x7b') (by rw [show rest = _ from hbrace]; rfl)
      cases hspace
    | cons c more =>
      have halpha : c.isAlpha = true := (isWord_iff.mp hword).2 c (by simp [hname])
      cases hbrace
      exact absurd halpha (by decide)
  · rfl

theorem environmentToken?_eq_some {word name : String} (token : String → Token)
    {s after rest : Text} (hafter : Text.afterWord? word s = some after)
    (hname : environmentName? after = some (name, rest)) :
    ∃ h, environmentToken? word token s = some ⟨token name, rest, h⟩ := by
  have hword_length := Text.afterWord?_length hafter
  have hname_length := environmentName?_length hname
  refine ⟨by omega, ?_⟩
  unfold environmentToken?
  split
  · rename_i hnone
    rw [hafter] at hnone
    cases hnone
  · rename_i found hfound
    obtain rfl : after = found := Option.some.inj (hafter.symm.trans hfound)
    split
    · rename_i hnone
      rw [hname] at hnone
      cases hnone
    · rename_i hsome
      cases hname.symm.trans hsome
      rfl

theorem wordToken?_eq_none {s : Text} (h : (controlName s).1 = []) : wordToken? s = none := by
  unfold wordToken?
  split
  · rfl
  · rename_i hname hfound
    rw [hfound] at h
    exact absurd h hname

theorem wordToken?_eq_some {s name rest : Text} (hne : name ≠ [])
    (h : controlName s = (name, rest)) :
    ∃ h, wordToken? s = some ⟨.word (Text.toString name), rest, h⟩ := by
  have hlength := controlName_length s
  rw [h] at hlength
  refine ⟨by simp at hlength; omega, ?_⟩
  unfold wordToken?
  split
  · rename_i hfound
    rw [h] at hfound
    cases hfound
    exact absurd rfl hne
  · rename_i hfound
    cases h.symm.trans hfound
    rfl

@[simp] theorem toString_ofString (name : String) : Text.toString (Text.ofString name) = name := by
  simp [Text.toString, Text.ofString]

/-- Text commands have no spaces in their names, and none begins as the ends of environments do. -/
theorem head_textCommand : ∀ command ∈ textCommands, ' ' ∉ command.toList ∧
    command.toList.head?.any (fun c => c.isAlpha && c != 'b' && c != 'e') = true := by decide

/-- Words do not begin a text that begins with another character. -/
theorem afterWord?_eq_none {word : String} {c : Char} {rest : Text}
    (h : word.toList.head?.any (· != c) = true) : Text.afterWord? word (.char c :: rest) = none := by
  unfold Text.afterWord? Text.ofString
  cases hword : word.toList with
  | nil => simp [hword] at h
  | cons d ds =>
    rw [hword] at h
    have hne : d ≠ c := by simpa using h
    simp [List.isPrefixOf, hne]

theorem environmentName?_braced {name : String} (hword : isWord name = true) (rest : Text) :
    environmentName? (Token.braced (Text.ofString name) ++ rest) = some (name, rest) := by
  have hname : controlName (Text.ofString name ++ .char '\x7d' :: rest) =
      (Text.ofString name, .char '\x7d' :: rest) :=
    controlName_word hword fun g hg => by
      obtain rfl : .char '\x7d' = g := Option.some.inj hg
      decide
  have hne : Text.ofString name ≠ [] := fun h =>
    (isWord_iff.mp hword).1 (List.map_eq_nil_iff.mp h)
  simp only [Token.braced, List.cons_append, List.append_assoc, List.nil_append, environmentName?,
    hname, toString_ofString]

/-- A control word that is no text command, with a space or nothing after it. -/
theorem scanCommand_word {name : String} (hword : isWord name = true) (htext : name ∉ textCommands)
    {rest : Text} (hrest : EndsToken rest) :
    ∃ h, scanCommand (Text.ofString name ++ rest) = ⟨.word name, rest, h⟩ := by
  have hne : Text.ofString name ≠ [] := fun h =>
    (isWord_iff.mp hword).1 (List.map_eq_nil_iff.mp h)
  have hname : controlName (Text.ofString name ++ rest) = (Text.ofString name, rest) :=
    controlName_word hword fun g hg => by
      rw [hrest g hg]
      decide
  have hcommands : textCommands.findSome? (textToken? · (Text.ofString name ++ rest)) = none :=
    List.findSome?_eq_none_iff.mpr fun command hcommand =>
      textToken?_word (head_textCommand command hcommand).1 hword
        (fun h => htext (h ▸ hcommand)) hrest
  have hbegin := environmentToken?_word "begin" .beginning (by decide) hword hrest
  have hend := environmentToken?_word "end" .ending (by decide) hword hrest
  obtain ⟨hbound, hfound⟩ := wordToken?_eq_some hne hname
  rw [toString_ofString] at hfound
  refine ⟨hbound, ?_⟩
  unfold scanCommand
  rw [hcommands, hbegin, hend, hfound]
  rfl

theorem textToken?_head {command : String} (hcommand : command ∈ textCommands) {c : Char}
    (hc : c.isAlpha = false ∨ c = 'b' ∨ c = 'e') (rest : Text) :
    textToken? command (.char c :: rest) = none := by
  have hhead := (head_textCommand command hcommand).2
  have hother : command.toList.head?.any (· != c) = true := by
    cases h : command.toList.head? with
    | none => simp [h] at hhead
    | some d =>
      rw [h] at hhead
      simp at hhead ⊢
      rintro rfl
      simp [hhead] at hc
  refine textToken?_eq_none fun after h => ?_
  rw [afterWord?_eq_none hother] at h
  cases h

theorem environmentToken?_head (word : String) (token : String → Token) {c : Char}
    (h : word.toList.head?.any (· != c) = true) (rest : Text) :
    environmentToken? word token (.char c :: rest) = none :=
  environmentToken?_eq_none fun after hafter => by
    rw [afterWord?_eq_none h] at hafter
    cases hafter

/-- A backslash and a character that is no letter. -/
theorem scanCommand_symbol {c : Char} (hletter : c.isAlpha = false) (rest : Text) :
    ∃ h, scanCommand (.char c :: rest) = ⟨.symbol (.char c), rest, h⟩ := by
  have hcommands : textCommands.findSome? (textToken? · (.char c :: rest)) = none :=
    List.findSome?_eq_none_iff.mpr fun command hcommand =>
      textToken?_head hcommand (.inl hletter) rest
  have hother (d : Char) (hd : d.isAlpha = true) : d ≠ c := by
    rintro rfl
    rw [hletter] at hd
    cases hd
  have hbegin := environmentToken?_head "begin" .beginning (c := c)
    (by simpa using hother 'b' (by decide)) rest
  have hend := environmentToken?_head "end" .ending (c := c)
    (by simpa using hother 'e' (by decide)) rest
  have hword : wordToken? (.char c :: rest) = none := wordToken?_eq_none (by
    simp [controlName, isLetter, hletter])
  refine ⟨by simp only [List.length_cons]; omega, ?_⟩
  unfold scanCommand
  rw [hcommands, hbegin, hend, hword]
  rfl

/-- The beginning of an environment. -/
theorem scanCommand_beginning {name : String} (hword : isWord name = true) (rest : Text) :
    ∃ h, scanCommand (Text.ofString "begin" ++ (Token.braced (Text.ofString name) ++ rest)) =
      ⟨.beginning name, rest, h⟩ := by
  have hcommands : textCommands.findSome? (textToken? ·
      (Text.ofString "begin" ++ (Token.braced (Text.ofString name) ++ rest))) = none :=
    List.findSome?_eq_none_iff.mpr fun command hcommand =>
      textToken?_head hcommand (.inr (.inl rfl)) _
  obtain ⟨hbound, hfound⟩ := environmentToken?_eq_some .beginning
    (Text.afterWord?_eq_some_iff.mpr rfl) (environmentName?_braced hword rest)
  refine ⟨hbound, ?_⟩
  unfold scanCommand
  rw [hcommands, hfound]
  rfl

/-- The end of an environment. -/
theorem scanCommand_ending {name : String} (hword : isWord name = true) (rest : Text) :
    ∃ h, scanCommand (Text.ofString "end" ++ (Token.braced (Text.ofString name) ++ rest)) =
      ⟨.ending name, rest, h⟩ := by
  have hcommands : textCommands.findSome? (textToken? ·
      (Text.ofString "end" ++ (Token.braced (Text.ofString name) ++ rest))) = none :=
    List.findSome?_eq_none_iff.mpr fun command hcommand =>
      textToken?_head hcommand (.inr (.inr rfl)) _
  have hbegin : environmentToken? "begin" .beginning
      (Text.ofString "end" ++ (Token.braced (Text.ofString name) ++ rest)) = none :=
    environmentToken?_head "begin" .beginning (c := 'e') (by decide) _
  obtain ⟨hbound, hfound⟩ := environmentToken?_eq_some .ending
    (Text.afterWord?_eq_some_iff.mpr rfl) (environmentName?_braced hword rest)
  refine ⟨hbound, ?_⟩
  unfold scanCommand
  rw [hcommands, hbegin, hfound]
  rfl

/-! ### Numbers -/

theorem isDigit_ofChars {cs : List Char} (h : ∀ c ∈ cs, c.isDigit = true) :
    ∀ g ∈ Text.ofChars cs, isDigit g = true := by
  simpa [Text.ofChars, isDigit] using h

theorem scanNumber_digits (d : Expression.Decimal) {rest : Text} (hrest : EndsToken rest) :
    scanNumber (Text.ofChars d.digits ++ rest) = (Text.ofChars d.digits, rest) := by
  have hend : ∀ g ∈ rest.head?, isDigit g = false := fun g hg => by
    rw [hrest g hg]
    decide
  have hwhole : ∀ g ∈ Text.ofChars d.whole, isDigit g = true :=
    isDigit_ofChars fun c hc => d.isDigit c (List.mem_append_left _ hc)
  have hfraction : ∀ g ∈ Text.ofChars d.fraction, isDigit g = true :=
    isDigit_ofChars fun c hc => d.isDigit c (List.mem_append_right _ hc)
  unfold Expression.Decimal.digits
  split
  · unfold scanNumber
    rw [takeWhile_exact hwhole hend, dropWhile_exact hwhole hend]
    split
    · have hspace := hrest _ rfl
      cases hspace
    · rfl
  · rename_i c cs hcs
    rw [hcs] at hfraction
    have hpoint : ∀ g ∈ (.char '.' :: (Text.ofChars (c :: cs) ++ rest) : Text).head?,
        isDigit g = false := by
      rintro _ ⟨⟩
      decide
    rw [Text.ofChars_append, Text.ofChars_cons, List.append_assoc, List.cons_append]
    unfold scanNumber
    rw [takeWhile_exact hwhole hpoint, dropWhile_exact hwhole hpoint]
    simp only [takeWhile_exact hfraction hend, dropWhile_exact hfraction hend]
    rfl

theorem digits_cons (d : Expression.Decimal) :
    ∃ c cs, d.digits = c :: cs ∧ c.isDigit = true ∧ ∀ b ∈ cs, b.isDigit = true ∨ b = '.' := by
  have hdigit := d.isDigit
  cases hwhole : d.whole with
  | nil => exact absurd hwhole d.whole_ne_nil
  | cons c cs =>
    rw [hwhole] at hdigit
    unfold Expression.Decimal.digits
    rw [hwhole]
    split
    · exact ⟨c, cs, rfl, hdigit c (by simp), fun b hb => .inl (hdigit b (by simp [hb]))⟩
    · rename_i b bs hfraction
      refine ⟨c, cs ++ '.' :: b :: bs, rfl, hdigit c (by simp), fun a ha => ?_⟩
      rcases List.mem_append.mp ha with ha | ha
      · exact .inl (hdigit a (by simp [ha]))
      · rcases List.mem_cons.mp ha with rfl | ha
        · exact .inr rfl
        · exact .inl (hdigit a (by rw [hfraction]; simp [ha]))

/-! ### Reading tokens back -/

theorem tokenize_backslash {s rest : Text} {t : Token} {h : rest.length < s.length + 1}
    (hscan : scanCommand s = ⟨t, rest, h⟩) : tokenize (.char '\\' :: s) = t :: tokenize rest := by
  rw [tokenize, if_pos rfl, hscan]

theorem tokenize_space (rest : Text) : tokenize (.char ' ' :: rest) = tokenize rest := by
  rw [tokenize, if_neg (by decide), if_pos (by decide)]

theorem tokenize_glyph {c : Char} (hvisible : isVisible c = true) (hslash : c ≠ '\\')
    (hdigit : c.isDigit = false) (rest : Text) :
    tokenize (.char c :: rest) = .glyph (.char c) :: tokenize rest := by
  have hblank := isBlank_of_isVisible hvisible
  have hdigit : isDigit (.char c) = false := hdigit
  rw [tokenize]
  simp [hslash, hblank, hdigit]

theorem tokenize_number (d : Expression.Decimal) {rest : Text} (hrest : EndsToken rest) :
    tokenize (Text.ofChars d.digits ++ rest) = .number d.digits :: tokenize rest := by
  have hscan := scanNumber_digits d hrest
  obtain ⟨c, cs, hdigits, hc, -⟩ := digits_cons d
  have hslash : c ≠ '\\' := by
    rintro rfl
    exact absurd hc (by decide)
  have hblank := isBlank_of_isVisible (isVisible_of_isDigit hc)
  have hdigit : isDigit (.char c) = true := hc
  rw [hdigits, Text.ofChars_cons, List.cons_append] at hscan ⊢
  rw [tokenize]
  simp only [CodePoint.char.injEq, hslash, if_false, hblank, Bool.false_eq_true, hdigit, dif_pos,
    hscan]
  rw [← Text.ofChars_cons, Text.chars_ofChars]

namespace Token.Spellable

/-- A spelled token, with a space or nothing after it, is read back. -/
theorem tokenize_append {t : Token} (h : t.Spellable) {rest : Text} (hrest : EndsToken rest) :
    tokenize (t.spelled ++ rest) = t :: tokenize rest := by
  cases h with
  | glyph hvisible hslash hdigit => exact tokenize_glyph hvisible hslash hdigit rest
  | symbol hvisible hletter =>
    obtain ⟨hbound, hscan⟩ := scanCommand_symbol hletter rest
    exact tokenize_backslash hscan
  | number d => exact tokenize_number d hrest
  | word hword htext =>
    obtain ⟨hbound, hscan⟩ := scanCommand_word hword htext hrest
    exact tokenize_backslash hscan
  | beginning hword =>
    obtain ⟨hbound, hscan⟩ := scanCommand_beginning hword rest
    rw [spelled, List.append_assoc]
    exact tokenize_backslash hscan
  | ending hword =>
    obtain ⟨hbound, hscan⟩ := scanCommand_ending hword rest
    rw [spelled, List.append_assoc]
    exact tokenize_backslash hscan

theorem spelled_ne_nil {t : Token} (h : t.Spellable) : t.spelled ≠ [] := by
  cases h with
  | number d =>
    obtain ⟨c, cs, hdigits, -⟩ := digits_cons d
    simp [spelled, hdigits]
  | _ => exact List.cons_ne_nil _ _

/-- Spelled tokens are made of visible characters. -/
theorem visible_spelled {t : Token} (h : t.Spellable) : Visible t.spelled := by
  have hspelled {name : String} (hword : isWord name = true) : Visible (Text.ofString name) :=
    visible_ofChars _ fun c hc => isVisible_of_isAlpha ((isWord_iff.mp hword).2 c hc)
  have hbraced {name : String} (hword : isWord name = true) :
      Visible (braced (Text.ofString name)) :=
    .cons (by decide)
      ((hspelled hword).append (visible_ofChars ['\x7d'] (List.all_eq_true.mp (by decide))))
  cases h with
  | @glyph c hvisible => exact visible_ofChars [c] (by simpa using hvisible)
  | @symbol c hvisible => exact .cons (by decide) (visible_ofChars [c] (by simpa using hvisible))
  | number d =>
    obtain ⟨c, cs, hdigits, hc, hcs⟩ := digits_cons d
    refine visible_ofChars _ fun b hb => ?_
    rcases List.mem_cons.mp (hdigits ▸ hb) with rfl | hb
    · exact isVisible_of_isDigit hc
    · rcases hcs b hb with hdigit | rfl
      · exact isVisible_of_isDigit hdigit
      · decide
  | word hword => exact .cons (by decide) (hspelled hword)
  | beginning hword =>
    exact (visible_ofChars "\\begin".toList (List.all_eq_true.mp (by decide))).append (hbraced hword)
  | ending hword =>
    exact (visible_ofChars "\\end".toList (List.all_eq_true.mp (by decide))).append (hbraced hword)

end Token.Spellable

theorem spaced_cons_cons (t u : Token) (us : List Token) :
    Expression.spaced (t :: u :: us) = t.spelled ++ .char ' ' :: Expression.spaced (u :: us) := by
  simp [Expression.spaced, List.intercalate_cons_cons]

/-- Tokens with one space between them are read back. -/
theorem tokenize_spaced {ts : List Token} (h : ∀ t ∈ ts, t.Spellable) :
    tokenize (Expression.spaced ts) = ts := by
  induction ts with
  | nil => rw [Expression.spaced, List.map_nil, List.intercalate_nil, tokenize]
  | cons t ts ih =>
    have ht := h t List.mem_cons_self
    have ih := ih fun u hu => h u (List.mem_cons_of_mem t hu)
    cases ts with
    | nil =>
      have hself := ht.tokenize_append endsToken_nil
      simpa [Expression.spaced, tokenize] using hself
    | cons u us =>
      rw [spaced_cons_cons, ht.tokenize_append (endsToken_space _), tokenize_space, ih]

theorem spaced_ne_nil {ts : List Token} (h : ∀ t ∈ ts, t.Spellable) (hts : ts ≠ []) :
    Expression.spaced ts ≠ [] := by
  match ts with
  | [] => exact absurd rfl hts
  | [t] => simpa [Expression.spaced] using (h t List.mem_cons_self).spelled_ne_nil
  | t :: u :: us => simp [spaced_cons_cons]

/-- Spelled tokens do not begin with a blank. -/
theorem head_spaced {ts : List Token} (h : ∀ t ∈ ts, t.Spellable) :
    ∀ g ∈ (Expression.spaced ts).head?, g.isBlank = false := by
  match ts with
  | [] => simp [Expression.spaced]
  | t :: ts =>
    have ht := h t List.mem_cons_self
    obtain ⟨g, gs, hspelled⟩ := List.exists_cons_of_ne_nil ht.spelled_ne_nil
    have hblank : g.isBlank = false := ht.visible_spelled.isBlank g (by simp [hspelled])
    cases ts with
    | nil => simpa [Expression.spaced, hspelled] using hblank
    | cons u us => simpa [spaced_cons_cons, hspelled] using hblank

/-- Spelled tokens do not end with a blank. -/
theorem getLast_spaced {ts : List Token} (h : ∀ t ∈ ts, t.Spellable) :
    ∀ g ∈ (Expression.spaced ts).getLast?, g.isBlank = false := by
  induction ts with
  | nil => simp [Expression.spaced]
  | cons t ts ih =>
    have hts : ∀ u ∈ ts, u.Spellable := fun u hu => h u (List.mem_cons_of_mem t hu)
    cases ts with
    | nil =>
      have hvisible := (h t List.mem_cons_self).visible_spelled
      intro g hg
      have hmem : g ∈ t.spelled := by simpa [Expression.spaced] using List.mem_of_mem_getLast? hg
      exact hvisible.isBlank g hmem
    | cons u us =>
      have hne := spaced_ne_nil hts (List.cons_ne_nil u us)
      have hlast := List.getLast?_eq_some_getLast hne
      have hsame : (Expression.spaced (t :: u :: us)).getLast? =
          (Expression.spaced (u :: us)).getLast? := by
        simp [spaced_cons_cons, List.getLast?_append, List.getLast?_cons, hlast]
      rw [hsame]
      exact ih hts

theorem trim_spaced {ts : List Token} (h : ∀ t ∈ ts, t.Spellable) :
    (Expression.spaced ts).trim = Expression.spaced ts :=
  Text.trim_eq_self (head_spaced h) (getLast_spaced h)

/-- Markup can hold spelled tokens. -/
theorem toMarkup_spaced {ts : List Token} (h : ∀ t ∈ ts, t.Spellable) :
    (Expression.spaced ts).toMarkup = .ok (Expression.spaced ts).chars := by
  obtain ⟨cs, hspaced, hcs⟩ : ∃ cs, Expression.spaced ts = Text.ofChars cs ∧
      ∀ c ∈ cs, compatibleChar c = true := by
    induction ts with
    | nil => exact ⟨[], rfl, by simp⟩
    | cons t ts ih =>
      obtain ⟨cs, hspelled, hcs⟩ := (h t List.mem_cons_self).visible_spelled
      have hcs : ∀ c ∈ cs, compatibleChar c = true := fun c hc =>
        compatibleChar_of_isVisible (hcs c hc)
      cases ts with
      | nil => exact ⟨cs, by simp [Expression.spaced, hspelled], hcs⟩
      | cons u us =>
        obtain ⟨ds, hspaced, hds⟩ := ih fun v hv => h v (List.mem_cons_of_mem t hv)
        refine ⟨cs ++ ' ' :: ds, by simp [spaced_cons_cons, hspelled, hspaced], ?_⟩
        exact List.forall_mem_append.mpr ⟨hcs, List.forall_mem_cons.mpr ⟨by decide, hds⟩⟩
  rw [hspaced, Text.toMarkup_ofChars (List.all_eq_true.mpr hcs), Text.chars_ofChars]

end DeltaPreview.Latex
