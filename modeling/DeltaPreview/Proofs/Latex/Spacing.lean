import DeltaPreview.Proofs.Latex.Trimming

/-!
# A space after a symbol

A control word ends where its letters end, so a space after it says nothing (`bodyOf?_word_space`).  A star
that follows the letters immediately is the exception: it is read as a part of the name.  No symbol has a
starred name, so a star that would be an operator after a space makes the control sequence undefined
(`tree_symbol_space`).
-/

namespace DeltaPreview.Latex

/-! ### Control words and what follows them -/

theorem commandOf_word {s after : Text} {name : String}
    (hname : controlName s = (Text.ofString name, after)) (hne : Text.ofString name ≠ [])
    (hopen : (Token.word name).isOpen = false) : commandOf s = (.word name, after) := by
  have hnone : completed? (Text.ofString name) after = none :=
    completed?_of_isOpen (by rw [toString_ofString]; exact hopen)
  rw [commandOf_named hname hne, hnone, Option.getD_none, toString_ofString]

/-- A control word is a token of its own, if nothing follows that its name could go on with. -/
theorem tokenize_word {name : String} {rest : Text} (hword : isWord name = true)
    (hopen : (Token.word name).isOpen = false) (hrest : EndsName rest) :
    tokenize (Token.spellWord name ++ rest) = .word name :: tokenize rest := by
  have hname := isControlName_of_isWord hword
  rw [Token.spellWord, List.cons_append, tokenize_command,
    commandOf_word (controlName_append hname hrest) hname.ne_nil hopen]

/-- A star is a part of the name that it follows. -/
theorem tokenize_starred {name : String} (rest : Text) (hword : isWord name = true)
    (hopen : (Token.word (name ++ "*")).isOpen = false) :
    tokenize (Token.spellWord name ++ .char '*' :: rest) = .word (name ++ "*") :: tokenize rest := by
  obtain ⟨hne, hall⟩ := letters_of_isWord hword
  have hstarred : Text.ofString (name ++ "*") = Text.ofString name ++ [.char '*'] := by
    simp [Text.ofString, Text.ofChars]
  have hname := controlName_starred hne hall rest
  rw [← hstarred] at hname
  rw [Token.spellWord, List.cons_append, tokenize_command,
    commandOf_word hname (by simp [hstarred]) hopen]

theorem isTrimmed_spellWord {name : String} (hword : isWord name = true) :
    Text.IsTrimmed (Token.spellWord name) := by
  obtain ⟨hne, hall⟩ := letters_of_isWord hword
  constructor
  · rintro _ ⟨⟩
    decide
  · intro g hg
    rw [Token.spellWord, List.getLast?_cons_of_ne_nil hne] at hg
    have hletter := hall g (List.mem_of_getLast? hg)
    refine Bool.eq_false_iff.mpr fun hblank => ?_
    rw [(not_isLetter_of_isBlank hblank).1] at hletter
    cases hletter

theorem trim_around_word (a b : Text) {name : String} (hword : isWord name = true) :
    (a ++ (Token.spellWord name ++ b)).trim =
      Text.trimLeft a ++ (Token.spellWord name ++ Text.trimRight b) := by
  have htrimmed := isTrimmed_spellWord hword
  exact Text.trim_around (List.cons_ne_nil _ _) (.inr htrimmed.head) (.inr htrimmed.last)

/-- The tokens before a control word stay as they are, if no token is open before it. -/
theorem tokenize_trim_word {a : Text} {name : String} (b : Text)
    (hopen : ∀ t ∈ tokenize a.trim, t.isOpen = false) (hword : isWord name = true) :
    tokenize (a ++ (Token.spellWord name ++ b)).trim =
      tokenize a.trim ++ tokenize (Token.spellWord name ++ Text.trimRight b) := by
  obtain ⟨gap, hgap, ha⟩ := Text.exists_trimRight (Text.trimLeft a)
  have hslash : .backslash ∉ tokenize a.trim := fun hmem => absurd (hopen _ hmem) (by decide)
  have hleft : tokenize (Text.trimLeft a) = tokenize a.trim := by
    rw [ha]
    exact tokenize_append_gap hslash hgap
  have hapart : StandsApart (Token.spellWord name ++ Text.trimRight b) := by
    rintro _ ⟨⟩
    decide
  have hkeeps : ∀ t ∈ tokenize (Text.trimLeft a),
      t.Keeps (Token.spellWord name ++ Text.trimRight b) := by
    rw [hleft]
    exact fun t ht => .inl (hopen t ht)
  rw [trim_around_word a b hword, tokenize_append hkeeps hapart, hleft]

/-! ### A space that says nothing -/

theorem bodyOf?_congr {layout : Layout} {s t : Text} (htokens : tokenize s.trim = tokenize t.trim)
    (hfits : s.trim.fitsMarkup = t.trim.fitsMarkup) : bodyOf? layout s = bodyOf? layout t := by
  ext xs
  rw [bodyOf?_eq_some_iff, bodyOf?_eq_some_iff, htokens, hfits]

/-- A space after a control word changes nothing, unless what comes then could go on with the name. -/
theorem bodyOf?_word_space {layout : Layout} {a b : Text} {name : String}
    (hopen : ∀ t ∈ tokenize a.trim, t.isOpen = false) (hword : isWord name = true)
    (hname : (Token.word name).isOpen = false) (hb : EndsName b) :
    bodyOf? layout (a ++ (Token.spellWord name ++ b)) =
      bodyOf? layout (a ++ (Token.spellWord name ++ .char ' ' :: b)) := by
  have hends : EndsName (Text.trimRight b) := fun g hg => hb g (Text.head_trimRight g hg)
  have hspace : tokenize (Token.spellWord name ++ Text.trimRight (.char ' ' :: b)) =
      .word name :: tokenize (Text.trimRight b) := by
    rw [Text.trimRight_space]
    split
    · rename_i hnil
      rw [tokenize_word hword hname (by simp [EndsName]), hnil]
    · have hspaced : EndsName (.char ' ' :: Text.trimRight b) := by
        rintro _ ⟨⟩
        decide
      rw [tokenize_word hword hname hspaced, tokenize_blank (by decide)]
  refine bodyOf?_congr ?_ ?_
  · rw [tokenize_trim_word b hopen hword, tokenize_trim_word _ hopen hword, hspace,
      tokenize_word hword hname hends]
  · have hfits : (Text.trimRight (.char ' ' :: b)).fitsMarkup = (Text.trimRight b).fitsMarkup := by
      rw [Text.trimRight_space]
      split
      · rename_i hnil
        rw [hnil]
      · rfl
    rw [trim_around_word a b hword, trim_around_word a _ hword]
    simp only [Text.fitsMarkup, List.all_append] at hfits ⊢
    rw [hfits]

/-! ### Stars that make a name undefined -/

/-- The names of the symbols: letters and letter-like symbols, operators, functions, large operators. -/
def symbolNames : List String :=
  greekLetters.map Prod.fst ++ operators.map Prod.fst ++ functions ++ largeOperators.map Prod.fst

/-- The name of a symbol is a word that needs no braces, and none is like that of an end of an
environment. -/
theorem symbolNames_words : ∀ name ∈ symbolNames, isWord name = true ∧
    (Token.word name).isOpen = false ∧ (Token.word (name ++ "*")).isOpen = false ∧
      "begin".toList.isPrefixOf (name ++ "*").toList = false ∧
        "end".toList.isPrefixOf (name ++ "*").toList = false := by
  decide +kernel

/-- The tables have no starred names. -/
theorem ofWord_starred {name : String}
    (hbegin : "begin".toList.isPrefixOf (name ++ "*").toList = false)
    (hend : "end".toList.isPrefixOf (name ++ "*").toList = false) :
    Meaning.ofWord (name ++ "*") = .undefined := by
  have hstar : isWord (name ++ "*") = false := by simp [isWord]
  have hne {word : String} (hword : isWord word = true) : name ++ "*" ≠ word := by
    intro heq
    rw [heq, hword] at hstar
    cases hstar
  have hlookup {α : Type} (table : List (String × α))
      (hkeys : (table.map Prod.fst).all isWord = true) : table.lookup (name ++ "*") = none := by
    refine Option.eq_none_iff_forall_ne_some.mpr fun a ha => ?_
    have hmem := List.mem_map_of_mem (f := Prod.fst) (mem_of_lookup ha)
    exact hne (List.all_eq_true.mp hkeys _ hmem) rfl
  have hcontains (names : List String) (hkeys : names.all isWord = true) :
      names.contains (name ++ "*") = false := by
    refine Bool.eq_false_iff.mpr fun hmem => ?_
    exact hne (List.all_eq_true.mp hkeys _ (List.contains_iff_mem.mp hmem)) rfl
  have hequal (word : String) (hword : isWord word = true) : (name ++ "*" == word) = false :=
    beq_eq_false_iff_ne.mpr (hne hword)
  unfold Meaning.ofWord
  rw [hlookup greekLetters (by decide +kernel), hlookup operators (by decide +kernel),
    hlookup symbolWords (by decide +kernel), hlookup spaceWords (by decide +kernel),
    hlookup largeOperators (by decide +kernel), hlookup accents (by decide +kernel),
    hlookup fonts (by decide +kernel), hcontains functions (by decide +kernel),
    hcontains fractions (by decide +kernel), hcontains bigDelimiters (by decide +kernel),
    hequal "binom" (by decide), hequal "sqrt" (by decide), hequal "left" (by decide),
    hequal "right" (by decide), hbegin, hend]
  rfl

/-- What is wrong with what follows a formula is wrong with the whole. -/
theorem parse_append_eq_error {ts more : List Token} {ms : List Math} {fault : Fault}
    (hms : parse ts = .ok ms) (hmore : Latex.sequence (α := Math) stopNever more = .error fault)
    (hhead : ∀ t ∈ more.head?, t.isScript = false) : parse (ts ++ more) = .error fault := by
  have hsequence := (takes_of_parse hms).append_error hmore hhead
  simp only [parse, parseAs, hsequence]

/-- An undefined token that no phrase before it takes is what is wrong. -/
theorem sequence_undefined {t : Token} (ts : List Token) (hmeaning : t.meaning = .undefined)
    (hscript : t.isScript = false) :
    Latex.sequence (α := Math) stopNever (t :: ts) = .error (.malformed (.undefined t)) := by
  have helement : element (α := Math) t ts = .error (.malformed (.undefined t)) := by
    rw [element, hmeaning]
  rw [Latex.sequence, if_neg (by simp [stopNever]), hscript, if_neg (by simp), helement]

/-- A space after the symbol that follows a formula changes nothing, if neither a letter nor a star comes
then.  A star is an operator after the space, and without the space there is no such symbol. -/
theorem tree_symbol_space {layout : Layout} {a : Text} {m : Markup} {name : String}
    (ha : tree layout a = .ok m) (hname : name ∈ symbolNames) :
    (∀ b, EndsName b → bodyOf? layout (a ++ (Token.spellWord name ++ b)) =
      bodyOf? layout (a ++ (Token.spellWord name ++ .char ' ' :: b))) ∧
    ∀ b, tree layout (a ++ (Token.spellWord name ++ .char '*' :: b)) =
      .error (.malformed (.undefined (.word (name ++ "*")))) := by
  obtain ⟨ms, hms, -, -⟩ := tree_eq_ok_iff.mp ha
  obtain ⟨hword, hopen, hstarred, hbegin, hend⟩ := symbolNames_words name hname
  have hclosed := isOpen_of_parse hms
  refine ⟨fun b hb => bodyOf?_word_space hclosed hword hopen hb, fun b => ?_⟩
  have hstar : Text.trimRight (.char '*' :: b) = .char '*' :: Text.trimRight b := by
    rw [Text.trimRight]
    cases Text.trimRight b <;> rfl
  have htokens : tokenize (a ++ (Token.spellWord name ++ .char '*' :: b)).trim =
      tokenize a.trim ++ .word (name ++ "*") :: tokenize (Text.trimRight b) := by
    rw [tokenize_trim_word _ hclosed hword, hstar, tokenize_starred _ hword hstarred]
  have hparse : parse (tokenize (a ++ (Token.spellWord name ++ .char '*' :: b)).trim) =
      .error (.malformed (.undefined (.word (name ++ "*")))) := by
    rw [htokens]
    refine parse_append_eq_error hms (sequence_undefined _ (ofWord_starred hbegin hend) rfl) ?_
    rintro _ ⟨⟩
    rfl
  rw [tree_eq, hparse]

/-- A letter, a symbol, and a number or a product sign after it. -/
theorem tree_symbol_space_sample :
    let a := Text.ofString "x"
    let alpha := Token.spellWord "alpha"
    ∃ m n, tree .inline a = .ok m ∧ "alpha" ∈ symbolNames ∧
      bodyOf? .inline (a ++ (alpha ++ Text.ofString "2")) =
        bodyOf? .inline (a ++ (alpha ++ Text.ofString " 2")) ∧
      tree .inline (a ++ (alpha ++ Text.ofString " *y")) = .ok n ∧
      tree .inline (a ++ (alpha ++ Text.ofString "*y")) =
        .error (.malformed (.undefined (.word "alpha*"))) := by
  intro a alpha
  obtain ⟨m, ha⟩ : ∃ m, tree .inline a = .ok m := exists_of_toBool (by decide +kernel)
  obtain ⟨n, hspaced⟩ : ∃ n, tree .inline (a ++ (alpha ++ Text.ofString " *y")) = .ok n :=
    exists_of_toBool (by decide +kernel)
  have hname : "alpha" ∈ symbolNames := by decide
  have hdigit : EndsName (Text.ofString "2") := by
    rintro _ ⟨⟩
    decide
  obtain ⟨hspace, hstar⟩ := tree_symbol_space ha hname
  exact ⟨m, n, ha, hname, hspace _ hdigit, hspaced, hstar (Text.ofString "y")⟩

end DeltaPreview.Latex
