import DeltaPreview.Proofs.Latex.Scanning

/-!
# Tokens and the source they are read from

Every token is spelled somewhere in the source (`spelled_isInfix`).  The tokens of a source that is
continued are those of the two parts (`tokenize_append`), unless the second part goes on with a name or a
number, or a token of the first part is still open: a text command or an end of an environment whose braces
are missing, or a backslash at the end.  And a source can be cut between any two of its tokens
(`exists_cut`).
-/

namespace DeltaPreview.Latex

/-! ### Tokens that may go on -/

/-- A token that braces after it would change: those of a text command or of an end of an environment are
missing, or it is the backslash at the end of a source. -/
def Token.isOpen : Token → Bool
  | .word name => textCommands.contains name || name == "begin" || name == "end"
  | .backslash => true
  | _ => false

/-- A control name decides which braces complete it. -/
theorem completed?_cases (name : Text) :
    completed? name = textCommand? (Text.toString name) ∨
      completed? name = environmentEnd? .beginning ∨ completed? name = environmentEnd? .ending ∨
        completed? name = fun _ => none := by
  by_cases htext : Text.toString name ∈ textCommands
  · exact .inl (funext fun after => if_pos htext)
  by_cases hbegin : name = Text.ofString "begin"
  · exact .inr (.inl (funext fun after => by rw [completed?, if_neg htext, if_pos hbegin]))
  by_cases hend : name = Text.ofString "end"
  · refine .inr (.inr (.inl (funext fun after => ?_)))
    rw [completed?, if_neg htext, if_neg hbegin, if_pos hend]
  · refine .inr (.inr (.inr (funext fun after => ?_)))
    rw [completed?, if_neg htext, if_neg hbegin, if_neg hend]

/-- A reader that reads something up to a closing brace, and gives the same whatever follows the brace. -/
def UpToBrace (read : Text → Option (Token × Text)) : Prop :=
  ∀ after t rest, read after = some (t, rest) → t ≠ .backslash ∧
    ∃ front, after = front ++ .char '\x7d' :: rest ∧
      ∀ more, read (front ++ .char '\x7d' :: more) = some (t, more)

theorem upToBrace_environmentEnd? {token : String → Token} (htoken : ∀ e, token e ≠ .backslash) :
    UpToBrace (environmentEnd? token) := by
  intro after t rest h
  obtain ⟨environment, rfl, rfl, hname⟩ := environmentEnd?_eq_some_iff.mp h
  refine ⟨htoken environment, .char '\x7b' :: Text.ofString environment, by simp [Token.braced],
    fun more => ?_⟩
  exact environmentEnd?_eq_some_iff.mpr ⟨environment, rfl, by simp [Token.braced], hname⟩

/-- What braces complete is read up to the closing one. -/
theorem upToBrace_completed? (name : Text) : UpToBrace (completed? name) := by
  rcases completed?_cases name with h | h | h | h <;> rw [h]
  · intro after t rest htext
    obtain ⟨gap, body, rfl, rfl, hgap, hbody⟩ := textCommand?_eq_some_iff.mp htext
    refine ⟨Token.noConfusion, gap ++ .char '\x7b' :: body, by simp [Token.braced], fun more => ?_⟩
    exact textCommand?_eq_some_iff.mpr ⟨gap, body, rfl, by simp [Token.braced], hgap, hbody⟩
  · exact upToBrace_environmentEnd? fun _ => Token.noConfusion
  · exact upToBrace_environmentEnd? fun _ => Token.noConfusion
  · exact fun _ _ _ hnone => absurd hnone (by simp)

/-- What braces complete does not depend on what follows them. -/
theorem completed?_append {name after rest : Text} {t : Token}
    (h : completed? name after = some (t, rest)) (more : Text) :
    completed? name (after ++ more) = some (t, rest ++ more) := by
  obtain ⟨-, front, rfl, hfront⟩ := upToBrace_completed? name _ _ _ h
  rw [List.append_assoc, List.cons_append, hfront]

/-- Nothing is completed by what has no closing brace. -/
theorem completed?_append_eq_none {name after more : Text} (h : completed? name after = none)
    (hmore : .char '\x7d' ∉ more) : completed? name (after ++ more) = none := by
  cases hcompleted : completed? name (after ++ more) with
  | none => rfl
  | some found =>
    obtain ⟨-, front, hsplit, hfront⟩ := upToBrace_completed? name _ _ _ hcompleted
    rcases List.append_eq_append_iff.mp hsplit with ⟨m, -, rfl⟩ | ⟨m, rfl, hm⟩
    · simp at hmore
    · -- The closing brace stands in what was there before.
      cases m with
      | nil =>
        rw [List.nil_append] at hm
        simp [← hm] at hmore
      | cons g m =>
        obtain ⟨rfl, -⟩ := List.cons.inj hm
        rw [hfront] at h
        cases h

/-- A control name whose word is not open has no braces to wait for. -/
theorem completed?_of_isOpen {name after : Text}
    (h : (Token.word (Text.toString name)).isOpen = false) : completed? name after = none := by
  obtain ⟨htext, hbegin, hend⟩ : Text.toString name ∉ textCommands ∧
      Text.toString name ≠ "begin" ∧ Text.toString name ≠ "end" := by
    simpa [Token.isOpen, and_assoc] using h
  have hname {word : String} (hword : Text.toString name ≠ word) : name ≠ Text.ofString word := by
    rintro rfl
    exact hword (toString_ofString word)
  rw [completed?, if_neg htext, if_neg (hname hbegin), if_neg (hname hend)]

/-- A token that a text after it does not change, since the token is not open, or since the text does not
close the braces that the token waits for. -/
def Token.Keeps (t : Token) (more : Text) : Prop :=
  t.isOpen = false ∨ t ≠ .backslash ∧ .char '\x7d' ∉ more

theorem commandOf_append_apart {s more : Text} (hkeeps : (commandOf s).1.Keeps more)
    (hmore : StandsApart more) :
    commandOf (s ++ more) = ((commandOf s).1, (commandOf s).2 ++ more) := by
  unfold commandOf at hkeeps ⊢
  rw [controlName_append_apart s hmore]
  generalize controlName s = named at hkeeps ⊢
  obtain ⟨name, after⟩ := named
  cases name with
  | nil =>
    cases after with
    | nil =>
      rcases hkeeps with hopen | ⟨hslash, -⟩
      · cases hopen
      · exact absurd rfl hslash
    | cons g after => rfl
  | cons g name =>
    simp only at hkeeps ⊢
    cases hcompleted : completed? (g :: name) after with
    | some found => rw [completed?_append hcompleted]; rfl
    | none =>
      rw [hcompleted] at hkeeps
      rcases hkeeps with hopen | ⟨-, hclose⟩
      · rw [completed?_of_isOpen hopen]
        rfl
      · rw [completed?_append_eq_none hcompleted hclose]
        rfl

/-- The backslash that ends a source is nothing else. -/
theorem eq_nil_of_commandOf {s : Text} (h : (commandOf s).1 = .backslash) : s = [] := by
  have hspelled := commandOf_spelled s
  have hs := controlName_append_self s
  unfold commandOf at h
  split at h
  · rename_i hnil
    rw [hnil] at hs
    exact hs.symm
  · cases h
  · rename_i name after _ _ _
    cases hcompleted : completed? name after with
    | none => simp [hcompleted] at h
    | some found =>
      rw [hcompleted] at h
      exact absurd h (upToBrace_completed? name _ _ _ hcompleted).1

/-- A command that no braces complete is read as well if the source ends somewhere after it. -/
theorem commandOf_cut_word {name a b : Text} (hname : IsControlName name)
    (hnamed : controlName (name ++ (a ++ b)) = (name, a ++ b))
    (hnone : completed? name (a ++ b) = none) :
    commandOf (name ++ a) = (.word (Text.toString name), a) := by
  have hcut : completed? name a = none := by
    cases hfound : completed? name a with
    | none => rfl
    | some found =>
      obtain ⟨t, rest⟩ := found
      rw [completed?_append hfound b] at hnone
      cases hnone
  rw [commandOf_named (controlName_cut hnamed hname) hname.ne_nil, hcut, Option.getD_none]

/-- A command that braces complete is read as well if the source ends somewhere after the last brace. -/
theorem commandOf_cut_completed {name after a b : Text} {t : Token} (hname : IsControlName name)
    (hnamed : controlName (name ++ after) = (name, after))
    (hcompleted : completed? name after = some (t, a ++ b)) :
    ∃ c, t.spelled = .char '\\' :: c ∧ commandOf (c ++ a) = (t, a) := by
  have hspelled := completed?_spelled hname.ofString_toString hcompleted
  obtain ⟨-, front, rfl, hfront⟩ := upToBrace_completed? name _ _ _ hcompleted
  have hcut : controlName (name ++ (front ++ .char '\x7d' :: a)) =
      (name, front ++ .char '\x7d' :: a) :=
    controlName_cut (b := b) (by simpa using hnamed) hname
  refine ⟨name ++ (front ++ [.char '\x7d']), ?_, ?_⟩
  · refine (List.append_cancel_right (hspelled.symm.trans ?_) : t.spelled = _)
    simp
  · rw [List.append_assoc, List.append_assoc, List.singleton_append,
      commandOf_named hcut hname.ne_nil, hfront, Option.getD_some]

/-- A command is read as well if the source ends somewhere after it. -/
theorem commandOf_cut {s a b : Text} (h : (commandOf s).2 = a ++ b) :
    ∃ c, (commandOf s).1.spelled = .char '\\' :: c ∧ commandOf (c ++ a) = ((commandOf s).1, a) := by
  rcases controlName_cases s with ⟨-, hhead⟩ | ⟨hname, hs⟩
  · cases s with
    | nil =>
      obtain ⟨rfl, -⟩ := List.append_eq_nil_iff.mp h.symm
      exact ⟨[], rfl, rfl⟩
    | cons g s =>
      have hletter := hhead g rfl
      rw [commandOf_symbol hletter]
      exact ⟨[g], rfl, commandOf_symbol hletter a⟩
  · rcases hnamed : controlName s with ⟨name, after⟩
    rw [hnamed] at hname hs
    obtain rfl : name ++ after = s := hs
    rw [commandOf_named hnamed hname.ne_nil] at h ⊢
    cases hcompleted : completed? name after with
    | none =>
      rw [hcompleted, Option.getD_none] at h
      obtain rfl : after = a ++ b := h
      refine ⟨name, ?_, commandOf_cut_word hname hnamed hcompleted⟩
      simp [Token.spelled, Token.spellWord, hname.ofString_toString]
    | some found =>
      obtain ⟨t, rest⟩ := found
      rw [hcompleted, Option.getD_some] at h
      obtain rfl : rest = a ++ b := h
      exact commandOf_cut_completed hname hnamed hcompleted

/-! ### The tokens of a source -/

theorem tokenize_command (s : Text) :
    tokenize (.char '\\' :: s) = (commandOf s).1 :: tokenize (commandOf s).2 := by
  rw [tokenize, if_pos rfl, ← scanCommand_parts]
  rfl

theorem tokenize_blank {g : CodePoint} (hblank : g.isBlank = true) (s : Text) :
    tokenize (g :: s) = tokenize s := by
  have hslash : g ≠ .char '\\' := by
    rintro rfl
    exact absurd hblank (by decide)
  rw [tokenize, if_neg hslash, if_pos hblank]

theorem tokenize_digit {g : CodePoint} (hdigit : isDigit g = true) (s : Text) :
    tokenize (g :: s) =
      .number (scanNumber (g :: s)).1.chars :: tokenize (scanNumber (g :: s)).2 := by
  have hblank : ¬ g.isBlank = true := fun hblank => by
    rw [(not_isLetter_of_isBlank hblank).2.1] at hdigit
    cases hdigit
  have hslash : g ≠ .char '\\' := by
    rintro rfl
    exact absurd hdigit (by decide)
  rw [tokenize, if_neg hslash, if_neg hblank, dif_pos hdigit]

theorem tokenize_other {g : CodePoint} (hslash : g ≠ .char '\\') (hblank : g.isBlank = false)
    (hdigit : isDigit g = false) (s : Text) : tokenize (g :: s) = .glyph g :: tokenize s := by
  rw [tokenize]
  simp [hslash, hblank, hdigit]

/-- The first token of a source and what follows it.  What stands apart after the source and keeps the token
changes neither, and the token stays the same if the source ends earlier. -/
structure FirstToken (s : Text) (t : Token) (rest : Text) : Prop where
  spelled : s = t.spelled ++ rest
  shorter : rest.length < s.length
  tokenize : tokenize s = t :: Latex.tokenize rest
  append : ∀ more, t.Keeps more → StandsApart more →
    Latex.tokenize (s ++ more) = t :: Latex.tokenize (rest ++ more)
  cut : ∀ a b, rest = a ++ b → Latex.tokenize (t.spelled ++ a) = t :: Latex.tokenize a

/-- A source that begins with a digit begins with a number. -/
theorem firstToken_number {g : CodePoint} (hdigit : isDigit g = true) (s : Text) :
    FirstToken (g :: s) (.number (scanNumber (g :: s)).1.chars) (scanNumber (g :: s)).2 := by
  have hnumber := isNumber_scanNumber (g :: s)
  have hself := scanNumber_append_self (g :: s)
  have hshorter : (scanNumber (g :: s)).2.length < (g :: s).length := by
    have hscan := scanNumber_length (g :: s)
    have hdrop := (List.dropWhile_sublist isDigit (l := s)).length_le
    rw [List.dropWhile_cons_of_pos hdigit] at hscan
    rw [List.length_cons]
    omega
  refine ⟨?_, hshorter, tokenize_digit hdigit s, ?_, ?_⟩
  · rw [Token.spelled, hnumber.ofChars_chars, hself]
  · intro more _ hmore
    rw [List.cons_append, tokenize_digit hdigit, ← List.cons_append,
      scanNumber_append_apart (g :: s) hmore]
  · intro a b hrest
    rw [Token.spelled, hnumber.ofChars_chars]
    rw [hrest] at hnumber hself hshorter
    generalize (scanNumber (g :: s)).1 = number at hnumber hself ⊢
    cases number with
    | nil =>
      rw [List.nil_append] at hself
      simp [hself] at hshorter
    | cons d number =>
      obtain ⟨rfl, -⟩ := List.cons.inj hself
      have hscan := hnumber.cut.scanNumber_append
      rw [List.cons_append] at hscan ⊢
      rw [tokenize_digit hdigit, hscan]

/-- A source that does not begin with a blank begins with a token. -/
theorem exists_firstToken {g : CodePoint} (hblank : g.isBlank = false) (s : Text) :
    ∃ t rest, FirstToken (g :: s) t rest := by
  by_cases hslash : g = .char '\\'
  · have hshorter : (commandOf s).2.length < (g :: s).length := by
      rw [← scanCommand_parts]
      exact (scanCommand s).bounded
    refine ⟨_, _, ⟨hslash ▸ commandOf_spelled s, hshorter, hslash ▸ tokenize_command s, ?_, ?_⟩⟩
    · intro more hkeeps hmore
      rw [hslash, List.cons_append, tokenize_command, commandOf_append_apart hkeeps hmore]
    · intro a b hrest
      obtain ⟨c, hspelled, hcut⟩ := commandOf_cut hrest
      rw [hspelled, List.cons_append, tokenize_command, hcut]
  cases hdigit : isDigit g with
  | true => exact ⟨_, _, firstToken_number hdigit s⟩
  | false =>
    have hother := tokenize_other hslash hblank hdigit
    exact ⟨.glyph g, s, ⟨rfl, Nat.lt_add_one _, hother s, fun more _ _ => hother (s ++ more),
      fun a _ _ => hother a⟩⟩

/-- Every token is spelled somewhere in its source. -/
theorem spelled_isInfix {s : Text} {t : Token} (h : t ∈ tokenize s) : t.spelled <:+: s := by
  match s with
  | [] =>
    rw [tokenize] at h
    cases h
  | g :: s =>
    cases hblank : g.isBlank with
    | true =>
      rw [tokenize_blank hblank] at h
      exact (spelled_isInfix h).trans (List.suffix_cons g s).isInfix
    | false =>
      obtain ⟨u, rest, hfirst⟩ := exists_firstToken hblank s
      have hshorter := hfirst.shorter
      rw [hfirst.tokenize] at h
      rw [hfirst.spelled]
      rcases List.mem_cons.mp h with rfl | h
      · exact (List.prefix_append _ _).isInfix
      · exact (spelled_isInfix h).trans (List.suffix_append _ _).isInfix
termination_by s.length
decreasing_by all_goals (simp only [List.length_cons] at *; omega)

/-- A source can be cut between any two of its tokens. -/
theorem exists_cut {s : Text} {ts us : List Token} (h : tokenize s = ts ++ us) :
    ∃ a b, s = a ++ b ∧ tokenize a = ts ∧ tokenize b = us := by
  match s, ts with
  | s, [] => exact ⟨[], s, rfl, by rw [tokenize], h⟩
  | [], t :: ts =>
    rw [tokenize] at h
    cases h
  | g :: s, t :: ts =>
    cases hblank : g.isBlank with
    | true =>
      rw [tokenize_blank hblank] at h
      obtain ⟨a, b, hs, ha, hb⟩ := exists_cut h
      exact ⟨g :: a, b, by rw [hs]; rfl, by rw [tokenize_blank hblank, ha], hb⟩
    | false =>
      obtain ⟨u, rest, hfirst⟩ := exists_firstToken hblank s
      have hshorter := hfirst.shorter
      obtain ⟨rfl, hmore⟩ := List.cons.inj (hfirst.tokenize.symm.trans h)
      obtain ⟨a, b, hrest, ha, hb⟩ := exists_cut hmore
      refine ⟨u.spelled ++ a, b, ?_, ?_, hb⟩
      · rw [hfirst.spelled, hrest, List.append_assoc]
      · rw [hfirst.cut a b hrest, ha]
termination_by s.length
decreasing_by all_goals (simp only [List.length_cons] at *; omega)

/-- What stands apart after a source has its own tokens, if it keeps those of the source. -/
theorem tokenize_append {s more : Text} (hkeeps : ∀ t ∈ tokenize s, t.Keeps more)
    (hmore : StandsApart more) : tokenize (s ++ more) = tokenize s ++ tokenize more := by
  match s with
  | [] => rw [tokenize]; rfl
  | g :: s =>
    cases hblank : g.isBlank with
    | true =>
      rw [tokenize_blank hblank] at hkeeps ⊢
      rw [List.cons_append, tokenize_blank hblank]
      exact tokenize_append hkeeps hmore
    | false =>
      obtain ⟨t, rest, hfirst⟩ := exists_firstToken hblank s
      have hshorter := hfirst.shorter
      rw [hfirst.tokenize] at hkeeps ⊢
      obtain ⟨ht, hrest⟩ := List.forall_mem_cons.mp hkeeps
      rw [hfirst.append more ht hmore, tokenize_append hrest hmore, List.cons_append]
termination_by s.length
decreasing_by all_goals (simp only [List.length_cons] at *; omega)

/-- What a blank goes on with has its own tokens, if no token is open before the blank. -/
theorem tokenize_append_blank {s more : Text} (hopen : ∀ t ∈ tokenize s, t.isOpen = false)
    (hmore : GoesOnBlank more) : tokenize (s ++ more) = tokenize s ++ tokenize more :=
  tokenize_append (fun t ht => .inl (hopen t ht)) hmore.standsApart

end DeltaPreview.Latex
