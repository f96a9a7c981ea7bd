import DeltaPreview.Proofs.Latex.Lexical

/-!
# Tokens with single spaces between them

A source loses nothing but blanks between its tokens (`withoutBlanks_tokenize`), and the tokens with one
space between them are read as the same tokens again (`tokenize_respaced`).  The only tokens that a space
after them could change are the names of text commands: whether braces complete them is decided by the
source without its blanks (`isSome_bracedText?`).
-/

namespace DeltaPreview

namespace Text

/-- A text without its blanks. -/
def withoutBlanks (t : Text) : Text := t.filter fun g => !g.isBlank

theorem withoutBlanks_blank {g : CodePoint} (h : g.isBlank = true) (t : Text) :
    withoutBlanks (g :: t) = withoutBlanks t := List.filter_cons_of_neg (by simp [h])

theorem withoutBlanks_visible {g : CodePoint} (h : g.isBlank = false) (t : Text) :
    withoutBlanks (g :: t) = g :: withoutBlanks t := List.filter_cons_of_pos (by simp [h])

theorem withoutBlanks_append (s t : Text) :
    withoutBlanks (s ++ t) = withoutBlanks s ++ withoutBlanks t := List.filter_append ..

end Text

namespace Latex

open Text

/-! ### The tokens of a source -/

/-- Every token begins some part of its source. -/
theorem exists_firstToken_of_mem {s : Text} {t : Token} (h : t ∈ tokenize s) :
    ∃ g s' rest, g.isBlank = false ∧ FirstToken (g :: s') t rest := by
  match s with
  | [] =>
    rw [tokenize] at h
    cases h
  | g :: s =>
    cases hblank : g.isBlank with
    | true =>
      rw [tokenize_blank hblank] at h
      exact exists_firstToken_of_mem h
    | false =>
      obtain ⟨u, rest, hfirst⟩ := exists_firstToken hblank s
      have hshorter := hfirst.shorter
      rw [hfirst.tokenize] at h
      rcases List.mem_cons.mp h with rfl | h
      · exact ⟨g, s, rest, hblank, hfirst⟩
      · exact exists_firstToken_of_mem h
termination_by s.length
decreasing_by all_goals (simp only [List.length_cons] at *; omega)

theorem FirstToken.spelled_ne_nil {s rest : Text} {t : Token} (h : FirstToken s t rest) :
    t.spelled ≠ [] := by
  intro hnil
  have hshorter := h.shorter
  rw [h.spelled, hnil, List.nil_append] at hshorter
  exact absurd hshorter (Nat.lt_irrefl _)

/-- A number has no blanks. -/
theorem IsNumber.not_isBlank {number rest : Text} (h : IsNumber number rest) :
    ∀ g ∈ number, g.isBlank = false := by
  have hdigits {digits : Text} (hall : ∀ g ∈ digits, isDigit g = true) :
      ∀ g ∈ digits, g.isBlank = false := by
    intro g hg
    refine Bool.eq_false_iff.mpr fun hblank => ?_
    have hdigit := hall g hg
    rw [(not_isLetter_of_isBlank hblank).2.1] at hdigit
    cases hdigit
  cases h with
  | whole hall => exact hdigits hall
  | decimal hall _ hfraction =>
    rw [List.forall_mem_append, List.forall_mem_cons]
    exact ⟨hdigits hall, by decide, hdigits hfraction⟩

/-- Only a control sequence has blanks. -/
theorem FirstToken.head_or_visible {g : CodePoint} {s rest : Text} {t : Token}
    (hblank : g.isBlank = false) (h : FirstToken (g :: s) t rest) :
    t.spelled.head? = some (.char '\\') ∨ ∀ d ∈ t.spelled, d.isBlank = false := by
  obtain ⟨d, spelled, hspelled⟩ := List.exists_cons_of_ne_nil h.spelled_ne_nil
  obtain rfl : g = d := by
    have hs := h.spelled
    rw [hspelled, List.cons_append] at hs
    exact (List.cons.inj hs).1
  by_cases hslash : g = .char '\\'
  · exact .inl (by rw [hspelled, hslash]; rfl)
  refine .inr ?_
  cases hdigit : isDigit g with
  | true =>
    have hnumber := isNumber_scanNumber (g :: s)
    obtain ⟨rfl, -⟩ := List.cons.inj (h.tokenize.symm.trans (tokenize_digit hdigit s))
    rw [Token.spelled, hnumber.ofChars_chars]
    exact hnumber.not_isBlank
  | false =>
    obtain ⟨rfl, -⟩ := List.cons.inj (h.tokenize.symm.trans (tokenize_other hslash hblank hdigit s))
    simpa [Token.spelled] using hblank

/-- Nothing but blanks is lost between the tokens. -/
theorem withoutBlanks_tokenize (s : Text) :
    withoutBlanks ((tokenize s).flatMap Token.spelled) = withoutBlanks s := by
  match s with
  | [] => rw [tokenize]; rfl
  | g :: s =>
    cases hblank : g.isBlank with
    | true =>
      rw [tokenize_blank hblank, withoutBlanks_blank hblank]
      exact withoutBlanks_tokenize s
    | false =>
      obtain ⟨t, rest, hfirst⟩ := exists_firstToken hblank s
      have hshorter := hfirst.shorter
      rw [hfirst.tokenize, List.flatMap_cons, withoutBlanks_append, withoutBlanks_tokenize rest,
        ← withoutBlanks_append, ← hfirst.spelled]
termination_by s.length
decreasing_by all_goals (simp only [List.length_cons] at *; omega)

theorem withoutBlanks_spaced (ts : List Token) :
    withoutBlanks (Expression.spaced ts) = withoutBlanks (ts.flatMap Token.spelled) := by
  induction ts with
  | nil => rfl
  | cons t ts ih =>
    cases ts with
    | nil => simp [Expression.spaced]
    | cons u us =>
      rw [spaced_cons_cons, List.flatMap_cons, withoutBlanks_append, withoutBlanks_append,
        withoutBlanks_blank (by decide), ih]

/-! ### Braces after blanks -/

theorem isSome_bracedBody? (t : Text) :
    (bracedBody? (withoutBlanks t)).isSome = (bracedBody? t).isSome := by
  fun_induction bracedBody? t with
  | case1 => rfl
  | case2 rest => rw [withoutBlanks_visible (by decide)]; rfl
  | case3 rest => rw [withoutBlanks_visible (by decide)]; rfl
  | case4 g rest hclose hopen ih =>
    rw [Option.isSome_map, ← ih]
    cases hblank : g.isBlank with
    | true => rw [withoutBlanks_blank hblank]
    | false =>
      rw [withoutBlanks_visible hblank, bracedBody?, Option.isSome_map]
      · exact hclose
      · exact hopen

/-- Whether a text between braces comes next, after blanks, is decided by what is not blank. -/
theorem isSome_bracedText? (t : Text) :
    (bracedText? (t.dropWhile CodePoint.isBlank)).isSome =
      (bracedText? (withoutBlanks t)).isSome := by
  induction t with
  | nil => rfl
  | cons g t ih =>
    cases hblank : g.isBlank with
    | true => rw [List.dropWhile_cons_of_pos hblank, withoutBlanks_blank hblank, ih]
    | false =>
      rw [List.dropWhile_cons_of_neg (by simp [hblank]), withoutBlanks_visible hblank]
      by_cases hopen : g = .char '\x7b'
      · rw [hopen]
        exact (isSome_bracedBody? t).symm
      · simp [bracedText?, hopen]

/-- A name that no braces complete is not completed either after a space, if nothing but blanks changes. -/
theorem completed?_respaced {name after more : Text} (h : completed? name after = none)
    (hmore : withoutBlanks more = withoutBlanks after) :
    completed? name (.char ' ' :: more) = none := by
  unfold completed? at h ⊢
  split
  · rename_i htext
    rw [if_pos htext, textCommand?, Option.map_eq_none_iff] at h
    have hafter : (bracedText? (after.dropWhile CodePoint.isBlank)).isSome = false := by rw [h]; rfl
    rw [isSome_bracedText?, ← hmore, ← withoutBlanks_blank (g := .char ' ') (by decide),
      ← isSome_bracedText?, Option.isSome_eq_false_iff, Option.isNone_iff_eq_none] at hafter
    rw [textCommand?, hafter, Option.map_none]
  · -- The name of an environment follows its word immediately.
    split
    · rfl
    · split <;> rfl

/-! ### Tokens before a space -/

/-- What braces complete is not open. -/
theorem isOpen_of_completed? {name after rest : Text} {t : Token}
    (h : completed? name after = some (t, rest)) : t.isOpen = false := by
  rcases completed?_cases name with hname | hname | hname | hname <;> rw [hname] at h
  · obtain ⟨gap, body, rfl, -⟩ := textCommand?_eq_some_iff.mp h
    rfl
  · obtain ⟨environment, rfl, -⟩ := environmentEnd?_eq_some_iff.mp h
    rfl
  · obtain ⟨environment, rfl, -⟩ := environmentEnd?_eq_some_iff.mp h
    rfl
  · cases h

/-- An open token is a control name that no braces complete. -/
theorem exists_name_of_isOpen {s : Text} (hopen : (commandOf s).1.isOpen = true)
    (hslash : (commandOf s).1 ≠ .backslash) :
    ∃ name after, IsControlName name ∧ completed? name after = none ∧
      commandOf s = (.word (Text.toString name), after) := by
  rcases controlName_cases s with ⟨-, hhead⟩ | ⟨hname, -⟩
  · cases s with
    | nil => exact absurd rfl hslash
    | cons g s =>
      rw [commandOf_symbol (hhead g rfl)] at hopen
      cases hopen
  · rcases hnamed : controlName s with ⟨name, after⟩
    rw [hnamed] at hname
    have hcommand := commandOf_named hnamed hname.ne_nil
    cases hcompleted : completed? name after with
    | none => exact ⟨name, after, hname, hcompleted, by rw [hcommand, hcompleted, Option.getD_none]⟩
    | some found =>
      rw [hcommand, hcompleted, Option.getD_some, isOpen_of_completed? hcompleted] at hopen
      cases hopen

/-- The backslash that ends a source is the last token. -/
theorem FirstToken.eq_nil_of_backslash {s rest : Text} (h : FirstToken s .backslash rest) :
    rest = [] := by
  have hspelled : s = .char '\\' :: rest := h.spelled
  have htokens := h.tokenize
  rw [hspelled, tokenize_command] at htokens
  exact eq_nil_of_commandOf (List.cons.inj htokens).1

/-- A token is read from its own spelling. -/
theorem FirstToken.tokenize_spelled {s rest : Text} {t : Token} (h : FirstToken s t rest) :
    Latex.tokenize t.spelled = [t] := by
  have hcut := h.cut [] rest rfl
  rwa [List.append_nil, Latex.tokenize] at hcut

/-- The command of a control sequence, and what follows it. -/
theorem FirstToken.commandOf_eq {s rest : Text} {t : Token} (h : FirstToken (.char '\\' :: s) t rest) :
    commandOf s = (t, rest) := by
  obtain ⟨htoken, -⟩ := List.cons.inj ((tokenize_command s).symm.trans h.tokenize)
  have hspelled := (commandOf_spelled s).symm.trans h.spelled
  rw [htoken] at hspelled
  exact Prod.ext htoken (List.append_cancel_left hspelled)

/-- A token is read as it is before a space, if nothing but blanks changes after it. -/
theorem FirstToken.respaced {s rest more : Text} {t : Token} (h : FirstToken s t rest)
    (hslash : t ≠ .backslash) (hmore : withoutBlanks more = withoutBlanks rest) :
    Latex.tokenize (t.spelled ++ .char ' ' :: more) = t :: Latex.tokenize more := by
  cases hopen : t.isOpen with
  | false =>
    have hself := h.tokenize_spelled
    have hspace : GoesOnBlank (.char ' ' :: more) := by
      rintro _ ⟨⟩
      decide
    rw [tokenize_append_blank (by simpa [hself] using hopen) hspace, hself,
      tokenize_blank (by decide)]
    rfl
  | true =>
    -- Braces could complete the token across the space.
    obtain ⟨name, hname⟩ : ∃ name, t = .word name := by
      cases t with
      | word name => exact ⟨name, rfl⟩
      | backslash => exact absurd rfl hslash
      | symbol | text | beginning | ending | number | glyph => cases hopen
    obtain ⟨s, rfl⟩ : ∃ s', s = .char '\\' :: s' :=
      ⟨Text.ofString name ++ rest, by rw [h.spelled, hname]; rfl⟩
    have hcommand := h.commandOf_eq
    obtain ⟨name, after, hcontrol, hnone, hword⟩ :=
      exists_name_of_isOpen (by rwa [hcommand]) (by rwa [hcommand])
    obtain ⟨rfl, rfl⟩ := Prod.mk.inj (hcommand.symm.trans hword)
    have hends : EndsName (.char ' ' :: more) := by
      rintro _ ⟨⟩
      decide
    rw [Token.spelled, Token.spellWord, hcontrol.ofString_toString, List.cons_append, tokenize_command,
      commandOf_named (controlName_append hcontrol hends) hcontrol.ne_nil,
      completed?_respaced hnone hmore, Option.getD_none, tokenize_blank (by decide)]

/-- The tokens of a source with one space between them are read as the same tokens. -/
theorem tokenize_spaced_tokenize (s : Text) :
    tokenize (Expression.spaced (tokenize s)) = tokenize s := by
  match s with
  | [] => rw [tokenize, Expression.spaced, List.map_nil, List.intercalate_nil, tokenize]
  | g :: s =>
    cases hblank : g.isBlank with
    | true =>
      rw [tokenize_blank hblank]
      exact tokenize_spaced_tokenize s
    | false =>
      obtain ⟨t, rest, hfirst⟩ := exists_firstToken hblank s
      have hshorter := hfirst.shorter
      have hrest := tokenize_spaced_tokenize rest
      have hkept := withoutBlanks_tokenize rest
      rw [hfirst.tokenize]
      cases htokens : tokenize rest with
      | nil =>
        simpa [Expression.spaced] using hfirst.tokenize_spelled
      | cons u us =>
        rw [htokens] at hrest hkept
        have hslash : t ≠ .backslash := by
          rintro rfl
          rw [hfirst.eq_nil_of_backslash, tokenize] at htokens
          cases htokens
        rw [spaced_cons_cons, hfirst.respaced hslash ((withoutBlanks_spaced _).trans hkept), hrest]
termination_by s.length
decreasing_by all_goals (simp only [List.length_cons] at *; omega)

/-- Between the tokens of a source nothing but blanks is lost; every token is something, only one that begins
with a backslash has blanks, and with one space between them the tokens stay as they are. -/
theorem tokenize_respaced (s : Text) :
    withoutBlanks ((tokenize s).flatMap Token.spelled) = withoutBlanks s ∧
    (∀ t ∈ tokenize s, t.spelled ≠ [] ∧
      ∀ g ∈ t.spelled, g.isBlank = true → t.spelled.head? = some (.char '\\')) ∧
    tokenize (Expression.spaced (tokenize s)) = tokenize s := by
  refine ⟨withoutBlanks_tokenize s, fun t ht => ?_, tokenize_spaced_tokenize s⟩
  obtain ⟨d, s', rest, hvisible, hfirst⟩ := exists_firstToken_of_mem ht
  refine ⟨hfirst.spelled_ne_nil, fun g hg hblank => ?_⟩
  rcases hfirst.head_or_visible hvisible with hhead | hnone
  · exact hhead
  · rw [hnone g hg] at hblank
    cases hblank

/-- A text command whose braces are missing, one with blanks in it, and a backslash at the end. -/
theorem tokenize_respaced_sample :
    let s := Text.ofString "\\text\x7ba\x7b\\mbox \x7bb c\x7d\x7d1.5\\"
    let t := Token.text "mbox" (Text.ofString " ") (Text.ofString "b c")
    t ∈ tokenize s ∧ CodePoint.char ' ' ∈ t.spelled ∧ t.spelled ≠ [] ∧
      t.spelled.head? = some (.char '\\') ∧
      tokenize (Text.ofString "\\text \x7b a \x7b \\mbox \x7bb c\x7d \x7d 1.5 \\") = tokenize s := by
  intro s t
  have htokens : tokenize s = [.word "text", .openBrace, .glyph (.char 'a'), .openBrace, t,
      .closeBrace, .number "1.5".toList, .backslash] := by decide +kernel
  have hmem : t ∈ tokenize s := by simp [htokens]
  have hspace : CodePoint.char ' ' ∈ t.spelled := by decide
  obtain ⟨-, htoken, hsame⟩ := tokenize_respaced s
  obtain ⟨hne, hblanks⟩ := htoken t hmem
  refine ⟨hmem, hspace, hne, hblanks _ hspace (by decide), ?_⟩
  rw [htokens] at hsame ⊢
  exact hsame

end Latex

end DeltaPreview
