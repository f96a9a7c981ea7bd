import DeltaPreview.Formula.Render
import DeltaPreview.Proofs.Latex.Concatenation

/-!
# Trimming a source

A source is trimmed before it is read.  Blanks at its ends are no tokens, with one exception: a backslash
takes the blank after it.  If the last token is such a backslash, trimming takes the blank away and leaves
the backslash alone; else the tokens stay as they are (`tokenize_trim_iff`).  A backslash with a space is a
space of the formula, so a formula that ends in one can be set as it is written and not when it is trimmed.
-/

namespace DeltaPreview

theorem Text.trim_trim (t : Text) : t.trim.trim = t.trim :=
  trim_eq_self (isTrimmed_trim t).head (isTrimmed_trim t).last

namespace Latex

/-! ### Blanks after a source -/

theorem commandOf_blank {g : CodePoint} (hblank : g.isBlank = true) (s : Text) :
    commandOf (g :: s) = (.symbol g, s) := commandOf_symbol (not_isLetter_of_isBlank hblank).1 s

theorem goesOnBlank_of_allBlank {gap : Text} (h : gap.allBlank = true) : GoesOnBlank gap := by
  intro g hg
  exact List.all_eq_true.mp h g (List.mem_of_mem_head? hg)

theorem not_mem_of_allBlank {gap : Text} (h : gap.allBlank = true) : .char '\x7d' ∉ gap := by
  intro hmem
  have hblank := List.all_eq_true.mp h _ hmem
  exact absurd hblank (by decide)

theorem tokenize_of_allBlank {gap : Text} (h : gap.allBlank = true) : tokenize gap = [] := by
  have hgap := tokenize_blanks h []
  rwa [List.append_nil, tokenize] at hgap

/-- Blanks after a source are no tokens, unless a backslash stands alone before them. -/
theorem tokenize_append_gap {s gap : Text} (hslash : .backslash ∉ tokenize s)
    (hgap : gap.allBlank = true) : tokenize (s ++ gap) = tokenize s := by
  have hkeeps : ∀ t ∈ tokenize s, t.Keeps gap := by
    intro t ht
    refine .inr ⟨?_, not_mem_of_allBlank hgap⟩
    rintro rfl
    exact hslash ht
  rw [tokenize_append hkeeps (goesOnBlank_of_allBlank hgap).standsApart, tokenize_of_allBlank hgap,
    List.append_nil]

/-- A backslash that stands alone is the last token, and takes a blank after it. -/
theorem tokenize_append_backslash {s gap : Text} {g : CodePoint} (hslash : .backslash ∈ tokenize s)
    (hgap : Text.allBlank (g :: gap) = true) :
    ∃ ts, tokenize s = ts ++ [.backslash] ∧ tokenize (s ++ g :: gap) = ts ++ [.symbol g] := by
  match s with
  | [] =>
    rw [tokenize] at hslash
    cases hslash
  | d :: s =>
    cases hblank : d.isBlank with
    | true =>
      rw [tokenize_blank hblank] at hslash ⊢
      rw [List.cons_append, tokenize_blank hblank]
      exact tokenize_append_backslash hslash hgap
    | false =>
      obtain ⟨t, rest, hfirst⟩ := exists_firstToken hblank s
      have hshorter := hfirst.shorter
      obtain ⟨hg, hblanks⟩ := Bool.and_eq_true_iff.mp hgap
      by_cases ht : t = .backslash
      · -- The backslash is the whole source.
        have hspelled := hfirst.spelled
        have htokens := hfirst.tokenize
        rw [ht, Token.spelled, List.singleton_append] at hspelled
        rw [hspelled, tokenize_command, ht] at htokens
        obtain rfl := eq_nil_of_commandOf (List.cons.inj htokens).1
        refine ⟨[], ?_, ?_⟩
        · rw [hspelled, tokenize_command, htokens, tokenize]
          rfl
        · rw [hspelled, List.singleton_append, tokenize_command, commandOf_blank hg,
            tokenize_of_allBlank hblanks]
          rfl
      · rw [hfirst.tokenize] at hslash ⊢
        have hmem := (List.mem_cons.mp hslash).resolve_left (Ne.symm ht)
        obtain ⟨ts, hts, hmore⟩ := tokenize_append_backslash hmem hgap
        have hkeeps : t.Keeps (g :: gap) := .inr ⟨ht, not_mem_of_allBlank hgap⟩
        refine ⟨t :: ts, by rw [hts]; rfl, ?_⟩
        rw [hfirst.append _ hkeeps (goesOnBlank_of_allBlank hgap).standsApart, hmore]
        rfl
termination_by s.length
decreasing_by all_goals (simp only [List.length_cons] at *; omega)

/-! ### Trimmed sources -/

/-- A source that ends with a backslash and a blank after it. -/
def EndsInBlank (s : Text) : Prop := ∃ ts g, g.isBlank = true ∧ tokenize s = ts ++ [.symbol g]

/-- Trimming keeps the tokens, or it takes the blank from the backslash that is the last one. -/
theorem tokenize_trim_cases (s : Text) :
    tokenize s.trim = tokenize s ∨
      ∃ ts g, g.isBlank = true ∧ tokenize s = ts ++ [.symbol g] ∧
        tokenize s.trim = ts ++ [.backslash] := by
  obtain ⟨lead, tail, hlead, htail, hs⟩ := Text.exists_trim s
  generalize s.trim = body at hs ⊢
  rw [hs, List.append_assoc, tokenize_blanks hlead]
  by_cases hslash : .backslash ∈ tokenize body
  · cases tail with
    | nil => exact .inl (by rw [List.append_nil])
    | cons g tail =>
      obtain ⟨ts, hts, hmore⟩ := tokenize_append_backslash hslash htail
      exact .inr ⟨ts, g, (Bool.and_eq_true_iff.mp htail).1, hmore, hts⟩
  · exact .inl (tokenize_append_gap hslash htail).symm

theorem allBlank_of_tokenize {s : Text} (h : tokenize s = []) : s.allBlank = true := by
  induction s with
  | nil => rfl
  | cons g s ih =>
    cases hblank : g.isBlank with
    | true =>
      rw [tokenize_blank hblank] at h
      exact Bool.and_eq_true_iff.mpr ⟨hblank, ih h⟩
    | false =>
      obtain ⟨t, rest, hfirst⟩ := exists_firstToken hblank s
      cases hfirst.tokenize.symm.trans h

/-- After the last token there are blanks only. -/
theorem exists_of_tokenize_concat {s : Text} {ts : List Token} {t : Token}
    (h : tokenize s = ts ++ [t]) :
    ∃ front gap : Text, s = front ++ t.spelled ++ gap ∧ gap.allBlank = true := by
  match s with
  | [] =>
    rw [tokenize] at h
    simp at h
  | g :: s =>
    cases hblank : g.isBlank with
    | true =>
      rw [tokenize_blank hblank] at h
      obtain ⟨front, gap, hs, hgap⟩ := exists_of_tokenize_concat h
      exact ⟨g :: front, gap, by rw [hs]; rfl, hgap⟩
    | false =>
      obtain ⟨u, rest, hfirst⟩ := exists_firstToken hblank s
      have hshorter := hfirst.shorter
      have htokens := hfirst.tokenize.symm.trans h
      cases ts with
      | nil =>
        obtain ⟨rfl, hnil⟩ := List.cons.inj htokens
        exact ⟨[], rest, hfirst.spelled, allBlank_of_tokenize hnil⟩
      | cons u' ts =>
        obtain ⟨front, gap, hrest, hgap⟩ := exists_of_tokenize_concat (List.cons.inj htokens).2
        refine ⟨u.spelled ++ front, gap, ?_, hgap⟩
        rw [hfirst.spelled, hrest]
        simp
termination_by s.length
decreasing_by all_goals (simp only [List.length_cons] at *; omega)

/-- A trimmed source does not end with a backslash and a blank. -/
theorem not_endsInBlank_trim (s : Text) : ¬ EndsInBlank s.trim := by
  rintro ⟨ts, g, hblank, htokens⟩
  obtain ⟨front, gap, hs, hgap⟩ := exists_of_tokenize_concat htokens
  have hblanks : Text.allBlank (g :: gap) = true := Bool.and_eq_true_iff.mpr ⟨hblank, hgap⟩
  have hs : s.trim = (front ++ [.char '\\']) ++ g :: gap := by rw [hs]; simp [Token.spelled]
  have hlast : s.trim.getLast? = (g :: gap).getLast? := by
    rw [hs, List.getLast?_append_of_ne_nil _ (List.cons_ne_nil g gap)]
  obtain ⟨d, hd⟩ : ∃ d, (g :: gap).getLast? = some d :=
    Option.isSome_iff_exists.mp (List.getLast?_isSome.mpr (List.cons_ne_nil g gap))
  have hvisible := (Text.isTrimmed_trim s).last d (hlast.trans hd)
  rw [List.all_eq_true.mp hblanks d (List.mem_of_getLast? hd)] at hvisible
  cases hvisible

/-- Trimming keeps the tokens exactly if it takes no blank from a backslash. -/
theorem tokenize_trim_eq_iff {s : Text} : tokenize s.trim = tokenize s ↔ ¬ EndsInBlank s := by
  constructor
  · rintro hsame ⟨ts, g, hblank, htokens⟩
    exact not_endsInBlank_trim s ⟨ts, g, hblank, hsame.trans htokens⟩
  · intro hends
    rcases tokenize_trim_cases s with hsame | ⟨ts, g, hblank, htokens, -⟩
    · exact hsame
    · exact absurd ⟨ts, g, hblank, htokens⟩ hends

/-- The tokens that a formula is read from are those of the source as it is written. -/
theorem tokenize_trim_of_parse {s : Text} {ms : List Math} (h : parse (tokenize s.trim) = .ok ms) :
    tokenize s.trim = tokenize s := by
  rcases tokenize_trim_cases s with hsame | ⟨ts, g, -, -, htrim⟩
  · exact hsame
  · have hopen := isOpen_of_parse h .backslash (by simp [htrim])
    cases hopen

/-! ### Blanks that mean something -/

/-- A space is the only blank that a backslash makes a part of a formula. -/
theorem idle_symbol_of_blank {g : CodePoint} (hblank : g.isBlank = true) (hspace : g ≠ .char ' ') :
    (Token.symbol g).Idle := by
  cases g with
  | surrogate i => exact ⟨.inl rfl, rfl⟩
  | char c =>
    have hne : c ≠ ' ' := fun h => hspace (congrArg _ h)
    have hnone {α : Type} {table : List (Char × α)}
        (hkeys : ((table.map Prod.fst).all fun c => !(CodePoint.char c).isBlank || c == ' ') = true) :
        table.lookup c = none := by
      refine Option.eq_none_iff_forall_ne_some.mpr fun a ha => ?_
      have hmem := List.mem_map_of_mem (f := Prod.fst) (mem_of_lookup ha)
      have hkey := List.all_eq_true.mp hkeys c hmem
      simp [hblank, hne] at hkey
    have hslash : c ≠ '\\' := by
      rintro rfl
      exact absurd hblank (by decide)
    refine ⟨.inl ?_, ?_⟩
    · have hescapes : symbolEscapes.lookup c = none := hnone (by decide)
      have hspaces : spaceEscapes.lookup c = none := hnone (by decide)
      simp [Token.meaning, Meaning.ofEscape, hescapes, hspaces, Meaning.first]
    · have hdelimiters : delimiterEscapes.lookup c = none := hnone (by decide)
      simp [Token.delimiter?, hdelimiters]

/-- Trimming a source keeps its tokens, unless its last token is a backslash with a blank, and then the
blank is lost.  A formula is set as it is written, unless it ends with a backslash and a space: then it is
refused.  Trimming it once more changes nothing. -/
theorem tokenize_trim_iff (s : Text) :
    (tokenize s.trim = tokenize s ↔ ¬ EndsInBlank s) ∧
    (∀ ts g, g.isBlank = true → tokenize s = ts ++ [.symbol g] →
      tokenize s.trim = ts ++ [.backslash]) ∧
    (∀ ms, parse (tokenize s) = .ok ms → parse (tokenize s.trim) = .ok ms ∨
      (∃ ts, tokenize s = ts ++ [.symbol (.char ' ')]) ∧ ∀ layout m, tree layout s ≠ .ok m) ∧
    ∀ layout, Formula.typeset typesetter layout s = typesetter s layout := by
  have hlost : ∀ ts g, g.isBlank = true → tokenize s = ts ++ [.symbol g] →
      tokenize s.trim = ts ++ [.backslash] := by
    intro ts g hblank htokens
    rcases tokenize_trim_cases s with hsame | ⟨ts', g', -, htokens', htrim⟩
    · exact absurd ⟨ts, g, hblank, hsame.trans htokens⟩ (not_endsInBlank_trim s)
    · obtain ⟨rfl, -⟩ := List.append_inj' (htokens.symm.trans htokens') rfl
      exact htrim
  refine ⟨tokenize_trim_eq_iff, hlost, ?_, ?_⟩
  · intro ms hparse
    rcases tokenize_trim_cases s with hsame | ⟨ts, g, hblank, htokens, htrim⟩
    · exact .inl (hsame ▸ hparse)
    · have hspace : g = .char ' ' := by
        refine Classical.byContradiction fun hne => ?_
        refine not_idle_of_parse hparse (.symbol g) ?_ (idle_symbol_of_blank hblank hne)
        simp [htokens]
      refine .inr ⟨⟨ts, hspace ▸ htokens⟩, fun layout m htree => ?_⟩
      obtain ⟨ms', hms', -⟩ := tree_eq_ok_iff.mp htree
      exact tokenize_trim_eq_iff.mp (tokenize_trim_of_parse hms') ⟨ts, g, hblank, htokens⟩
  · intro layout
    unfold Formula.typeset typesetter typeset tree
    rw [Text.trim_trim]

/-- A letter and a backslash with a space are a formula, which is refused since the space is trimmed. -/
theorem tokenize_trim_sample :
    let s := Text.ofString "x\\ "
    (∃ ms, parse (tokenize s) = .ok ms) ∧ tokenize s.trim = [.glyph (.char 'x'), .backslash] ∧
      ∀ layout m, tree layout s ≠ .ok m := by
  intro s
  have htokens : tokenize s = [.glyph (.char 'x')] ++ [.symbol (.char ' ')] := by decide +kernel
  obtain ⟨ms, hms⟩ : ∃ ms, parse (tokenize s) = .ok ms := exists_of_toBool (by decide +kernel)
  obtain ⟨-, hlost, hset, -⟩ := tokenize_trim_iff s
  have htrim := hlost _ _ (by decide) htokens
  refine ⟨⟨ms, hms⟩, htrim, ?_⟩
  rcases hset ms hms with hsame | ⟨-, hrefused⟩
  · -- The backslash alone is no formula.
    have hopen := isOpen_of_parse hsame .backslash (by simp [htrim])
    cases hopen
  · exact hrefused

end Latex

end DeltaPreview
