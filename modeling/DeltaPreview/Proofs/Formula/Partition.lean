import DeltaPreview.Proofs.Formula.Listing

/-!
# Cutting a text leaves no formula behind

Whether a text contains a formula is asked of the whole text; the text is then cut at its block formulas
first, and at inline formulas in each piece of literal text.  The two agree (`split_partition`): a text
contains a formula exactly if one of its segments is no literal, and what is left as literal text contains
none.  Both searches find a formula wherever one is spelled (`findBlock?_eq_none_iff`,
`findInline?_eq_none_iff`), so what holds of a text holds of every part of it.
-/

namespace DeltaPreview.Segment

/-! ### Pairs of dollars -/

/-- Two dollars, which enclose block formulas. -/
def pair : Text := [.char '$', .char '$']

theorem breakAtPair_of_pair {s before after : Text} (h : s = before ++ pair ++ after) :
    ∃ first rest, breakAtPair s = some (first, rest) ∧ after <:+ rest := by
  fun_induction breakAtPair s generalizing before with
  | case1 rest =>
    -- The pair found stands in front of the given one, or overlaps it, or is the same.
    refine ⟨[], rest, rfl, ?_⟩
    rcases before with _ | ⟨g, _ | ⟨g', before⟩⟩
    · obtain rfl : rest = after := by simpa [pair] using h
      exact List.suffix_rfl
    · obtain ⟨-, rfl⟩ : .char '$' = g ∧ rest = .char '$' :: after := by simpa [pair] using h
      exact List.suffix_cons _ _
    · obtain ⟨-, -, rfl⟩ : .char '$' = g ∧ .char '$' = g' ∧ rest = before ++ pair ++ after := by
        simpa [pair] using h
      exact List.suffix_append _ _
  | case2 => simp [pair] at h
  | case3 g rest hpair ih =>
    cases before with
    | nil =>
      obtain ⟨rfl, rfl⟩ : g = .char '$' ∧ rest = .char '$' :: after := by simpa [pair] using h
      exact absurd rfl (hpair _ rfl)
    | cons g' before =>
      obtain ⟨rfl, hrest⟩ : g = g' ∧ rest = before ++ pair ++ after := by simpa using h
      obtain ⟨first, rest', hbreak, hsuffix⟩ := ih hrest
      exact ⟨g :: first, rest', by rw [hbreak]; rfl, hsuffix⟩

theorem breakAtPair_eq_none_iff {s : Text} : breakAtPair s = none ↔ ¬ pair <:+: s := by
  constructor
  · rintro hnone ⟨before, after, hs⟩
    obtain ⟨first, rest, hbreak, -⟩ := breakAtPair_of_pair hs.symm
    cases hnone.symm.trans hbreak
  · intro hpair
    cases hbreak : breakAtPair s with
    | none => rfl
    | some parts =>
      have hs := eq_of_breakAtPair hbreak
      exact absurd ⟨parts.1, parts.2, by simp [pair, hs]⟩ hpair

/-- No pair of dollars stands before the first one, even if a dollar is added. -/
theorem breakAtPair_before {s before after : Text} (h : breakAtPair s = some (before, after)) :
    ¬ pair <:+: before ++ [.char '$'] := by
  rw [← breakAtPair_eq_none_iff]
  fun_induction breakAtPair s generalizing before after with
  | case1 rest =>
    cases h
    rfl
  | case2 => cases h
  | case3 g rest hpair ih =>
    obtain ⟨⟨b, a⟩, hfound, hparts⟩ := Option.map_eq_some_iff.mp h
    cases hparts
    have hrest := eq_of_breakAtPair hfound
    rw [List.cons_append, breakAtPair, ih hfound]
    · rfl
    · rintro rest' rfl hnext
      cases b with
      | nil => exact hpair (.char '$' :: after) rfl hrest
      | cons g' b =>
        obtain ⟨rfl, -⟩ : g' = .char '$' ∧ b ++ [.char '$'] = rest' := by simpa using hnext
        exact hpair _ rfl hrest

/-! ### Where formulas are found -/

theorem findBlock?_of_break {s before rest source after : Text}
    (hopen : breakAtPair s = some (before, rest)) (hclose : breakAtPair rest = some (source, after)) :
    ∃ found, findBlock? s = some found ∧ found.before = before ∧ found.source = source := by
  unfold findBlock?
  split
  next hnone => cases hopen.symm.trans hnone
  next hopen' =>
    cases hopen.symm.trans hopen'
    split
    next hnone => cases hclose.symm.trans hnone
    next hclose' =>
      cases hclose.symm.trans hclose'
      exact ⟨_, rfl, rfl, rfl⟩

theorem break_of_findBlock? {s : Text} {found : Found s} (h : findBlock? s = some found) :
    ∃ rest, breakAtPair s = some (found.before, rest) ∧
      breakAtPair rest = some (found.source, found.after) := by
  unfold findBlock? at h
  split at h
  next => cases h
  next hopen =>
    split at h
    next => cases h
    next hclose =>
      cases h
      exact ⟨_, hopen, hclose⟩

/-- A block formula is found exactly if one is spelled somewhere. -/
theorem findBlock?_eq_none_iff {s : Text} :
    findBlock? s = none ↔ ¬ ∃ source, spelled (.block source) <:+: s := by
  constructor
  · rintro hnone ⟨source, a, b, hs⟩
    -- The first pair comes no later than the one that opens the given formula.
    have hopening : s = a ++ pair ++ (source ++ pair ++ b) := by simp [← hs, spelled, pair]
    obtain ⟨before, rest, hopen, x, hrest⟩ := breakAtPair_of_pair hopening
    have hclosing : rest = (x ++ source) ++ pair ++ b := by simp [← hrest]
    obtain ⟨first, after, hclose, -⟩ := breakAtPair_of_pair hclosing
    obtain ⟨found, hfound, -⟩ := findBlock?_of_break hopen hclose
    cases hnone.symm.trans hfound
  · intro hnowhere
    cases hfind : findBlock? s with
    | none => rfl
    | some found =>
      exact absurd ⟨found.source, found.before, found.after, spelled_findBlock? hfind⟩ hnowhere

/-- Nothing stands before the first block formula that would be one by itself. -/
theorem findBlock?_before {s : Text} {found : Found s} (h : findBlock? s = some found) :
    findBlock? found.before = none := by
  obtain ⟨rest, hopen, -⟩ := break_of_findBlock? h
  rw [findBlock?_eq_none_iff]
  rintro ⟨source, hblock⟩
  have hpair : pair <:+: spelled (.block source) := ⟨[], source ++ pair, by simp [spelled, pair]⟩
  exact breakAtPair_before hopen ((hpair.trans hblock).trans (List.infix_append' [] _ _))

/-- The source of a block formula ends before the first pair of dollars. -/
theorem source_findBlock? {s : Text} {found : Found s} (h : findBlock? s = some found) :
    ¬ pair <:+: found.source ∧ found.source.getLast? ≠ some (.char '$') := by
  obtain ⟨rest, -, hclose⟩ := break_of_findBlock? h
  have hnone := breakAtPair_before hclose
  refine ⟨fun hpair => hnone (hpair.trans (List.infix_append' [] _ _)), fun hlast => ?_⟩
  obtain ⟨front, hsource⟩ := List.getLast?_eq_some_iff.mp hlast
  exact hnone ⟨front, [], by simp [hsource, pair]⟩

/-- What may stand between two single dollars. -/
def IsInline (source : Text) : Prop := source ≠ [] ∧ ∀ g ∈ source, isInlineChar g = true

/-- The first inline formula: it can be one, and nothing before it is one by itself. -/
theorem first_findInline? {s : Text} {found : Found s} (h : findInline? s = some found) :
    IsInline found.source ∧ findInline? found.before = none := by
  induction s with
  | nil => cases h
  | cons g rest ih =>
    by_cases hbody : ∃ source after, g = .char '$' ∧ inlineBody? rest = some (source, after)
    · obtain ⟨source, after, rfl, hbody⟩ := hbody
      obtain ⟨found', hfound, hbefore, hsource, -⟩ := findInline?_of_body hbody
      obtain rfl : found = found' := Option.some.inj (h.symm.trans hfound)
      rw [hbefore, hsource]
      exact ⟨(inlineBody?_eq_some_iff.mp hbody).2, rfl⟩
    · have hnone : g = .char '$' → inlineBody? rest = none := by
        rw [Option.eq_none_iff_forall_ne_some]
        exact fun hg parts hparts => hbody ⟨parts.1, parts.2, hg, hparts⟩
      rw [findInline?_of_later hnone] at h
      obtain ⟨later, hlater, rfl⟩ := Option.map_eq_some_iff.mp h
      obtain ⟨hsource, hbefore⟩ := ih hlater
      refine ⟨hsource, ?_⟩
      -- A body that ends before the first formula would be found in the whole text, too.
      have hshort : g = .char '$' → inlineBody? later.before = none := by
        rw [Option.eq_none_iff_forall_ne_some]
        rintro hg ⟨source, after⟩ hparts
        obtain ⟨heq, hinline⟩ := inlineBody?_eq_some_iff.mp hparts
        have hrest := spelled_findInline? hlater
        rw [heq, List.append_assoc, List.append_assoc, List.cons_append] at hrest
        exact hbody ⟨source, _, hg, inlineBody?_eq_some_iff.mpr ⟨hrest.symm, hinline⟩⟩
      rw [findInline?_of_later hshort, hbefore]
      rfl

/-- An inline formula is found where one is spelled, or earlier. -/
theorem findInline?_of_spelled {source : Text} (hinline : IsInline source) (before after : Text) :
    findInline? (before ++ (spelled (.inline source) ++ after)) ≠ none := by
  induction before with
  | nil =>
    have hbody : inlineBody? (source ++ [.char '$'] ++ after) = some (source, after) :=
      inlineBody?_eq_some_iff.mpr ⟨by simp, hinline⟩
    obtain ⟨found, hfound, -⟩ := findInline?_of_body hbody
    exact fun hnone => Option.some_ne_none found (hfound.symm.trans hnone)
  | cons g before ih =>
    intro hnone
    have hbody : g = .char '$' →
        inlineBody? (before ++ (spelled (.inline source) ++ after)) = none := by
      rintro rfl
      rw [Option.eq_none_iff_forall_ne_some]
      intro parts hparts
      obtain ⟨found, hfound, -⟩ := findInline?_of_body hparts
      exact Option.some_ne_none found (hfound.symm.trans hnone)
    exact ih (Option.map_eq_none_iff.mp ((findInline?_of_later hbody).symm.trans hnone))

/-- An inline formula is found exactly if one is spelled somewhere. -/
theorem findInline?_eq_none_iff {s : Text} :
    findInline? s = none ↔ ¬ ∃ source, IsInline source ∧ spelled (.inline source) <:+: s := by
  constructor
  · rintro hnone ⟨source, hinline, before, after, rfl⟩
    rw [List.append_assoc] at hnone
    exact findInline?_of_spelled hinline before after hnone
  · intro hnowhere
    cases hfind : findInline? s with
    | none => rfl
    | some found =>
      exact absurd ⟨found.source, (first_findInline? hfind).1, found.before, found.after,
        spelled_findInline? hfind⟩ hnowhere

/-- A text contains a formula exactly if one is spelled somewhere in it. -/
theorem contains_iff {s : Text} :
    contains s = true ↔ (∃ source, IsInline source ∧ spelled (.inline source) <:+: s) ∨
      ∃ source, spelled (.block source) <:+: s := by
  rw [contains, Bool.or_eq_true, Option.isSome_iff_ne_none, Option.isSome_iff_ne_none, ne_eq, ne_eq,
    findInline?_eq_none_iff, findBlock?_eq_none_iff, not_not, not_not]

/-! ### The segments of a text -/

/-- What a segment is after a text is cut: literal text holds no formula, and the source of a formula does
not reach beyond the first dollars that can end it. -/
def IsCut : Segment → Prop
  | literal t => t ≠ [] ∧ contains t = false
  | inline source => source ≠ [] ∧ ∀ g ∈ source, g ≠ .char '$' ∧ g ≠ .char '\n'
  | block source => ¬ pair <:+: source ∧ source.getLast? ≠ some (.char '$')

theorem mem_literalOf {t : Text} {s : Segment} (h : s ∈ literalOf t) : s = literal t ∧ t ≠ [] := by
  cases t with
  | nil => cases h
  | cons g t => exact ⟨List.mem_singleton.mp h, List.cons_ne_nil g t⟩

/-- A text is cut into formulas that were found and literal text in which none is found. -/
theorem mem_cut {find? : (s : Text) → Option (Found s)} {formula : Text → Segment}
    (hbefore : ∀ s found, find? s = some found → find? found.before = none) {t : Text} {s : Segment}
    (h : s ∈ cut find? formula t) :
    (∃ u, s = literal u ∧ u ≠ [] ∧ find? u = none) ∨
      ∃ u, ∃ found : Found u, find? u = some found ∧ s = formula found.source := by
  fun_induction cut find? formula t with
  | case1 t hnone =>
    obtain ⟨rfl, hne⟩ := mem_literalOf h
    exact .inl ⟨t, rfl, hne, hnone⟩
  | case2 t before source after shorter hfound ih =>
    rcases List.mem_append.mp h with hliteral | hrest
    · obtain ⟨rfl, hne⟩ := mem_literalOf hliteral
      exact .inl ⟨before, rfl, hne, hbefore t _ hfound⟩
    · rcases List.mem_cons.mp hrest with rfl | hlater
      · exact .inr ⟨t, _, hfound, rfl⟩
      · exact ih hlater

/-- A segment stands in the text of the segments with its dollars. -/
theorem spelled_isInfix {segments : List Segment} {s : Segment} (h : s ∈ segments) :
    s.spelled <:+: segments.flatMap spelled := by
  rw [List.flatMap_def]
  exact List.infix_of_mem_flatten (List.mem_map_of_mem h)

/-- Literal text without block formulas is cut into inline formulas and literal text without any. -/
theorem isCut_of_mem_inline {t : Text} (hblock : findBlock? t = none) {s : Segment}
    (h : s ∈ cut findInline? inline t) : s.IsCut := by
  have hinfix := spelled_isInfix h
  rw [spelled_cut fun _ _ => spelled_findInline?] at hinfix
  rcases mem_cut (fun _ _ hfound => (first_findInline? hfound).2) h with
    ⟨u, rfl, hne, hnone⟩ | ⟨u, found, hfound, rfl⟩
  · have hpart : findBlock? u = none := by
      rw [findBlock?_eq_none_iff] at hblock ⊢
      exact fun ⟨source, hspelled⟩ => hblock ⟨source, hspelled.trans hinfix⟩
    exact ⟨hne, by rw [contains, hnone, hpart]; rfl⟩
  · obtain ⟨hne, hall⟩ := (first_findInline? hfound).1
    exact ⟨hne, fun g hg => by simpa [isInlineChar] using hall g hg⟩

theorem isCut_of_mem_split {t : Text} {s : Segment} (h : s ∈ split t) : s.IsCut := by
  rw [split_eq] at h
  obtain ⟨piece, hpiece, hs⟩ := List.mem_flatMap.mp h
  rcases mem_cut (fun _ _ => findBlock?_before) hpiece with
    ⟨u, rfl, -, hnone⟩ | ⟨u, found, hfound, rfl⟩
  · exact isCut_of_mem_inline hnone hs
  · obtain rfl := List.mem_singleton.mp hs
    exact source_findBlock? hfound

/-- A text with a formula among its segments contains a formula. -/
theorem contains_of_formula {t : Text} {s : Segment} (h : s ∈ split t) (hs : s.isLiteral = false) :
    contains t = true := by
  have hinfix := isInfix_of_mem_split h
  have hcut := isCut_of_mem_split h
  rw [contains_iff]
  cases s with
  | literal u => cases hs
  | inline source =>
    exact .inl ⟨source, ⟨hcut.1, fun g hg => by simpa [isInlineChar] using hcut.2 g hg⟩, hinfix⟩
  | block source => exact .inr ⟨source, hinfix⟩

/-- A text whose segments are all literal is a single segment, or empty. -/
theorem not_contains_of_literals {t : Text} (h : ∀ s ∈ split t, s.isLiteral = true) :
    contains t = false := by
  have happart := split_apart t
  have htext := spelled_split t
  have hcut := fun s => isCut_of_mem_split (t := t) (s := s)
  match hsplit : split t with
  | [] =>
    rw [hsplit] at htext
    obtain rfl : [] = t := htext
    rfl
  | [s] =>
    rw [hsplit] at htext hcut h
    have hs := h s List.mem_cons_self
    cases s with
    | literal u =>
      obtain rfl : u = t := by simpa [spelled] using htext
      exact (hcut _ List.mem_cons_self).2
    | inline | block => cases hs
  | a :: b :: rest =>
    rw [hsplit] at happart h
    have ha := h a List.mem_cons_self
    have hb := h b (List.mem_cons_of_mem _ List.mem_cons_self)
    rcases happart.rel with hfalse | hfalse
    · cases ha.symm.trans hfalse
    · cases hb.symm.trans hfalse

/-- Formulas are listed for a text exactly if it contains one. -/
theorem formulas_eq_nil_iff {t : Text} : formulas t = [] ↔ contains t = false := by
  unfold formulas contains
  cases hblock : findBlock? t with
  | some found => simp [cut_of_found hblock, formula?]
  | none =>
    have hliteral : literalText (cut findBlock? block t) = t := by
      rw [cut_of_none hblock]
      cases t <;> simp [literalOf, literalText]
    have hblocks : (cut findBlock? block t).filterMap formula? = [] := by
      rw [cut_of_none hblock]
      cases t <;> rfl
    simp only [hliteral, hblocks, List.nil_append]
    cases hinline : findInline? t with
    | some found => simp [cut_of_found hinline, formula?]
    | none =>
      rw [cut_of_none hinline]
      cases t <;> simp [literalOf, formula?]

/-- Cutting a text loses nothing and leaves no formula behind, and whether there is one can be seen from
the whole text, from its segments and from the list of its formulas. -/
theorem split_partition (t : Text) :
    (split t).flatMap spelled = t ∧ (∀ s ∈ split t, s.IsCut) ∧
      (contains t = true ↔ ∃ s ∈ split t, s.isLiteral = false) ∧
      (contains t = true ↔ formulas t ≠ []) := by
  refine ⟨spelled_split t, fun s => isCut_of_mem_split, ⟨fun h => ?_, ?_⟩, ?_⟩
  · by_contra hnone
    have hliterals : ∀ s ∈ split t, s.isLiteral = true := fun s hs =>
      Bool.of_not_eq_false fun hfalse => hnone ⟨s, hs, hfalse⟩
    cases h.symm.trans (not_contains_of_literals hliterals)
  · rintro ⟨s, hs, hformula⟩
    exact contains_of_formula hs hformula
  · rw [ne_eq, formulas_eq_nil_iff, Bool.not_eq_false]

end DeltaPreview.Segment
