import DeltaPreview.Formula.Render
import DeltaPreview.Latex.Typeset
import DeltaPreview.Proofs.Formula.Segment
import Mathlib.Data.List.Perm.Basic
import Mathlib.Data.List.TakeWhile

/-!
# The formulas that are listed and the formulas that are set

The formulas of a text are listed in one way and set in another: for the list, the inline formulas are
looked for in what is left when the block formulas are taken out; for the markup, in each literal segment
by itself.  The two agree on block formulas.  They agree on all formulas unless an inline formula of the
text without its block formulas reaches across a place where one was taken out
(`Formula.listed_perm_requests`), which can happen (`Formula.listed_across_block`).
-/

namespace DeltaPreview

namespace Segment

theorem cut_of_none {find? : (s : Text) → Option (Found s)} {formula : Text → Segment} {s : Text}
    (h : find? s = none) : cut find? formula s = literalOf s := by
  rw [cut, h]

theorem cut_of_found {find? : (s : Text) → Option (Found s)} {formula : Text → Segment} {s : Text}
    {found : Found s} (h : find? s = some found) :
    cut find? formula s =
      literalOf found.before ++ formula found.source :: cut find? formula found.after := by
  rw [cut, h]

/-! ### Where the formulas of a text stand -/

/-- The formulas among segments, each with the place of its opening dollar. -/
def placed (place : Nat) : List Segment → List (Nat × Segment)
  | [] => []
  | literal t :: rest => placed (place + t.length) rest
  | formula :: rest => (place, formula) :: placed (place + formula.spelled.length) rest

theorem placed_literalOf (place : Nat) (t : Text) (rest : List Segment) :
    placed place (literalOf t ++ rest) = placed (place + t.length) rest := by
  cases t with
  | nil => rfl
  | cons g t => rfl

theorem map_placed (place : Nat) (segments : List Segment) :
    (placed place segments).map Prod.snd = segments.filterMap formula? := by
  induction segments generalizing place with
  | nil => rfl
  | cons s rest ih =>
    cases s with
    | literal t => exact ih _
    | inline source => exact congrArg (inline source :: ·) (ih _)
    | block source => exact congrArg (block source :: ·) (ih _)

/-- The inline formulas of a text, found in one walk over it. -/
def inlines (place : Nat) : Text → List (Nat × Segment)
  | [] => []
  | g :: rest =>
    if g = .char '$' then
      match h : inlineBody? rest with
      | some (source, after) =>
        have := inlineBody?_length h
        (place, inline source) :: inlines (place + (spelled (inline source)).length) after
      | none => inlines (place + 1) rest
    else inlines (place + 1) rest
termination_by s => s.length
decreasing_by all_goals simp only [List.length_cons]; omega

/-- A dollar that a body follows opens the first inline formula. -/
theorem findInline?_of_body {rest source after : Text}
    (h : inlineBody? rest = some (source, after)) :
    ∃ found, findInline? (.char '$' :: rest) = some found ∧ found.before = [] ∧
      found.source = source ∧ found.after = after := by
  unfold findInline?
  simp only [if_true]
  split
  next hbody =>
    rw [h] at hbody
    cases hbody
    exact ⟨_, rfl, rfl, rfl, rfl⟩
  next hnone => cases h.symm.trans hnone

/-- Any other code point stands before it. -/
theorem findInline?_of_later {g : CodePoint} {rest : Text}
    (h : g = .char '$' → inlineBody? rest = none) :
    findInline? (g :: rest) = (findInline? rest).map fun f =>
      ⟨g :: f.before, f.source, f.after, Nat.lt_succ_of_lt f.shorter⟩ := by
  rw [findInline?]
  split
  next hdollar =>
    split
    next hbody => cases (h hdollar).symm.trans hbody
    next => rfl
  next => rfl

/-- A code point that opens no formula moves the formulas after it. -/
theorem placed_cut_cons {g : CodePoint} {rest : Text}
    (h : g = .char '$' → inlineBody? rest = none) (place : Nat) :
    placed place (cut findInline? inline (g :: rest)) =
      placed (place + 1) (cut findInline? inline rest) := by
  have hfind := findInline?_of_later h
  cases hrest : findInline? rest with
  | none =>
    rw [hrest] at hfind
    rw [cut_of_none hrest, cut_of_none hfind, ← List.append_nil (literalOf rest),
      ← List.append_nil (literalOf (g :: rest)), placed_literalOf, placed_literalOf]
    rfl
  | some found =>
    rw [hrest] at hfind
    rw [cut_of_found hrest, cut_of_found hfind, placed_literalOf, placed_literalOf,
      List.length_cons, Nat.add_right_comm, Nat.add_assoc]

theorem inlines_of_body {rest source after : Text} (h : inlineBody? rest = some (source, after))
    (place : Nat) :
    inlines place (.char '$' :: rest) =
      (place, inline source) :: inlines (place + (spelled (inline source)).length) after := by
  rw [inlines, if_pos rfl]
  split
  next hbody =>
    rw [h] at hbody
    cases hbody
    rfl
  next hnone => cases h.symm.trans hnone

theorem inlines_of_later {g : CodePoint} {rest : Text}
    (h : g = .char '$' → inlineBody? rest = none) (place : Nat) :
    inlines place (g :: rest) = inlines (place + 1) rest := by
  rw [inlines]
  split
  next hdollar =>
    split
    next hbody => cases (h hdollar).symm.trans hbody
    next => rfl
  next => rfl

/-- The walk finds the formulas at which the text is cut. -/
theorem inlines_eq_placed (place : Nat) (s : Text) :
    inlines place s = placed place (cut findInline? inline s) := by
  fun_induction inlines place s with
  | case1 place =>
    rw [cut_of_none rfl]
    rfl
  | case2 place rest source after hbody _ ih =>
    obtain ⟨found, hfound, hbefore, hsource, hafter⟩ := findInline?_of_body hbody
    rw [cut_of_found hfound, hbefore, hsource, hafter, ih]
    rfl
  | case3 place rest hbody ih => rw [ih, placed_cut_cons fun _ => hbody]
  | case4 place g rest hg ih => rw [ih, placed_cut_cons fun h => absurd h hg]

/-! ### Formulas on both sides of a border -/

/-- A formula begins before a border and ends after it. -/
def Straddles (border : Nat) (f : Nat × Segment) : Prop :=
  f.1 < border ∧ border < f.1 + f.2.spelled.length

instance (border : Nat) (f : Nat × Segment) : Decidable (Straddles border f) :=
  inferInstanceAs (Decidable (_ ∧ _))

/-- The body of an inline formula runs to the next dollar, is not empty, and stays on its line. -/
theorem inlineBody?_eq_some_iff {s source after : Text} :
    inlineBody? s = some (source, after) ↔
      s = source ++ .char '$' :: after ∧ source ≠ [] ∧ ∀ g ∈ source, isInlineChar g = true := by
  constructor
  · intro h
    refine ⟨eq_of_inlineBody? h, ?_⟩
    unfold inlineBody? at h
    split at h
    next g body rest htake _ =>
      cases h
      refine ⟨List.cons_ne_nil _ _, fun c hc => ?_⟩
      rw [← htake] at hc
      exact List.mem_takeWhile_imp hc
    next => cases h
  · rintro ⟨rfl, hne, hall⟩
    have hdollar : isInlineChar (.char '$') = false := by decide
    have htake : (source ++ .char '$' :: after).takeWhile isInlineChar = source := by
      rw [List.takeWhile_append_of_pos hall, List.takeWhile_cons_of_neg (by simp [hdollar]),
        List.append_nil]
    have hdrop : (source ++ .char '$' :: after).dropWhile isInlineChar = .char '$' :: after := by
      rw [List.dropWhile_append_of_pos hall, List.dropWhile_cons_of_neg (by simp [hdollar])]
    cases source with
    | nil => exact absurd rfl hne
    | cons g body =>
      rw [inlineBody?, htake, hdrop]
      rfl

/-- A body that ends before a border is read without what follows the border. -/
theorem inlineBody?_append {before rest source after : Text}
    (hlong : source.length < before.length) :
    inlineBody? (before ++ rest) = some (source, after) ↔
      ∃ after', inlineBody? before = some (source, after') ∧ after = after' ++ rest := by
  constructor
  · intro h
    obtain ⟨htext, hne, hall⟩ := inlineBody?_eq_some_iff.mp h
    rcases List.append_eq_append_iff.mp htext with ⟨more, hsource, -⟩ | ⟨more, hbefore, hmore⟩
    · rw [hsource, List.length_append] at hlong
      omega
    · cases more with
      | nil => simp [hbefore] at hlong
      | cons g after' =>
        cases hmore
        exact ⟨after', inlineBody?_eq_some_iff.mpr ⟨hbefore, hne, hall⟩, rfl⟩
  · rintro ⟨after', hbody, rfl⟩
    obtain ⟨rfl, hne, hall⟩ := inlineBody?_eq_some_iff.mp hbody
    exact inlineBody?_eq_some_iff.mpr ⟨by simp, hne, hall⟩

/-- Where no formula lies across a border, the formulas of a text are those before the border and those
after it. -/
theorem inlines_append (place : Nat) (before rest : Text)
    (h : ∀ f ∈ inlines place (before ++ rest), ¬ Straddles (place + before.length) f) :
    inlines place (before ++ rest) =
      inlines place before ++ inlines (place + before.length) rest := by
  fun_induction inlines place before with
  | case1 place => rfl
  | case2 place tail source after hbody _ ih =>
    have hlength := inlineBody?_length hbody
    have hwhole : inlineBody? (tail ++ rest) = some (source, after ++ rest) :=
      (inlineBody?_append (by omega)).mpr ⟨after, hbody, rfl⟩
    have hborder : place + (.char '$' :: tail : Text).length =
        place + (spelled (inline source)).length + after.length := by
      simp only [spelled, List.length_cons, List.length_append, List.length_nil]
      omega
    rw [List.cons_append, inlines_of_body hwhole] at h ⊢
    rw [hborder] at h ⊢
    rw [ih fun f hf => h f (List.mem_cons_of_mem _ hf), List.cons_append]
  | case3 place tail hbody ih =>
    -- A formula that the dollar opens only with the help of what follows would lie across the border.
    have hwhole : inlineBody? (tail ++ rest) = none := by
      rw [Option.eq_none_iff_forall_ne_some]
      rintro ⟨source, after⟩ hsome
      have hacross := h (place, inline source) (by
        rw [List.cons_append, inlines_of_body hsome]
        exact List.mem_cons_self)
      have hlong : source.length < tail.length := by
        simp only [Straddles, spelled, List.length_cons, List.length_append, List.length_nil] at hacross
        omega
      obtain ⟨_, hsome', -⟩ := (inlineBody?_append hlong).mp hsome
      cases hbody.symm.trans hsome'
    have hborder : place + (.char '$' :: tail : Text).length = place + 1 + tail.length := by
      rw [List.length_cons]
      omega
    rw [List.cons_append, inlines_of_later fun _ => hwhole, hborder] at h ⊢
    exact ih h
  | case4 place g tail hg ih =>
    have hborder : place + (g :: tail).length = place + 1 + tail.length := by
      rw [List.length_cons]
      omega
    rw [List.cons_append, inlines_of_later fun hdollar => absurd hdollar hg, hborder] at h ⊢
    exact ih h

/-! ### Taking block formulas out -/

/-- The places in the literal text of segments at which a formula is left out. -/
def borders (place : Nat) : List Segment → List Nat
  | [] => []
  | literal t :: rest => borders (place + t.length) rest
  | _ :: rest => place :: borders place rest

/-- An inline formula of the text without its block formulas lies across a place where one of them was
taken out. -/
def Bridged (t : Text) : Prop :=
  ∃ border ∈ borders 0 (cut findBlock? block t),
    ∃ f ∈ placed 0 (cut findInline? inline (literalText (cut findBlock? block t))), Straddles border f

instance (t : Text) : Decidable (Bridged t) := List.decidableBEx _ _

/-- The inline formulas of a literal segment. -/
def inlineFormulas : Segment → List Segment
  | literal t => (cut findInline? inline t).filterMap formula?
  | _ => []

theorem map_inlines (place : Nat) (t : Text) :
    (inlines place t).map Prod.snd = inlineFormulas (literal t) := by
  rw [inlines_eq_placed, map_placed, inlineFormulas]

/-- Where no inline formula lies across a border, the literal text has the inline formulas of the literal
segments. -/
theorem map_inlines_literalText (place : Nat) {segments : List Segment}
    (hapart : segments.IsChain Apart)
    (h : ∀ border ∈ borders place segments, ∀ f ∈ inlines place (literalText segments),
      ¬ Straddles border f) :
    (inlines place (literalText segments)).map Prod.snd = segments.flatMap inlineFormulas := by
  induction segments generalizing place with
  | nil => rw [literalText, List.flatMap_nil, inlines, List.map_nil, List.flatMap_nil]
  | cons s rest ih =>
    cases s with
    | inline source => exact ih place hapart.tail fun border hb => h border (List.mem_cons_of_mem _ hb)
    | block source => exact ih place hapart.tail fun border hb => h border (List.mem_cons_of_mem _ hb)
    | literal t =>
      have htext : literalText (literal t :: rest) = t ++ literalText rest := rfl
      rw [htext] at h ⊢
      have hsplit : inlines place (t ++ literalText rest) =
          inlines place t ++ inlines (place + t.length) (literalText rest) := by
        cases rest with
        | nil =>
          show inlines place (t ++ []) = inlines place t ++ inlines (place + t.length) []
          rw [List.append_nil, inlines, List.append_nil]
        | cons next rest =>
          -- Literal segments are apart, so a formula was taken out right after this one.
          have hborder : place + t.length ∈ borders place (literal t :: next :: rest) := by
            cases next with
            | literal u => exact absurd hapart.rel (by simp [Apart, isLiteral])
            | inline source => exact List.mem_cons_self
            | block source => exact List.mem_cons_self
          exact inlines_append place t _ (h _ hborder)
      rw [hsplit] at h ⊢
      rw [List.map_append, map_inlines, List.flatMap_cons,
        ih _ hapart.tail fun border hb f hf => h border hb f (List.mem_append_right _ hf)]

/-- What becomes of a segment when literal text is cut at its inline formulas. -/
def refined : Segment → List Segment
  | literal t => cut findInline? inline t
  | other => [other]

theorem split_eq (t : Text) : split t = (cut findBlock? block t).flatMap refined := by
  rw [split]
  rfl

/-- The formulas of refined segments, those of literal segments after all others. -/
theorem filterMap_refined_perm (segments : List Segment) :
    ((segments.flatMap refined).filterMap formula?).Perm
      (segments.filterMap formula? ++ segments.flatMap inlineFormulas) := by
  induction segments with
  | nil => exact .nil
  | cons s rest ih =>
    rw [List.flatMap_cons, List.filterMap_append, List.flatMap_cons]
    cases s with
    | inline source => exact ih.cons (inline source)
    | block source => exact ih.cons (block source)
    | literal t => exact (ih.append_left _).trans (List.perm_append_comm_assoc _ _ _)

/-- The listed formulas are those of the segments, unless one bridges a block formula. -/
theorem formulas_perm {t : Text} (h : ¬ Bridged t) :
    (formulas t).Perm ((split t).filterMap formula?) := by
  have hapart := cut_apart findBlock? block (fun _ => rfl) t
  have hinline := map_inlines_literalText 0 hapart fun border hb f hf hacross =>
    h ⟨border, hb, f, by rwa [← inlines_eq_placed], hacross⟩
  rw [map_inlines] at hinline
  rw [split_eq]
  refine List.Perm.trans ?_ (filterMap_refined_perm _).symm
  rw [← hinline]
  rfl

/-- Whether a segment is a block formula. -/
def isBlock : Segment → Bool
  | block _ => true
  | _ => false

theorem filter_isBlock_literalOf (t : Text) : (literalOf t).filter isBlock = [] := by
  cases t with
  | nil => rfl
  | cons g t => rfl

theorem filter_isBlock_inline (t : Text) : (cut findInline? inline t).filter isBlock = [] := by
  fun_induction cut findInline? inline t with
  | case1 t => exact filter_isBlock_literalOf t
  | case2 t before source after _ _ ih =>
    rw [List.filter_append, filter_isBlock_literalOf, List.nil_append,
      List.filter_cons_of_neg (by simp [isBlock])]
    exact ih

theorem filter_isBlock_formula (segments : List Segment) :
    (segments.filterMap formula?).filter isBlock = segments.filter isBlock := by
  induction segments with
  | nil => rfl
  | cons s rest ih =>
    cases s with
    | literal t => exact ih
    | inline source => exact ih
    | block source => exact congrArg (block source :: ·) ih

/-- Of block formulas, the listed ones are those of the segments, in order. -/
theorem filter_isBlock_formulas (t : Text) :
    (formulas t).filter isBlock = (split t).filter isBlock := by
  have hrefined (segments : List Segment) :
      (segments.flatMap refined).filter isBlock = segments.filter isBlock := by
    induction segments with
    | nil => rfl
    | cons s rest ih =>
      rw [List.flatMap_cons, List.filter_append, ih]
      cases s with
      | literal t =>
        rw [refined, filter_isBlock_inline]
        rfl
      | inline source => rfl
      | block source => rfl
  rw [formulas, split_eq, hrefined, List.filter_append, filter_isBlock_formula,
    filter_isBlock_formula, filter_isBlock_inline, List.append_nil]

/-- A segment stands in the text with its dollars. -/
theorem isInfix_of_mem_split {t : Text} {s : Segment} (h : s ∈ split t) : s.spelled <:+: t := by
  obtain ⟨before, after, hsplit⟩ := List.append_of_mem h
  have htext := spelled_split t
  rw [hsplit, List.flatMap_append, List.flatMap_cons, ← List.append_assoc] at htext
  exact ⟨_, _, htext⟩

/-! ### What is asked of a typesetter -/

/-- What a segment asks of a typesetter: the trimmed source and the layout of its formula. -/
def request? : Segment → Option (Text × Layout)
  | literal _ => none
  | inline source => some (source.trim, .inline)
  | block source => some (source.trim, .display)

theorem filterMap_request?_formula (segments : List Segment) :
    (segments.filterMap formula?).filterMap request? = segments.filterMap request? := by
  rw [List.filterMap_filterMap]
  congr 1
  funext s
  cases s <;> rfl

theorem filter_display (segments : List Segment) :
    (segments.filterMap request?).filter (fun r => r.2 = .display) =
      (segments.filter isBlock).filterMap request? := by
  induction segments with
  | nil => rfl
  | cons s rest ih =>
    cases s with
    | literal t => exact ih
    | inline source => exact ih
    | block source => exact congrArg ((source.trim, Layout.display) :: ·) ih

end Segment

namespace Formula

/-- The kind and the trimmed source of each formula that is listed for a text. -/
def listed (t : Text) : List (Text × Layout) := (Segment.formulas t).filterMap Segment.request?

/-! A typesetter that keeps a record is asked in the course of rendering, so what stands in its record is
what it has been asked for. -/

section Effects

variable {m : Type → Type} [Monad m]

/-- The markup of a segment, by a typesetter that may have an effect; messages have a colour. -/
def renderSegmentWith (color : Text) (typesetter : Text → Layout → m (Except TypesetFailure Text)) :
    Segment → m Text
  | .literal t => pure (Escape.text t)
  | .inline source => shown <$> typesetter source.trim .inline
  | .block source => shown <$> typesetter source.trim .display
where
  shown : Except TypesetFailure Text → Text
    | .ok markup => markup
    | .error failure => errorFragment color failure.detail none

/-- The markup of a text, by a typesetter that may have an effect. -/
def renderTextWith (color : Text) (typesetter : Text → Layout → m (Except TypesetFailure Text))
    (t : Text) : m Text :=
  List.flatten <$> (Segment.split t).mapM (renderSegmentWith color typesetter)

end Effects

/-- Without effects this is how segments are rendered. -/
theorem renderSegmentWith_id (r : Renderer) (s : Segment) :
    renderSegmentWith (m := Id) r.errorColor r.typesetter s = renderSegment r s := by
  cases s with
  | literal t => rfl
  | inline source =>
    show renderSegmentWith.shown r.errorColor (r.typesetter source.trim .inline) =
      render r .inline none source
    rw [render, typeset]
    cases r.typesetter source.trim .inline <;> rfl
  | block source =>
    show renderSegmentWith.shown r.errorColor (r.typesetter source.trim .display) =
      render r .display none source
    rw [render, typeset]
    cases r.typesetter source.trim .display <;> rfl

/-- A typesetter that writes down what it is asked for. -/
def recording (typesetter : Typesetter) (source : Text) (layout : Layout) :
    StateM (List (Text × Layout)) (Except TypesetFailure Text) := do
  modify (· ++ [(source, layout)])
  return typesetter source layout

/-- What a typesetter is asked for while a text is rendered, in order. -/
def requests (r : Renderer) (t : Text) : List (Text × Layout) :=
  ((renderTextWith r.errorColor (recording r.typesetter) t).run []).2

theorem run_recording_segment (r : Renderer) (s : Segment) (record : List (Text × Layout)) :
    (renderSegmentWith r.errorColor (recording r.typesetter) s).run record =
      (renderSegment r s, record ++ s.request?.toList) := by
  rw [← renderSegmentWith_id]
  cases s with
  | literal t => exact congrArg (Prod.mk _) (List.append_nil record).symm
  | inline source => rfl
  | block source => rfl

/-- The record of a whole text holds what its segments ask for, and the markup is as without it. -/
theorem run_recording (r : Renderer) (t : Text) :
    (renderTextWith r.errorColor (recording r.typesetter) t).run [] =
      (renderText r t, (Segment.split t).filterMap Segment.request?) := by
  have hrun (segments : List Segment) (record : List (Text × Layout)) :
      (segments.mapM (renderSegmentWith r.errorColor (recording r.typesetter))).run record =
        (segments.map (renderSegment r),
          record ++ segments.filterMap Segment.request?) := by
    induction segments generalizing record with
    | nil => exact congrArg (Prod.mk _) (List.append_nil record).symm
    | cons s rest ih =>
      rw [List.mapM_cons, StateT.run_bind, run_recording_segment]
      show (StateT.run (rest.mapM (renderSegmentWith r.errorColor (recording r.typesetter)) >>= _) _) = _
      rw [StateT.run_bind, ih, List.append_assoc]
      cases s <;> rfl
  show (StateT.run (List.flatten <$> _) []) = _
  rw [StateT.run_map, hrun, renderText, List.flatMap_def]
  rfl

theorem requests_eq (r : Renderer) (t : Text) :
    requests r t = (Segment.split t).filterMap Segment.request? := by
  rw [requests, run_recording]

/-- The list and the typesetter have the same block formulas in the same order, and these stand in the
text.  Unless an inline formula of the text without its block formulas bridges one of them, the list and
the typesetter have the same formulas, and all of them stand in the text. -/
theorem listed_perm_requests (r : Renderer) (t : Text) :
    (listed t).filter (fun r => r.2 = .display) =
        (requests r t).filter (fun r => r.2 = .display) ∧
      (∀ s ∈ Segment.formulas t, s.isBlock = true → s.spelled <:+: t) ∧
      (¬ Segment.Bridged t → (listed t).Perm (requests r t) ∧
        ∀ s ∈ Segment.formulas t, s.spelled <:+: t) := by
  have hblocks := Segment.filter_isBlock_formulas t
  rw [requests_eq, listed]
  refine ⟨?_, fun s hs hblock => ?_, fun hbridged => ⟨?_, fun s hs => ?_⟩⟩
  · rw [Segment.filter_display, Segment.filter_display, hblocks]
  · have hmem : s ∈ (Segment.formulas t).filter Segment.isBlock := List.mem_filter.mpr ⟨hs, hblock⟩
    rw [hblocks] at hmem
    exact Segment.isInfix_of_mem_split (List.mem_of_mem_filter hmem)
  · rw [← Segment.filterMap_request?_formula (Segment.split t)]
    exact (Segment.formulas_perm hbridged).filterMap _
  · have hmem := (Segment.formulas_perm hbridged).mem_iff.mp hs
    obtain ⟨s', hs', hformula⟩ := List.mem_filterMap.mp hmem
    cases s' with
    | literal t => cases hformula
    | inline source => cases hformula; exact Segment.isInfix_of_mem_split hs'
    | block source => cases hformula; exact Segment.isInfix_of_mem_split hs'

/-- An inline formula, and a dollar left open on the line of a block formula. -/
theorem listed_perm_requests_sample :
    let r : Renderer := ⟨Latex.typesetter, Text.ofString "red"⟩
    let t := Text.ofString "$ x $ costs $5 $$ a $$\n$b$"
    ¬ Segment.Bridged t ∧ (listed t).Perm (requests r t) ∧
      ∀ s ∈ Segment.formulas t, s.spelled <:+: t := by
  intro r t
  have hbridged : ¬ Segment.Bridged t := by decide +kernel
  exact ⟨hbridged, (listed_perm_requests r t).2.2 hbridged⟩

/-- A block formula between two dollars: with the block taken out they enclose an inline formula, which is
listed, although it is not in the text and no typesetter is asked for it. -/
theorem listed_across_block :
    let r : Renderer := ⟨Latex.typesetter, Text.ofString "red"⟩
    let t := Text.ofString "$a$$x$$b$"
    ¬ (listed t).Perm (requests r t) ∧ ¬ ∀ s ∈ Segment.formulas t, s.spelled <:+: t := by
  intro r t
  have hformulas : Segment.formulas t =
      [.block (Text.ofString "x"), .inline (Text.ofString "ab")] := by decide +kernel
  have hsplit : (Segment.split t).filterMap Segment.request? =
      [(Text.ofString "x", Layout.display)] := by decide +kernel
  refine ⟨fun hperm => ?_, fun hall => ?_⟩
  · have hlength := hperm.length_eq
    rw [requests_eq, hsplit, listed, hformulas] at hlength
    exact absurd hlength (by decide)
  · rw [hformulas] at hall
    exact absurd (hall _ (List.mem_cons_of_mem _ List.mem_cons_self)) (by decide +kernel)

end Formula

end DeltaPreview
