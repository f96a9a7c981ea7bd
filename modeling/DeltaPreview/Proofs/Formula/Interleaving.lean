import DeltaPreview.Proofs.Formula.Markup
import DeltaPreview.Proofs.Markup.Concatenation

/-!
# Formulas between literal texts

The markup of a text is the markup of its segments, one after the other.  Whatever typesetter is used,
as long as it writes well-formed content or fails, and whatever the colour of messages is, the whole is well-formed content and stands for the
nodes of the segments in the order of the text: literal text as it is, the nodes of each formula that
can be set, and a message for each that cannot (`Formula.content?_renderText`).

The segments meet at their borders.  Literal text and messages are escaped, but the content that a
typesetter writes may end in `]]` or begin with `>`; where the two make the end of a marked section
(`Xml.Seamless` says where they do not), the whole is refused.  And a carriage return and a line feed
that meet are a single line end (`Xml.continued`).
-/

namespace DeltaPreview

open Markup

/-- A typesetter that writes well-formed content whenever it does not fail. -/
def Typesetter.WritesContent (typesetter : Typesetter) : Prop :=
  ∀ source layout markup, typesetter source layout = .ok markup →
    (Xml.content? markup.compatible).isSome = true

/-- Some texts stand one after the other, after what stands before them, and no section end lies across
a border. -/
def Xml.Seamless (before : List Char) : List (List Char) → Prop
  | [] => True
  | part :: parts => ¬ Crosses before part ∧ Seamless (before ++ part) parts

theorem Xml.seamless_cons (before part : List Char) (parts : List (List Char)) :
    Xml.Seamless before (part :: parts) ↔
      ¬ Xml.Crosses before part ∧ Xml.Seamless (before ++ part) parts := Iff.rfl

instance Xml.decidableSeamless (before : List Char) :
    (parts : List (List Char)) → Decidable (Xml.Seamless before parts)
  | [] => .isTrue trivial
  | part :: parts =>
    have := decidableSeamless (before ++ part) parts
    inferInstanceAs (Decidable (¬ Crosses before part ∧ Seamless (before ++ part) parts))

namespace Formula

/-! ### What the segments stand for -/

/-- The element that shows a failure. -/
def failureNode (r : Renderer) (failure : TypesetFailure) : Markup :=
  .plain "span" [("style", Escape.valueRead (errorStyle r.errorColor))]
    [.text ("Error: ".toList ++ normalizeLines failure.detail.compatible)]

/-- The nodes of a formula, after other markup. -/
def formulaNodes? (r : Renderer) (before : List Char) (layout : Layout) (source : Text) :
    Option (List Markup) :=
  match typeset r.typesetter layout source with
  | .ok markup => Xml.content? (Xml.continued before markup.compatible)
  | .error failure => some [failureNode r failure]

/-- The nodes of a segment, after other markup. -/
def segmentNodes? (r : Renderer) (before : List Char) : Segment → Option (List Markup)
  | .literal t => some [.text (normalizeLines (Xml.continued before t.compatible))]
  | .inline source => formulaNodes? r before .inline source
  | .block source => formulaNodes? r before .display source

/-- The markup of a segment, without the characters that no markup can hold. -/
def segmentMarkup (r : Renderer) (segment : Segment) : List Char :=
  (renderSegment r segment).compatible

/-- The nodes of segments, one after the other. -/
def segmentsNodes? (r : Renderer) (before : List Char) :
    List Segment → Option (List Markup)
  | [] => some []
  | segment :: segments => do
    let nodes ← segmentNodes? r before segment
    let more ← segmentsNodes? r (before ++ segmentMarkup r segment) segments
    return nodes ++ more

/-! ### One segment -/

section Segment

variable (before : List Char)

theorem continued_text (u : List Char) :
    Xml.continued before (u.flatMap (Escape.replaceChar Escape.reference?)) =
      (Xml.continued before u).flatMap (Escape.replaceChar Escape.reference?) := by
  rcases Xml.continued_cases before u with ⟨hseam, hsame⟩ | ⟨start, rest, rfl, rfl, hrest⟩
  · rw [hsame]
    refine Xml.continued_of_seam (hseam.imp id fun hhead => ?_)
    cases u with
    | nil => simp
    | cons c u =>
      exact Escape.head_replaceChar Escape.areSteady_reference? (by simpa using hhead) _
  · rw [hrest, List.flatMap_cons, Escape.replaceChar_line Escape.areSteady_reference?]
    simp [Xml.continued]

/-- Literal text is content that stands for itself. -/
theorem content?_literal (t : Text) :
    Xml.content? (Xml.continued before (Escape.text t).compatible) =
      some (pushAll [] [.text (normalizeLines (Xml.continued before t.compatible))]) := by
  rw [Escape.text, Escape.compatible_replace Escape.areSteady_reference?, continued_text]
  exact Xml.content?_of_reads (Escape.reads_replaceChar _)

variable (r : Renderer)

/-- The message of a failure is content that stands for one element. -/
theorem content?_errorFragment (failure : TypesetFailure) :
    Xml.content?
        (Xml.continued before (errorFragment r.errorColor failure.detail none).compatible) =
      some (pushAll [] [failureNode r failure]) := by
  have hhead : (errorFragment r.errorColor failure.detail none).compatible.head? ≠ some '\n' := by
    rw [(isElement_errorFragment r.errorColor failure.detail).first]
    decide
  rw [Xml.continued_of_seam (.inr hhead), errorFragment_eq]
  exact Xml.content?_of_reads (reads_styled _ (reads_message failure.detail))

variable {r} (h : r.typesetter.WritesContent)

include h

theorem content?_formula (layout : Layout) (source : Text) :
    ∃ nodes, formulaNodes? r before layout source = some nodes ∧
      Xml.content? (Xml.continued before (render r layout none source).compatible) =
        some (pushAll [] nodes) := by
  unfold formulaNodes? render
  cases htypeset : typeset r.typesetter layout source with
  | error failure => exact ⟨_, rfl, content?_errorFragment before r failure⟩
  | ok markup =>
    have hcontent := Xml.isSome_content?_continued before (h _ _ _ htypeset)
    obtain ⟨nodes, hnodes⟩ := Option.isSome_iff_exists.mp hcontent
    exact ⟨nodes, hnodes, by rw [Xml.pushAll_of_content? hnodes]; exact hnodes⟩

/-- The markup of a segment is content that stands for the nodes of the segment. -/
theorem content?_segment (segment : Segment) :
    ∃ nodes, segmentNodes? r before segment = some nodes ∧
      Xml.content? (Xml.continued before (segmentMarkup r segment)) =
        some (pushAll [] nodes) := by
  cases segment with
  | literal t => exact ⟨_, rfl, content?_literal before t⟩
  | inline source => exact content?_formula before h .inline source
  | block source => exact content?_formula before h .display source

end Segment

/-! ### All segments -/

theorem compatible_segments (r : Renderer) (segments : List Segment) :
    Text.compatible (segments.flatMap (renderSegment r)) =
      segments.flatMap (segmentMarkup r) := by
  induction segments with
  | nil => rfl
  | cons segment segments ih =>
    rw [List.flatMap_cons, Text.compatible_append, ih]
    rfl

section Segments

variable {r : Renderer} (h : r.typesetter.WritesContent)

include h

theorem exists_segmentsNodes? (before : List Char) (segments : List Segment) :
    ∃ nodes, segmentsNodes? r before segments = some nodes := by
  induction segments generalizing before with
  | nil => exact ⟨[], rfl⟩
  | cons segment segments ih =>
    obtain ⟨nodes, hnodes, -⟩ := content?_segment before h segment
    obtain ⟨more, hmore⟩ := ih (before ++ segmentMarkup r segment)
    refine ⟨nodes ++ more, ?_⟩
    rw [segmentsNodes?, hnodes, Option.bind_eq_bind, Option.bind_some, hmore]
    rfl

/-- Segments after well-formed content: by induction on the segments, with the content that has been
written before them. -/
theorem content?_segments {segments : List Segment} {before : List Char}
    {siblings nodes : List Markup} (hbefore : Xml.content? before = some siblings)
    (hnodes : segmentsNodes? r before segments = some nodes) :
    Xml.content? (before ++ segments.flatMap (segmentMarkup r)) =
      if Xml.Seamless before (segments.map (segmentMarkup r))
      then some (pushAll siblings nodes) else none := by
  induction segments generalizing before siblings nodes with
  | nil =>
    cases hnodes
    simpa [Xml.Seamless, pushAll] using hbefore
  | cons segment segments ih =>
    simp only [segmentsNodes?, Option.bind_eq_bind, Option.bind_eq_some_iff, Option.pure_def,
      Option.some.injEq] at hnodes
    obtain ⟨first, hfirst, more, hmore, rfl⟩ := hnodes
    obtain ⟨nodes, hnodes, hpart⟩ := content?_segment before h segment
    obtain rfl : first = nodes := Option.some.inj (hfirst.symm.trans hnodes)
    simp only [List.flatMap_cons, List.map_cons, Xml.seamless_cons]
    by_cases hcrosses : Xml.Crosses before (segmentMarkup r segment)
    · -- The section end stays where it is, whatever follows.
      have hall := hcrosses.of_prefix
        (List.prefix_append _ (segments.flatMap (segmentMarkup r)))
      rw [Xml.content?_append hbefore, if_pos hall, if_neg fun hseamless => hseamless.1 hcrosses]
    · have hboth := Xml.content?_append hbefore (segmentMarkup r segment)
      rw [if_neg hcrosses, hpart, Option.map_some, pushAll_pushAll] at hboth
      rw [← List.append_assoc, ih hboth hmore, pushAll_append]
      simp only [hcrosses, not_false_eq_true, true_and]

end Segments

/-- The segments are all of the text.  Its markup is well-formed content exactly if no section end lies
across a border of the segments, and then it is read as XML and stands for their nodes. -/
theorem content?_renderText {r : Renderer} (h : r.typesetter.WritesContent) (t : Text) :
    (Segment.split t).flatMap Segment.spelled = t ∧
      ∃ nodes, segmentsNodes? r [] (Segment.split t) = some nodes ∧
        Xml.content? (renderText r t).compatible =
          (if Xml.Seamless [] ((Segment.split t).map (segmentMarkup r))
          then some (pushAll [] nodes) else none) ∧
        (Xml.Seamless [] ((Segment.split t).map (segmentMarkup r)) →
          Markup.ofText (renderText r t) = .ok (wrapped (pushAll [] nodes))) := by
  obtain ⟨nodes, hnodes⟩ := exists_segmentsNodes? h [] (Segment.split t)
  have hempty : Xml.content? [] = some [] := Xml.content?_of_reads (s := []) Xml.Reads.nil
  have hcontent := content?_segments h hempty hnodes
  rw [List.nil_append, ← compatible_segments] at hcontent
  refine ⟨Segment.spelled_split t, nodes, hnodes, hcontent, fun hseamless => ?_⟩
  rw [if_pos hseamless] at hcontent
  have hread : nodesOf (renderText r t).compatible = .ok (pushAll [] nodes) := by
    rw [nodesOf, renderText, hcontent]
  rw [ofText, hread]
  rfl

/-- A typesetter that knows one formula. -/
def sampleTypesetter : Typesetter := fun source _ =>
  if source = Text.ofString "x" then .ok (Text.ofString "<X/>")
  else .error ⟨"LatexError", Text.ofString "no such formula"⟩

theorem writesContent_sample : sampleTypesetter.WritesContent := by
  intro source layout markup hmarkup
  unfold sampleTypesetter at hmarkup
  split at hmarkup
  · cases hmarkup
    decide +kernel
  · cases hmarkup

/-- Its failures are shown in a colour that has to be escaped. -/
def sampleRenderer : Renderer := ⟨sampleTypesetter, Text.ofString "\"red\" & <b>"⟩

/-- Literal text, a formula that can be set, and one that cannot. -/
def sampleText : Text := Text.ofString "1 < 2 ]]>\r\n$x$ & $$y$$"

theorem content?_renderText_sample :
    sampleRenderer.typesetter.WritesContent ∧
      Xml.Seamless [] ((Segment.split sampleText).map (segmentMarkup sampleRenderer)) ∧
      ∃ nodes, segmentsNodes? sampleRenderer [] (Segment.split sampleText) = some nodes ∧
        Markup.ofText (renderText sampleRenderer sampleText) =
          .ok (wrapped (pushAll [] nodes)) := by
  have hseamless :
      Xml.Seamless [] ((Segment.split sampleText).map (segmentMarkup sampleRenderer)) := by
    decide +kernel
  have hwrites : sampleRenderer.typesetter.WritesContent := writesContent_sample
  obtain ⟨-, nodes, hnodes, -, hread⟩ := content?_renderText hwrites sampleText
  exact ⟨hwrites, hseamless, nodes, hnodes, hread hseamless⟩

/-- A typesetter that writes the same markup for every formula. -/
def constantTypesetter (markup : String) : Typesetter := fun _ _ => .ok (Text.ofString markup)

/-- Its failures would be red. -/
def constantRenderer (markup : String) : Renderer :=
  ⟨constantTypesetter markup, Text.ofString "#f00"⟩

theorem writesContent_constant {markup : String}
    (h : (Xml.content? (Text.ofString markup).compatible).isSome = true) :
    (constantTypesetter markup).WritesContent := by
  rintro source layout written hwritten
  cases hwritten
  exact h

/-- The borders of the segments matter: the end of a marked section that two of them make is refused,
and a line end that two of them make is read once.  And a failure without a message is shown by its
kind. -/
theorem borders_matter :
    (constantTypesetter ">").WritesContent ∧
      Xml.content? (renderText (constantRenderer ">") (Text.ofString "]]$x$")).compatible = none ∧
      (constantTypesetter "\n").WritesContent ∧
      Xml.content? (renderText (constantRenderer "\n") (Text.ofString "\r$x$")).compatible =
        some [.text ['\n']] ∧
      Xml.content? (renderText ⟨fun _ _ => .error ⟨"ValueError", []⟩, Text.ofString "#f00"⟩
          (Text.ofString "$x$")).compatible =
        some [.plain "span" [("style", "color: #f00; font-family: monospace;".toList)]
          [.text "Error: ValueError".toList]] := by
  refine ⟨writesContent_constant (by decide +kernel), ?_,
    writesContent_constant (by decide +kernel), ?_, ?_⟩
  · exact Option.isNone_iff_eq_none.mp (by decide +kernel)
  · have hreads : Xml.Reads (normalizeLines
        (renderText (constantRenderer "\n") (Text.ofString "\r$x$")).compatible)
        [.text ['\n']] := by
      have hcleared : normalizeLines
          (renderText (constantRenderer "\n") (Text.ofString "\r$x$")).compatible = ['\n'] := by
        decide +kernel
      rw [hcleared]
      exact Xml.reads_text ['\n']
    exact Xml.content?_of_reads hreads
  · have hsegments : Segment.split (Text.ofString "$x$") = [.inline (Text.ofString "x")] := by
      decide +kernel
    let failing : Renderer := ⟨fun _ _ => .error ⟨"ValueError", []⟩, Text.ofString "#f00"⟩
    have hmessage := content?_errorFragment [] failing ⟨"ValueError", []⟩
    rw [renderText, hsegments]
    exact hmessage

end Formula

end DeltaPreview
