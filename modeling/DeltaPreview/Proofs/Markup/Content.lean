import DeltaPreview.Proofs.Markup.Tags
import DeltaPreview.Proofs.Markup.Tree
import Mathlib.Data.List.TakeWhile

/-!
# Content that reads back

A piece of XML content stands for some nodes (`Xml.Reads`) if the reader, wherever it meets the piece,
adds these nodes to the siblings and goes on with what follows.  Such pieces can be put one after the
other and inside elements.

The one thing that could go wrong at the seams is a text that ends in `]]` before one that begins
with `>`.  No piece here writes a bare `>`, so it is enough that the rest is calm (`Xml.Calm`).
-/

namespace DeltaPreview

namespace Xml

/-- What the reader makes of the rest of a content, inside some open elements and after some siblings.
-/
def resume? (opened : List Frame) (siblings : List Markup) (s : List Char) :
    Option (List Markup) :=
  (events? s).bind (build? opened siblings [reserved])

/-- No bare `>` stands in the text that begins here. -/
def Calm (s : List Char) : Prop := '>' ∉ s.takeWhile isPlain

/-- A piece of content stands for some nodes, whatever stands around it. -/
structure Reads (s : List Char) (nodes : List Markup) : Prop where
  calm : ∀ rest, Calm rest → Calm (s ++ rest)
  resume : ∀ opened siblings rest, Calm rest →
    resume? opened siblings (s ++ rest) = resume? opened (Markup.pushAll siblings nodes) rest

theorem calm_nil : Calm [] := by simp [Calm]

theorem calm_lt (rest : List Char) : Calm ('<' :: rest) := by simp [Calm, isPlain]

theorem calm_amp (rest : List Char) : Calm ('&' :: rest) := by simp [Calm, isPlain]

theorem calm_cons {c : Char} (hc : c ≠ '>') {rest : List Char} (h : Calm rest) :
    Calm (c :: rest) := by
  unfold Calm at h ⊢
  by_cases hplain : isPlain c = true
  · simpa [hplain] using ⟨fun e => hc e.symm, h⟩
  · simp [hplain]

theorem upTo?_eq_none {mark : List Char} (hmark : mark ≠ []) {s : List Char} :
    upTo? mark s = none ↔ ¬ mark <:+: s := by
  induction s with
  | nil => simp [upTo?, hmark]
  | cons c s ih =>
    rw [upTo?, List.infix_cons_iff, not_or, ← ih]
    unfold after?
    by_cases hbegins : mark <+: c :: s <;> simp [hbegins]

theorem events?_of_event {s after : List Char} {event : Event}
    (h : event? s = some (event, after)) : events? s = (events? after).map (event :: ·) := by
  have hne : s.isEmpty = false := by
    cases s with
    | nil => cases h
    | cons c s => rfl
  rw [events?.eq_def]
  simp only [hne, Bool.false_eq_true, if_false]
  split
  · rename_i hnone
    cases h.symm.trans hnone
  · rename_i hsome
    cases h.symm.trans hsome
    rfl

theorem resume?_event {s after : List Char} {event : Event} (h : event? s = some (event, after))
    (opened : List Frame) (siblings : List Markup) :
    resume? opened siblings s = (events? after).bind fun events =>
      build? opened siblings [reserved] (event :: events) := by
  rw [resume?, events?_of_event h, Option.bind_map]
  rfl

/-! ### Runs of plain characters -/

/-- The first event of a text that begins with a plain character is the run of plain characters. -/
theorem event?_plain {c : Char} (hc : isPlain c = true) (s : List Char) :
    event? (c :: s) =
      if (upTo? "]]>".toList ((c :: s).takeWhile isPlain)).isSome then none
      else some (.text ((c :: s).takeWhile isPlain), (c :: s).dropWhile isPlain) := by
  unfold event?
  split
  · rename_i heq
    cases heq
  · rename_i heq
    cases heq
    exact absurd hc (by decide)
  · rename_i heq
    cases heq
    exact absurd hc (by decide)
  · rfl

/-- A text of plain characters without a section end. -/
structure IsRun (s : List Char) : Prop where
  ne_nil : s ≠ []
  plain : ∀ c ∈ s, isPlain c = true
  noEnd : ¬ "]]>".toList <:+: s

/-- What follows a run of plain characters does not begin with one. -/
theorem takeWhile_dropWhile (s : List Char) : (s.dropWhile isPlain).takeWhile isPlain = [] := by
  cases hdrop : s.dropWhile isPlain with
  | nil => rfl
  | cons d after =>
    have hd := List.head_dropWhile_not isPlain (l := s) (by simp [hdrop])
    simp only [hdrop, List.head_cons] at hd
    simp [hd]

/-- The run of plain characters that a text begins with, without a section end in it. -/
theorem events?_run {run after : List Char} (hrun : IsRun run) (hafter : after.takeWhile isPlain = []) :
    events? (run ++ after) = (events? after).map (.text run :: ·) := by
  obtain ⟨c, cs, rfl⟩ := List.exists_cons_of_ne_nil hrun.ne_nil
  have htake : (c :: cs ++ after).takeWhile isPlain = c :: cs := by
    rw [List.takeWhile_append_of_pos hrun.plain, hafter, List.append_nil]
  have hdrop : (c :: cs ++ after).dropWhile isPlain = after := by
    have hsplit := List.takeWhile_append_dropWhile (p := isPlain) (l := after)
    rw [hafter, List.nil_append] at hsplit
    rw [List.dropWhile_append_of_pos hrun.plain, hsplit]
  have hnone : upTo? "]]>".toList (c :: cs) = none := (upTo?_eq_none (by decide)).mpr hrun.noEnd
  have hevent : event? (c :: cs ++ after) = some (.text (c :: cs), after) := by
    rw [List.cons_append, event?_plain (hrun.plain c List.mem_cons_self), ← List.cons_append, htake,
      hdrop, hnone]
    rfl
  exact events?_of_event hevent

/-- A run of text before markup, a reference or the end. -/
theorem resume?_run {run after : List Char} (hrun : ∀ c ∈ run, isPlain c = true ∧ c ≠ '>')
    (hafter : after.takeWhile isPlain = []) (opened : List Frame) (siblings : List Markup) :
    resume? opened siblings (run ++ after) = resume? opened (Markup.pushText siblings run) after := by
  by_cases hempty : run = []
  · rw [hempty]
    rfl
  · have hplain : IsRun run :=
      ⟨hempty, fun c hc => (hrun c hc).1, fun hend => (hrun '>' (hend.subset (by decide))).2 rfl⟩
    rw [resume?, events?_run hplain hafter, Option.bind_map]
    rfl

theorem resume?_char {c : Char} (hplain : isPlain c = true) (hc : c ≠ '>') {rest : List Char}
    (hrest : Calm rest) (opened : List Frame) (siblings : List Markup) :
    resume? opened siblings (c :: rest) = resume? opened (Markup.pushText siblings [c]) rest := by
  -- The reader takes the whole run that the character begins; reading it in two parts is the same,
  -- since texts that are pushed one after the other are joined.
  let run := rest.takeWhile isPlain
  let after := rest.dropWhile isPlain
  have hsplit : run ++ after = rest := List.takeWhile_append_dropWhile
  have hafter : after.takeWhile isPlain = [] := takeWhile_dropWhile rest
  have hrun : ∀ d ∈ run, isPlain d = true ∧ d ≠ '>' := fun d hd =>
    ⟨List.mem_takeWhile_imp hd, fun e => hrest (e ▸ hd)⟩
  have hcons : ∀ d ∈ c :: run, isPlain d = true ∧ d ≠ '>' := by
    simpa using ⟨⟨hplain, hc⟩, hrun⟩
  rw [← hsplit, ← List.cons_append, resume?_run hcons hafter, resume?_run hrun hafter,
    Markup.pushText_pushText]
  rfl

theorem resume?_reference {s after : List Char} {d : Char} (h : reference? s = some (d, after))
    (opened : List Frame) (siblings : List Markup) :
    resume? opened siblings ('&' :: s) = resume? opened (Markup.pushText siblings [d]) after := by
  have hevent : event? ('&' :: s) = some (.text [d], after) := by
    show (reference? s).map _ = _
    rw [h]
    rfl
  rw [resume?_event hevent]
  rfl

/-! ### Pieces of text -/

theorem Reads.nil : Reads [] [] := ⟨fun _ h => h, fun _ _ _ _ => rfl⟩

/-- Pieces one after the other stand for their nodes one after the other. -/
theorem Reads.append {s t : List Char} {ms ns : List Markup} (hs : Reads s ms) (ht : Reads t ns) :
    Reads (s ++ t) (ms ++ ns) := by
  constructor
  · intro rest h
    rw [List.append_assoc]
    exact hs.calm _ (ht.calm _ h)
  · intro opened siblings rest h
    rw [List.append_assoc, hs.resume _ _ _ (ht.calm _ h), ht.resume _ _ _ h, Markup.pushAll,
      Markup.pushAll, Markup.pushAll, List.foldl_append]

/-- Two texts one after the other stand for one text. -/
theorem Reads.append_text {s t a b : List Char} (hs : Reads s [.text a]) (ht : Reads t [.text b]) :
    Reads (s ++ t) [.text (a ++ b)] := by
  have h := hs.append ht
  refine ⟨h.calm, fun opened siblings rest hrest => ?_⟩
  rw [h.resume opened siblings rest hrest]
  show resume? opened (Markup.pushText (Markup.pushText siblings a) b) rest = _
  rw [Markup.pushText_pushText]
  rfl

theorem reads_char {c : Char} (hplain : isPlain c = true) (hc : c ≠ '>') : Reads [c] [.text [c]] :=
  ⟨fun _ h => calm_cons hc h, fun _ _ _ h => resume?_char hplain hc h _ _⟩

theorem reads_reference (body : List Char) {d : Char}
    (h : ∀ after, reference? (body ++ after) = some (d, after)) :
    Reads ('&' :: body) [.text [d]] :=
  ⟨fun _ _ => calm_amp _, fun _ _ _ _ => resume?_reference (h _) _ _⟩

/-- A character that is escaped reads as itself. -/
theorem reads_escapeText (c : Char) : Reads (escapeText c) [.text [c]] := by
  unfold escapeText
  split
  · exact reads_reference "amp;".toList fun _ => rfl
  · exact reads_reference "lt;".toList fun _ => rfl
  · exact reads_reference "gt;".toList fun _ => rfl
  · exact reads_reference "#13;".toList fun _ => rfl
  · rename_i hamp hlt hgt _
    exact reads_char (by simpa [isPlain] using ⟨hlt, hamp⟩) hgt

/-- A text that is escaped reads as itself. -/
theorem reads_text (t : List Char) : Reads (t.flatMap escapeText) [.text t] := by
  induction t with
  | nil => exact ⟨Reads.nil.calm, fun _ _ _ _ => rfl⟩
  | cons c t ih => exact (reads_escapeText c).append_text ih

/-- A text that is a piece once its line ends are normalised is well formed and gives the nodes of the
piece. -/
theorem content?_of_reads {s : List Char} {nodes : List Markup}
    (h : Reads (normalizeLines s) nodes) : content? s = some (Markup.pushAll [] nodes) := by
  have hend (siblings : List Markup) : resume? [] siblings [] = some siblings := by
    rw [resume?, events?.eq_def]
    rfl
  have hread := h.resume [] [] [] calm_nil
  rw [List.append_nil, hend] at hread
  exact hread

/-! ### Elements -/

section Element

variable {name : String} {attributes : List (String × List Char)}

theorem splitName_word (h : isWord name = true) :
    splitName name.toList = some ([], name.toList) := by
  obtain ⟨c, cs, hname, -, hall⟩ := isWord_cons h
  have hcolon : ':' ∉ name.toList := by
    rw [hname]
    intro hmem
    exact absurd (hall ':' hmem) (by decide)
  rw [splitName, List.splitOn_eq_singleton hcolon]

/-- An attribute of a plain name declares nothing. -/
theorem declaration?_plain (h : plainNames name (attributes.map Prod.fst) = true)
    {a : String × List Char} (ha : a ∈ attributes) : declaration? (a.1.toList, a.2) = none := by
  obtain ⟨hword, -, hxmlns⟩ := plainNames_attribute h (List.mem_map_of_mem ha)
  have hne : a.1.toList ≠ "xmlns".toList := fun e => hxmlns (String.toList_injective e)
  rw [declaration?, splitName_word hword]
  simpa using hne

theorem expandedName?_plain (h : plainNames name (attributes.map Prod.fst) = true)
    {a : String × List Char} (ha : a ∈ attributes) :
    expandedName? [reserved] a.1.toList = some (none, a.1.toList) := by
  obtain ⟨hword, -, -⟩ := plainNames_attribute h (List.mem_map_of_mem ha)
  rw [expandedName?, splitName_word hword]
  rfl

theorem mapM_some {α β : Type} {f : α → Option β} {g : α → β} {l : List α}
    (h : ∀ a ∈ l, f a = some (g a)) : l.mapM f = some (l.map g) := by
  induction l with
  | nil => rfl
  | cons a l ih =>
    rw [List.mapM_cons, h a List.mem_cons_self, ih fun b hb => h b (List.mem_cons_of_mem _ hb)]
    rfl

/-- Plain names read as a tag without namespaces. -/
theorem tagIn?_plain (h : plainNames name (attributes.map Prod.fst) = true) :
    tagIn? [reserved] name.toList (attributes.map fun a => (a.1.toList, a.2)) =
      some (.plain name attributes, [reserved]) := by
  let read := attributes.map fun a => (a.1.toList, a.2)
  have hread : ∀ a ∈ read, declaration? a = none ∧ expandedName? [reserved] a.1 = some (none, a.1) := by
    intro a ha
    obtain ⟨b, hb, rfl⟩ := List.mem_map.mp ha
    exact ⟨declaration?_plain h hb, expandedName?_plain h hb⟩
  -- No attribute declares a namespace, and no name has a prefix.
  have hdeclarations : read.filterMap declaration? = [] :=
    List.filterMap_eq_nil_iff.mpr fun a ha => (hread a ha).1
  have hordinary : (read.filter fun a => (declaration? a).isNone) = read :=
    List.filter_eq_self.mpr fun a ha => by simp [(hread a ha).1]
  have hnames : (read.mapM fun a => expandedName? [reserved] a.1) =
      some (read.map fun a => (none, a.1)) := mapM_some fun a ha => (hread a ha).2
  have hnodup : ((read.map fun a => ((none : Option Declared), a.1)).map
      fun n => (n.1.map Declared.uri, n.2)).Nodup := by
    have hplain := (plainNames_nodup h).map (f := fun n => ((none : Option (List Char)), n))
      fun _ _ e => (Prod.mk.inj e).2
    simpa [read, Function.comp_def] using hplain
  have hwritten : List.zipWith (fun n a => attributeOf n.1 n.2 a.2)
      (read.map fun a => ((none : Option Declared), a.1)) read =
      attributes.map fun a => Attribute.plain a.1 a.2 := by
    simp [read, List.zipWith_map, List.zipWith_self, attributeOf, printedName, Attribute.plain]
  have hresolve : resolve? [reserved] [] = some none := by decide
  show tagIn? [reserved] name.toList read = _
  unfold tagIn?
  rw [hdeclarations]
  simp only [List.all_nil, Bool.not_true, Bool.false_eq_true, if_false, List.filter_nil,
    List.map_nil, List.nil_append, splitName_word (plainNames_isWord h), Option.pure_def,
    Option.bind_eq_bind, Option.bind_some, hresolve, hordinary, hnames]
  rw [if_neg (not_not_intro hnodup), hwritten]
  simp [printedName, Tag.plain]

variable {opened : List Frame} {siblings : List Markup} {s after : List Char}

theorem resume?_markup {event : Event} (h : markup? s = some (event, after)) :
    resume? opened siblings ('<' :: s) = (events? after).bind fun events =>
      build? opened siblings [reserved] (event :: events) :=
  resume?_event (s := '<' :: s) h opened siblings

/-- A start tag of plain names opens an element. -/
theorem resume?_start (h : plainNames name (attributes.map Prod.fst) = true)
    (hread : markup? s =
      some (.start name.toList (attributes.map fun a => (a.1.toList, a.2)) false, after)) :
    resume? opened siblings ('<' :: s) =
      resume? (⟨name.toList, .plain name attributes, siblings, [reserved]⟩ :: opened) [] after := by
  rw [resume?_markup hread]
  simp only [build?, tagIn?_plain h]
  rfl

/-- A tag that is closed at once is an element without children. -/
theorem resume?_closed (h : plainNames name (attributes.map Prod.fst) = true)
    (hread : markup? s =
      some (.start name.toList (attributes.map fun a => (a.1.toList, a.2)) true, after)) :
    resume? opened siblings ('<' :: s) =
      resume? opened (siblings ++ [.element (.plain name attributes) []]) after := by
  rw [resume?_markup hread]
  simp only [build?, tagIn?_plain h]
  rfl

/-- The end tag of the innermost open element closes it. -/
theorem resume?_stop {tag : Tag} {before : List Markup}
    (hread : markup? s = some (.stop name.toList, after)) :
    resume? (⟨name.toList, tag, before, [reserved]⟩ :: opened) siblings ('<' :: s) =
      resume? opened (before ++ [.element tag siblings]) after := by
  rw [resume?_markup hread]
  simp only [build?, if_true]
  rfl

end Element

section Written

variable {name : String} {attributes : List Written}

theorem plainNames_written (hnames : plainNames name (attributes.map Written.name) = true) :
    plainNames name ((attributes.map fun a => (a.name, a.value)).map Prod.fst) = true := by
  rw [List.map_map]
  exact hnames

/-- A written start tag, as the events name it. -/
theorem markup?_written (h : ∀ a ∈ attributes, a.Reads)
    (hnames : plainNames name (attributes.map Written.name) = true) {tail rest : List Char}
    {closed : Bool} (htail : ∀ found, attributes? found tail = some (found, closed, rest))
    (hend : tail.takeWhile isNamePart = []) :
    markup? (name.toList ++ (attributes.flatMap Written.spelled ++ tail)) =
      some (.start name.toList
        ((attributes.map fun a => (a.name, a.value)).map fun a => (a.1.toList, a.2)) closed,
        rest) := by
  rw [markup?_start (plainNames_isWord hnames) h (plainNames_nodup hnames) htail hend, List.map_map]
  rfl

/-- An element is read with the children that its content stands for. -/
theorem reads_element (h : ∀ a ∈ attributes, a.Reads)
    (hnames : plainNames name (attributes.map Written.name) = true) {inner : List Char}
    {nodes : List Markup} (hinner : Reads inner nodes) :
    Reads ('<' :: (name.toList ++ (attributes.flatMap Written.spelled ++
        '>' :: (inner ++ '<' :: '/' :: (name.toList ++ ['>'])))))
      [.element (.plain name (attributes.map fun a => (a.name, a.value)))
        (Markup.pushAll [] nodes)] := by
  refine ⟨fun _ _ => calm_lt _, fun opened siblings rest _ => ?_⟩
  have hstart := markup?_written h hnames
    (attributes?_end · (inner ++ '<' :: '/' :: (name.toList ++ '>' :: rest))) rfl
  have hstop := markup?_stop (plainNames_isWord hnames) rest
  have hspelled : '<' :: (name.toList ++ (attributes.flatMap Written.spelled ++
      '>' :: (inner ++ '<' :: '/' :: (name.toList ++ ['>'])))) ++ rest =
      '<' :: (name.toList ++ (attributes.flatMap Written.spelled ++
        '>' :: (inner ++ '<' :: '/' :: (name.toList ++ '>' :: rest)))) := by
    simp
  rw [hspelled, resume?_start (plainNames_written hnames) hstart, hinner.resume _ _ _ (calm_lt _),
    resume?_stop hstop]
  rfl

/-- A tag that is closed at once reads as an element without children. -/
theorem reads_closed (h : ∀ a ∈ attributes, a.Reads)
    (hnames : plainNames name (attributes.map Written.name) = true) :
    Reads ('<' :: (name.toList ++ (attributes.flatMap Written.spelled ++ ['/', '>'])))
      [.element (.plain name (attributes.map fun a => (a.name, a.value))) []] := by
  refine ⟨fun _ _ => calm_lt _, fun opened siblings rest _ => ?_⟩
  have hstart := markup?_written h hnames (attributes?_closed · rest) rfl
  have hspelled : '<' :: (name.toList ++ (attributes.flatMap Written.spelled ++ ['/', '>'])) ++
      rest = '<' :: (name.toList ++ (attributes.flatMap Written.spelled ++ '/' :: '>' :: rest)) := by
    simp
  rw [hspelled, resume?_closed (plainNames_written hnames) hstart]
  rfl

end Written

end Xml

end DeltaPreview
