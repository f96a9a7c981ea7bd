import DeltaPreview.Proofs.Markup.Content
import DeltaPreview.Proofs.Markup.Vocabulary
import DeltaPreview.Text.Compatible

/-!
# Written trees read back

A tree of plain tags that is written as XML, cleared of the characters that no markup can hold, and
read again gives itself, with its texts and values cleared and neighbouring texts joined
(`Markup.readBack`).  The statement is `content?_write`.
-/

namespace DeltaPreview

/-- An attribute whose value is cleared of the characters that no markup can hold. -/
def Attribute.cleared (a : Attribute) : Attribute :=
  { a with value := a.value.map (·.filter compatibleChar) }

/-- A tag whose values are cleared. -/
def Tag.cleared (tag : Tag) : Tag := { tag with attributes := tag.attributes.map Attribute.cleared }

namespace Markup

mutual

/-- What a written node is read back as. -/
def readBack : Markup → Markup
  | .text t => .text (t.filter compatibleChar)
  | .element tag children => .element tag.cleared (pushAll [] (readBacks children))
  | .comment t => .comment t
  | .instruction target t => .instruction target t

/-- What a sequence of written nodes is read back as, before texts are joined. -/
def readBacks : List Markup → List Markup
  | [] => []
  | m :: ms => readBack m :: readBacks ms

end

end Markup

theorem Tag.cleared_plain (name : String) (attributes : List (String × List Char)) :
    (Tag.plain name attributes).cleared =
      .plain name (attributes.map fun a => (a.1, a.2.filter compatibleChar)) := by
  simp [Tag.cleared, Tag.plain, Attribute.cleared, Attribute.plain, Function.comp_def]

/-! ### Clearing what is written -/

/-- Clearing commutes with escaping. -/
theorem filter_flatMap {p : Char → Bool} {f : Char → List Char}
    (h : ∀ c, (f c).filter p = if p c then f c else []) (t : List Char) :
    (t.flatMap f).filter p = (t.filter p).flatMap f := by
  induction t with
  | nil => rfl
  | cons c t ih =>
    rw [List.flatMap_cons, List.filter_append, ih, h]
    by_cases hc : p c = true
    · simp [hc]
    · simp [hc]

theorem compatibleChar_of_word {c : Char} (h : (c.isAlphanum || c == '-') = true) :
    compatibleChar c = true := by
  have hc := toNat_word h
  simp [compatibleChar]
  omega

theorem filter_word {name : String} (h : isWord name = true) :
    name.toList.filter compatibleChar = name.toList := by
  obtain ⟨c, cs, hname, -, hall⟩ := isWord_cons h
  rw [hname]
  exact List.filter_eq_self.mpr fun d hd => compatibleChar_of_word (hall d hd)

namespace Xml

theorem filter_escapeText (c : Char) :
    (escapeText c).filter compatibleChar = if compatibleChar c then escapeText c else [] := by
  unfold escapeText
  split
  · decide
  · decide
  · decide
  · decide
  · rw [List.filter_singleton]
    cases compatibleChar c <;> rfl

theorem filter_escapeValue (c : Char) :
    (escapeValue c).filter compatibleChar = if compatibleChar c then escapeValue c else [] := by
  unfold escapeValue
  split
  · decide
  · decide
  · decide
  · exact filter_escapeText c

/-- An attribute that is written for XML, with a value that reads as itself. -/
def writtenOf (a : String × List Char) : Written :=
  ⟨a.1, '"' :: (a.2.flatMap escapeValue ++ ['"']), a.2⟩

section Plain

variable {name : String} {attributes : List (String × List Char)}

theorem reads_writtenOf (h : plainNames name (attributes.map Prod.fst) = true) :
    ∀ w ∈ attributes.map writtenOf, w.Reads := by
  intro w hw
  obtain ⟨a, ha, rfl⟩ := List.mem_map.mp hw
  exact ⟨(plainNames_attribute h (List.mem_map_of_mem ha)).1, quotes_escapeValue a.2⟩

theorem writeTag_plain (name : String) (attributes : List (String × List Char)) :
    writeTag (.plain name attributes) =
      name.toList ++ (attributes.map writtenOf).flatMap Written.spelled := by
  simp [writeTag, Tag.plain, List.flatMap_map, writeAttribute, Attribute.plain, Written.spelled,
    writtenOf]

/-- A written tag, cleared, is the cleared tag, written. -/
theorem filter_writeTag (h : plainNames name (attributes.map Prod.fst) = true) :
    (writeTag (.plain name attributes)).filter compatibleChar =
      writeTag (Tag.plain name attributes).cleared := by
  have hattribute : ∀ a ∈ attributes, (writtenOf a).spelled.filter compatibleChar =
      (writtenOf (a.1, a.2.filter compatibleChar)).spelled := by
    intro a ha
    have hword := (plainNames_attribute h (List.mem_map_of_mem ha)).1
    simp only [Written.spelled, writtenOf, List.filter_cons, List.filter_append, filter_word hword,
      filter_flatMap filter_escapeValue]
    rfl
  rw [Tag.cleared_plain, writeTag_plain, writeTag_plain, List.filter_append,
    filter_word (plainNames_isWord h), List.filter_flatMap, List.flatMap_map, List.flatMap_map,
    List.flatMap_map, List.flatMap_congr hattribute]

/-- Clearing leaves the names of a tag. -/
theorem plainNames_cleared (h : plainNames name (attributes.map Prod.fst) = true) :
    plainNames name ((attributes.map fun a => (a.1, a.2.filter compatibleChar)).map Prod.fst) =
      true := by
  rw [List.map_map]
  exact h

theorem map_writtenOf (attributes : List (String × List Char)) :
    ((attributes.map writtenOf).map fun a => (a.name, a.value)) = attributes := by
  simp [writtenOf, Function.comp_def]

/-- A written tag around a content. -/
theorem reads_writeTag (h : plainNames name (attributes.map Prod.fst) = true) {inner : List Char}
    {nodes : List Markup} (hinner : Reads inner nodes) :
    Reads ('<' :: (writeTag (.plain name attributes) ++
        '>' :: (inner ++ '<' :: '/' :: (name.toList ++ ['>']))))
      [.element (.plain name attributes) (Markup.pushAll [] nodes)] := by
  have hnames : plainNames name ((attributes.map writtenOf).map Written.name) = true := by
    rw [List.map_map]
    exact h
  have := reads_element (reads_writtenOf h) hnames hinner
  rwa [map_writtenOf, ← List.append_assoc, ← writeTag_plain] at this

/-- A written tag without a content. -/
theorem reads_writeTag_closed (h : plainNames name (attributes.map Prod.fst) = true) :
    Reads ('<' :: (writeTag (.plain name attributes) ++ ['/', '>']))
      [.element (.plain name attributes) []] := by
  have hnames : plainNames name ((attributes.map writtenOf).map Written.name) = true := by
    rw [List.map_map]
    exact h
  have := reads_closed (reads_writtenOf h) hnames
  rwa [map_writtenOf, ← List.append_assoc, ← writeTag_plain] at this

end Plain

/-! ### Reading -/

mutual

/-- A written tree reads back, wherever it stands. -/
theorem reads_write (m : Markup) (h : m.MadeOf fun tag _ => tag.IsPlain) :
    Reads ((write m).filter compatibleChar) [m.readBack] := by
  cases m with
  | text t =>
    rw [write, filter_flatMap filter_escapeText]
    exact reads_text _
  | element tag children =>
    obtain ⟨⟨name, attributes, rfl, hnames⟩, hchildren⟩ := h
    have hcleared := plainNames_cleared hnames
    cases children with
    | nil =>
      have hwrite : (write (.element (.plain name attributes) [])).filter compatibleChar =
          '<' :: (writeTag (Tag.plain name attributes).cleared ++ ['/', '>']) := by
        rw [write, List.filter_append, List.filter_cons, filter_writeTag hnames]
        rfl
      rw [hwrite, Markup.readBack, Tag.cleared_plain]
      exact reads_writeTag_closed hcleared
    | cons child children =>
      have hinner := reads_writeAll (child :: children) hchildren
      have hwrite :
          (write (.element (.plain name attributes) (child :: children))).filter compatibleChar =
          '<' :: (writeTag (Tag.plain name attributes).cleared ++
            '>' :: ((writeAll (child :: children)).filter compatibleChar ++
              '<' :: '/' :: (name.toList ++ ['>']))) := by
        have hname := filter_word (plainNames_isWord hnames)
        have hsigns : compatibleChar '<' = true ∧ compatibleChar '>' = true ∧
            compatibleChar '/' = true := by decide
        have htag : (Tag.plain name attributes).name = name := rfl
        simp [write, writeAll, filter_writeTag hnames, List.filter_append, hsigns, hname, htag]
      rw [hwrite, Markup.readBack, Tag.cleared_plain]
      exact reads_writeTag hcleared hinner
  | comment t => exact h.elim
  | instruction target t => exact h.elim

theorem reads_writeAll (ms : List Markup)
    (h : Markup.AllMadeOf (fun tag _ => tag.IsPlain) ms) :
    Reads ((writeAll ms).filter compatibleChar) (Markup.readBacks ms) := by
  cases ms with
  | nil => exact Reads.nil
  | cons m ms =>
    rw [writeAll, List.filter_append]
    exact (reads_write m h.1).append (reads_writeAll ms h.2)

end

/-! ### Line ends -/

theorem return_not_mem_escapeText (c : Char) : '\r' ∉ escapeText c := by
  unfold escapeText
  split
  · decide
  · decide
  · decide
  · decide
  · rename_i hret
    exact fun hmem => hret (List.mem_singleton.mp hmem).symm

theorem return_not_mem_escapeValue (c : Char) : '\r' ∉ escapeValue c := by
  unfold escapeValue
  split
  · decide
  · decide
  · decide
  · exact return_not_mem_escapeText c

theorem return_not_mem_word {name : String} (h : isWord name = true) : '\r' ∉ name.toList := by
  obtain ⟨c, cs, hname, -, hall⟩ := isWord_cons h
  rw [hname]
  intro hmem
  exact absurd (hall '\r' hmem) (by decide)

theorem return_not_mem_writeTag {tag : Tag} (h : tag.IsPlain) : '\r' ∉ writeTag tag := by
  obtain ⟨name, attributes, rfl, hnames⟩ := h
  have hattribute : ∀ a ∈ attributes, '\r' ∉ (writtenOf a).spelled := by
    intro a ha
    have hname := return_not_mem_word (plainNames_attribute hnames (List.mem_map_of_mem ha)).1
    have hvalue : '\r' ∉ a.2.flatMap escapeValue := by
      simp only [List.mem_flatMap, not_exists, not_and]
      exact fun c _ => return_not_mem_escapeValue c
    simp [Written.spelled, writtenOf, hname, hvalue]
  rw [writeTag_plain, List.flatMap_map]
  simp only [List.mem_append, List.mem_flatMap, not_or, not_exists, not_and]
  exact ⟨return_not_mem_word (plainNames_isWord hnames), hattribute⟩

mutual

/-- Written trees contain no carriage return: it is written as a reference. -/
theorem return_not_mem_write (m : Markup) (h : m.MadeOf fun tag _ => tag.IsPlain) :
    '\r' ∉ write m := by
  cases m with
  | text t =>
    rw [write]
    simp only [List.mem_flatMap, not_exists, not_and]
    exact fun c _ => return_not_mem_escapeText c
  | element tag children =>
    have htag := return_not_mem_writeTag h.1
    have hname : '\r' ∉ tag.name.toList := by
      obtain ⟨name, attributes, rfl, hnames⟩ := h.1
      exact return_not_mem_word (plainNames_isWord hnames)
    cases children with
    | nil => simp [write, htag]
    | cons child children =>
      have hchild := return_not_mem_write child h.2.1
      have hchildren := return_not_mem_writeAll children h.2.2
      simp [write, htag, hname, hchild, hchildren]
  | comment t => exact h.elim
  | instruction target t => exact h.elim

theorem return_not_mem_writeAll (ms : List Markup)
    (h : Markup.AllMadeOf (fun tag _ => tag.IsPlain) ms) : '\r' ∉ writeAll ms := by
  cases ms with
  | nil => simp [writeAll]
  | cons m ms =>
    simp [writeAll, return_not_mem_write m h.1, return_not_mem_writeAll ms h.2]

end

theorem normalizeLines_write {m : Markup} (h : m.MadeOf fun tag _ => tag.IsPlain) :
    normalizeLines ((write m).filter compatibleChar) = (write m).filter compatibleChar :=
  normalizeLines_of_not_mem fun hmem =>
    return_not_mem_write m h (List.mem_of_mem_filter hmem)

/-- A written tree, cleared, is well formed and reads back. -/
theorem content?_write {m : Markup} (h : m.MadeOf fun tag _ => tag.IsPlain) :
    content? ((write m).filter compatibleChar) = some (Markup.pushAll [] [m.readBack]) := by
  apply content?_of_reads
  rw [normalizeLines_write h]
  exact reads_write m h

end Xml

/-! ### Trees of the vocabulary -/

namespace Markup

theorem isItem_readBack (m : Markup) : m.readBack.isItem = m.isItem := by
  cases m <;> rfl

theorem mem_readBacks {ms : List Markup} {k : Markup} (h : k ∈ readBacks ms) :
    ∃ m ∈ ms, k = m.readBack := by
  induction ms with
  | nil => cases h
  | cons m ms ih =>
    rcases List.mem_cons.mp h with rfl | h
    · exact ⟨m, List.mem_cons_self, rfl⟩
    · obtain ⟨n, hn, rfl⟩ := ih h
      exact ⟨n, List.mem_cons_of_mem _ hn, rfl⟩

mutual

/-- A tree of the vocabulary is read back as one. -/
theorem proper_readBack (m : Markup) (h : m.Proper) : m.readBack.Proper := by
  cases m with
  | text t => trivial
  | element tag children =>
    obtain ⟨⟨⟨name, attributes, rfl, hknows⟩, hitems⟩, hchildren⟩ := h
    have hitems : ∀ k ∈ readBacks children, k.isItem = (Tag.plain name attributes).isList := by
      intro k hk
      obtain ⟨m, hm, rfl⟩ := mem_readBacks hk
      rw [isItem_readBack, hitems m hm]
    -- Joining texts keeps what may stand here: in a list there are no texts, and a text is no item.
    have hread : ∀ k ∈ pushAll [] (readBacks children),
        k.isItem = (Tag.plain name attributes).isList := by
      cases hlist : (Tag.plain name attributes).isList with
      | false => exact forall_pushAll (fun _ => rfl) (by simp) (hlist ▸ hitems)
      | true =>
        rw [pushAll_of_not_text fun k hk => ?_, List.nil_append]
        · exact hlist ▸ hitems
        · have hk := (hitems k hk).trans hlist
          cases k <;> first | rfl | cases hk
    have hproper : ∀ k ∈ pushAll [] (readBacks children), k.Proper :=
      forall_pushAll (fun _ => trivial) (by simp) (proper_readBacks children hchildren)
    rw [readBack, Tag.cleared_plain]
    refine proper_plain ?_ hproper hread
    rw [List.map_map]
    exact hknows
  | comment t => exact h.elim
  | instruction target t => exact h.elim

theorem proper_readBacks (ms : List Markup) (h : AllMadeOf Fits ms) :
    ∀ m ∈ readBacks ms, m.Proper := by
  cases ms with
  | nil => simp [readBacks]
  | cons m ms =>
    simpa [readBacks] using ⟨proper_readBack m h.1, proper_readBacks ms h.2⟩

end

theorem Inner.readBack {m : Markup} (h : m.Inner) : m.readBack.Inner :=
  ⟨proper_readBack m h.proper, (isItem_readBack m).trans h.notItem⟩

end Markup

end DeltaPreview
