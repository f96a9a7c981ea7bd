import DeltaPreview.Proofs.Markup.Tags
import DeltaPreview.Proofs.Markup.Tree

/-!
# Pieces of a page

A page is read strictly (`Html.pieces?`): every `<` must begin a start tag or an end tag that is well
formed, every `&` a reference, and all else is text.  The main statement, `pieces?_write`, is that a
written tree of plain tags reads as its own pieces: no text and no value, whatever it contains, adds
a tag or ends a value.

What text a page shows (`Html.shownText`) is read off its pieces.
-/

namespace DeltaPreview.Html

/-- A piece of a page: a character of its text, a start tag with the names of its attributes, or an
end tag. -/
inductive Piece where
  | char (c : Char)
  | opening (name : String) (attributes : List String)
  | closing (name : String)
  deriving DecidableEq, Repr

/-- The pieces of a page, if every `<` begins a tag and every `&` a reference. -/
def pieces? (s : List Char) : Option (List Piece) :=
  match s with
  | [] => some []
  | c :: rest =>
    if c = '<' then
      match h : Xml.markup? rest with
      | some (.start name attributes false, after) =>
        have := Xml.markup?_length h
        (pieces? after).map
          (.opening (String.ofList name) (attributes.map fun a => String.ofList a.1) :: ·)
      | some (.stop name, after) =>
        have := Xml.markup?_length h
        (pieces? after).map (.closing (String.ofList name) :: ·)
      | _ => none
    else if c = '&' then
      match h : Xml.reference? rest with
      | some (d, after) =>
        have := Xml.reference?_length h
        (pieces? after).map (.char d :: ·)
      | none => none
    else (pieces? rest).map (.char c :: ·)
termination_by s.length
decreasing_by all_goals simp; try omega

/-- The text that a piece shows: its character, or a line end for a line break. -/
def Piece.text : Piece → List Char
  | char c => [c]
  | opening name _ => if name = "br" then ['\n'] else []
  | closing _ => []

/-- The text that a page shows. -/
def shownText (ps : List Piece) : List Char := ps.flatMap Piece.text

/-! ### Reading from the front -/

theorem pieces?_nil : pieces? [] = some [] := by
  rw [pieces?.eq_def]

theorem pieces?_char {c : Char} (hlt : c ≠ '<') (hamp : c ≠ '&') (rest : List Char) :
    pieces? (c :: rest) = (pieces? rest).map (.char c :: ·) := by
  rw [pieces?.eq_def]
  simp [hlt, hamp]

theorem pieces?_reference {d : Char} {s after : List Char}
    (h : Xml.reference? s = some (d, after)) :
    pieces? ('&' :: s) = (pieces? after).map (.char d :: ·) := by
  rw [pieces?.eq_def]
  simp only [Char.reduceEq, if_false, if_true]
  split
  · rename_i heq
    rw [h] at heq
    cases heq
    rfl
  · rename_i heq
    rw [h] at heq
    cases heq

theorem pieces?_start {name : List Char} {attributes : List (List Char × List Char)}
    {s after : List Char} (h : Xml.markup? s = some (.start name attributes false, after)) :
    pieces? ('<' :: s) = (pieces? after).map
      (.opening (String.ofList name) (attributes.map fun a => String.ofList a.1) :: ·) := by
  rw [pieces?.eq_def]
  simp only [if_true]
  split
  · rename_i heq
    rw [h] at heq
    cases heq
    rfl
  · rename_i heq
    rw [h] at heq
    cases heq
  · rename_i hne _
    exact absurd h (hne _ _ _)

theorem pieces?_stop {name s after : List Char} (h : Xml.markup? s = some (.stop name, after)) :
    pieces? ('<' :: s) = (pieces? after).map (.closing (String.ofList name) :: ·) := by
  rw [pieces?.eq_def]
  simp only [if_true]
  split
  · rename_i heq
    rw [h] at heq
    cases heq
  · rename_i heq
    rw [h] at heq
    cases heq
    rfl
  · rename_i hne
    exact absurd h (hne _ _)

/-! ### The pieces of a tree -/

/-- The character that a page shows for a character: control characters are replaced. -/
def shownChar (c : Char) : Char :=
  if c.toNat < 0x20 ∧ c ≠ '\t' ∧ c ≠ '\n' ∧ c ≠ '\r' then '\ufffd' else c

/-- The start tag of an element. -/
def start (tag : Tag) : Piece := .opening tag.name (tag.attributes.map Attribute.name)

mutual

/-- The pieces that a node is written as. -/
def pieces : Markup → List Piece
  | .text t => t.map fun c => .char (shownChar c)
  | .element tag [] =>
    start tag :: if isVoid tag || omitsEnd tag then [] else [.closing tag.name]
  | .element tag (child :: children) =>
    start tag :: if isVoid tag then []
      else pieces child ++ piecesAll children ++ [.closing tag.name]
  | .comment _ => []
  | .instruction _ _ => []

/-- The pieces that a sequence of nodes is written as. -/
def piecesAll : List Markup → List Piece
  | [] => []
  | m :: ms => pieces m ++ piecesAll ms

end

theorem piecesAll_append (as bs : List Markup) :
    piecesAll (as ++ bs) = piecesAll as ++ piecesAll bs := by
  induction as with
  | nil => rfl
  | cons m ms ih => simp [piecesAll, ih]

/-- Texts that are joined have the same pieces. -/
theorem piecesAll_pushText (siblings : List Markup) (t : List Char) :
    piecesAll (Markup.pushText siblings t) = piecesAll siblings ++ pieces (.text t) := by
  rcases Markup.pushText_cases siblings t with ⟨rfl, h⟩ | ⟨before, last, rfl, h⟩ | h
  · simp [h, pieces]
  · simp [h, piecesAll_append, piecesAll, pieces]
  · simp [h, piecesAll_append, piecesAll]

theorem piecesAll_push (siblings : List Markup) (m : Markup) :
    piecesAll (Markup.push siblings m) = piecesAll siblings ++ pieces m := by
  cases m with
  | text t => exact piecesAll_pushText siblings t
  | element tag children => simp [Markup.push, piecesAll_append, piecesAll]
  | comment t => simp [Markup.push, piecesAll_append, piecesAll]
  | instruction target t => simp [Markup.push, piecesAll_append, piecesAll]

theorem piecesAll_pushAll (siblings nodes : List Markup) :
    piecesAll (Markup.pushAll siblings nodes) = piecesAll siblings ++ piecesAll nodes := by
  induction nodes generalizing siblings with
  | nil => simp [Markup.pushAll, piecesAll]
  | cons m ms ih =>
    have := ih (Markup.push siblings m)
    rw [piecesAll_push] at this
    simpa [Markup.pushAll, piecesAll] using this

/-! ### Reading what is written -/

/-- A written character reads as the character that it shows. -/
theorem pieces?_escapeText (c : Char) (rest : List Char) :
    pieces? (escapeText c ++ rest) = (pieces? rest).map (.char (shownChar c) :: ·) := by
  unfold escapeText
  split
  · exact pieces?_reference (d := '&') (s := "amp;".toList ++ rest) rfl
  · exact pieces?_reference (d := '<') (s := "lt;".toList ++ rest) rfl
  · exact pieces?_reference (d := '>') (s := "gt;".toList ++ rest) rfl
  · exact pieces?_reference (d := '\r') (s := "#13;".toList ++ rest) rfl
  · rename_i hamp hlt hgt hret
    split
    · rename_i hcontrol
      -- A control character is written as a reference to the replacement character.
      have hshown : shownChar c = '\ufffd' :=
        if_pos ⟨hcontrol.1, hcontrol.2.1, hcontrol.2.2, hret⟩
      rw [hshown]
      exact pieces?_reference (s := "#xFFFD;".toList ++ rest) rfl
    · rename_i hcontrol
      have hshown : shownChar c = c := if_neg fun h => hcontrol ⟨h.1, h.2.1, h.2.2.1⟩
      rw [hshown]
      exact pieces?_char hlt hamp rest

theorem pieces?_text (t rest : List Char) :
    pieces? (t.flatMap escapeText ++ rest) = (pieces? rest).map (pieces (.text t) ++ ·) := by
  induction t with
  | nil => simp [pieces]
  | cons c t ih =>
    rw [List.flatMap_cons, List.append_assoc, pieces?_escapeText, ih, Option.map_map]
    rfl

/-- A written start tag reads as itself. -/
theorem pieces?_writeTag {tag : Tag} (h : tag.IsPlain) (rest : List Char) :
    pieces? (writeTag tag ++ rest) = (pieces? rest).map (start tag :: ·) := by
  obtain ⟨name, attributes, rfl, hnames⟩ := h
  obtain ⟨body, values, hbody, hread, hvalues⟩ := markup?_writeTag hnames rest
  have hstart : Piece.opening (String.ofList name.toList)
      (values.map fun a => String.ofList a.1) = start (.plain name attributes) := by
    have : (values.map Prod.fst).map String.ofList = attributes.map Prod.fst := by
      simp [hvalues, Function.comp_def]
    simp [start, Tag.plain, Attribute.plain, ← this, Function.comp_def]
  rw [hbody, pieces?_start hread, hstart]

/-- A written end tag reads as itself. -/
theorem pieces?_writeEnd {tag : Tag} (h : tag.IsPlain) (rest : List Char) :
    pieces? (writeEnd tag ++ rest) = (pieces? rest).map (.closing tag.name :: ·) := by
  obtain ⟨name, attributes, rfl, hnames⟩ := h
  have hread := Xml.markup?_stop (plainNames_isWord hnames) rest
  have hend : writeEnd (.plain name attributes) ++ rest =
      '<' :: '/' :: (name.toList ++ '>' :: rest) := by
    simp [writeEnd, Tag.plain]
  rw [hend, pieces?_stop hread]
  simp [Tag.plain]

theorem notRaw {tag : Tag} (h : tag.IsPlain) : named rawNames tag.name = false := by
  obtain ⟨name, attributes, rfl, hnames⟩ := h
  simp only [plainNames, Bool.and_eq_true, Bool.not_eq_true'] at hnames
  exact hnames.1.1.2

mutual

/-- A written tree of plain tags reads as its pieces. -/
theorem pieces?_write (m : Markup) (h : m.MadeOf fun tag _ => tag.IsPlain) (rest : List Char) :
    pieces? (write false m ++ rest) = (pieces? rest).map (pieces m ++ ·) := by
  cases m with
  | text t => exact pieces?_text t rest
  | element tag children =>
    have htag := h.1
    cases children with
    | nil =>
      rw [write, List.append_assoc, pieces?_writeTag htag, pieces]
      split
      · simp
      · rw [pieces?_writeEnd htag, Option.map_map]
        rfl
    | cons child children =>
      rw [write, notRaw htag, List.append_assoc, pieces?_writeTag htag, pieces]
      split
      · simp
      · rw [List.append_assoc, List.append_assoc, pieces?_write child h.2.1,
          pieces?_writeAll children h.2.2, pieces?_writeEnd htag]
        simp [Option.map_map, Function.comp_def]
  | comment t => exact h.elim
  | instruction target t => exact h.elim

theorem pieces?_writeAll (ms : List Markup) (h : Markup.AllMadeOf (fun tag _ => tag.IsPlain) ms)
    (rest : List Char) :
    pieces? (writeAll false ms ++ rest) = (pieces? rest).map (piecesAll ms ++ ·) := by
  cases ms with
  | nil => simp [writeAll, piecesAll]
  | cons m ms =>
    rw [writeAll, List.append_assoc, pieces?_write m h.1, pieces?_writeAll ms h.2, Option.map_map]
    simp [piecesAll, Function.comp_def]

end

/-- A page of plain tags reads as its pieces. -/
theorem pieces?_page {m : Markup} (h : m.MadeOf fun tag _ => tag.IsPlain) :
    pieces? (write false m) = some (pieces m) := by
  have := pieces?_write m h []
  rwa [List.append_nil, pieces?_nil, Option.map_some, List.append_nil] at this

end DeltaPreview.Html
