import DeltaPreview.Markup.Xml.Reader
import DeltaPreview.Proofs.Markup.Locality
import DeltaPreview.Proofs.Markup.Tree
import DeltaPreview.Text.Compatible

/-!
# Clean markup

A text is clean if markup can hold all its characters, and a tree if all its names, values and texts are
clean.  A clean tree is written as a clean page (`clean_write`), and what is read from clean content is
clean, since a reference names no other character than one that markup can hold (`clean_content?`).
-/

namespace DeltaPreview

/-- A text of characters that markup can hold. -/
def Clean (s : List Char) : Prop := ∀ c ∈ s, compatibleChar c = true

theorem clean_of_all {s : List Char} (h : s.all compatibleChar = true) : Clean s :=
  List.all_eq_true.mp h

theorem clean_nil : Clean [] := fun _ hc => absurd hc List.not_mem_nil

section Clean

variable {s t : List Char}

theorem clean_cons {c : Char} : Clean (c :: s) ↔ compatibleChar c = true ∧ Clean s :=
  List.forall_mem_cons

theorem clean_append : Clean (s ++ t) ↔ Clean s ∧ Clean t := List.forall_mem_append

theorem Clean.subset (h : Clean t) (hst : s ⊆ t) : Clean s := fun c hc => h c (hst hc)

theorem clean_flatMap {α : Type} {l : List α} {f : α → List Char} (h : ∀ a ∈ l, Clean (f a)) :
    Clean (l.flatMap f) := by
  intro c hc
  obtain ⟨a, ha, hca⟩ := List.mem_flatMap.mp hc
  exact h a ha c hca

end Clean

theorem clean_compatible (t : Text) : Clean t.compatible := clean_of_all t.all_compatible

theorem clean_normalizeLines {s : List Char} (h : Clean s) : Clean (normalizeLines s) := by
  fun_induction normalizeLines s with
  | case1 => exact h
  | case2 rest ih => exact clean_cons.mpr ⟨by decide, ih (clean_cons.mp (clean_cons.mp h).2).2⟩
  | case3 rest _ ih => exact clean_cons.mpr ⟨by decide, ih (clean_cons.mp h).2⟩
  | case4 c rest _ _ ih => exact clean_cons.mpr ⟨(clean_cons.mp h).1, ih (clean_cons.mp h).2⟩

/-! ### Trees -/

/-- An attribute with a clean name and a clean value. -/
structure Attribute.IsClean (a : Attribute) : Prop where
  name : Clean a.name.toList
  value : ∀ v ∈ a.value, Clean v

/-- A tag with a clean name, clean namespaces and clean attributes. -/
structure Tag.IsClean (tag : Tag) : Prop where
  name : Clean tag.name.toList
  declarations : ∀ d ∈ tag.declarations, Clean d.1 ∧ Clean d.2
  attributes : ∀ a ∈ tag.attributes, a.IsClean

theorem Tag.isClean_plain {name : String} {attributes : List (String × List Char)}
    (hname : name.toList.all compatibleChar = true)
    (hattributes : ∀ a ∈ attributes, a.1.toList.all compatibleChar = true ∧ Clean a.2) :
    (Tag.plain name attributes).IsClean := by
  refine ⟨clean_of_all hname, fun d hd => absurd hd List.not_mem_nil, ?_⟩
  intro a ha
  obtain ⟨b, hb, rfl⟩ := List.mem_map.mp ha
  refine ⟨clean_of_all (hattributes b hb).1, ?_⟩
  rintro _ ⟨⟩
  exact (hattributes b hb).2

namespace Markup

mutual

/-- A tree of clean texts, tags, comments and instructions. -/
def IsClean : Markup → Prop
  | .text t => Clean t
  | .element tag children => tag.IsClean ∧ AllClean children
  | .comment t => Clean t
  | .instruction target t => Clean target ∧ Clean t

/-- A sequence of such trees. -/
def AllClean : List Markup → Prop
  | [] => True
  | m :: ms => IsClean m ∧ AllClean ms

end

variable {t target : List Char} {tag : Tag} {children : List Markup}

@[simp] theorem isClean_text : (text t).IsClean ↔ Clean t := by rw [IsClean]

@[simp] theorem isClean_element :
    (element tag children).IsClean ↔ tag.IsClean ∧ AllClean children := by rw [IsClean]

@[simp] theorem isClean_comment : (comment t).IsClean ↔ Clean t := by rw [IsClean]

@[simp] theorem isClean_instruction :
    (instruction target t).IsClean ↔ Clean target ∧ Clean t := by rw [IsClean]

@[simp] theorem allClean_nil : AllClean [] := by simp [AllClean]

theorem allClean_iff {ms : List Markup} : AllClean ms ↔ ∀ m ∈ ms, m.IsClean := by
  induction ms with
  | nil => simp [AllClean]
  | cons m ms ih => simp [AllClean, ih]

theorem allClean_append {ms ns : List Markup} : AllClean (ms ++ ns) ↔ AllClean ms ∧ AllClean ns := by
  simp only [allClean_iff, List.forall_mem_append]

theorem allClean_singleton {m : Markup} : AllClean [m] ↔ m.IsClean := by simp [AllClean]

theorem allClean_pushText {siblings : List Markup} (h : AllClean siblings)
    (ht : Clean t) : AllClean (pushText siblings t) := by
  rcases pushText_cases siblings t with ⟨-, hsame⟩ | ⟨before, last, rfl, hjoined⟩ | hadded
  · rwa [hsame]
  · rw [allClean_append, allClean_singleton] at h
    rw [hjoined, allClean_append, allClean_singleton]
    exact ⟨h.1, clean_append.mpr ⟨h.2, ht⟩⟩
  · rw [hadded, allClean_append, allClean_singleton]
    exact ⟨h, ht⟩

theorem allClean_push {siblings : List Markup} {m : Markup} (h : AllClean siblings) (hm : m.IsClean) :
    AllClean (push siblings m) := by
  have happend : AllClean (siblings ++ [m]) := allClean_append.mpr ⟨h, allClean_singleton.mpr hm⟩
  cases m with
  | text t => exact allClean_pushText h hm
  | element tag children => exact happend
  | comment t => exact happend
  | instruction target t => exact happend

theorem allClean_pushAll {siblings nodes : List Markup} (h : AllClean siblings)
    (hnodes : AllClean nodes) : AllClean (pushAll siblings nodes) := by
  induction nodes generalizing siblings with
  | nil => exact h
  | cons m ms ih => exact ih (allClean_push h hnodes.1) hnodes.2

end Markup

/-! ### Writing -/

namespace Html

theorem clean_escapeText {c : Char} (h : compatibleChar c = true) : Clean (escapeText c) := by
  unfold escapeText
  split
  · exact clean_of_all (by decide)
  · exact clean_of_all (by decide)
  · exact clean_of_all (by decide)
  · exact clean_of_all (by decide)
  · split
    · exact clean_of_all (by decide)
    · exact clean_cons.mpr ⟨h, clean_nil⟩

theorem clean_quote {v : List Char} (h : Clean v) : Clean (quote v) := by
  have hescaped : Clean (v.flatMap escapeQuote) := by
    refine clean_flatMap fun c hc => ?_
    unfold escapeQuote
    split
    · exact clean_of_all (by decide)
    · exact clean_cons.mpr ⟨h c hc, clean_nil⟩
  unfold quote
  split
  · exact clean_cons.mpr ⟨by decide, clean_append.mpr ⟨h, clean_of_all (by decide)⟩⟩
  · exact clean_cons.mpr ⟨by decide, clean_append.mpr ⟨hescaped, clean_of_all (by decide)⟩⟩

theorem clean_percent (b : UInt8) : Clean (percent b) := by
  have hb : b.toNat < 256 := b.toNat_lt
  have hdigit : ∀ n < 16, compatibleChar (Nat.digitChar n).toUpper = true := by decide
  exact clean_cons.mpr ⟨by decide, clean_cons.mpr ⟨hdigit _ (by omega),
    clean_cons.mpr ⟨hdigit _ (by omega), clean_nil⟩⟩⟩

theorem clean_encodeAddress (c : Char) : Clean (encodeAddress c) := by
  unfold encodeAddress
  split
  · refine clean_cons.mpr ⟨?_, clean_nil⟩
    simp [compatibleChar]
    omega
  · exact clean_flatMap fun b _ => clean_percent b

theorem clean_writeValue (tag : Tag) (a : Attribute) {v : List Char} (h : Clean v) :
    Clean (writeValue tag a v) := by
  have hescaped : Clean (v.flatMap escapeText) := clean_flatMap fun c hc => clean_escapeText (h c hc)
  refine clean_quote ?_
  split
  · exact clean_flatMap fun c _ => clean_encodeAddress c
  · exact hescaped

theorem clean_writeAttribute (tag : Tag) {a : Attribute} (h : a.IsClean) :
    Clean (writeAttribute tag a) := by
  unfold writeAttribute
  rw [List.cons_append, clean_cons, clean_append]
  refine ⟨by decide, h.name, ?_⟩
  split
  · exact clean_nil
  · rename_i v hv
    split
    · exact clean_nil
    · exact clean_cons.mpr ⟨by decide, clean_writeValue tag a (h.value v hv)⟩

theorem clean_writeDeclaration {d : List Char × List Char} (h : Clean d.1 ∧ Clean d.2) :
    Clean (writeDeclaration d) := by
  unfold writeDeclaration
  split
  · exact clean_append.mpr ⟨clean_of_all (by decide), clean_quote h.2⟩
  · rw [List.append_assoc, clean_append, clean_append, clean_cons]
    exact ⟨clean_of_all (by decide), h.1, by decide, clean_quote h.2⟩

theorem clean_writeTag {tag : Tag} (h : tag.IsClean) : Clean (writeTag tag) := by
  simp only [writeTag, List.cons_append, clean_cons, clean_append]
  exact ⟨by decide, ⟨⟨h.name, clean_flatMap fun d hd => clean_writeDeclaration (h.declarations d hd)⟩,
    clean_flatMap fun a ha => clean_writeAttribute tag (h.attributes a ha)⟩, by decide, clean_nil⟩

theorem clean_writeEnd {tag : Tag} (h : tag.IsClean) : Clean (writeEnd tag) := by
  simp only [writeEnd, List.cons_append, clean_cons, clean_append]
  exact ⟨by decide, by decide, h.name, by decide, clean_nil⟩

mutual

/-- A clean tree is written as a clean page. -/
theorem clean_write (raw : Bool) (m : Markup) (h : m.IsClean) : Clean (write raw m) := by
  cases m with
  | text t =>
    rw [write]
    split
    · exact h
    · exact clean_flatMap fun c hc => clean_escapeText (h c hc)
  | element tag children =>
    have hstart := clean_writeTag h.1
    have hend := clean_writeEnd h.1
    cases children with
    | nil =>
      rw [write, clean_append]
      refine ⟨hstart, ?_⟩
      split
      · exact clean_nil
      · exact hend
    | cons child children =>
      rw [write, clean_append]
      refine ⟨hstart, ?_⟩
      split
      · exact clean_nil
      · rw [clean_append, clean_append]
        exact ⟨⟨clean_write _ child h.2.1, clean_writeAll _ children h.2.2⟩, hend⟩
  | comment t =>
    rw [write, clean_append, clean_append]
    exact ⟨⟨clean_of_all (by decide), h⟩, clean_of_all (by decide)⟩
  | instruction target t =>
    rw [write, clean_append, clean_append, clean_append]
    refine ⟨⟨⟨clean_of_all (by decide), h.1⟩, ?_⟩, clean_of_all (by decide)⟩
    split
    · exact clean_nil
    · exact clean_cons.mpr ⟨by decide, h.2⟩

theorem clean_writeAll (raw : Bool) (ms : List Markup) (h : Markup.AllClean ms) :
    Clean (writeAll raw ms) := by
  cases ms with
  | nil => exact clean_nil
  | cons m ms =>
    rw [writeAll, clean_append]
    exact ⟨clean_write raw m h.1, clean_writeAll raw ms h.2⟩

end

end Html

/-! ### Reading pieces -/

namespace Xml

variable {s rest : List Char}

theorem clean_name? {name : List Char} (hs : Clean s) (h : name? s = some (name, rest)) :
    Clean name ∧ Clean rest := by
  refine ⟨?_, hs.subset (name?_suffix h).subset⟩
  unfold name? at h
  split at h
  · split at h
    · cases h
      exact hs.subset (List.takeWhile_prefix _).subset
    · cases h
  · cases h

theorem clean_upTo? {mark before : List Char} (hs : Clean s) (h : upTo? mark s = some (before, rest)) :
    Clean before ∧ Clean rest := by
  induction s generalizing before with
  | nil => cases h
  | cons c s ih =>
    unfold upTo? at h
    split at h
    · rename_i after hafter
      cases h
      exact ⟨clean_nil, hs.subset (after?_suffix hafter).subset⟩
    · obtain ⟨⟨b, _⟩, hb, hpair⟩ := Option.map_eq_some_iff.mp h
      cases hpair
      obtain ⟨hbefore, hrest⟩ := ih (clean_cons.mp hs).2 hb
      exact ⟨clean_cons.mpr ⟨(clean_cons.mp hs).1, hbefore⟩, hrest⟩

theorem compatibleChar_of_number {n : Nat} {c : Char} (h : charOfNumber? n = some c) :
    compatibleChar c = true := by
  unfold charOfNumber? at h
  split at h
  · rename_i hchar
    cases h
    simp [isXmlChar] at hchar
    have hvalid : n.isValidChar := by
      simp only [Nat.isValidChar]
      omega
    simp [compatibleChar, toNat_charOfNat hvalid]
    omega
  · cases h

/-- A reference names a character that markup can hold. -/
theorem compatibleChar_of_reference? {c : Char} (h : reference? s = some (c, rest)) :
    compatibleChar c = true := by
  unfold reference? at h
  split at h
  · cases h
  · obtain ⟨d, hd, hpair⟩ := Option.map_eq_some_iff.mp h
    cases hpair
    unfold referenced? at hd
    split at hd
    · obtain ⟨n, -, hn⟩ := Option.bind_eq_some_iff.mp hd
      exact compatibleChar_of_number hn
    · obtain ⟨n, -, hn⟩ := Option.bind_eq_some_iff.mp hd
      exact compatibleChar_of_number hn
    · have hentities : ∀ e ∈ entities, compatibleChar e.2 = true := by decide
      obtain ⟨before, after, hsplit, -⟩ := List.lookup_eq_some_iff.mp hd
      have hmem : (_, c) ∈ entities :=
        hsplit ▸ List.mem_append_right before (List.mem_cons_self (l := after))
      have hchar := hentities _ hmem
      exact hchar

theorem clean_value? {quote : Char} {v : List Char} (hs : Clean s)
    (h : value? quote s = some (v, rest)) : Clean v ∧ Clean rest := by
  fun_induction value? quote s generalizing v rest with
  | case1 => cases h
  | case2 =>
    cases h
    exact ⟨clean_nil, (clean_cons.mp hs).2⟩
  | case3 => cases h
  | case4 => cases h
  | case5 s d tail hreference _ _ _ ih =>
    obtain ⟨⟨w, _⟩, hw, hpair⟩ := Option.map_eq_some_iff.mp h
    cases hpair
    have htail := (local_reference? _ _ _ hreference).1.suffix.subset
    obtain ⟨hvalue, hrest⟩ := ih ((clean_cons.mp hs).2.subset htail) hw
    exact ⟨clean_cons.mpr ⟨compatibleChar_of_reference? hreference, hvalue⟩, hrest⟩
  | case6 c s _ _ _ ih =>
    obtain ⟨⟨w, _⟩, hw, hpair⟩ := Option.map_eq_some_iff.mp h
    cases hpair
    obtain ⟨hvalue, hrest⟩ := ih (clean_cons.mp hs).2 hw
    refine ⟨clean_cons.mpr ⟨?_, hvalue⟩, hrest⟩
    split
    · decide
    · exact (clean_cons.mp hs).1

theorem clean_skipBlanks (hs : Clean s) : Clean (skipBlanks s) := hs.subset (skipBlanks_suffix s).subset

theorem clean_assigned? {v : List Char} (hs : Clean s) (h : assigned? s = some (v, rest)) :
    Clean v ∧ Clean rest := by
  unfold assigned? at h
  split at h
  · cases h
  · rename_i afterEquals hequals
    have hafter := clean_skipBlanks ((clean_skipBlanks hs).subset (after?_suffix hequals).subset)
    split at h
    · rename_i hquote
      rw [hquote] at hafter
      exact clean_value? (clean_cons.mp hafter).2 h
    · rename_i hquote
      rw [hquote] at hafter
      exact clean_value? (clean_cons.mp hafter).2 h
    · cases h

theorem clean_attribute? {a : List Char × List Char} (hs : Clean s)
    (h : attribute? s = some (a, rest)) : (Clean a.1 ∧ Clean a.2) ∧ Clean rest := by
  unfold attribute? at h
  split at h
  · cases h
  · rename_i name afterName hname
    obtain ⟨⟨v, _⟩, hv, hpair⟩ := Option.map_eq_some_iff.mp h
    cases hpair
    obtain ⟨hclean, hafter⟩ := clean_name? hs hname
    obtain ⟨hvalue, hrest⟩ := clean_assigned? hafter hv
    exact ⟨⟨hclean, hvalue⟩, hrest⟩

/-- Attributes with clean names and values, as they are written. -/
def CleanPairs (attributes : List (List Char × List Char)) : Prop :=
  ∀ a ∈ attributes, Clean a.1 ∧ Clean a.2

theorem clean_attributes? {found attributes : List (List Char × List Char)} {closed : Bool}
    (hs : Clean s) (hfound : CleanPairs found)
    (h : attributes? found s = some (attributes, closed, rest)) :
    CleanPairs attributes ∧ Clean rest := by
  have hskip := clean_skipBlanks hs
  fun_induction attributes? found s generalizing attributes rest with
  | case1 found s tail hend =>
    cases h
    rw [hend] at hskip
    exact ⟨hfound, (clean_cons.mp hskip).2⟩
  | case2 found s tail hend =>
    cases h
    rw [hend] at hskip
    exact ⟨hfound, (clean_cons.mp (clean_cons.mp hskip).2).2⟩
  | case3 => cases h
  | case4 => cases h
  | case5 found s _ name v tail hattribute _ _ _ _ _ ih =>
    obtain ⟨hpair, htail⟩ := clean_attribute? hskip hattribute
    refine ih htail ?_ h (clean_skipBlanks htail)
    exact List.forall_mem_append.mpr ⟨hfound, List.forall_mem_singleton.mpr hpair⟩
  | case6 => cases h

/-! ### Reading events -/

/-- An event of clean texts. -/
def Event.IsClean : Event → Prop
  | .text t => Clean t
  | .start name attributes _ => Clean name ∧ CleanPairs attributes
  | .stop name => Clean name
  | .comment t => Clean t
  | .instruction target t => Clean target ∧ Clean t

variable {event : Event}

theorem clean_instruction? (hs : Clean s) (h : instruction? s = some (event, rest)) :
    event.IsClean := by
  simp only [instruction?, Option.bind_eq_bind, Option.bind_eq_some_iff] at h
  obtain ⟨⟨target, afterTarget⟩, hname, h⟩ := h
  obtain ⟨htarget, hafter⟩ := clean_name? hs hname
  split at h
  · cases h
  · split at h
    · cases h
      exact ⟨htarget, clean_nil⟩
    · split at h
      · cases h
      · obtain ⟨⟨content, _⟩, hcontent, hpair⟩ := Option.bind_eq_some_iff.mp h
        cases hpair
        exact ⟨htarget, (clean_upTo? (clean_skipBlanks hafter) hcontent).1⟩

theorem clean_markup? (hs : Clean s) (h : markup? s = some (event, rest)) : event.IsClean := by
  unfold markup? at h
  split at h
  · simp only [endTag?, Option.bind_eq_bind, Option.bind_eq_some_iff, Option.pure_def,
      Option.some.injEq, Prod.mk.injEq] at h
    obtain ⟨⟨name, _⟩, hname, _, -, rfl, -⟩ := h
    exact (clean_name? (clean_cons.mp hs).2 hname).1
  · exact clean_instruction? (clean_cons.mp hs).2 h
  · rename_i s
    simp only [comment?, Option.bind_eq_bind, Option.bind_eq_some_iff, Option.pure_def,
      Option.some.injEq, Prod.mk.injEq] at h
    obtain ⟨⟨content, _⟩, hcontent, _, -, rfl, -⟩ := h
    have hs : Clean s := hs.subset (List.suffix_append ['!', '-', '-'] s).subset
    exact (clean_upTo? hs hcontent).1
  · simp only [Option.bind_eq_some_iff, section?, Option.bind_eq_bind, Option.pure_def,
      Option.some.injEq, Prod.mk.injEq] at h
    obtain ⟨tail, hopen, ⟨content, _⟩, hcontent, rfl, -⟩ := h
    exact (clean_upTo? ((clean_cons.mp hs).2.subset (after?_suffix hopen).subset) hcontent).1
  · simp only [startTag?, Option.bind_eq_bind, Option.bind_eq_some_iff, Option.pure_def,
      Option.some.injEq, Prod.mk.injEq] at h
    obtain ⟨⟨name, _⟩, hname, ⟨attributes, closed, _⟩, hattributes, rfl, -⟩ := h
    obtain ⟨hclean, hafter⟩ := clean_name? hs hname
    have hnone : CleanPairs [] := fun a ha => absurd ha List.not_mem_nil
    exact ⟨hclean, (clean_attributes? hafter hnone hattributes).1⟩

theorem clean_event? (hs : Clean s) (h : event? s = some (event, rest)) :
    event.IsClean ∧ Clean rest := by
  unfold event? at h
  split at h
  · cases h
  · have hinner := (clean_cons.mp hs).2
    exact ⟨clean_markup? hinner h, hinner.subset (local_markup? _ _ _ h).1.suffix.subset⟩
  · obtain ⟨⟨c, _⟩, hc, hpair⟩ := Option.map_eq_some_iff.mp h
    cases hpair
    have htail := (local_reference? _ _ _ hc).1.suffix.subset
    exact ⟨clean_cons.mpr ⟨compatibleChar_of_reference? hc, clean_nil⟩,
      (clean_cons.mp hs).2.subset htail⟩
  · split at h
    · cases h
    · cases h
      exact ⟨hs.subset (List.takeWhile_prefix _).subset, hs.subset (List.dropWhile_suffix _).subset⟩

theorem clean_events? {events : List Event} (hs : Clean s) (h : events? s = some events) :
    ∀ event ∈ events, event.IsClean := by
  fun_induction events? s generalizing events with
  | case1 =>
    cases h
    exact fun _ hevent => absurd hevent List.not_mem_nil
  | case2 => cases h
  | case3 s _ event rest hevent _ ih =>
    obtain ⟨more, hmore, rfl⟩ := Option.map_eq_some_iff.mp h
    obtain ⟨hclean, hrest⟩ := clean_event? hs hevent
    exact List.forall_mem_cons.mpr ⟨hclean, ih hrest hmore⟩

/-! ### Building trees -/

/-- A declared namespace with a clean name, printed under a clean prefix. -/
structure Declared.IsClean (d : Declared) : Prop where
  uri : Clean d.uri
  printed : Clean d.printed

/-- The namespaces in scope are clean. -/
def CleanScope (scope : List Declared) : Prop := ∀ d ∈ scope, d.IsClean

variable {scope : List Declared}

theorem clean_splitName {name pre base : List Char} (hname : Clean name)
    (h : splitName name = some (pre, base)) : Clean pre ∧ Clean base := by
  have hjoined : [':'].intercalate (name.splitOn ':') = name := List.intercalate_splitOn ':'
  unfold splitName at h
  split at h
  · rename_i hsplit
    cases h
    rw [hsplit, List.intercalate_singleton] at hjoined
    exact ⟨clean_nil, hjoined ▸ hname⟩
  · rename_i first second hsplit
    have hparts : first ++ ':' :: second = name := by
      rw [hsplit] at hjoined
      simpa [List.intercalate_cons_cons] using hjoined
    rw [← hparts, clean_append, clean_cons] at hname
    split at h
    · split at h
      · cases h
        exact ⟨hname.1, hname.2.2⟩
      · cases h
    · cases h
  · cases h

theorem clean_resolve? {pre : List Char} {space : Option Declared} (hscope : CleanScope scope)
    (h : resolve? scope pre = some space) : ∀ d ∈ space, d.IsClean := by
  unfold resolve? at h
  split at h
  · rename_i found hfound
    cases h
    intro d hd
    split at hd
    · cases hd
    · cases hd
      exact hscope _ (List.mem_of_find?_eq_some hfound)
  · split at h
    · cases h
      exact fun d hd => absurd hd (Option.not_mem_none d)
    · cases h

theorem clean_printedName {space : Option Declared} {base : List Char}
    (hspace : ∀ d ∈ space, d.IsClean) (hbase : Clean base) :
    Clean (printedName space base).toList := by
  unfold printedName
  split
  · rwa [String.toList_ofList]
  · rename_i d
    rw [String.toList_ofList]
    split
    · exact hbase
    · exact clean_append.mpr ⟨(hspace d rfl).printed, clean_cons.mpr ⟨by decide, hbase⟩⟩

theorem clean_declaration? {a d : List Char × List Char} (ha : Clean a.1 ∧ Clean a.2)
    (h : declaration? a = some d) : Clean d.1 ∧ Clean d.2 := by
  unfold declaration? at h
  split at h
  · rename_i hsplit
    obtain ⟨-, hbase⟩ := clean_splitName ha.1 hsplit
    split at h
    · cases h
      exact ⟨hbase, ha.2⟩
    · split at h
      · cases h
        exact ⟨clean_nil, ha.2⟩
      · cases h
  · cases h

theorem clean_declareIn (hscope : CleanScope scope) {d : List Char × List Char}
    (hd : Clean d.1 ∧ Clean d.2) : (declareIn scope d).IsClean := by
  refine ⟨hd.2, ?_⟩
  unfold declareIn knownPrefix?
  cases hknown : scope.find? _ with
  | none => exact hd.1
  | some known => exact (hscope known (List.mem_of_find?_eq_some hknown)).printed

theorem clean_expandedName? (hscope : CleanScope scope) {name : List Char} (hname : Clean name)
    {expanded : Option Declared × List Char} (h : expandedName? scope name = some expanded) :
    (∀ d ∈ expanded.1, d.IsClean) ∧ Clean expanded.2 := by
  simp only [expandedName?, Option.bind_eq_bind, Option.bind_eq_some_iff] at h
  obtain ⟨⟨pre, base⟩, hsplit, h⟩ := h
  obtain ⟨-, hbase⟩ := clean_splitName hname hsplit
  split at h
  · cases h
    exact ⟨fun d hd => absurd hd (Option.not_mem_none d), hbase⟩
  · obtain ⟨space, hspace, hpair⟩ := Option.bind_eq_some_iff.mp h
    cases hpair
    exact ⟨clean_resolve? hscope hspace, hbase⟩

/-- What holds of every value that an element can have holds of the values that a list has. -/
theorem forall_of_mapM {α β : Type} {f : α → Option β} {q : β → Prop} {as : List α} {bs : List β}
    (h : ∀ a ∈ as, ∀ b, f a = some b → q b) (hbs : as.mapM f = some bs) : ∀ b ∈ bs, q b := by
  induction as generalizing bs with
  | nil =>
    cases hbs
    exact fun b hb => absurd hb List.not_mem_nil
  | cons a as ih =>
    simp only [List.mapM_cons, Option.bind_eq_bind, Option.bind_eq_some_iff, Option.pure_def,
      Option.some.injEq] at hbs
    obtain ⟨b, hb, bs, hbs, rfl⟩ := hbs
    obtain ⟨ha, has⟩ := List.forall_mem_cons.mp h
    exact List.forall_mem_cons.mpr ⟨ha b hb, ih has hbs⟩

/-- The tag of a clean start event is clean, and so is the scope inside the element. -/
theorem clean_tagIn? {name : List Char} {attributes : List (List Char × List Char)} {tag : Tag}
    {inner : List Declared} (hscope : CleanScope scope) (hname : Clean name)
    (hattributes : CleanPairs attributes) (h : tagIn? scope name attributes = some (tag, inner)) :
    tag.IsClean ∧ CleanScope inner := by
  have hdeclared : CleanPairs (attributes.filterMap declaration?) := by
    intro d hd
    obtain ⟨a, ha, had⟩ := List.mem_filterMap.mp hd
    exact clean_declaration? (hattributes a ha) had
  by_cases hallowed : (attributes.filterMap declaration?).all allowed
  · simp only [tagIn?, hallowed, Bool.not_true, Bool.false_eq_true, if_false, Option.pure_def,
      Option.bind_eq_bind, Option.bind_eq_some_iff] at h
    obtain ⟨⟨pre, base⟩, hsplit, space, hspace, names, hnames, h⟩ := h
    split at h
    · cases h
    · cases h
      have hown : ∀ d ∈ (attributes.filterMap declaration?).filter (·.1 != reserved.written),
          Clean d.1 ∧ Clean d.2 := fun d hd => hdeclared d (List.mem_of_mem_filter hd)
      have hinner : CleanScope (((attributes.filterMap declaration?).filter
          (·.1 != reserved.written)).map (declareIn scope) ++ scope) := by
        refine List.forall_mem_append.mpr ⟨fun d hd => ?_, hscope⟩
        obtain ⟨a, ha, rfl⟩ := List.mem_map.mp hd
        exact clean_declareIn hscope (hown a ha)
      have hexpanded := forall_of_mapM (fun a ha expanded => clean_expandedName? hinner
        (hattributes a (List.mem_of_mem_filter ha)).1) hnames
      refine ⟨⟨clean_printedName (clean_resolve? hinner hspace) (clean_splitName hname hsplit).2,
        fun d hd => hown d (List.mem_of_mem_filter hd), ?_⟩, hinner⟩
      intro a ha
      rw [← List.map_uncurry_zip_eq_zipWith] at ha
      obtain ⟨⟨expanded, pair⟩, hmem, rfl⟩ := List.mem_map.mp ha
      obtain ⟨hleft, hright⟩ := List.of_mem_zip hmem
      obtain ⟨hspace, hbase⟩ := hexpanded expanded hleft
      refine ⟨clean_printedName hspace hbase, ?_⟩
      rintro _ ⟨⟩
      exact (hattributes pair (List.mem_of_mem_filter hright)).2
  · simp [tagIn?, hallowed] at h

/-- Open elements with clean tags, after clean siblings, in clean scopes. -/
def CleanFrames (opened : List Frame) : Prop :=
  ∀ frame ∈ opened, frame.tag.IsClean ∧ Markup.AllClean frame.before ∧ CleanScope frame.scope

/-- Clean events build clean nodes. -/
theorem clean_build? {opened : List Frame} {siblings nodes : List Markup} {events : List Event}
    (hopened : CleanFrames opened) (hsiblings : Markup.AllClean siblings) (hscope : CleanScope scope)
    (hevents : ∀ event ∈ events, event.IsClean)
    (h : build? opened siblings scope events = some nodes) : Markup.AllClean nodes := by
  have hconcat {siblings : List Markup} {m : Markup} (hsiblings : Markup.AllClean siblings)
      (hm : m.IsClean) : Markup.AllClean (siblings ++ [m]) :=
    Markup.allClean_append.mpr ⟨hsiblings, Markup.allClean_singleton.mpr hm⟩
  induction events generalizing opened siblings scope with
  | nil =>
    rw [build?] at h
    split at h
    · cases h
      exact hsiblings
    · cases h
  | cons event events ih =>
    obtain ⟨hevent, hmore⟩ := List.forall_mem_cons.mp hevents
    cases event with
    | text t =>
      rw [build?] at h
      exact ih hopened (Markup.allClean_pushText hsiblings hevent) hscope hmore h
    | comment t =>
      rw [build?] at h
      exact ih hopened (hconcat hsiblings (Markup.isClean_comment.mpr hevent)) hscope hmore h
    | instruction target t =>
      rw [build?] at h
      exact ih hopened (hconcat hsiblings (Markup.isClean_instruction.mpr hevent)) hscope hmore h
    | start name attributes closed =>
      rw [build?] at h
      split at h
      · cases h
      · rename_i tag inner htag
        obtain ⟨hclean, hinner⟩ := clean_tagIn? hscope hevent.1 hevent.2 htag
        split at h
        · have hempty := Markup.isClean_element.mpr ⟨hclean, Markup.allClean_nil⟩
          exact ih hopened (hconcat hsiblings hempty) hscope hmore h
        · exact ih (List.forall_mem_cons.mpr ⟨⟨hclean, hsiblings, hscope⟩, hopened⟩)
            Markup.allClean_nil hinner hmore h
    | stop name =>
      cases opened with
      | nil => cases h
      | cons frame opened =>
        obtain ⟨⟨htag, hbefore, hframe⟩, hopened⟩ := List.forall_mem_cons.mp hopened
        rw [build?] at h
        split at h
        · have helement := Markup.isClean_element.mpr ⟨htag, hsiblings⟩
          exact ih hopened (hconcat hbefore helement) hframe hmore h
        · cases h

/-- What is read from clean content is clean. -/
theorem clean_content? {nodes : List Markup} (hs : Clean s) (h : content? s = some nodes) :
    Markup.AllClean nodes := by
  obtain ⟨events, hevents, hbuild⟩ := Option.bind_eq_some_iff.mp h
  have hreserved : CleanScope [reserved] :=
    List.forall_mem_singleton.mpr ⟨clean_of_all (by decide), clean_of_all (by decide)⟩
  exact clean_build? (fun _ hframe => absurd hframe List.not_mem_nil) Markup.allClean_nil hreserved
    (clean_events? (clean_normalizeLines hs) hevents) hbuild

end Xml

end DeltaPreview
