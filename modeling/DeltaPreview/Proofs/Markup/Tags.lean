import DeltaPreview.Markup.Html.Printer
import DeltaPreview.Markup.Xml.Printer
import DeltaPreview.Markup.Xml.Reader
import Mathlib.Data.List.Nodup

/-!
# Tags that read back

A tag whose names are plain words can be written and read again: the strict reader of tags takes the
written tag from the front of a text, with the names as they are, and leaves the rest.  How the values
are quoted is left open here (`Xml.Quotes`), since the two printers quote differently:

* `Xml.quotes_escapeValue`: a value that is quoted for XML reads as itself;
* `Html.quotes_writeValue`: a value that is quoted for HTML reads as something, whatever it contains,
  and so cannot end before its closing quote.
-/

namespace DeltaPreview

/-- A name of letters, digits and hyphens that begins with a letter. -/
def isWord (name : String) : Bool :=
  name.toList.head?.any Char.isAlpha && name.toList.all fun c => c.isAlphanum || c == '-'

theorem isWord_cons {name : String} (h : isWord name = true) :
    ∃ c cs, name.toList = c :: cs ∧ c.isAlpha = true ∧
      ∀ d ∈ c :: cs, (d.isAlphanum || d == '-') = true := by
  unfold isWord at h
  cases hname : name.toList with
  | nil => simp [hname] at h
  | cons c cs =>
    rw [hname] at h
    simp only [List.head?_cons, Option.any_some, Bool.and_eq_true, List.all_eq_true] at h
    exact ⟨c, cs, rfl, h.1, h.2⟩

namespace Xml

/-! ### Names -/

theorem isNameStart_of_isAlpha {c : Char} (h : c.isAlpha = true) : isNameStart c = true := by
  simp [isNameStart, h]

theorem isNamePart_of_word {c : Char} (h : (c.isAlphanum || c == '-') = true) :
    isNamePart c = true := by
  simp only [Char.isAlphanum, Bool.or_eq_true] at h
  rcases h with (h | h) | h
  · simp [isNamePart, isNameStart, h]
  · simp [isNamePart, h]
  · simp [isNamePart, h]

/-- A word is read up to what cannot belong to a name. -/
theorem name?_word {name : String} (h : isWord name = true) (rest : List Char)
    (hrest : rest.takeWhile isNamePart = []) :
    name? (name.toList ++ rest) = some (name.toList, rest) := by
  obtain ⟨c, cs, hname, halpha, hall⟩ := isWord_cons h
  have hparts : ∀ d ∈ c :: cs, isNamePart d = true := fun d hd => isNamePart_of_word (hall d hd)
  -- What follows begins with no part of a name, so nothing of it is taken.
  have hdrop : rest.dropWhile isNamePart = rest := by
    have := List.takeWhile_append_dropWhile (p := isNamePart) (l := rest)
    rwa [hrest, List.nil_append] at this
  rw [hname]
  simp only [name?, List.cons_append, isNameStart_of_isAlpha halpha, if_true]
  rw [← List.cons_append, List.takeWhile_append_of_pos hparts,
    List.dropWhile_append_of_pos hparts, hrest, hdrop, List.append_nil]

/-! ### Values -/

theorem value?_quote (q : Char) (rest : List Char) : value? q (q :: rest) = some ([], rest) := by
  rw [value?.eq_def]
  simp

theorem value?_cons {q c : Char} (hq : c ≠ q) (hlt : c ≠ '<') (hamp : c ≠ '&') (s : List Char) :
    value? q (c :: s) =
      (value? q s).map fun r => ((if isBlank c then ' ' else c) :: r.1, r.2) := by
  rw [value?.eq_def]
  simp [hq, hlt, hamp]

theorem value?_reference {q d : Char} {s after : List Char} (hq : q ≠ '&')
    (h : reference? s = some (d, after)) :
    value? q ('&' :: s) = (value? q after).map fun r => (d :: r.1, r.2) := by
  rw [value?.eq_def]
  have hq' : ¬ '&' = q := fun e => hq e.symm
  simp only [hq', if_false, if_true, Char.reduceEq]
  split
  · simp_all
  · rename_i heq
    rw [h] at heq
    cases heq
    rfl

/-- A value as it stands in a tag, with its quotes, reads as `v`. -/
def Quotes (quoted v : List Char) : Prop :=
  ∀ rest, assigned? ('=' :: (quoted ++ rest)) = some (v, rest)

theorem quotes_of_double {inner v : List Char}
    (h : ∀ rest, value? '"' (inner ++ '"' :: rest) = some (v, rest)) :
    Quotes ('"' :: (inner ++ ['"'])) v := by
  intro rest
  rw [List.cons_append, List.append_assoc]
  exact h rest

theorem quotes_of_single {inner v : List Char}
    (h : ∀ rest, value? '\'' (inner ++ '\'' :: rest) = some (v, rest)) :
    Quotes ('\'' :: (inner ++ ['\''])) v := by
  intro rest
  rw [List.cons_append, List.append_assoc]
  exact h rest

/-- A character that is neither a quote nor a blank nor the beginning of markup is written as it is.
-/
theorem escapeValue_of_ne {c : Char} (hquot : c ≠ '"') (hline : c ≠ '\n') (htab : c ≠ '\t')
    (hamp : c ≠ '&') (hlt : c ≠ '<') (hgt : c ≠ '>') (hret : c ≠ '\r') : escapeValue c = [c] := by
  unfold escapeValue escapeText
  split <;> first | contradiction | skip
  split <;> first | contradiction | rfl

theorem value?_escapeValue (v rest : List Char) :
    value? '"' (v.flatMap escapeValue ++ '"' :: rest) = some (v, rest) := by
  induction v with
  | nil => exact value?_quote '"' rest
  | cons c v ih =>
    rw [List.flatMap_cons, List.append_assoc]
    have reference (body : List Char) (hc : escapeValue c = '&' :: body)
        (hbody : ∀ after, reference? (body ++ after) = some (c, after)) :
        value? '"' (escapeValue c ++ (v.flatMap escapeValue ++ '"' :: rest)) =
          some (c :: v, rest) := by
      rw [hc, List.cons_append, value?_reference (by decide) (hbody _), ih]
      rfl
    by_cases hquot : c = '"'
    · subst hquot; exact reference "quot;".toList rfl fun _ => rfl
    by_cases hline : c = '\n'
    · subst hline; exact reference "#10;".toList rfl fun _ => rfl
    by_cases htab : c = '\t'
    · subst htab; exact reference "#9;".toList rfl fun _ => rfl
    by_cases hamp : c = '&'
    · subst hamp; exact reference "amp;".toList rfl fun _ => rfl
    by_cases hlt : c = '<'
    · subst hlt; exact reference "lt;".toList rfl fun _ => rfl
    by_cases hgt : c = '>'
    · subst hgt; exact reference "gt;".toList rfl fun _ => rfl
    by_cases hret : c = '\r'
    · subst hret; exact reference "#13;".toList rfl fun _ => rfl
    · have hblank : (if isBlank c then ' ' else c) = c := by
        by_cases hspace : c = ' '
        · subst hspace; rfl
        · simp [isBlank, *]
      rw [escapeValue_of_ne hquot hline htab hamp hlt hgt hret, List.singleton_append,
        value?_cons hquot hlt hamp, ih, hblank]
      rfl

/-- A value that is quoted for XML reads as itself. -/
theorem quotes_escapeValue (v : List Char) :
    Quotes ('"' :: (v.flatMap escapeValue ++ ['"'])) v :=
  quotes_of_double (value?_escapeValue v)

/-! ### Attributes and tags -/

/-- An attribute as it is written: its name, its value with the quotes, and what the value reads as.
-/
structure Written where
  name : String
  quoted : List Char
  value : List Char

/-- The spelling of an attribute in a tag, with the space before it. -/
def Written.spelled (a : Written) : List Char := ' ' :: (a.name.toList ++ '=' :: a.quoted)

/-- An attribute that can be read back. -/
structure Written.Reads (a : Written) : Prop where
  word : isWord a.name = true
  quotes : Quotes a.quoted a.value

theorem attribute?_spelled {a : Written} (h : a.Reads) (rest : List Char) :
    attribute? (a.name.toList ++ '=' :: (a.quoted ++ rest)) =
      some ((a.name.toList, a.value), rest) := by
  simp only [attribute?, name?_word h.word ('=' :: (a.quoted ++ rest)) rfl,
    h.quotes rest]
  rfl

theorem skipBlanks_word {name : String} (h : isWord name = true) (rest : List Char) :
    skipBlanks (' ' :: (name.toList ++ rest)) = name.toList ++ rest := by
  obtain ⟨c, cs, hname, halpha, -⟩ := isWord_cons h
  have hc : isBlank c = false := by
    by_contra hb
    simp only [isBlank, Bool.not_eq_false, Bool.or_eq_true, beq_iff_eq] at hb
    rcases hb with ((rfl | rfl) | rfl) | rfl <;> simp at halpha
  rw [hname]
  simp [skipBlanks, List.dropWhile, hc, show isBlank ' ' = true from rfl]

/-- One attribute is read, if no attribute before it has its name. -/
theorem attributes?_cons {a : Written} (h : a.Reads) {found : List (List Char × List Char)}
    (hnew : a.name.toList ∉ found.map Prod.fst) (rest : List Char) :
    attributes? found (a.spelled ++ rest) =
      attributes? (found ++ [(a.name.toList, a.value)]) rest := by
  have hspelled : a.spelled ++ rest = ' ' :: (a.name.toList ++ '=' :: (a.quoted ++ rest)) := by
    simp [Written.spelled]
  have hskip := skipBlanks_word h.word ('=' :: (a.quoted ++ rest))
  have hnone : hasName a.name.toList found = false := by simpa [hasName] using hnew
  obtain ⟨c, cs, hname, halpha, -⟩ := isWord_cons h.word
  rw [hspelled, attributes?.eq_def]
  split
  · rename_i heq
    rw [hskip, hname] at heq
    simp only [List.cons_append, List.cons.injEq] at heq
    simp [heq.1] at halpha
  · rename_i heq
    rw [hskip, hname] at heq
    simp only [List.cons_append, List.cons.injEq] at heq
    simp [heq.1] at halpha
  · have hblank : (' ' :: (a.name.toList ++ '=' :: (a.quoted ++ rest))).head?.any isBlank = true :=
      rfl
    rw [if_pos hblank]
    split
    · rename_i heq
      simp [hskip, attribute?_spelled h] at heq
    · rename_i heq
      rw [hskip, attribute?_spelled h] at heq
      cases heq
      simp [hnone]

/-- The attributes of a tag are read in order, up to the end of the tag. -/
theorem attributes?_spelled {as : List Written} (h : ∀ a ∈ as, a.Reads)
    (found : List (List Char × List Char))
    (hnodup : (found.map Prod.fst ++ as.map (·.name.toList)).Nodup) {tail rest : List Char}
    {closed : Bool} (htail : ∀ found, attributes? found tail = some (found, closed, rest)) :
    attributes? found (as.flatMap Written.spelled ++ tail) =
      some (found ++ as.map fun a => (a.name.toList, a.value), closed, rest) := by
  induction as generalizing found with
  | nil => simpa using htail found
  | cons a as ih =>
    have hnew : a.name.toList ∉ found.map Prod.fst := by
      intro hmem
      exact (List.nodup_append.mp hnodup).2.2 _ hmem _ List.mem_cons_self rfl
    rw [List.flatMap_cons, List.append_assoc, attributes?_cons (h a List.mem_cons_self) hnew,
      ih (fun b hb => h b (List.mem_cons_of_mem _ hb)) _ (by simpa using hnodup)]
    simp

theorem attributes?_end (found : List (List Char × List Char)) (rest : List Char) :
    attributes? found ('>' :: rest) = some (found, false, rest) := by
  rw [attributes?.eq_def]
  rfl

theorem attributes?_closed (found : List (List Char × List Char)) (rest : List Char) :
    attributes? found ('/' :: '>' :: rest) = some (found, true, rest) := by
  rw [attributes?.eq_def]
  rfl

/-- A start tag is read as it is written. -/
theorem markup?_start {name : String} (hname : isWord name = true) {as : List Written}
    (h : ∀ a ∈ as, a.Reads) (hnodup : (as.map (·.name.toList)).Nodup) {tail rest : List Char}
    {closed : Bool} (htail : ∀ found, attributes? found tail = some (found, closed, rest))
    (hend : tail.takeWhile isNamePart = []) :
    markup? (name.toList ++ (as.flatMap Written.spelled ++ tail)) =
      some (.start name.toList (as.map fun a => (a.name.toList, a.value)) closed, rest) := by
  have hname? : name? (name.toList ++ (as.flatMap Written.spelled ++ tail)) =
      some (name.toList, as.flatMap Written.spelled ++ tail) := by
    apply name?_word hname _
    cases as with
    | nil => simpa using hend
    | cons a as => rfl
  have hattributes := attributes?_spelled h [] (by simpa using hnodup) htail
  have hstart : startTag? (name.toList ++ (as.flatMap Written.spelled ++ tail)) =
      some (.start name.toList (as.map fun a => (a.name.toList, a.value)) closed, rest) := by
    simp [startTag?, hname?, hattributes]
  obtain ⟨c, cs, hc, halpha, -⟩ := isWord_cons hname
  rw [← hstart, hc]
  unfold markup?
  split
  all_goals first
    | rfl
    | (rename_i heq
       simp only [List.cons_append, List.cons.injEq] at heq
       simp [heq.1] at halpha)

/-- An end tag is read as it is written. -/
theorem markup?_stop {name : String} (hname : isWord name = true) (rest : List Char) :
    markup? ('/' :: (name.toList ++ '>' :: rest)) = some (.stop name.toList, rest) := by
  have hname? := name?_word hname ('>' :: rest) rfl
  show endTag? (name.toList ++ '>' :: rest) = _
  simp only [endTag?, hname?]
  rfl

end Xml

/-! ### Values in HTML -/

namespace Html

/-- A text in which no angle bracket stands and every ampersand begins a reference, spelled in
printable characters. -/
inductive Escaped : List Char → Prop
  | nil : Escaped []
  | char {c s} : c ≠ '<' → c ≠ '>' → c ≠ '&' → Escaped s → Escaped (c :: s)
  | reference {body d s} : (∀ after, Xml.reference? (body ++ after) = some (d, after)) →
      (∀ c ∈ body, encodeAddress c = [c] ∧ c ≠ '"') → Escaped s →
      Escaped ('&' :: (body ++ s))

namespace Escaped

theorem append {s t : List Char} (hs : Escaped s) (ht : Escaped t) : Escaped (s ++ t) := by
  induction hs with
  | nil => exact ht
  | char hlt hgt hamp _ ih => exact .char hlt hgt hamp ih
  | reference href hbody _ ih =>
    rw [List.cons_append, List.append_assoc]
    exact .reference href hbody ih

theorem flatMap {α : Type} {l : List α} {f : α → List Char} (h : ∀ a ∈ l, Escaped (f a)) :
    Escaped (l.flatMap f) := by
  induction l with
  | nil => exact .nil
  | cons a l ih =>
    rw [List.flatMap_cons]
    exact (h a List.mem_cons_self).append (ih fun b hb => h b (List.mem_cons_of_mem _ hb))

/-- Characters that begin no markup. -/
theorem of_forall {s : List Char} (h : ∀ c ∈ s, c ≠ '<' ∧ c ≠ '>' ∧ c ≠ '&') : Escaped s := by
  induction s with
  | nil => exact .nil
  | cons c s ih =>
    obtain ⟨hlt, hgt, hamp⟩ := h c List.mem_cons_self
    exact .char hlt hgt hamp (ih fun d hd => h d (List.mem_cons_of_mem _ hd))

/-- A reference by itself. -/
theorem of_reference (body : List Char) {d : Char}
    (href : ∀ after, Xml.reference? (body ++ after) = some (d, after))
    (hbody : body.all (fun c => encodeAddress c == [c] && c != '"') = true) :
    Escaped ('&' :: body) := by
  have := Escaped.reference href (fun c hc => by simpa using List.all_eq_true.mp hbody c hc) .nil
  rwa [List.append_nil] at this

theorem dropWhile {s : List Char} (h : Escaped s) : Escaped (s.dropWhile isBlank) := by
  induction h with
  | nil => exact .nil
  | @char c s hlt hgt hamp hs ih =>
    by_cases hc : isBlank c = true
    · simpa [List.dropWhile, hc] using ih
    · simpa [List.dropWhile, hc] using Escaped.char hlt hgt hamp hs
  | @reference body d s href hbody hs _ =>
    simpa [List.dropWhile, show isBlank '&' = false from rfl] using
      Escaped.reference href hbody hs

theorem digit_ne (n : Nat) (h : n < 16) :
    let c := (Nat.digitChar n).toUpper
    c ≠ '<' ∧ c ≠ '>' ∧ c ≠ '&' := by
  revert n
  decide

/-- A byte in percent encoding begins no markup. -/
theorem percent (b : UInt8) : Escaped (percent b) := by
  have hb : b.toNat < 256 := b.toNat_lt
  apply of_forall
  intro c hc
  simp only [Html.percent, List.mem_cons, List.not_mem_nil, or_false] at hc
  rcases hc with rfl | rfl | rfl
  · decide
  · exact digit_ne _ (by omega)
  · exact digit_ne _ (by omega)

/-- A text stays escaped when its characters are rewritten, if references are kept. -/
theorem rewrite {f : Char → List Char} (hf : ∀ c, c ≠ '<' → c ≠ '>' → c ≠ '&' → Escaped (f c))
    (hamp : f '&' = ['&']) (hbody : ∀ c, Html.encodeAddress c = [c] → c ≠ '"' → f c = [c])
    {s : List Char} (h : Escaped s) : Escaped (s.flatMap f) := by
  induction h with
  | nil => exact .nil
  | char hlt hgt hc _ ih => exact (hf _ hlt hgt hc).append ih
  | @reference body d s href hprint _ ih =>
    have hsame : body.flatMap f = body := by
      rw [List.flatMap_congr fun c hc => hbody c (hprint c hc).1 (hprint c hc).2]
      exact List.flatMap_singleton' body
    rw [List.flatMap_cons, List.flatMap_append, hamp, hsame]
    show Escaped ('&' :: (body ++ s.flatMap f))
    exact .reference href hprint ih

theorem encodeAddress {s : List Char} (h : Escaped s) : Escaped (s.flatMap encodeAddress) := by
  refine rewrite (fun c hlt hgt hamp => ?_) rfl (fun c hc _ => hc) h
  unfold Html.encodeAddress
  split
  · exact .char hlt hgt hamp .nil
  · exact flatMap fun b _ => percent b

theorem escapeQuote {s : List Char} (h : Escaped s) : Escaped (s.flatMap escapeQuote) := by
  refine rewrite (fun c hlt hgt hamp => ?_) rfl (fun c _ hc => ?_) h
  · unfold Html.escapeQuote
    split
    · exact of_reference "quot;".toList (d := '"') (fun _ => rfl) (by decide)
    · exact .char hlt hgt hamp .nil
  · unfold Html.escapeQuote
    split
    · exact absurd rfl hc
    · rfl

/-- A value without its quote inside is read up to its quote. -/
theorem value? {q : Char} (hq : q ≠ '&') {s : List Char} (h : Escaped s) (hs : q ∉ s) :
    ∃ v, ∀ rest, Xml.value? q (s ++ q :: rest) = some (v, rest) := by
  induction h with
  | nil => exact ⟨[], Xml.value?_quote q⟩
  | @char c s hlt hgt hamp _ ih =>
    simp only [List.mem_cons, not_or] at hs
    obtain ⟨v, hv⟩ := ih hs.2
    refine ⟨(if Xml.isBlank c then ' ' else c) :: v, fun rest => ?_⟩
    rw [List.cons_append, Xml.value?_cons (fun e => hs.1 e.symm) hlt hamp, hv]
    rfl
  | @reference body d s href _ _ ih =>
    simp only [List.mem_cons, List.mem_append, not_or] at hs
    obtain ⟨v, hv⟩ := ih hs.2.2
    refine ⟨d :: v, fun rest => ?_⟩
    rw [List.cons_append, List.append_assoc, Xml.value?_reference hq (href _), hv]
    rfl

end Escaped

/-- The text of a value or of an element begins no markup. -/
theorem escaped_escapeText (c : Char) : Escaped (escapeText c) := by
  unfold escapeText
  split
  · exact .of_reference "amp;".toList (d := '&') (fun _ => rfl) (by decide)
  · exact .of_reference "lt;".toList (d := '<') (fun _ => rfl) (by decide)
  · exact .of_reference "gt;".toList (d := '>') (fun _ => rfl) (by decide)
  · exact .of_reference "#13;".toList (d := '\r') (fun _ => rfl) (by decide)
  · rename_i hamp hlt hgt _
    split
    · exact .of_reference "#xFFFD;".toList (d := '\ufffd') (fun _ => rfl) (by decide)
    · exact .char hlt hgt hamp .nil

theorem not_mem_escapeQuote (s : List Char) : '"' ∉ s.flatMap escapeQuote := by
  simp only [List.mem_flatMap, not_exists, not_and]
  intro c _ hc
  unfold escapeQuote at hc
  split at hc
  · revert hc
    decide
  · rename_i hne
    exact hne (List.mem_singleton.mp hc).symm

/-- A value between quotes reads as something. -/
theorem quotes_quote {s : List Char} (h : Escaped s) : ∃ v, Xml.Quotes (quote s) v := by
  unfold quote
  split
  · rename_i hc
    have hs : '\'' ∉ s := by
      intro hmem
      simp [hmem] at hc
    obtain ⟨v, hv⟩ := h.value? (by decide) hs
    exact ⟨v, Xml.quotes_of_single hv⟩
  · obtain ⟨v, hv⟩ := h.escapeQuote.value? (by decide) (not_mem_escapeQuote s)
    exact ⟨v, Xml.quotes_of_double hv⟩

/-- The value of an attribute, whatever it is, reads as something: it does not end before its closing
quote. -/
theorem quotes_writeValue (tag : Tag) (a : Attribute) (v : List Char) :
    ∃ w, Xml.Quotes (writeValue tag a v) w := by
  have hescaped : Escaped (v.flatMap escapeText) := .flatMap fun c _ => escaped_escapeText c
  unfold writeValue
  apply quotes_quote
  split
  -- An address loses its leading blanks and is percent-encoded; both keep references.
  · exact hescaped.dropWhile.encodeAddress
  · exact hescaped

end Html

/-! ### Plain tags -/

/-- Names of a tag and its attributes that are words, none of which a printer or a reader treats in a
way of its own. -/
def plainNames (name : String) (attributes : List String) : Bool :=
  isWord name && !Html.named Html.rawNames name &&
    attributes.all (fun a => isWord a && !Html.named Html.booleanNames a && a != "xmlns") &&
    decide attributes.Nodup

/-- A tag in no namespace, of plain names. -/
def Tag.IsPlain (tag : Tag) : Prop :=
  ∃ name attributes, tag = .plain name attributes ∧ plainNames name (attributes.map Prod.fst) = true

section Plain

variable {name : String} {attributes : List (String × List Char)}

theorem plainNames_isWord {names : List String} (h : plainNames name names = true) :
    isWord name = true := by
  simp only [plainNames, Bool.and_eq_true] at h
  exact h.1.1.1

theorem plainNames_attribute {names : List String} (h : plainNames name names = true) {a : String}
    (ha : a ∈ names) : isWord a = true ∧ Html.named Html.booleanNames a = false ∧ a ≠ "xmlns" := by
  simp only [plainNames, Bool.and_eq_true, List.all_eq_true] at h
  simpa [and_assoc] using h.1.2 a ha

/-- The names of attributes are distinct also as lists of characters. -/
theorem plainNames_nodup {α : Type} {f : α → String} {as : List α}
    (h : plainNames name (as.map f) = true) : (as.map fun a => (f a).toList).Nodup := by
  simp only [plainNames, Bool.and_eq_true, decide_eq_true_eq] at h
  have := List.Nodup.map (fun _ _ e => String.toList_injective e) h.2
  rwa [List.map_map] at this

/-- A tag that is written for HTML is read with the names of its attributes as they are. -/
theorem Html.markup?_writeTag (h : plainNames name (attributes.map Prod.fst) = true)
    (rest : List Char) :
    ∃ body values, writeTag (.plain name attributes) ++ rest = '<' :: body ∧
      Xml.markup? body = some (.start name.toList values false, rest) ∧
      values.map Prod.fst = attributes.map (·.1.toList) := by
  let tag := Tag.plain name attributes
  have hquotes (a : String × List Char) := quotes_writeValue tag (.plain a.1 a.2) a.2
  choose value hvalue using hquotes
  let written (a : String × List Char) : Xml.Written :=
    ⟨a.1, writeValue tag (.plain a.1 a.2) a.2, value a⟩
  have hreads : ∀ w ∈ attributes.map written, w.Reads := by
    intro w hw
    obtain ⟨a, ha, rfl⟩ := List.mem_map.mp hw
    exact ⟨(plainNames_attribute h (List.mem_map_of_mem ha)).1, hvalue a⟩
  have hnodup : ((attributes.map written).map (·.name.toList)).Nodup := by
    rw [List.map_map]
    exact plainNames_nodup h
  have hattribute : ∀ a ∈ attributes,
      writeAttribute tag (.plain a.1 a.2) = (written a).spelled := by
    intro a ha
    simp [writeAttribute, Attribute.plain, (plainNames_attribute h (List.mem_map_of_mem ha)).2.1,
      Xml.Written.spelled, written]
  have hspelled : writeTag tag ++ rest =
      '<' :: (name.toList ++ ((attributes.map written).flatMap Xml.Written.spelled ++
        '>' :: rest)) := by
    rw [List.flatMap_map, ← List.flatMap_congr hattribute]
    simp [writeTag, tag, Tag.plain, List.flatMap_map]
  have := Xml.markup?_start (plainNames_isWord h) hreads hnodup
    (fun found => Xml.attributes?_end found rest) rfl
  exact ⟨_, _, hspelled, this, by simp [List.map_map, written, Function.comp_def]⟩

end Plain

end DeltaPreview
