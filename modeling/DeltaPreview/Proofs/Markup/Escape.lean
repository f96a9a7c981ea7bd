import DeltaPreview.Markup.Escape
import DeltaPreview.Proofs.Markup.Content
import DeltaPreview.Text.Compatible
import DeltaPreview.Text.Line

/-!
# Escaped text reads as itself

Literal text is escaped character by character, and so are quoted values.  Escaping goes along with what a reader
does first, which is to drop the characters that no markup can hold and to normalise line ends (`compatible_replace`,
`normalizeLines_replace`): a reference holds no such character and stands for none.  What is left is read as the
text itself (`reads_text`), or as the value with its blanks as spaces (`quotes_quoted`).  So whatever a value is, it
does not end before its closing quote.
-/

namespace DeltaPreview.Escape

/-- What is written for a character. -/
def replaceChar (reference? : Char → Option String) (c : Char) : List Char :=
  ((reference? c).map String.toList).getD [c]

/-- What a reader does first to a character cannot be done to it if it has a reference. -/
structure IsSteady (c : Char) (reference : List Char) : Prop where
  compatible : compatibleChar c = true
  notReturn : c ≠ '\r'
  notLine : c ≠ '\n'
  /-- The reference begins with an ampersand and holds no line end and no character that markup cannot hold. -/
  begins : reference.head? = some '&'
  clear : reference.all (fun d => compatibleChar d && d != '\r') = true

/-- References are steady. -/
def AreSteady (reference? : Char → Option String) : Prop :=
  ∀ c r, reference? c = some r → IsSteady c r.toList

theorem areSteady_reference? : AreSteady reference? := by
  intro c r h
  unfold reference? at h
  split at h <;> cases h <;> exact ⟨by decide, by decide, by decide, by decide, by decide⟩

theorem areSteady_quotedReference? : AreSteady quotedReference? := by
  intro c r h
  unfold quotedReference? at h
  split at h
  · cases h
    exact ⟨by decide, by decide, by decide, by decide, by decide⟩
  · cases h
    exact ⟨by decide, by decide, by decide, by decide, by decide⟩
  · exact areSteady_reference? _ r h

section Replace

variable {reference? : Char → Option String}

theorem replace_append (s t : Text) :
    replace reference? (s ++ t) = replace reference? s ++ replace reference? t := List.flatMap_append

theorem replaceChar_of_none {c : Char} (h : reference? c = none) : replaceChar reference? c = [c] := by
  rw [replaceChar, h]
  rfl

theorem replaceChar_of_some {c : Char} {r : String} (h : reference? c = some r) :
    replaceChar reference? c = r.toList := by
  rw [replaceChar, h]
  rfl

/-- A text without characters that have references is written as it is. -/
theorem replace_ofChars {cs : List Char} (h : ∀ c ∈ cs, reference? c = none) :
    replace reference? (Text.ofChars cs) = Text.ofChars cs := by
  induction cs with
  | nil => rfl
  | cons c cs ih =>
    obtain ⟨hc, hcs⟩ := List.forall_mem_cons.mp h
    have hcons : Text.ofChars (c :: cs) = Text.ofChars [c] ++ Text.ofChars cs := rfl
    rw [hcons, replace_append, ih hcs]
    simp [replace, Text.ofChars, CodePoint.toChar?, hc]

variable (hsteady : AreSteady reference?)

include hsteady

/-- Only characters that no markup can hold are dropped, and they have no references. -/
theorem compatible_replace (t : Text) :
    (replace reference? t).compatible = t.compatible.flatMap (replaceChar reference?) := by
  have hone (g : CodePoint) : (replace reference? [g]).compatible =
      (Text.compatible [g]).flatMap (replaceChar reference?) := by
    cases g with
    | surrogate i => rfl
    | char c =>
      have hwritten : replace reference? [.char c] = Text.ofChars (replaceChar reference? c) := by
        cases h : reference? c with
        | none => simp [replace, replaceChar, CodePoint.toChar?, h, Text.ofChars]
        | some r => simp [replace, replaceChar, CodePoint.toChar?, h, Text.ofString]
      have hclear : Text.compatible [.char c] = [c].filter compatibleChar := rfl
      rw [hwritten, Text.compatible, Text.chars_ofChars, hclear, List.filter_singleton]
      cases h : reference? c with
      | none =>
        rw [replaceChar_of_none h, List.filter_singleton]
        cases compatibleChar c with
        | false => rfl
        | true => rw [cond_true, List.flatMap_singleton, replaceChar_of_none h]
      | some r =>
        have hr := hsteady c r h
        have hkept : r.toList.filter compatibleChar = r.toList :=
          List.filter_eq_self.mpr fun d hd => (Bool.and_eq_true_iff.mp (List.all_eq_true.mp hr.clear d hd)).1
        rw [hr.compatible, cond_true, List.flatMap_singleton, replaceChar_of_some h, hkept]
  induction t with
  | nil => rfl
  | cons g t ih =>
    have hcons : g :: t = [g] ++ t := rfl
    rw [hcons, replace_append, Text.compatible_append, Text.compatible_append, hone, ih,
      List.flatMap_append]

theorem head_replaceChar {c : Char} (h : c ≠ '\n') (rest : List Char) :
    (replaceChar reference? c ++ rest).head? ≠ some '\n' := by
  cases hc : reference? c with
  | none => simpa [replaceChar_of_none hc] using h
  | some r =>
    rw [replaceChar_of_some hc, List.head?_append, (hsteady c r hc).begins]
    simp

theorem replaceChar_return : replaceChar reference? '\r' = ['\r'] := by
  cases h : reference? '\r' with
  | none => exact replaceChar_of_none h
  | some r => exact absurd rfl (hsteady _ r h).notReturn

theorem replaceChar_line : replaceChar reference? '\n' = ['\n'] := by
  cases h : reference? '\n' with
  | none => exact replaceChar_of_none h
  | some r => exact absurd rfl (hsteady _ r h).notLine

theorem return_not_mem_replaceChar {c : Char} (h : c ≠ '\r') : '\r' ∉ replaceChar reference? c := by
  cases hc : reference? c with
  | none =>
    rw [replaceChar_of_none hc, List.mem_singleton]
    exact Ne.symm h
  | some r =>
    intro hmem
    rw [replaceChar_of_some hc] at hmem
    simpa using List.all_eq_true.mp (hsteady c r hc).clear '\r' hmem

/-- Normalising line ends goes along with escaping. -/
theorem normalizeLines_replace (u : List Char) :
    normalizeLines (u.flatMap (replaceChar reference?)) =
      (normalizeLines u).flatMap (replaceChar reference?) := by
  -- Along the rewriting: the end, `\r\n`, a lone `\r`, and any other character.
  fun_induction normalizeLines u with
  | case1 => rfl
  | case2 rest ih =>
    rw [List.flatMap_cons, List.flatMap_cons, List.flatMap_cons, replaceChar_return hsteady,
      replaceChar_line hsteady, List.singleton_append, List.singleton_append, List.singleton_append,
      normalizeLines, ih]
  | case3 rest hrest ih =>
    have hnext : ∀ after, rest.flatMap (replaceChar reference?) = '\n' :: after → False := by
      intro after hafter
      cases rest with
      | nil => cases hafter
      | cons c rest =>
        refine head_replaceChar hsteady (c := c) (fun e => hrest rest (by rw [e]))
          (rest.flatMap (replaceChar reference?)) ?_
        rw [← List.flatMap_cons, hafter]
        rfl
    rw [List.flatMap_cons, List.flatMap_cons, replaceChar_return hsteady, replaceChar_line hsteady,
      List.singleton_append, List.singleton_append, normalizeLines.eq_3 _ hnext, ih]
  | case4 c rest hpair hreturn ih =>
    rw [List.flatMap_cons, List.flatMap_cons,
      normalizeLines_append_of_not_mem (return_not_mem_replaceChar hsteady hreturn), ih]

end Replace

/-! ### Literal text -/

theorem textChar_of_ne {c : Char} (h : c ≠ '\r') : replaceChar reference? c = Xml.escapeText c := by
  unfold replaceChar reference? Xml.escapeText
  split <;> first | contradiction | rfl | skip
  split <;> first | contradiction | rfl

theorem reads_replaceChar (u : List Char) :
    Xml.Reads (normalizeLines (u.flatMap (replaceChar reference?))) [.text (normalizeLines u)] := by
  have hwritten : (normalizeLines u).flatMap (replaceChar reference?) =
      (normalizeLines u).flatMap Xml.escapeText :=
    List.flatMap_congr fun c hc => textChar_of_ne fun h => return_not_mem_normalizeLines _ (h ▸ hc)
  rw [normalizeLines_replace areSteady_reference?, hwritten]
  exact Xml.reads_text _

/-- Literal text reads as itself, with its line ends normalised. -/
theorem reads_text (t : Text) :
    Xml.Reads (normalizeLines (text t).compatible) [.text (normalizeLines t.compatible)] := by
  rw [text, compatible_replace areSteady_reference?]
  exact reads_replaceChar t.compatible

/-! ### Quoted values -/

/-- A value as it is read: without the characters that no markup can hold, and with spaces for blanks and line
ends. -/
def valueRead (t : Text) : List Char :=
  (normalizeLines t.compatible).map fun c => if Xml.isBlank c then ' ' else c

/-- A value with references is read up to its closing quote, and as itself but for its blanks. -/
theorem value?_replaceChar (u rest : List Char) :
    Xml.value? '"' (u.flatMap (replaceChar quotedReference?) ++ '"' :: rest) =
      some (u.map (fun c => if Xml.isBlank c then ' ' else c), rest) := by
  induction u with
  | nil => exact Xml.value?_quote '"' rest
  | cons c u ih =>
    rw [List.flatMap_cons, List.append_assoc, List.map_cons]
    have reference (body : List Char) (hc : replaceChar quotedReference? c = '&' :: body)
        (hblank : Xml.isBlank c = false)
        (hbody : ∀ after, Xml.reference? (body ++ after) = some (c, after)) :
        Xml.value? '"' (replaceChar quotedReference? c ++
            (u.flatMap (replaceChar quotedReference?) ++ '"' :: rest)) =
          some ((if Xml.isBlank c then ' ' else c) ::
            u.map (fun c => if Xml.isBlank c then ' ' else c), rest) := by
      rw [hc, List.cons_append, Xml.value?_reference (by decide) (hbody _), ih, hblank]
      rfl
    by_cases hquot : c = '"'
    · subst hquot; exact reference "quot;".toList rfl rfl fun _ => rfl
    by_cases hsingle : c = '\''
    · subst hsingle; exact reference "#x27;".toList rfl rfl fun _ => rfl
    by_cases hamp : c = '&'
    · subst hamp; exact reference "amp;".toList rfl rfl fun _ => rfl
    by_cases hlt : c = '<'
    · subst hlt; exact reference "lt;".toList rfl rfl fun _ => rfl
    by_cases hgt : c = '>'
    · subst hgt; exact reference "gt;".toList rfl rfl fun _ => rfl
    · have hnone : quotedReference? c = none := by
        unfold quotedReference? reference?
        split <;> first | contradiction | skip
        split <;> first | contradiction | rfl
      rw [replaceChar_of_none hnone, List.singleton_append, Xml.value?_cons hquot hlt hamp, ih]
      rfl

/-- A quoted value reads as itself, as far as a value can. -/
theorem quotes_quoted (t : Text) :
    Xml.Quotes ('"' :: (normalizeLines (quoted t).compatible ++ ['"'])) (valueRead t) := by
  rw [quoted, compatible_replace areSteady_quotedReference?,
    normalizeLines_replace areSteady_quotedReference?]
  exact Xml.quotes_of_double (value?_replaceChar _)

end DeltaPreview.Escape
