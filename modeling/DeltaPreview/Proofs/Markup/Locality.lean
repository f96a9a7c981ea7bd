import DeltaPreview.Proofs.Markup.Tags

/-!
# Pieces of markup are read locally

A reader takes a piece from the front of a text and leaves the rest.  What it takes does not depend on
what follows the text: with more text at the end, the reader takes the same piece, and the other text
is left too.  A name is the exception, since it runs as far as it can; but in a piece of markup
something always stands after a name.

A piece never ends in a square bracket (`Xml.Closes`), so a bracket before the text that is left is a
piece of text.
-/

namespace DeltaPreview.Xml

/-- The end of a text after a character that is no closing bracket. -/
def Closes (s after : List Char) : Prop := ∃ c, c ≠ ']' ∧ c :: after <:+ s

theorem Closes.suffix {s after : List Char} (h : Closes s after) : after <:+ s := by
  obtain ⟨c, -, hsuffix⟩ := h
  exact (List.suffix_cons c after).trans hsuffix

theorem Closes.trans {s t after : List Char} (h : Closes s after) (hst : s <:+ t) :
    Closes t after := by
  obtain ⟨c, hc, hsuffix⟩ := h
  exact ⟨c, hc, hsuffix.trans hst⟩

/-- A reader that leaves the end of a text, and takes the same piece whatever follows the text. -/
def Local {α : Type} (read? : List Char → Option (α × List Char)) : Prop :=
  ∀ s a after, read? s = some (a, after) →
    Closes s after ∧ ∀ rest, read? (s ++ rest) = some (a, after ++ rest)

/-! ### Words, marks and blanks -/

theorem skipBlanks_suffix (s : List Char) : skipBlanks s <:+ s := List.dropWhile_suffix isBlank

theorem skipBlanks_append {s t : List Char} (h : skipBlanks s = t) (ht : t ≠ [])
    (rest : List Char) : skipBlanks (s ++ rest) = t ++ rest := by
  unfold skipBlanks at h ⊢
  rw [List.dropWhile_append, h]
  simp [ht]

theorem eq_of_after? {word s after : List Char} (h : after? word s = some after) :
    s = word ++ after := by
  unfold after? at h
  split at h
  · rename_i hbegins
    obtain ⟨more, rfl⟩ := List.isPrefixOf_iff_prefix.mp hbegins
    cases h
    rw [List.drop_left]
  · cases h

theorem after?_suffix {word s after : List Char} (h : after? word s = some after) : after <:+ s := by
  rw [eq_of_after? h]
  exact List.suffix_append word after

theorem after?_closes {word s after : List Char} {c : Char} (h : after? word s = some after)
    (hlast : word.getLast? = some c) (hc : c ≠ ']') : Closes s after := by
  obtain ⟨start, rfl⟩ := List.getLast?_eq_some_iff.mp hlast
  refine ⟨c, hc, start, ?_⟩
  rw [eq_of_after? h, List.append_assoc]
  rfl

theorem after?_append {word s after : List Char} (h : after? word s = some after)
    (rest : List Char) : after? word (s ++ rest) = some (after ++ rest) := by
  have hbegins : word.isPrefixOf (word ++ (after ++ rest)) = true :=
    List.isPrefixOf_iff_prefix.mpr (List.prefix_append word _)
  rw [eq_of_after? h, List.append_assoc, after?, if_pos hbegins, List.drop_left]

/-- A word does not begin a longer text if it does not begin a text that is long enough. -/
theorem after?_append_none {word s : List Char} (h : after? word s = none)
    (hlength : word.length ≤ s.length) (rest : List Char) : after? word (s ++ rest) = none := by
  unfold after? at h ⊢
  split at h
  · cases h
  · rename_i hbegins
    refine if_neg fun hlonger => hbegins ?_
    have hlonger := List.isPrefixOf_iff_prefix.mp hlonger
    exact List.isPrefixOf_iff_prefix.mpr
      (List.prefix_of_prefix_length_le hlonger (List.prefix_append s rest) hlength)

theorem local_upTo? {mark : List Char} {c : Char} (hlast : mark.getLast? = some c) (hc : c ≠ ']') :
    Local (upTo? mark) := by
  intro s before after h
  induction s generalizing before with
  | nil => cases h
  | cons d s ih =>
    have hlength := upTo?_length h
    unfold upTo? at h
    cases hfound : after? mark (d :: s) with
    | some found =>
      rw [hfound] at h
      cases h
      refine ⟨after?_closes hfound hlast hc, fun rest => ?_⟩
      have hmore := after?_append hfound rest
      rw [List.cons_append] at hmore ⊢
      rw [upTo?, hmore]
    | none =>
      rw [hfound] at h
      obtain ⟨⟨b, _⟩, hb, hpair⟩ := Option.map_eq_some_iff.mp h
      cases hpair
      obtain ⟨hcloses, happend⟩ := ih _ hb
      refine ⟨hcloses.trans (List.suffix_cons d s), fun rest => ?_⟩
      -- The mark stands further on, so it would fit here.
      have hmore := after?_append_none hfound (by omega) rest
      rw [List.cons_append] at hmore ⊢
      rw [upTo?, hmore]
      exact Option.map_eq_some_iff.mpr ⟨_, happend rest, rfl⟩

theorem name?_suffix {s name after : List Char} (h : name? s = some (name, after)) :
    after <:+ s := by
  unfold name? at h
  split at h
  · split at h
    · cases h
      exact List.dropWhile_suffix isNamePart
    · cases h
  · cases h

/-- A name that something follows. -/
theorem name?_append {s name after : List Char} (h : name? s = some (name, after))
    (hafter : after ≠ []) (rest : List Char) : name? (s ++ rest) = some (name, after ++ rest) := by
  unfold name? at h
  split at h
  · rename_i c s
    split at h
    · rename_i hc
      cases h
      have hlength : ((c :: s).takeWhile isNamePart).length ≠ (c :: s).length := fun hlength => by
        have hsplit := congrArg List.length
          (List.takeWhile_append_dropWhile (p := isNamePart) (l := c :: s))
        rw [List.length_append] at hsplit
        exact hafter (List.length_eq_zero_iff.mp (by omega))
      rw [List.cons_append, name?, if_pos hc, ← List.cons_append, List.takeWhile_append,
        List.dropWhile_append, if_neg hlength]
      simp [hafter]
    · cases h
  · cases h

/-! ### Values and attributes -/

theorem local_reference? : Local reference? := by
  intro s c after h
  unfold reference? at h
  split at h
  · cases h
  · rename_i body _ hbody
    obtain ⟨d, hd, hpair⟩ := Option.map_eq_some_iff.mp h
    cases hpair
    obtain ⟨hcloses, happend⟩ := local_upTo? (c := ';') rfl (by decide) _ _ _ hbody
    refine ⟨hcloses, fun rest => ?_⟩
    rw [reference?, happend rest]
    exact Option.map_eq_some_iff.mpr ⟨_, hd, rfl⟩

theorem local_value? {quote : Char} (hc : quote ≠ ']') : Local (value? quote) := by
  intro s v after h
  fun_induction value? quote s generalizing v after with
  | case1 => cases h
  | case2 s =>
    cases h
    exact ⟨⟨quote, hc, List.suffix_refl _⟩, fun rest => value?_quote _ _⟩
  | case3 => cases h
  | case4 => cases h
  | case5 s d tail hreference _ hquote _ ih =>
    obtain ⟨⟨w, _⟩, hw, hpair⟩ := Option.map_eq_some_iff.mp h
    cases hpair
    obtain ⟨hcloses, happend⟩ := ih _ _ hw
    obtain ⟨hreferenced, happend'⟩ := local_reference? _ _ _ hreference
    refine ⟨hcloses.trans (hreferenced.suffix.trans (List.suffix_cons _ _)), fun rest => ?_⟩
    rw [List.cons_append, value?_reference (fun e => hquote e.symm) (happend' rest), happend rest]
    rfl
  | case6 c s hquote hlt hamp ih =>
    obtain ⟨⟨w, _⟩, hw, hpair⟩ := Option.map_eq_some_iff.mp h
    cases hpair
    obtain ⟨hcloses, happend⟩ := ih _ _ hw
    refine ⟨hcloses.trans (List.suffix_cons _ _), fun rest => ?_⟩
    rw [List.cons_append, value?_cons hquote hlt hamp, happend rest]
    rfl

theorem local_assigned? : Local assigned? := by
  intro s v after h
  unfold assigned? at h
  split at h
  · cases h
  · rename_i afterEquals hequals
    have hne : skipBlanks s ≠ [] := fun hnil => by
      rw [hnil] at hequals
      cases hequals
    have hsuffix : skipBlanks afterEquals <:+ s :=
      (skipBlanks_suffix _).trans ((after?_suffix hequals).trans (skipBlanks_suffix s))
    -- The value stands between double or single quotes.
    split at h
    · rename_i quoted hquoted
      obtain ⟨hvalue, happend⟩ := local_value? (by decide) _ _ _ h
      rw [hquoted] at hsuffix
      refine ⟨hvalue.trans ((List.suffix_cons _ _).trans hsuffix), fun rest => ?_⟩
      rw [assigned?, skipBlanks_append rfl hne, after?_append hequals]
      simp only [skipBlanks_append hquoted (List.cons_ne_nil _ _), List.cons_append]
      exact happend rest
    · rename_i quoted hquoted
      obtain ⟨hvalue, happend⟩ := local_value? (by decide) _ _ _ h
      rw [hquoted] at hsuffix
      refine ⟨hvalue.trans ((List.suffix_cons _ _).trans hsuffix), fun rest => ?_⟩
      rw [assigned?, skipBlanks_append rfl hne, after?_append hequals]
      simp only [skipBlanks_append hquoted (List.cons_ne_nil _ _), List.cons_append]
      exact happend rest
    · cases h

theorem local_attribute? : Local attribute? := by
  intro s a after h
  unfold attribute? at h
  split at h
  · cases h
  · rename_i name afterName hname
    obtain ⟨⟨v, _⟩, hv, hpair⟩ := Option.map_eq_some_iff.mp h
    cases hpair
    have hne : afterName ≠ [] := fun hnil => by
      rw [hnil] at hv
      cases hv
    obtain ⟨hcloses, happend⟩ := local_assigned? _ _ _ hv
    refine ⟨hcloses.trans (name?_suffix hname), fun rest => ?_⟩
    rw [attribute?, name?_append hname hne]
    simp only [happend rest, Option.map_some]

section Attributes

variable {found : List (List Char × List Char)} {s tail : List Char}

theorem attributes?_of_end (h : skipBlanks s = '>' :: tail) :
    attributes? found s = some (found, false, tail) := by
  rw [attributes?.eq_def]
  split
  · rename_i heq
    cases h.symm.trans heq
    rfl
  · rename_i heq
    cases h.symm.trans heq
  · rename_i hend _
    exact absurd h (hend _)

theorem attributes?_of_closed (h : skipBlanks s = '/' :: '>' :: tail) :
    attributes? found s = some (found, true, tail) := by
  rw [attributes?.eq_def]
  split
  · rename_i heq
    cases h.symm.trans heq
  · rename_i heq
    cases h.symm.trans heq
    rfl
  · rename_i hclosed
    exact absurd h (hclosed _)

theorem attributes?_of_attribute (hblank : s.head?.any isBlank = true) {name v : List Char}
    (h : attribute? (skipBlanks s) = some ((name, v), tail)) (hnew : hasName name found = false) :
    attributes? found s = attributes? (found ++ [(name, v)]) tail := by
  rw [attributes?.eq_def]
  split
  · rename_i heq
    rw [heq] at h
    cases h
  · rename_i heq
    rw [heq] at h
    cases h
  · rw [if_pos hblank]
    split
    · rename_i heq
      rw [h] at heq
      cases heq
    · rename_i heq
      cases h.symm.trans heq
      simp [hnew]

end Attributes

theorem local_attributes? (found : List (List Char × List Char)) :
    ∀ s attributes closed after, attributes? found s = some (attributes, closed, after) →
      Closes s after ∧
        ∀ rest, attributes? found (s ++ rest) = some (attributes, closed, after ++ rest) := by
  intro s attributes closed after h
  fun_induction attributes? found s generalizing attributes after with
  | case1 found s t hs =>
    cases h
    refine ⟨⟨'>', by decide, hs ▸ skipBlanks_suffix s⟩, fun rest => ?_⟩
    exact attributes?_of_end (skipBlanks_append hs (List.cons_ne_nil _ _) rest)
  | case2 found s t hs =>
    cases h
    have hend : '>' :: t <:+ '/' :: '>' :: t := List.suffix_cons _ _
    refine ⟨⟨'>', by decide, hend.trans (hs ▸ skipBlanks_suffix s)⟩, fun rest => ?_⟩
    exact attributes?_of_closed (skipBlanks_append hs (List.cons_ne_nil _ _) rest)
  | case3 => cases h
  | case4 => cases h
  | case5 found s hblank name v tail hattribute _ _ hnew _ _ ih =>
    have hne : skipBlanks s ≠ [] := fun hnil => by
      rw [hnil] at hattribute
      cases hattribute
    obtain ⟨hcloses, happend⟩ := ih _ _ h
    obtain ⟨hread, happend'⟩ := local_attribute? _ _ _ hattribute
    refine ⟨hcloses.trans (hread.suffix.trans (skipBlanks_suffix s)), fun rest => ?_⟩
    have hblank' : (s ++ rest).head?.any isBlank = true := by
      cases s with
      | nil => cases hblank
      | cons c s => exact hblank
    have hmore := happend' rest
    rw [← skipBlanks_append rfl hne] at hmore
    rw [attributes?_of_attribute hblank' hmore (by simpa using hnew), happend rest]
  | case6 => cases h

/-! ### Pieces of markup -/

theorem local_startTag? : Local startTag? := by
  intro s event after h
  simp only [startTag?, Option.bind_eq_bind, Option.bind_eq_some_iff, Option.pure_def,
    Option.some.injEq, Prod.mk.injEq] at h ⊢
  obtain ⟨⟨name, afterName⟩, hname, ⟨attributes, closed, tail⟩, hattributes, rfl, rfl⟩ := h
  have hne : afterName ≠ [] := fun hnil => by
    have hlength := attributes?_length hattributes
    simp [hnil] at hlength
  obtain ⟨hcloses, happend⟩ := local_attributes? _ _ _ _ _ hattributes
  exact ⟨hcloses.trans (name?_suffix hname), fun rest =>
    ⟨_, name?_append hname hne rest, _, happend rest, rfl, rfl⟩⟩

theorem local_endTag? : Local endTag? := by
  intro s event after h
  simp only [endTag?, Option.bind_eq_bind, Option.bind_eq_some_iff, Option.pure_def,
    Option.some.injEq, Prod.mk.injEq] at h ⊢
  obtain ⟨⟨name, afterName⟩, hname, tail, hend, rfl, rfl⟩ := h
  have hblanks : skipBlanks afterName ≠ [] := fun hnil => by
    rw [hnil] at hend
    cases hend
  have hne : afterName ≠ [] := fun hnil => hblanks (by rw [hnil]; rfl)
  have hcloses : Closes (skipBlanks afterName) tail := after?_closes hend rfl (by decide)
  refine ⟨hcloses.trans ((skipBlanks_suffix _).trans (name?_suffix hname)),
    fun rest => ⟨_, name?_append hname hne rest, _, ?_, rfl, rfl⟩⟩
  rw [skipBlanks_append rfl hblanks]
  exact after?_append hend rest

theorem local_comment? : Local comment? := by
  intro s event after h
  simp only [comment?, Option.bind_eq_bind, Option.bind_eq_some_iff, Option.pure_def,
    Option.some.injEq, Prod.mk.injEq] at h ⊢
  obtain ⟨⟨content, afterHyphens⟩, hcontent, tail, hend, rfl, rfl⟩ := h
  obtain ⟨hhyphens, happend⟩ := local_upTo? (c := '-') rfl (by decide) _ _ _ hcontent
  exact ⟨(after?_closes hend rfl (by decide)).trans hhyphens.suffix, fun rest =>
    ⟨_, happend rest, _, after?_append hend rest, rfl, rfl⟩⟩

theorem local_section? : Local section? := by
  intro s event after h
  simp only [section?, Option.bind_eq_bind, Option.bind_eq_some_iff, Option.pure_def,
    Option.some.injEq, Prod.mk.injEq] at h ⊢
  obtain ⟨⟨content, tail⟩, hcontent, rfl, rfl⟩ := h
  obtain ⟨hcloses, happend⟩ := local_upTo? (c := '>') (by decide) (by decide) _ _ _ hcontent
  exact ⟨hcloses, fun rest => ⟨_, happend rest, rfl, rfl⟩⟩

/-- A blank is not the end of an instruction. -/
theorem after?_append_blank {s : List Char} (h : (skipBlanks s).length ≠ s.length)
    (rest : List Char) : after? ['?', '>'] (s ++ rest) = none := by
  cases s with
  | nil => exact absurd rfl h
  | cons c s =>
    have hc : c ≠ '?' := by
      rintro rfl
      exact h rfl
    simp [after?, List.isPrefixOf, hc.symm]

theorem local_instruction? : Local instruction? := by
  intro s event after h
  simp only [instruction?, Option.bind_eq_bind, Option.bind_eq_some_iff] at h ⊢
  obtain ⟨⟨target, afterTarget⟩, hname, h⟩ := h
  have hsuffix := name?_suffix hname
  split at h
  · cases h
  · rename_i hreserved
    cases hend : after? ['?', '>'] afterTarget with
    | some tail =>
      rw [hend] at h
      cases h
      have hne : afterTarget ≠ [] := fun hnil => by
        rw [hnil] at hend
        cases hend
      have hcloses : Closes afterTarget after := after?_closes hend rfl (by decide)
      refine ⟨hcloses.trans hsuffix, fun rest => ⟨_, name?_append hname hne rest, ?_⟩⟩
      rw [if_neg hreserved, after?_append hend rest]
      rfl
    | none =>
      rw [hend] at h
      simp only at h
      split at h
      · cases h
      · rename_i hlength
        simp only [Option.bind_eq_some_iff, Option.pure_def, Option.some.injEq,
          Prod.mk.injEq] at h
        obtain ⟨⟨content, tail⟩, hcontent, rfl, rfl⟩ := h
        have hskip : skipBlanks afterTarget ≠ [] := fun hnil => by
          rw [hnil] at hcontent
          cases hcontent
        have hne : afterTarget ≠ [] := fun hnil => hskip (by rw [hnil]; rfl)
        obtain ⟨hcloses, happend⟩ := local_upTo? (c := '>') rfl (by decide) _ _ _ hcontent
        refine ⟨hcloses.trans ((skipBlanks_suffix _).trans hsuffix),
          fun rest => ⟨_, name?_append hname hne rest, ?_⟩⟩
        have hskip' := skipBlanks_append rfl hskip rest
        have hlength' :
            (skipBlanks (afterTarget ++ rest)).length ≠ (afterTarget ++ rest).length := by
          rw [hskip', List.length_append, List.length_append]
          omega
        rw [if_neg hreserved, after?_append_blank hlength rest]
        simp only
        rw [if_neg hlength', hskip', happend rest]
        rfl

theorem nameStart_of_startTag? {s after : List Char} {event : Event}
    (h : startTag? s = some (event, after)) : ∃ c t, s = c :: t ∧ isNameStart c = true := by
  cases s with
  | nil => cases h
  | cons c s =>
    refine ⟨c, s, rfl, ?_⟩
    by_contra hc
    simp [startTag?, name?, hc] at h

theorem markup?_of_nameStart {c : Char} (hc : isNameStart c = true) (s : List Char) :
    markup? (c :: s) = startTag? (c :: s) := by
  unfold markup?
  split
  · rename_i heq
    cases heq
    exact absurd hc (by decide)
  · rename_i heq
    cases heq
    exact absurd hc (by decide)
  · rename_i heq
    cases heq
    exact absurd hc (by decide)
  · rename_i heq
    cases heq
    exact absurd hc (by decide)
  · rfl

theorem local_markup? : Local markup? := by
  intro s event after h
  unfold markup? at h
  split at h
  · obtain ⟨hcloses, happend⟩ := local_endTag? _ _ _ h
    exact ⟨hcloses.trans (List.suffix_cons _ _), happend⟩
  · obtain ⟨hcloses, happend⟩ := local_instruction? _ _ _ h
    exact ⟨hcloses.trans (List.suffix_cons _ _), happend⟩
  · rename_i s
    obtain ⟨hcloses, happend⟩ := local_comment? _ _ _ h
    exact ⟨hcloses.trans (List.suffix_append ['!', '-', '-'] s), happend⟩
  · obtain ⟨tail, hopen, hsection⟩ := Option.bind_eq_some_iff.mp h
    obtain ⟨hcloses, happend⟩ := local_section? _ _ _ hsection
    refine ⟨hcloses.trans ((after?_suffix hopen).trans (List.suffix_cons _ _)), fun rest => ?_⟩
    obtain rfl := eq_of_after? hopen
    show (after? "[CDATA[".toList ("[CDATA[".toList ++ tail ++ rest)).bind section? = _
    rw [after?_append hopen rest]
    exact happend rest
  · obtain ⟨c, s, rfl, hc⟩ := nameStart_of_startTag? h
    obtain ⟨hcloses, happend⟩ := local_startTag? _ _ _ h
    refine ⟨hcloses, fun rest => ?_⟩
    rw [List.cons_append, markup?_of_nameStart hc]
    exact happend rest

end DeltaPreview.Xml
