import DeltaPreview.Proofs.Latex.Concatenation
import DeltaPreview.Proofs.Latex.Symbol

/-!
# The atoms of formulas

A formula is built from leaves, spaces and line ends.  `Math.atoms` are these atoms in the order of the tree.
The builders keep them in order, and another alphabet changes them one by one.

Whatever a source holds, markup can hold the atoms of its formula (`fits_of_parse`): the parser refuses other
leaves, and everything else comes from tables.
-/

namespace DeltaPreview.Latex

namespace Math

mutual

/-- The atoms of a formula, in order. -/
def atoms : Math → List Math
  | leaf l => [leaf l]
  | space width => [space width]
  | newline => [newline]
  | row children => allAtoms children
  | fraction _ numerator denominator => numerator.atoms ++ denominator.atoms
  | sqrt children => allAtoms children
  | root base index => base.atoms ++ index.atoms
  | accent base mark => base.atoms ++ [leaf mark]
  | sub base lower => base.atoms ++ lower.atoms
  | sup base upper => base.atoms ++ upper.atoms
  | subsup base lower upper => base.atoms ++ lower.atoms ++ upper.atoms
  | table _ rows => rowAtoms rows

/-- The atoms of a sequence of formulas. -/
def allAtoms : List Math → List Math
  | [] => []
  | m :: ms => m.atoms ++ allAtoms ms

/-- The atoms of the cells of a table row. -/
def cellAtoms : List (List Math) → List Math
  | [] => []
  | cell :: cells => allAtoms cell ++ cellAtoms cells

/-- The atoms of the rows of a table. -/
def rowAtoms : List (List (List Math)) → List Math
  | [] => []
  | cells :: rows => cellAtoms cells ++ rowAtoms rows

end

/-! ### Builders -/

@[simp] theorem allAtoms_append (ms ns : List Math) :
    allAtoms (ms ++ ns) = allAtoms ms ++ allAtoms ns := by
  induction ms with
  | nil => rfl
  | cons m ms ih => rw [List.cons_append, allAtoms, allAtoms, ih, List.append_assoc]

@[simp] theorem rowAtoms_append (rows more : List (List (List Math))) :
    rowAtoms (rows ++ more) = rowAtoms rows ++ rowAtoms more := by
  induction rows with
  | nil => rfl
  | cons cells rows ih => rw [List.cons_append, rowAtoms, rowAtoms, ih, List.append_assoc]

@[simp] theorem atoms_single (ms : List Math) : (single ms).atoms = allAtoms ms := by
  match ms with
  | [] => rfl
  | [m] => simp [single, allAtoms]
  | m :: n :: ms => rfl

@[simp] theorem atoms_fenced (left right : List Char) (ms : List Math) :
    (fenced left ms right).atoms = allAtoms (fence left) ++ allAtoms ms ++ allAtoms (fence right) := by
  rw [fenced, atoms, allAtoms_append, allAtoms_append]

/-- An index stands after the base that it belongs to. -/
@[simp] theorem atoms_radical (index : Option (List Math)) (base : List Math) :
    (radical index base).atoms = allAtoms base ++ allAtoms (index.getD []) := by
  unfold radical
  split
  · simp [atoms]
  · rename_i hindex
    cases index with
    | none => simp [atoms, allAtoms]
    | some ms =>
      cases ms with
      | nil => simp [atoms, allAtoms]
      | cons m ms => exact absurd rfl (hindex m ms)

@[simp] theorem rowAtoms_consCell (cell : List Math) (rows : List (List (List Math))) :
    rowAtoms (consCell cell rows) = allAtoms cell ++ rowAtoms rows := by
  cases rows with
  | nil => simp [consCell, rowAtoms, cellAtoms]
  | cons row rows => rw [consCell, rowAtoms, rowAtoms, cellAtoms, List.append_assoc]

/-- The row that is left out has no atoms. -/
@[simp] theorem rowAtoms_dropEmptyRow (rows : List (List (List Math))) :
    rowAtoms (dropEmptyRow rows) = rowAtoms rows := by
  unfold dropEmptyRow
  split
  · rename_i hlast
    conv_rhs => rw [← List.dropLast_append_getLast? _ hlast, rowAtoms_append]
    exact (List.append_nil _).symm
  · rfl

/-- The atoms around a table are its delimiters. -/
@[simp] theorem atoms_formula (e : Environment) (rows : List (List (List Math))) :
    (e.formula rows).atoms = allAtoms (fence e.left) ++ rowAtoms rows ++ allAtoms (fence e.right) := by
  unfold Environment.formula
  simp only
  split
  · rename_i hnone
    obtain ⟨hleft, hright⟩ := Bool.and_eq_true_iff.mp hnone
    simp [List.isEmpty_iff.mp hleft, List.isEmpty_iff.mp hright, atoms, fence, allAtoms]
  · simp [atoms, allAtoms]

/-! ### Alphabets -/

mutual

@[simp] theorem atoms_withVariant (v : Variant) (m : Math) :
    (m.withVariant v).atoms = m.atoms.map (withVariant v) := by
  match m with
  | leaf _ | space _ | newline => rfl
  | row children => exact allAtoms_withVariants v children
  | fraction _ numerator denominator =>
    simp [withVariant, atoms, atoms_withVariant v numerator, atoms_withVariant v denominator]
  | sqrt children => exact allAtoms_withVariants v children
  | root base index =>
    simp [withVariant, atoms, atoms_withVariant v base, atoms_withVariant v index]
  | accent base mark => simp [withVariant, atoms, atoms_withVariant v base]
  | sub base lower =>
    simp [withVariant, atoms, atoms_withVariant v base, atoms_withVariant v lower]
  | sup base upper =>
    simp [withVariant, atoms, atoms_withVariant v base, atoms_withVariant v upper]
  | subsup base lower upper =>
    simp [withVariant, atoms, atoms_withVariant v base, atoms_withVariant v lower,
      atoms_withVariant v upper]
  | table _ rows => exact rowAtoms_withVariantRows v rows

@[simp] theorem allAtoms_withVariants (v : Variant) (ms : List Math) :
    allAtoms (withVariants v ms) = (allAtoms ms).map (withVariant v) := by
  match ms with
  | [] => rfl
  | m :: ms =>
    simp [withVariants, allAtoms, atoms_withVariant v m, allAtoms_withVariants v ms]

theorem cellAtoms_withVariantCells (v : Variant) (cells : List (List Math)) :
    cellAtoms (withVariantCells v cells) = (cellAtoms cells).map (withVariant v) := by
  match cells with
  | [] => rfl
  | cell :: cells =>
    simp [withVariantCells, cellAtoms, allAtoms_withVariants v cell,
      cellAtoms_withVariantCells v cells]

theorem rowAtoms_withVariantRows (v : Variant) (rows : List (List (List Math))) :
    rowAtoms (withVariantRows v rows) = (rowAtoms rows).map (withVariant v) := by
  match rows with
  | [] => rfl
  | cells :: rows =>
    simp [withVariantRows, rowAtoms, cellAtoms_withVariantCells v cells,
      rowAtoms_withVariantRows v rows]

end

/-! ### Atoms that markup can hold -/

/-- An atom that markup can hold. -/
def Fits : Math → Prop
  | leaf l => l.text.all compatibleChar = true
  | space width => width.toList.all compatibleChar = true
  | _ => True

theorem fits_withVariant {v : Variant} {m : Math} (h : m.Fits) : (m.withVariant v).Fits := by
  cases m with
  | leaf l => exact h
  | space width => exact h
  | _ => trivial

/-- Formulas whose atoms markup can hold. -/
def AllFit (ms : List Math) : Prop := ∀ a ∈ allAtoms ms, a.Fits

theorem allFit_atom {a : Math} (hatom : a.atoms = [a]) (h : a.Fits) : AllFit [a] := by
  intro b hb
  rw [allAtoms, hatom] at hb
  rw [List.mem_singleton.mp hb]
  exact h

theorem allFit_leaf {l : Leaf} (h : l.text.all compatibleChar = true) : AllFit [leaf l] :=
  allFit_atom rfl h

@[simp] theorem allFit_append {ms ns : List Math} :
    AllFit (ms ++ ns) ↔ AllFit ms ∧ AllFit ns := by
  simp only [AllFit, allAtoms_append, List.forall_mem_append]

/-- A formula with the atoms of others. -/
theorem allFit_of_atoms {m : Math} {as : List Math} (hatoms : m.atoms = as) (h : ∀ a ∈ as, a.Fits) :
    AllFit [m] := by
  rwa [AllFit, allAtoms, allAtoms, List.append_nil, hatoms]

theorem allFit_fenced {left right : List Char} {ms : List Math} (hleft : AllFit (fence left))
    (hms : AllFit ms) (hright : AllFit (fence right)) : AllFit [fenced left ms right] := by
  refine allFit_of_atoms (atoms_fenced left right ms) ?_
  simpa only [List.forall_mem_append] using ⟨⟨hleft, hms⟩, hright⟩

theorem allFit_fence {text : List Char} (h : text.all compatibleChar = true) :
    AllFit (fence text) := by
  cases text with
  | nil => rintro _ ⟨⟩
  | cons c cs => exact allFit_leaf h

theorem allFit_fraction (line : Bool) {upper lower : List Math} (hupper : AllFit upper)
    (hlower : AllFit lower) : AllFit [fraction line (single upper) (single lower)] := by
  refine allFit_of_atoms rfl ?_
  rw [atoms, atoms_single, atoms_single, List.forall_mem_append]
  exact ⟨hupper, hlower⟩

end Math

namespace Scripts

/-- The atoms of scripts, those of the subscript first. -/
def atoms (s : Scripts Math) : List Math :=
  Math.allAtoms (s.lower.getD []) ++ Math.allAtoms (s.upper.getD [])

@[simp] theorem allAtoms_attach (s : Scripts Math) (base : List Math) :
    Math.allAtoms (s.attach base) = Math.allAtoms base ++ s.atoms := by
  obtain ⟨lower, upper⟩ := s
  cases lower <;> cases upper <;> simp [attach, atoms, Math.allAtoms, Math.atoms]

theorem allFit_attach {s : Scripts Math} {base : List Math} (hbase : Math.AllFit base)
    (hs : ∀ a ∈ s.atoms, a.Fits) : Math.AllFit (s.attach base) := by
  rw [Math.AllFit, allAtoms_attach, List.forall_mem_append]
  exact ⟨hbase, hs⟩

theorem fits_add {found : Scripts Math} {t : Token} {ms : List Math} (hms : Math.AllFit ms)
    (hfound : ∀ a ∈ found.atoms, a.Fits) : ∀ a ∈ (found.add t ms).atoms, a.Fits := by
  simp only [atoms, List.forall_mem_append] at hfound
  unfold add
  split
  · simpa only [atoms, List.forall_mem_append] using ⟨hms, hfound.2⟩
  · simpa only [atoms, List.forall_mem_append] using ⟨hfound.1, hms⟩

end Scripts

/-! ### What tables hold -/

/-- Markup can hold the widths, the marks and the delimiters of the tables. -/
theorem ornaments_fit :
    (spaceWords.all fun p => p.2.toList.all compatibleChar) = true ∧
    (spaceEscapes.all fun p => p.2.toList.all compatibleChar) = true ∧
    (accents.all fun p => compatibleChar p.2) = true ∧
    (delimiterGlyphs.all compatibleChar) = true ∧
    (delimiterEscapes.all fun p => compatibleChar p.2) = true ∧
    (delimiterWords.all fun p => compatibleChar p.2) = true ∧
    (environments.all fun p =>
      p.2.left.all compatibleChar && p.2.right.all compatibleChar) = true := by
  decide

theorem delimiter_fits {t : Token} {text : List Char} (h : t.delimiter? = some text) :
    text.all compatibleChar = true := by
  obtain ⟨-, -, -, hglyphs, hescapes, hwords, -⟩ := ornaments_fit
  unfold Token.delimiter? at h
  split at h
  · cases h
    rfl
  · rename_i c _
    split at h
    · rename_i hc
      cases h
      simpa using List.all_eq_true.mp hglyphs c (List.contains_iff_mem.mp hc)
    · cases h
  · obtain ⟨c, hc, rfl⟩ := Option.map_eq_some_iff.mp h
    simpa using List.all_eq_true.mp hescapes _ (mem_of_lookup hc)
  · obtain ⟨c, hc, rfl⟩ := Option.map_eq_some_iff.mp h
    simpa using List.all_eq_true.mp hwords _ (mem_of_lookup hc)
  · cases h

namespace Meaning

/-- A meaning whose space or accent, if it is one, markup can hold. -/
def ornamentFits : Meaning → Bool
  | space width => width.toList.all compatibleChar
  | accent mark => compatibleChar mark
  | _ => true

theorem ornamentFits_ofWord (name : String) : (ofWord name).ornamentFits = true := by
  obtain ⟨hspaces, -, haccents, -⟩ := ornaments_fit
  refine ofWord_cases (P := fun m => m.ornamentFits = true) rfl (fun _ _ _ => rfl) ?_ ?_
    (fun _ => rfl) (fun _ => rfl) (by decide)
  · exact fun w hw => List.all_eq_true.mp hspaces (name, w) (mem_of_lookup hw)
  · exact fun c hc => List.all_eq_true.mp haccents (name, c) (mem_of_lookup hc)

theorem ornamentFits_ofEscape (g : CodePoint) : (ofEscape g).ornamentFits = true := by
  obtain ⟨-, hspaces, -⟩ := ornaments_fit
  refine ofEscape_cases (P := fun m => m.ornamentFits = true) rfl rfl (fun _ _ _ => rfl) ?_
  exact fun c w hw => List.all_eq_true.mp hspaces (c, w) (mem_of_lookup hw)

theorem ornamentFits_ofGlyph (g : CodePoint) : (ofGlyph g).ornamentFits = true :=
  ofGlyph_cases (P := fun m => m.ornamentFits = true) rfl rfl rfl (by decide) fun _ _ _ => rfl

end Meaning

theorem Token.ornamentFits_meaning (t : Token) : t.meaning.ornamentFits = true := by
  cases t with
  | word name => exact Meaning.ornamentFits_ofWord name
  | symbol g => exact Meaning.ornamentFits_ofEscape g
  | text command gap body =>
    change (Meaning.ofTextCommand command body).ornamentFits = true
    unfold Meaning.ofTextCommand
    split <;> rfl
  | glyph g => exact Meaning.ornamentFits_ofGlyph g
  | _ => rfl

/-! ### The atoms of accepted formulas -/

/-- Markup can hold the atoms of what a phrase stands for. -/
def Phrase.Fits : Phrase → Prop
  | sequence _ ms => Math.AllFit ms
  | scripts found all => (∀ a ∈ found.atoms, a.Fits) → ∀ a ∈ all.atoms, a.Fits
  | argument ms => Math.AllFit ms
  | option ms => Math.AllFit (ms.getD [])
  | rows _ cells => ∀ a ∈ Math.rowAtoms cells, a.Fits
  | element _ ms => Math.AllFit ms
  | columns _ => True

theorem Phrase.Takes.fits {p : Phrase} {ts rest : List Token} (h : p.Takes ts rest) : p.Fits := by
  induction h with
  | sequenceEnd | sequenceStop => rintro _ ⟨⟩
  | sequenceScripts _ _ _ _ _ iha ihs ihm =>
    have hboth := ihs (Scripts.fits_add iha (by rintro _ ⟨⟩))
    exact Math.allFit_append.mpr ⟨Scripts.allFit_attach (by rintro _ ⟨⟩) hboth, ihm⟩
  | sequenceElement _ _ _ _ _ ihb ihs ihm =>
    have hboth := ihs (by rintro _ ⟨⟩)
    exact Math.allFit_append.mpr ⟨Scripts.allFit_attach ihb hboth, ihm⟩
  | scriptsEnd => exact id
  | scriptsMore _ _ _ _ iha ihm => exact fun hfound => ihm (Scripts.fits_add iha hfound)
  | argumentGroup _ ih | argumentElement _ _ _ ih | optionSome _ ih => exact ih
  | optionNone => rintro _ ⟨⟩
  | rowsEnd _ ih =>
    simp only [Phrase.Fits, Math.rowAtoms, Math.cellAtoms, List.append_nil]
    exact ih
  | rowsCell _ _ ihc ihm =>
    simp only [Phrase.Fits, Math.rowAtoms_consCell, List.forall_mem_append]
    exact ⟨ihc, ihm⟩
  | rowsRow _ _ ihc ihm =>
    simp only [Phrase.Fits, Math.rowAtoms, Math.cellAtoms, List.append_nil, List.forall_mem_append]
    exact ⟨ihc, ihm⟩
  | leaf _ hleaf =>
    unfold leafOf at hleaf
    split at hleaf
    · cases hleaf
    · rename_i cs htext
      cases hleaf
      obtain ⟨hfits, rfl⟩ := Text.toMarkup_eq_ok_iff.mp htext
      exact Math.allFit_leaf (Text.fitsMarkup_iff.mp hfits).2
  | @space t width ts hmeaning =>
    have hwidth := t.ornamentFits_meaning
    rw [hmeaning] at hwidth
    exact Math.allFit_atom rfl hwidth
  | newline => exact Math.allFit_atom rfl trivial
  | group _ _ ih => exact Math.allFit_of_atoms rfl ih
  | fraction _ _ _ ihn ihd => exact Math.allFit_fraction true ihn ihd
  | binomial _ _ _ ihu ihl =>
    exact Math.allFit_fenced (Math.allFit_fence (by decide)) (Math.allFit_fraction false ihu ihl)
      (Math.allFit_fence (by decide))
  | radical _ _ _ ihi ihb =>
    refine Math.allFit_of_atoms (Math.atoms_radical _ _) ?_
    rw [List.forall_mem_append]
    exact ⟨ihb, ihi⟩
  | @accent t mark base ts rest hmeaning _ ih =>
    have hmark := t.ornamentFits_meaning
    rw [hmeaning] at hmark
    refine Math.allFit_of_atoms rfl ?_
    rw [Math.atoms, Math.atoms_single, List.forall_mem_append, List.forall_mem_singleton]
    exact ⟨ih, by simpa [Math.Fits, Leaf.operator, Meaning.ornamentFits] using hmark⟩
  | font _ _ ih =>
    simp only [Phrase.Fits, Math.AllFit, Math.allAtoms_withVariants, List.forall_mem_map]
    exact fun a ha => Math.fits_withVariant (ih a ha)
  | bigDelimiter _ hdelimiter => exact Math.allFit_leaf (delimiter_fits hdelimiter)
  | delimiters _ hleft _ hright ih =>
    exact Math.allFit_fenced (Math.allFit_fence (delimiter_fits hleft)) ih
      (Math.allFit_fence (delimiter_fits hright))
  | @environment _ name e _ _ _ _ _ hknown _ _ _ ihr =>
    obtain ⟨-, -, -, -, -, -, henvironments⟩ := ornaments_fit
    obtain ⟨hleft, hright⟩ := Bool.and_eq_true_iff.mp
      (List.all_eq_true.mp henvironments (name, e) (mem_of_lookup hknown))
    refine Math.allFit_of_atoms (Math.atoms_formula _ _) ?_
    simpa only [List.forall_mem_append] using
      ⟨⟨Math.allFit_fence hleft, ihr⟩, Math.allFit_fence hright⟩
  | columnsNone | columnsSome => trivial

theorem fits_of_parse {ts : List Token} {ms : List Math} (h : parse ts = .ok ms) :
    Math.AllFit ms :=
  (takes_of_parse h).fits

end DeltaPreview.Latex
