import DeltaPreview.Preview.Outcome
import DeltaPreview.Proofs.Compile.Shape
import DeltaPreview.Proofs.Delta.Reading
import DeltaPreview.Proofs.Preview.Compiled

/-!
# Which texts have an outcome

Whatever a text is, it has an outcome unless the document that it holds cannot be read, or shows an image
for which sizes are set that cannot be written: everything that can be read is compiled, and everything that
is compiled is rendered, but for the sizes of images (`ofText_eq_ok_iff`).
-/

namespace DeltaPreview

/-! ### Images -/

/-- Whether an operation inserts an object with a member for an image that counts as true. -/
def Json.ShowsImage (op : Json) : Prop :=
  ∃ members, op.get? "insert" = some (.object members) ∧ Insertion.hasMember "image" members = true

/-- Whether an operation inserts an image. -/
def Operation.ShowsImage (op : Operation) : Prop :=
  ∃ members, op.insert = some (.embed members) ∧ Insertion.hasMember "image" members = true

/-- What is inserted is what the member for it says. -/
theorem Operation.insert_eq_embed_iff {v : Json} {op : Operation} (h : ofJson v = .ok op)
    (members : List (Text × Json)) :
    op.insert = some (.embed members) ↔ v.get? "insert" = some (.object members) := by
  cases v with
  | object all =>
    obtain ⟨insert, hinsert, hrest⟩ := bind_eq_ok.mp h
    obtain ⟨delete, -, hrest⟩ := bind_eq_ok.mp hrest
    obtain ⟨retain, -, hrest⟩ := bind_eq_ok.mp hrest
    obtain ⟨extra, -, hreturn⟩ := bind_eq_ok.mp hrest
    cases hreturn
    show insert = some (.embed members) ↔ Json.lookup (Text.ofString "insert") all = _
    unfold optionalMember at hinsert
    cases hlookup : Json.lookup (Text.ofString "insert") all with
    | none =>
      simp only [hlookup, Except.ok.injEq] at hinsert
      simp [← hinsert]
    | some value =>
      cases value <;> simp [hlookup, Insert.ofJson?] at hinsert <;> simp [← hinsert]
  | _ => cases h

theorem Operation.showsImage_iff {v : Json} {op : Operation} (h : ofJson v = .ok op) :
    op.ShowsImage ↔ v.ShowsImage :=
  exists_congr fun members => and_congr_left' (insert_eq_embed_iff h members)

/-- What a document displays shows an image exactly if one of its operations inserts one. -/
theorem Insertion.any_showsImage_shown {doc : Document} (h : doc.Convertible) :
    (shown doc.ops).any showsImage = true ↔ ∃ op ∈ doc.ops, op.ShowsImage := by
  rw [List.any_eq_true]
  constructor
  · rintro ⟨d, hd, himage⟩
    obtain ⟨op, hop, hd⟩ := mem_shown.mp hd
    obtain ⟨hinsert, -⟩ := ofOperation?_eq_some (mem_shown_singleton.mp hd).1
    obtain ⟨insert, a⟩ := d
    cases insert with
    | text t => cases himage
    | embed members => exact ⟨op, hop, members, hinsert, himage⟩
  · rintro ⟨op, hop, members, hinsert, himage⟩
    obtain ⟨a, ha⟩ := h op hop (by rw [hinsert]; rfl)
    have hinsertion : ofOperation? op = some ⟨.embed members, a⟩ := by
      simp only [ofOperation?, hinsert, ha]
    have hdisplays : displays ⟨.embed members, a⟩ = true := by
      rw [displays, himage]
      rfl
    have hd := mem_shown_singleton.mpr ⟨hinsertion, hdisplays⟩
    exact ⟨_, mem_shown.mpr ⟨op, hop, hd⟩, himage⟩

theorem Document.showsImage_ofOps {ops : List Json} {members : List (Text × Json)} {doc : Document}
    (h : ofOps ops members = .ok doc) :
    (∃ op ∈ doc.ops, op.ShowsImage) ↔ ∃ op ∈ ops, op.ShowsImage := by
  obtain ⟨os, hos, hrest⟩ := bind_eq_ok.mp h
  obtain ⟨extra, -, hreturn⟩ := bind_eq_ok.mp hrest
  cases hreturn
  have hall := mapM_eq_ok.mp hos
  clear h hos hrest
  induction hall with
  | nil => simp
  | cons hop _ ih =>
    rw [List.exists_mem_cons_iff, List.exists_mem_cons_iff, Operation.showsImage_iff hop]
    exact or_congr_right ih

/-! ### The whole way -/

namespace Document

/-- Whether a text is no document, or one whose names can be kept and whose font sizes have doubles. -/
def Readable (text : Text) : Prop :=
  ∀ ops members, check text = .ok (ops, members) →
    (Json.object members).NamesKept ["ops"] ∧ ∀ op ∈ ops, op.Readable

/-- Whether a text is a document that shows an image. -/
def ShowsImage (text : Text) : Prop :=
  ∃ ops members, check text = .ok (ops, members) ∧ ∃ op ∈ ops, op.ShowsImage

end Document

namespace Outcome

variable (settings : Settings) (color : Text) (text : Text)

/-- A text that is no document always has an outcome. -/
theorem ofInvalid_eq_ok (invalid : InvalidDocument) : ∃ o, ofInvalid settings text invalid = .ok o :=
  ⟨_, rfl⟩

/-- A document has an outcome exactly if its attribute bags can be read, and the sizes of images fit if it
shows one. -/
theorem ofDocument_eq_ok_iff (doc : Document) :
    (∃ o, ofDocument settings ⟨Latex.typesetter, color⟩ text doc = .ok o) ↔
      doc.Convertible ∧ ((∃ op ∈ doc.ops, op.ShowsImage) → settings.image.Fits) := by
  let c : Compiler := ⟨⟨Latex.typesetter, color⟩, settings.formula.expandInlineMath⟩
  have hpage (h : doc.Convertible) : ∃ nodes, c.compile doc = .ok nodes ∧
      ((∃ html, renderHtml settings nodes = .ok html) ↔
        ((∃ op ∈ doc.ops, op.ShowsImage) → settings.image.Fits)) := by
    obtain ⟨nodes, hnodes, hlegible, himages, -⟩ :=
      h.exists_page (c := c) (fun d _ => d.legible rfl) settings
    refine ⟨nodes, hnodes, ?_⟩
    rw [renderHtml_legible_iff settings hlegible, himages, Insertion.any_showsImage_shown h]
  constructor
  · rintro ⟨o, ho⟩
    obtain ⟨nodes, hnodes, hrest⟩ := bind_eq_ok.mp ho
    have hcompile : c.compile doc = .ok nodes := mapError_eq_ok.mp hnodes
    obtain ⟨hconvertible, -⟩ := Compiler.compile_eq_ok_iff.mp hcompile
    obtain ⟨others, hothers, hexists⟩ := hpage hconvertible
    obtain rfl := Except.ok.inj (hothers.symm.trans hcompile)
    obtain ⟨html, hhtml, -⟩ := bind_eq_ok.mp hrest
    exact ⟨hconvertible, hexists.mp ⟨html, mapError_eq_ok.mp hhtml⟩⟩
  · rintro ⟨hconvertible, hfits⟩
    obtain ⟨nodes, hnodes, hexists⟩ := hpage hconvertible
    obtain ⟨html, hhtml⟩ := hexists.mpr hfits
    exact ⟨_, bind_eq_ok.mpr ⟨nodes, mapError_eq_ok.mpr hnodes,
      bind_eq_ok.mpr ⟨html, mapError_eq_ok.mpr hhtml, rfl⟩⟩⟩

/-- A text has an outcome exactly if it is no document or one that can be read, and the sizes that are set
for images can be written if it shows one.  Beyond its names and its font sizes, nothing that a document
contains keeps it from being compiled and rendered. -/
theorem ofText_eq_ok_iff :
    (∃ o, ofText settings ⟨Latex.typesetter, color⟩ text = .ok o) ↔
      Document.Readable text ∧ (Document.ShowsImage text → settings.image.Fits) := by
  unfold ofText Document.validate Document.Readable Document.ShowsImage
  cases hcheck : Document.check text with
  | error invalid => exact iff_of_true (ofInvalid_eq_ok settings text invalid) (by simp)
  | ok parts =>
    obtain ⟨ops, members⟩ := parts
    have hread := Document.ofOps_eq_ok_iff members (find?_eq_none_of_check hcheck)
    constructor
    · rintro ⟨o, ho⟩
      obtain ⟨validated, hvalidated, hrest⟩ := bind_eq_ok.mp ho
      obtain ⟨doc, hdoc, rfl⟩ := map_eq_ok.mp (mapError_eq_ok.mp hvalidated)
      obtain ⟨hconvertible, hfits⟩ := (ofDocument_eq_ok_iff settings color text doc).mp ⟨o, hrest⟩
      rw [Document.showsImage_ofOps hdoc] at hfits
      constructor
      · rintro _ _ hparts
        cases hparts
        exact hread.mp ⟨doc, hdoc, hconvertible⟩
      · rintro ⟨_, _, hparts, himage⟩
        cases hparts
        exact hfits himage
    · rintro ⟨hreadable, hfits⟩
      obtain ⟨doc, hdoc, hconvertible⟩ := hread.mpr (hreadable ops members rfl)
      have hfits' : (∃ op ∈ doc.ops, op.ShowsImage) → settings.image.Fits := by
        rw [Document.showsImage_ofOps hdoc]
        exact fun himage => hfits ⟨ops, members, rfl, himage⟩
      obtain ⟨o, ho⟩ := (ofDocument_eq_ok_iff settings color text doc).mpr ⟨hconvertible, hfits'⟩
      exact ⟨o, bind_eq_ok.mpr ⟨.ok doc, mapError_eq_ok.mpr (map_eq_ok.mpr ⟨doc, hdoc, rfl⟩), ho⟩⟩

end Outcome

end DeltaPreview
