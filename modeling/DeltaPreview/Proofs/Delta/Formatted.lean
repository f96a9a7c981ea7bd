import DeltaPreview.Proofs.Delta.Format
import DeltaPreview.Proofs.Delta.Verdict

/-!
# The verdict on formatted texts

Validation looks at the value that a text holds, and formatting keeps that value if no double in it is
infinite.  A number such as `1e999` is read as an infinite double, which the formatter spells `Infinity`:
then the document is refused after formatting.  So a document is kept exactly if all its doubles are
finite (`validate_formatJson`).
-/

namespace DeltaPreview

open Json (read)

/-- The pretty form of an object is not blank. -/
theorem Json.allBlank_pretty_object (members : List (Text × Json)) :
    (Json.object members).pretty.allBlank = false := by
  cases members <;> rfl

namespace Document

/-- Validation sees nothing of a text but the value that it holds. -/
theorem validate_congr {t u : Text} (hblank : t.allBlank = u.allBlank) (hread : read t = read u) :
    validate t = validate u := by
  have hcheck : check t = check u := by
    unfold check
    rw [hblank, hread]
  unfold validate
  rw [hcheck]

variable {text : Text} {members : List (Text × Json)} {ops : List Json}

/-- A document is not blank after formatting. -/
theorem Given.allBlank_formatJson (h : Given text members ops) : (formatJson text).allBlank = false := by
  rw [formatJson_of_read h.isObject]
  exact Json.allBlank_pretty_object members

/-- A document without infinite doubles has the same verdict after formatting. -/
theorem Given.validate_formatJson (h : Given text members ops)
    (hfinite : (Json.object members).isFinite = true) : validate (formatJson text) = validate text := by
  apply validate_congr
  · rw [h.allBlank_formatJson, h.notBlank]
  · rw [read_formatJson h.isObject hfinite, h.isObject]

/-- A document with an infinite double is malformed after formatting. -/
theorem Given.malformed_formatJson (h : Given text members ops)
    (hinfinite : (Json.object members).isFinite = false) :
    ∃ word, validate (formatJson text) = .ok (.error (.malformed (.notJson word))) := by
  obtain ⟨word, hrefused⟩ := Json.read_pretty_eq_error (Json.wellFormed_of_read h.isObject) hinfinite
  refine ⟨word, (validate_malformed_iff _ _).mpr ⟨h.allBlank_formatJson, ?_⟩⟩
  rw [formatJson_of_read h.isObject]
  exact hrefused

/-- A text that is accepted is accepted after formatting, as the same document, exactly if no double in
it is infinite; otherwise the formatted text is malformed. -/
theorem validate_formatted {text : Text} {doc : Document} (h : validate text = .ok (.ok doc)) :
    ∃ v, read text = .ok v ∧
      (validate (formatJson text) = .ok (.ok doc) ↔ v.isFinite = true) ∧
      (v.isFinite = false →
        ∃ word, validate (formatJson text) = .ok (.error (.malformed (.notJson word)))) := by
  obtain ⟨members, ops, hgiven, -, -⟩ := (validate_eq_ok_ok_iff text doc).mp h
  refine ⟨.object members, hgiven.isObject, ?_, hgiven.malformed_formatJson⟩
  constructor
  · intro hsame
    by_contra hinfinite
    obtain ⟨word, hrefused⟩ := hgiven.malformed_formatJson (Bool.eq_false_iff.mpr hinfinite)
    rw [hrefused] at hsame
    cases hsame
  · intro hfinite
    rw [hgiven.validate_formatJson hfinite]
    exact h

/-- One retention, by a number that is given in digits. -/
def oneRetention (number : String) : Text :=
  Text.ofString ("\x7b\"ops\":[\x7b\"retain\":" ++ number ++ "\x7d]\x7d")

/-- A retention by an ordinary number is kept, and one by a number beyond all doubles is accepted and then
refused. -/
theorem validate_formatted_retention :
    (∃ doc, validate (oneRetention "1.0") = .ok (.ok doc) ∧
      validate (formatJson (oneRetention "1.0")) = .ok (.ok doc)) ∧
    ∃ doc word, validate (oneRetention "1e999") = .ok (.ok doc) ∧
      validate (formatJson (oneRetention "1e999")) = .ok (.error (.malformed (.notJson word))) := by
  constructor
  · obtain ⟨doc, hdoc⟩ := exists_of_accepts (show accepts (oneRetention "1.0") = true by decide +kernel)
    obtain ⟨v, hv, hkept, -⟩ := validate_formatted hdoc
    obtain ⟨w, hw, hfinite⟩ :=
      exists_of_readsFinite (show readsFinite (oneRetention "1.0") = true by decide +kernel)
    obtain rfl : v = w := Except.ok.inj (hv.symm.trans hw)
    exact ⟨doc, hdoc, hkept.mpr hfinite⟩
  · obtain ⟨doc, hdoc⟩ :=
      exists_of_accepts (show accepts (oneRetention "1e999") = true by decide +kernel)
    obtain ⟨v, hv, -, hrefused⟩ := validate_formatted hdoc
    have hinfinite : readsFinite (oneRetention "1e999") = false := by decide +kernel
    unfold readsFinite at hinfinite
    rw [hv] at hinfinite
    obtain ⟨word, hword⟩ := hrefused hinfinite
    exact ⟨doc, word, hdoc, hword⟩

end Document

end DeltaPreview
