import DeltaPreview.Delta.Validation
import DeltaPreview.Proofs.Json.RoundTrip

/-!
# Formatting loses nothing

A text that can be read has the same value after formatting, exactly if no double in it is infinite.
Formatting once is enough for any text (`formatJson_lossless`).
-/

namespace DeltaPreview

open Json (read)

theorem formatJson_of_read {t : Text} {v : Json} (h : read t = .ok v) : formatJson t = v.pretty := by
  rw [formatJson, h]

theorem formatJson_of_error {t : Text} {fault : Json.Fault Json.Position} (h : read t = .error fault) :
    formatJson t = t := by
  rw [formatJson, h]

theorem read_formatJson {t : Text} {v : Json} (h : read t = .ok v) (hfinite : v.isFinite = true) :
    read (formatJson t) = .ok v := by
  rw [formatJson_of_read h, Json.read_pretty (Json.wellFormed_of_read h) hfinite]

/-- Formatting keeps the value of every text that can be read and has no infinite double, so such texts
are formatted alike exactly if they have the same value; and what has been formatted stays as it is. -/
theorem formatJson_lossless :
    (∀ t v, read t = .ok v → (read (formatJson t) = .ok v ↔ v.isFinite = true)) ∧
      (∀ t u v w, read t = .ok v → read u = .ok w → v.isFinite = true → w.isFinite = true →
        (formatJson t = formatJson u ↔ v = w)) ∧
      ∀ t, formatJson (formatJson t) = formatJson t := by
  refine ⟨fun t v h => ⟨fun hread => ?_, read_formatJson h⟩, fun t u v w ht hu hv hw => ?_, fun t => ?_⟩
  · cases hfinite : v.isFinite with
    | true => rfl
    | false =>
      obtain ⟨word, herror⟩ := Json.read_pretty_eq_error (Json.wellFormed_of_read h) hfinite
      rw [formatJson_of_read h, herror] at hread
      cases hread
  · constructor
    · intro heq
      have hread := read_formatJson ht hv
      rw [heq, read_formatJson hu hw] at hread
      exact (Except.ok.inj hread).symm
    · rintro rfl
      rw [formatJson_of_read ht, formatJson_of_read hu]
  · cases h : read t with
    | error fault => rw [formatJson_of_error h, formatJson_of_error h]
    | ok v =>
      cases hfinite : v.isFinite with
      | true => rw [formatJson_of_read (read_formatJson h hfinite), formatJson_of_read h]
      | false =>
        obtain ⟨word, herror⟩ := Json.read_pretty_eq_error (Json.wellFormed_of_read h) hfinite
        rw [formatJson_of_read h, formatJson_of_error herror]

/-- Whether a text is read as a value without infinite doubles. -/
def readsFinite (t : Text) : Bool :=
  match read t with
  | .ok v => v.isFinite
  | .error _ => false

theorem exists_of_readsFinite {t : Text} (h : readsFinite t = true) :
    ∃ v, read t = .ok v ∧ v.isFinite = true := by
  unfold readsFinite at h
  split at h
  next v hread => exact ⟨v, hread, h⟩
  next => cases h

/-- Two spellings of an array of a double and an integer. -/
theorem formatJson_lossless_sample :
    ∃ v w, read (Text.ofString "[15e-1,-0]") = .ok v ∧ read (Text.ofString " [ 1.50, 0 ]") = .ok w ∧
      v.isFinite = true ∧ w.isFinite = true ∧
      read (formatJson (Text.ofString "[15e-1,-0]")) = .ok v ∧ v = w := by
  obtain ⟨v, hv, hvfinite⟩ := exists_of_readsFinite (t := Text.ofString "[15e-1,-0]") (by decide +kernel)
  obtain ⟨w, hw, hwfinite⟩ := exists_of_readsFinite (t := Text.ofString " [ 1.50, 0 ]") (by decide +kernel)
  have hkept := (formatJson_lossless.1 _ v hv).mpr hvfinite
  have hsame := (formatJson_lossless.2.1 _ _ v w hv hw hvfinite hwfinite).mp (by decide +kernel)
  exact ⟨v, w, hv, hw, hvfinite, hwfinite, hkept, hsame⟩

end DeltaPreview
