/-!
# Line ends

Texts that come from outside may end their lines with a carriage return, with or without a line feed
after it.  Readers see line feeds only.
-/

namespace DeltaPreview

/-- A text whose lines all end in a line feed. -/
def normalizeLines : List Char → List Char
  | [] => []
  | '\r' :: '\n' :: rest => '\n' :: normalizeLines rest
  | '\r' :: rest => '\n' :: normalizeLines rest
  | c :: rest => c :: normalizeLines rest

/-- Nothing changes where no carriage return stands. -/
theorem normalizeLines_append_of_not_mem {s : List Char} (h : '\r' ∉ s) (t : List Char) :
    normalizeLines (s ++ t) = s ++ normalizeLines t := by
  induction s with
  | nil => rfl
  | cons c s ih =>
    simp only [List.mem_cons, not_or] at h
    have hc : c ≠ '\r' := fun e => h.1 e.symm
    rw [List.cons_append, normalizeLines.eq_4 c (s ++ t) (fun _ e => absurd e hc) (fun e => hc e),
      ih h.2, List.cons_append]

/-- Two texts are normalised apart unless a line end lies across the seam. -/
theorem normalizeLines_append {s t : List Char}
    (h : s.getLast? ≠ some '\r' ∨ t.head? ≠ some '\n') :
    normalizeLines (s ++ t) = normalizeLines s ++ normalizeLines t := by
  fun_induction normalizeLines s with
  | case1 => rfl
  | case2 rest ih =>
    have hseam : rest.getLast? ≠ some '\r' ∨ t.head? ≠ some '\n' := by
      cases rest with
      | nil => exact .inl (by simp)
      | cons c rest => simpa using h
    rw [List.cons_append, List.cons_append, normalizeLines, ih hseam]
    rfl
  | case3 rest hrest ih =>
    have hseam : rest.getLast? ≠ some '\r' ∨ t.head? ≠ some '\n' := by
      cases rest with
      | nil => exact .inl (by simp)
      | cons c rest => simpa using h
    -- a carriage return that ends the first text must not meet a line feed
    have hnext : ∀ after, rest ++ t = '\n' :: after → False := by
      intro after hafter
      cases rest with
      | nil => simp_all
      | cons c rest => exact hrest rest (by simp_all)
    rw [List.cons_append, normalizeLines.eq_3 _ hnext, ih hseam]
    rfl
  | case4 c rest hpair hreturn ih =>
    have hseam : rest.getLast? ≠ some '\r' ∨ t.head? ≠ some '\n' := by
      cases rest with
      | nil => exact .inl (by simp)
      | cons c rest => simpa using h
    rw [List.cons_append, normalizeLines.eq_4 _ _ (fun _ e => absurd e hreturn) hreturn, ih hseam]
    rfl

theorem return_not_mem_normalizeLines (s : List Char) : '\r' ∉ normalizeLines s := by
  fun_induction normalizeLines s with
  | case1 => simp
  | case2 rest ih => simpa using ih
  | case3 rest _ ih => simpa using ih
  | case4 c rest _ hreturn ih => simpa using ⟨fun h => hreturn h.symm, ih⟩

theorem normalizeLines_of_not_mem {s : List Char} (h : '\r' ∉ s) : normalizeLines s = s := by
  have := normalizeLines_append_of_not_mem h []
  rwa [List.append_nil, normalizeLines, List.append_nil] at this

end DeltaPreview
