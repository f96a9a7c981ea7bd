import DeltaPreview.File.Path
import Mathlib.Data.List.TakeWhile

/-!
# Suffixes of names

A name keeps its suffix only if it has the new one already, after something else: what is replaced is the
part from the last point on (`replaceSuffix_eq_self_iff`).  A path that can be printed still can be printed
with a new suffix (`isPaired_withSuffix?`).
-/

namespace DeltaPreview.File.Path

/-- The last name of a path ends in a suffix, with something before it. -/
def EndsIn (p : Path) (suffix : Text) : Prop :=
  ∃ before stem, stem ≠ [] ∧ p.names = before ++ [stem ++ suffix]

variable {name ext : Text} {p q : Path}

theorem stemLength_pos (h : name ≠ []) : 0 < stemLength name := by
  have hlength := List.length_pos_iff.mpr h
  simp only [stemLength]
  split
  · omega
  · exact hlength

/-- The suffix begins at the last point. -/
theorem stemLength_append {stem : Text} (hstem : stem ≠ []) (hext : ext ≠ []) (hpoint : point ∉ ext) :
    stemLength (stem ++ point :: ext) = stem.length := by
  have hplain : ∀ g ∈ ext.reverse, (g != point) = true := by
    intro g hg
    simpa using fun e : g = point => hpoint (e ▸ List.mem_reverse.mp hg)
  have htail : (stem ++ point :: ext).reverse.takeWhile (· != point) = ext.reverse := by
    rw [List.reverse_append, List.reverse_cons, List.append_assoc, List.singleton_append,
      List.takeWhile_append_of_pos hplain, List.takeWhile_cons_of_neg (by simp), List.append_nil]
  have hstem := List.length_pos_iff.mpr hstem
  have hext := List.length_pos_iff.mpr hext
  simp only [stemLength, htail, List.length_append, List.length_cons, List.length_reverse]
  rw [if_pos (by omega)]
  omega

/-- A name with a new suffix is the same name exactly if something stands before this suffix already. -/
theorem replaceSuffix_eq_self_iff (hext : ext ≠ []) (hpoint : point ∉ ext) :
    replaceSuffix (point :: ext) name = name ↔ ∃ stem ≠ [], name = stem ++ point :: ext := by
  constructor
  · intro h
    have hname : name ≠ [] := by
      rintro rfl
      cases h
    have hstem : name.take (stemLength name) ≠ [] := by
      simpa [hname] using (stemLength_pos hname).ne'
    exact ⟨_, hstem, h.symm⟩
  · rintro ⟨stem, hstem, rfl⟩
    rw [replaceSuffix, stemLength_append hstem hext hpoint, List.take_left]

theorem withSuffix?_eq_some_iff {suffix : Text} :
    p.withSuffix? suffix = some q ↔
      ∃ before last, p.names = before ++ [last] ∧ q = ⟨p.root, before ++ [replaceSuffix suffix last]⟩ := by
  unfold withSuffix?
  rcases List.eq_nil_or_concat p.names with hnames | ⟨before, last, hnames⟩
  · simp [hnames]
  · simp [hnames, eq_comm, and_assoc]

theorem withSuffix?_eq_none_iff {suffix : Text} :
    p.withSuffix? suffix = none ↔ p.names = [] := by
  unfold withSuffix?
  rcases List.eq_nil_or_concat p.names with hnames | ⟨before, last, hnames⟩
  · simp [hnames]
  · simp [hnames]

/-! ### Lone surrogates -/

theorem isPaired_intercalate {names : List Text} :
    Text.isPaired (List.intercalate [slash] names) = true ↔ ∀ name ∈ names, name.isPaired = true := by
  induction names with
  | nil => simp [List.intercalate, Text.isPaired]
  | cons name names ih =>
    cases names with
    | nil => simp [List.intercalate]
    | cons next names =>
      have hslash : Text.isPaired [slash] = true := rfl
      rw [List.intercalate_cons_cons, Text.isPaired_append, Text.isPaired_append, ih]
      simp only [hslash, and_true, List.forall_mem_cons]

/-- A path is spelled with lone surrogates only if its root or a name has some. -/
theorem isPaired_text :
    p.text.isPaired = true ↔ p.root.isPaired = true ∧ ∀ name ∈ p.names, name.isPaired = true := by
  unfold text
  split
  · rename_i h
    obtain ⟨hroot, hnames⟩ := Bool.and_eq_true_iff.mp h
    rw [List.isEmpty_iff] at hroot hnames
    simp [hroot, hnames, Text.isPaired, point]
  · rw [Text.isPaired_append, isPaired_intercalate]

theorem isPaired_replaceSuffix {suffix : Text} (hsuffix : suffix.isPaired = true)
    (hname : name.isPaired = true) : (replaceSuffix suffix name).isPaired = true := by
  refine Text.isPaired_append.mpr ⟨?_, hsuffix⟩
  exact Text.isPaired_iff.mpr fun g hg => Text.isPaired_iff.mp hname g (List.mem_of_mem_take hg)

/-- A new suffix brings no lone surrogates into a path. -/
theorem isPaired_withSuffix? {suffix : Text} (h : p.withSuffix? suffix = some q)
    (hsuffix : suffix.isPaired = true) (hp : p.text.isPaired = true) : q.text.isPaired = true := by
  obtain ⟨before, last, hnames, rfl⟩ := withSuffix?_eq_some_iff.mp h
  obtain ⟨hroot, hall⟩ := isPaired_text.mp hp
  rw [hnames] at hall
  obtain ⟨hbefore, hlast⟩ := List.forall_mem_append.mp hall
  refine isPaired_text.mpr ⟨hroot, List.forall_mem_append.mpr ⟨hbefore, fun name hname => ?_⟩⟩
  obtain rfl := List.mem_singleton.mp hname
  exact isPaired_replaceSuffix hsuffix (hlast _ (List.mem_singleton_self _))

end DeltaPreview.File.Path
