import DeltaPreview.File.Tree
import DeltaPreview.Proofs.File.Path
import DeltaPreview.Proofs.Text.Utf8

/-!
# Reading after writing

Writing a file leaves all other files and all directories as they are, so whatever path led to another
file still leads there (`read_put_of_ne`), and the file itself reads as it was written
(`read_put_self`).  Paths that differ in their last names only lead to files of one directory
(`siblings`).
-/

namespace DeltaPreview.File

/-- What a name leads to in a directory. -/
def Location.child (directory : Location) (name : Name) : Location :=
  ⟨directory.base, directory.names ++ [name]⟩

/-- The name that leads to the directory around. -/
def parentName : Name := textBytes [Path.point, Path.point]

/-- Characters stand for their encoding. -/
theorem textBytes_ofChars (cs : List Char) : textBytes (Text.ofChars cs) = Utf8.encode cs := by
  rw [textBytes, Text.ofChars, List.flatMap_map]
  rfl

/-- Texts without lone surrogates stand for different bytes. -/
theorem textBytes_inj {s t : Text} (hs : s.isPaired = true) (ht : t.isPaired = true) :
    textBytes s = textBytes t ↔ s = t := by
  refine ⟨fun h => ?_, congrArg textBytes⟩
  rw [← Text.ofChars_chars hs, ← Text.ofChars_chars ht, textBytes_ofChars, textBytes_ofChars] at h
  have hchars := (Utf8.decode_eq_ok_iff.mpr h).symm.trans (Utf8.decode_eq_ok_iff.mpr rfl)
  rw [← Text.ofChars_chars hs, ← Text.ofChars_chars ht, Except.ok.inj hchars]

/-- A text can be given to the system exactly if each of its surrogates stands for a byte. -/
theorem firstUnencodable_eq_none_iff {t : Text} :
    firstUnencodable t = none ↔ ∀ i, .surrogate i ∈ t → isEscape i = true := by
  induction t with
  | nil => simp [firstUnencodable]
  | cons g t ih =>
    cases g with
    | char c => simp [firstUnencodable, ih]
    | surrogate i => cases h : isEscape i <;> simp [firstUnencodable, h, ih]

namespace Tree

variable {t : Tree} {l k : Location} {path : Path} {bytes : List UInt8}

theorem read_eq_ok_iff :
    t.read path = .ok bytes ↔
      ∃ l, t.resolve path = .ok l ∧ t.isDirectory l = false ∧ t.bytes? l = some bytes := by
  unfold read
  rw [bind_eq_ok]
  refine exists_congr fun l => and_congr_right fun _ => ?_
  cases hdirectory : t.isDirectory l with
  | true => simp
  | false => cases hbytes : t.bytes? l <;> simp

theorem write_eq_ok_iff {after : Tree} :
    t.write path bytes = .ok after ↔
      ∃ l, t.resolve path = .ok l ∧ t.isDirectory l = false ∧ after = t.put l bytes := by
  unfold write
  rw [bind_eq_ok]
  refine exists_congr fun l => and_congr_right fun _ => ?_
  cases hdirectory : t.isDirectory l <;> simp [eq_comm]

/-! ### Directories -/

theorem isBelow_iff {directory : Location} :
    l.isBelow directory = true ↔
      l.base = directory.base ∧ directory.names <+: l.names ∧ l.names ≠ directory.names := by
  simp [Location.isBelow, and_assoc]

/-- A file in a directory is not below another one there. -/
theorem not_isBelow_child (directory : Location) (a b : Name) :
    (directory.child a).isBelow (directory.child b) = false := by
  refine Bool.eq_false_iff.mpr fun h => ?_
  obtain ⟨-, hinside, hne⟩ := isBelow_iff.mp h
  exact hne (hinside.eq_of_length (by simp [Location.child])).symm

theorem isDirectory_iff :
    t.isDirectory l = true ↔
      l.names = [] ∨ l ∈ t.directories ∨ ∃ k ∈ t.entries, k.isBelow l = true := by
  simp [isDirectory, or_assoc]

theorem isDirectory_parent (h : t.isDirectory l = true) : t.isDirectory l.parent = true := by
  unfold Location.parent
  split
  · exact isDirectory_iff.mpr (.inl rfl)
  · rename_i hnames
    have hpositive := List.length_pos_iff.mpr fun hnil => hnames (List.isEmpty_iff.mpr hnil)
    -- What is inside the location, or the location itself, is below the directory around it.
    have hbelow (k : Location) (hk : k ∈ t.entries) (hbase : k.base = l.base)
        (hinside : l.names <+: k.names) : t.isDirectory ⟨l.base, l.names.dropLast⟩ = true := by
      refine isDirectory_iff.mpr (.inr (.inr ⟨k, hk, isBelow_iff.mpr ⟨hbase, ?_, fun hsame => ?_⟩⟩))
      · exact (List.dropLast_prefix _).trans hinside
      · have hlength := hinside.length_le
        simp only [hsame, List.length_dropLast] at hlength
        omega
    obtain hnil | hgiven | ⟨k, hk, hkbelow⟩ := isDirectory_iff.mp h
    · exact absurd (List.isEmpty_iff.mpr hnil) hnames
    · exact hbelow l (List.mem_append_right _ hgiven) rfl (List.prefix_refl _)
    · obtain ⟨hbase, hinside, -⟩ := isBelow_iff.mp hkbelow
      exact hbelow k hk hbase hinside

theorem mem_insert {files : List (Location × List UInt8)} :
    k ∈ (insert l bytes files).map Prod.fst ↔ k = l ∨ k ∈ files.map Prod.fst := by
  induction files with
  | nil => simp [insert]
  | cons f files ih =>
    rw [insert]
    split
    · rename_i hsame
      simp [hsame]
    · rw [List.map_cons, List.mem_cons, ih, List.map_cons, List.mem_cons, or_left_comm]

theorem mem_entries_put {entry : Location} :
    entry ∈ (t.put k bytes).entries ↔ entry = k ∨ entry ∈ t.entries := by
  rw [entries, List.mem_append, put, mem_insert, or_assoc, ← List.mem_append]
  rfl

/-- A new file makes directories of the locations above it, and of no other. -/
theorem isDirectory_put :
    (t.put k bytes).isDirectory l = true ↔ t.isDirectory l = true ∨ k.isBelow l = true := by
  have hdirectories : (t.put k bytes).directories = t.directories := rfl
  simp only [isDirectory_iff, hdirectories, mem_entries_put, or_and_right, exists_or, exists_eq_left]
  rw [or_assoc, or_assoc, or_comm (a := k.isBelow l = true)]

theorem isDirectory_put_eq_false (hl : t.isDirectory l = false) (hbelow : k.isBelow l = false) :
    (t.put k bytes).isDirectory l = false := by
  refine Bool.eq_false_iff.mpr fun h => ?_
  obtain h | h := isDirectory_put.mp h
  · rw [hl] at h
    cases h
  · rw [hbelow] at h
    cases h

/-! ### Paths -/

/-- The directory that a path begins in. -/
def start (root : Text) : Location := ⟨if root.isEmpty then .above 0 else .root, []⟩

theorem enter_eq_ok_iff {name : Name} :
    t.enter l name = .ok k ↔ t.isDirectory l = true ∧
      (name = parentName ∧ k = l.parent ∨
        name ≠ parentName ∧ name.length ≤ maxName ∧ k = l.child name) := by
  rw [enter, ← parentName]
  cases t.isDirectory l with
  | false => simp
  | true =>
    by_cases hparent : name = parentName
    · simp [hparent, eq_comm]
    · by_cases hlong : maxName < name.length
      · simp [hparent, hlong, Nat.not_le_of_lt hlong]
      · simp [hparent, hlong, Nat.le_of_not_lt hlong, Location.child, eq_comm]

theorem resolve_eq_ok_iff :
    t.resolve path = .ok l ↔ (textBytes path.text).length ≤ maxPath ∧
      (path.names.map textBytes).foldlM t.enter (start path.root) = .ok l := by
  unfold resolve
  by_cases hlong : maxPath < (textBytes path.text).length
  · simp [hlong, Nat.not_le_of_lt hlong]
  · simp [hlong, Nat.le_of_not_lt hlong, start]

/-- A file is found under its name in the directory to which the names before it lead. -/
theorem exists_directory {root : Text} {before : List Text} {last : Text}
    (h : t.resolve ⟨root, before ++ [last]⟩ = .ok l) (hl : t.isDirectory l = false) :
    ∃ d, (before.map textBytes).foldlM t.enter (start root) = .ok d ∧
      l = d.child (textBytes last) := by
  obtain ⟨-, hnames⟩ := resolve_eq_ok_iff.mp h
  rw [List.map_append, List.foldlM_append, bind_eq_ok] at hnames
  obtain ⟨d, hd, hlast⟩ := hnames
  simp only [List.map_cons, List.map_nil, List.foldlM_cons, List.foldlM_nil, bind_pure] at hlast
  obtain ⟨hdirectory, ⟨-, rfl⟩ | ⟨-, -, rfl⟩⟩ := enter_eq_ok_iff.mp hlast
  · -- The directory around another one is no file.
    rw [isDirectory_parent hdirectory] at hl
    cases hl
  · exact ⟨d, hd, rfl⟩

/-- Names that differ in the last one only lead to different files of one directory. -/
theorem siblings {root : Text} {before : List Text} {last other : Text}
    (h : t.resolve ⟨root, before ++ [last]⟩ = .ok l) (hl : t.isDirectory l = false)
    (h' : t.resolve ⟨root, before ++ [other]⟩ = .ok k) (hk : t.isDirectory k = false) :
    (k = l ↔ textBytes other = textBytes last) ∧ k.isBelow l = false := by
  obtain ⟨d, hd, rfl⟩ := exists_directory h hl
  obtain ⟨d', hd', rfl⟩ := exists_directory h' hk
  obtain rfl := Except.ok.inj (hd.symm.trans hd')
  exact ⟨by simp [Location.child], not_isBelow_child _ _ _⟩

theorem enter_put {d : Location} {name : Name} (h : t.enter d name = .ok l) :
    (t.put k bytes).enter d name = .ok l := by
  obtain ⟨hdirectory, hname⟩ := enter_eq_ok_iff.mp h
  exact enter_eq_ok_iff.mpr ⟨isDirectory_put.mpr (.inl hdirectory), hname⟩

theorem foldlM_enter_put {names : List Name} {d : Location} (h : names.foldlM t.enter d = .ok l) :
    names.foldlM (t.put k bytes).enter d = .ok l := by
  induction names generalizing d with
  | nil => exact h
  | cons name names ih =>
    rw [List.foldlM_cons, bind_eq_ok] at h ⊢
    obtain ⟨next, hnext, hnames⟩ := h
    exact ⟨next, enter_put hnext, ih hnames⟩

/-- A path leads to the same location after a file has been written. -/
theorem resolve_put (h : t.resolve path = .ok l) : (t.put k bytes).resolve path = .ok l := by
  obtain ⟨hshort, hnames⟩ := resolve_eq_ok_iff.mp h
  exact resolve_eq_ok_iff.mpr ⟨hshort, foldlM_enter_put hnames⟩

/-! ### Files -/

/-- Another file reads as before. -/
theorem read_put_of_ne {written : List UInt8} (hread : t.read path = .ok bytes)
    (hl : t.resolve path = .ok l) (hne : l ≠ k) (hbelow : k.isBelow l = false) :
    (t.put k written).read path = .ok bytes := by
  obtain ⟨_, hresolve, hdirectory, hbytes⟩ := read_eq_ok_iff.mp hread
  obtain rfl := Except.ok.inj (hl.symm.trans hresolve)
  -- The new file makes directories of the locations above it, and `l` is none of these.
  refine read_eq_ok_iff.mpr ⟨l, resolve_put hl, isDirectory_put_eq_false hdirectory hbelow, ?_⟩
  rw [bytes?, put, lookup_insert_of_ne hne]
  exact hbytes

/-- A file reads as it has been written. -/
theorem read_put_self (hl : t.resolve path = .ok l) (hdirectory : t.isDirectory l = false) :
    (t.put l bytes).read path = .ok bytes := by
  have hself : l.isBelow l = false := by simp [Location.isBelow]
  exact read_eq_ok_iff.mpr ⟨l, resolve_put hl, isDirectory_put_eq_false hdirectory hself,
    lookup_insert_self l bytes t.files⟩

end Tree

end DeltaPreview.File
