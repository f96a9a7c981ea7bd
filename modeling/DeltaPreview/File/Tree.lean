import DeltaPreview.File.Path

/-!
# Files

Files with their bytes, found by the names that lead to them from the working directory, from one of
the directories above it, or from the root.  A directory exists if it is given or if something is
below it; those that paths begin in always exist.  There are no links.
-/

namespace DeltaPreview.File

/-- A directory that paths begin in. -/
inductive Base where
  /-- The directory so many levels above the working directory, which is itself at level zero. -/
  | above (levels : Nat)
  | root
  deriving DecidableEq, Repr

/-- The directory that contains one in which paths begin. -/
def Base.parent : Base → Base
  | above levels => above (levels + 1)
  | root => root

/-- What names lead to. -/
structure Location where
  base : Base
  names : List Name
  deriving DecidableEq, Repr

/-- The location of names in the working directory. -/
def Location.here (names : List Name) : Location := ⟨.above 0, names⟩

/-- The directory that contains a location. -/
def Location.parent (l : Location) : Location :=
  if l.names.isEmpty then ⟨l.base.parent, []⟩ else ⟨l.base, l.names.dropLast⟩

/-- Whether a location lies in a directory, or in one below it. -/
def Location.isBelow (l directory : Location) : Bool :=
  l.base == directory.base && directory.names.isPrefixOf l.names && l.names != directory.names

/-- Files and their bytes, and directories, which need not hold any of the files. -/
structure Tree where
  files : List (Location × List UInt8)
  directories : List Location
  deriving DecidableEq, Repr

/-- Why a file cannot be read or written. -/
inductive Problem where
  | notFound
  | notADirectory
  | isADirectory
  | nameTooLong
  /-- The file may not be used; this happens to no file of a tree. -/
  | denied
  deriving DecidableEq, Repr

namespace Problem

/-- The number of a problem. -/
def number : Problem → Nat
  | notFound => 2
  | denied => 13
  | notADirectory => 20
  | isADirectory => 21
  | nameTooLong => 36

/-- The description of a problem. -/
def description : Problem → String
  | notFound => "No such file or directory"
  | denied => "Permission denied"
  | notADirectory => "Not a directory"
  | isADirectory => "Is a directory"
  | nameTooLong => "File name too long"

/-- What is reported of a problem with a path. -/
def message (p : Problem) (path : Path) : Text :=
  Text.ofString ("[Errno " ++ toString p.number ++ "] " ++ p.description ++ ": ") ++
    Json.displayQuoted path.text

end Problem

/-- The most bytes of a name. -/
def maxName : Nat := 255

/-- The most bytes of the spelling of a path. -/
def maxPath : Nat := 4095

namespace Tree

/-- The bytes of a file. -/
def bytes? (t : Tree) (l : Location) : Option (List UInt8) := t.files.lookup l

/-- What exists: the files and the directories that are given. -/
def entries (t : Tree) : List Location := t.files.map Prod.fst ++ t.directories

/-- Whether a location is a directory. -/
def isDirectory (t : Tree) (l : Location) : Bool :=
  l.names.isEmpty || t.directories.contains l || t.entries.any fun k => k.isBelow l

/-- The location that a name leads to from another one, which must be a directory. -/
def enter (t : Tree) (l : Location) (name : Name) : Except Problem Location :=
  if !t.isDirectory l then
    .error (if (t.bytes? l).isSome then .notADirectory else .notFound)
  else if name = textBytes [Path.point, Path.point] then .ok l.parent
  else if maxName < name.length then .error .nameTooLong
  else .ok ⟨l.base, l.names ++ [name]⟩

/-- The location that a path leads to. -/
def resolve (t : Tree) (path : Path) : Except Problem Location :=
  if maxPath < (textBytes path.text).length then .error .nameTooLong
  else (path.names.map textBytes).foldlM t.enter
    ⟨if path.root.isEmpty then .above 0 else .root, []⟩

/-- The bytes of the file at a path. -/
def read (t : Tree) (path : Path) : Except Problem (List UInt8) := do
  let l ← t.resolve path
  if t.isDirectory l then .error .isADirectory
  else match t.bytes? l with
    | some bytes => .ok bytes
    | none => .error .notFound

/-- The files after one of them is created or replaced. -/
def insert (l : Location) (bytes : List UInt8) :
    List (Location × List UInt8) → List (Location × List UInt8)
  | [] => [(l, bytes)]
  | f :: rest => if f.1 = l then (l, bytes) :: rest else f :: insert l bytes rest

theorem lookup_insert_self (l : Location) (bytes : List UInt8)
    (files : List (Location × List UInt8)) : (insert l bytes files).lookup l = some bytes := by
  induction files with
  | nil => simp [insert]
  | cons f rest ih =>
    obtain ⟨k, b⟩ := f
    by_cases h : k = l
    · simp [insert, h]
    · have hne : (l == k) = false := by simpa using fun e => h e.symm
      simpa [insert, h, List.lookup_cons, hne] using ih

/-- Writing one file changes no other. -/
theorem lookup_insert_of_ne {l other : Location} (h : other ≠ l) (bytes : List UInt8)
    (files : List (Location × List UInt8)) :
    (insert l bytes files).lookup other = files.lookup other := by
  have hne : (other == l) = false := by simpa using h
  induction files with
  | nil => simp [insert, List.lookup_cons, hne]
  | cons f rest ih =>
    obtain ⟨k, b⟩ := f
    by_cases hk : k = l
    · subst hk
      simp [insert, List.lookup_cons, hne]
    · cases ho : other == k <;> simp_all [insert, List.lookup_cons]

/-- The tree after one of its files is created or replaced. -/
def put (t : Tree) (l : Location) (bytes : List UInt8) : Tree := { t with files := insert l bytes t.files }

/-- The files after writing at a path, whose directory must exist. -/
def write (t : Tree) (path : Path) (bytes : List UInt8) : Except Problem Tree := do
  let l ← t.resolve path
  if t.isDirectory l then .error .isADirectory else .ok (t.put l bytes)

end Tree

end DeltaPreview.File
