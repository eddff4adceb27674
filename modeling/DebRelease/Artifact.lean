import DebRelease.FileTree.Directory
import DebRelease.Sha256
import DebRelease.Text.Hex

namespace DebRelease

/-- An entry of the installer directory. -/
structure Artifact where
  path : Path
  /-- Its size: the length of a file, the sum of the files below a directory. The sum is exact, as a
      sum in 64 bits is while it is below `2 ^ 64`. -/
  size : Nat
  checksum : String
  deriving DecidableEq, Repr

/-- The name of an artifact as messages show it. -/
def Artifact.fileName (a : Artifact) : String :=
  (a.path.fileName?.getD []).lossy

/-- How much of a file is read at once, at most. -/
def bufferSize : Nat := 8192

/-- How files are read: their contents come in parts, none of which is empty or exceeds the buffer. -/
structure Chunking where
  parts : Bytes → List Bytes
  flatten_parts : ∀ content, (parts content).flatten = content
  /-- A part is not empty, and fits into the buffer. -/
  bounded : ∀ content, ∀ part ∈ parts content, part ≠ [] ∧ part.length ≤ bufferSize

namespace Chunking

/-- The parts of a content of which all but the last fill the buffer. -/
def fullParts (content : Bytes) : List Bytes :=
  (List.range ((content.length + (bufferSize - 1)) / bufferSize)).map fun i =>
    (content.drop (i * bufferSize)).take bufferSize

theorem flatten_fullParts (content : Bytes) : (fullParts content).flatten = content := by
  have htake (count : Nat) : ((List.range count).map fun i =>
      (content.drop (i * bufferSize)).take bufferSize).flatten = content.take (count * bufferSize) := by
    induction count with
    | zero => simp
    | succ count ih => simp [List.range_succ, ih, Nat.succ_mul, List.take_add]
  rw [fullParts, htake]
  refine List.take_of_length_le ?_
  simp only [bufferSize]
  omega

/-- Every read fills the buffer as far as the file goes. -/
def full : Chunking where
  parts := fullParts
  flatten_parts := flatten_fullParts
  bounded := by
    intro content part hmem
    obtain ⟨i, hi, rfl⟩ := List.mem_map.mp hmem
    rw [List.mem_range] at hi
    refine ⟨?_, List.length_take_le _ _⟩
    rw [ne_eq, ← List.length_eq_zero_iff, List.length_take, List.length_drop]
    simp only [bufferSize] at hi ⊢
    omega

end Chunking

namespace FileTree

/-- A place sorts before another component by component. -/
def locationLe : Location → Location → Bool
  | [], _ => true
  | _ :: _, [] => false
  | x :: xs, y :: ys => if x = y then locationLe xs ys else Bytes.le x y

/-- The entries that a walk below a directory comes to, each with its path; symbolic links are not followed. A
    directory that cannot be listed is passed over. Since paths have a greatest length, so have chains of
    directories. -/
def walk (t : FileTree) (cwd : WorkingDir) : Nat → Path → List (Path × Entry)
  | 0, _ => []
  | depth + 1, p =>
    match t.listEntries cwd p with
    | .error _ => []
    | .ok entries => entries.flatMap fun (name, entry) =>
      let path := p.join ⟨name⟩
      (path, entry) :: if entry.isDirectory then t.walk cwd depth path else []

/-- The paths of the files that a walk below a directory comes to. -/
def walkFiles (t : FileTree) (cwd : WorkingDir) (p : Path) : List Path :=
  (t.walk cwd Path.lengthLimit p).filterMap fun (path, entry) =>
    match entry with
    | .file .. => some path
    | _ => none

/-- The parts in which the file at a path is read for its hash. -/
def readParts (chunking : Chunking) (t : FileTree) (cwd : WorkingDir) (p : Path) : Except Failure (List Bytes) := do
  match ← Failure.naming "opening file for hashing" p (t.stat cwd p) with
  | (_, .file content _) => pure (chunking.parts content)
  | _ => throw (.file "reading file for hash calculation" p (.os .isDirectory))

/-- What is hashed of a file below a directory: its path relative to the directory as text, then its content. -/
def fileParts (chunking : Chunking) (t : FileTree) (cwd : WorkingDir) (dir file : Path) :
    Except Failure (List Bytes) := do
  let parts ← t.readParts chunking cwd file
  match file.relativeTo? dir with
  | some relative => pure (Bytes.ofText relative.display :: parts)
  | none => pure parts

/-- What is hashed, part after part, for the file or directory at a path, a link followed. The files of a directory
    are taken in the order of their paths. -/
def hashedParts (chunking : Chunking) (t : FileTree) (cwd : WorkingDir) (p : Path) : Except Failure (List Bytes) := do
  match ← Failure.naming "reading artifact metadata" p (t.stat cwd p) with
  | (_, .directory) =>
    let files := (t.walkFiles cwd p).mergeSort fun a b => locationLe a.components b.components
    let parts ← files.mapM (t.fileParts chunking cwd p)
    pure parts.flatten
  | _ => t.readParts chunking cwd p

/-- The checksum of the file or directory at a path, a link followed, when files are read in the given way. -/
def checksumBy (chunking : Chunking) (t : FileTree) (cwd : WorkingDir) (p : Path) : Except Failure String := do
  let parts ← t.hashedParts chunking cwd p
  pure (parts.foldl Sha256.Hasher.update .start).finish.hex

/-- The checksum of the file or directory at a path, a link followed. -/
def checksum (t : FileTree) (cwd : WorkingDir) (p : Path) : Except Failure String :=
  t.checksumBy .full cwd p

/-- The length of the file at a path, a link not followed. -/
def fileSize? (t : FileTree) (cwd : WorkingDir) (p : Path) : Option Nat :=
  match t.lstat cwd p with
  | .ok (_, .file content _) => some content.length
  | _ => none

/-- The size of the file or directory at a path, a link followed. It is an exact sum, which 64 bits
    hold while the files have fewer than `2 ^ 64` bytes together. -/
def size (t : FileTree) (cwd : WorkingDir) (p : Path) : Except Failure Nat := do
  match ← Failure.naming "reading artifact metadata" p (t.stat cwd p) with
  | (_, .file content _) => pure content.length
  | _ => pure (((t.walkFiles cwd p).filterMap (t.fileSize? cwd)).foldl (· + ·) 0)

/-- The artifact at a path. -/
def artifact (t : FileTree) (cwd : WorkingDir) (p : Path) : Except Failure Artifact := do
  let size ← t.size cwd p
  let checksum ← t.checksum cwd p
  pure ⟨p, size, checksum⟩

/-- The artifacts in a directory, sorted by name. -/
def artifacts (t : FileTree) (cwd : WorkingDir) (dir : Path) : Except Failure (List Artifact) := do
  let names ← Failure.naming "listing directory" dir (t.list cwd dir)
  (names.mergeSort Bytes.le).mapM fun name => t.artifact cwd (dir.join ⟨name⟩)

end FileTree

end DebRelease
