import DebRelease.Path.Basic

namespace DebRelease

/-- A place in a tree: the names from the root down. -/
abbrev Location := List Bytes

/-- What is at a place. -/
inductive Entry where
  | directory
  /-- A file with its content, which may be a program. -/
  | file (content : Bytes) (executable : Bool)
  | symlink (target : Path)
  deriving DecidableEq, Repr, Inhabited

namespace Entry

/-- Whether an entry is a directory. -/
def isDirectory : Entry → Bool
  | directory => true
  | _ => false

/-- Whether an entry is a symbolic link. -/
def isSymlink : Entry → Bool
  | symlink _ => true
  | _ => false

end Entry

/-- A tree of files. It lists its entries by location, in the order in which directories list them;
    the root is a directory and is not listed. Two trees with the same `get?` hold the same files. -/
structure FileTree where
  entries : List (Location × Entry)
  deriving DecidableEq, Repr, Inhabited

namespace FileTree

/-- The tree that has only its root. -/
def empty : FileTree := ⟨[]⟩

/-- What is at a place. -/
def get? (t : FileTree) : Location → Option Entry
  | [] => some .directory
  | location => t.entries.lookup location

/-- Whether a directory is at a place. -/
def isDirectory (t : FileTree) (location : Location) : Bool :=
  t.get? location = some .directory

/-- The names in a directory, in the order in which it lists them. -/
def childNames (t : FileTree) (dir : Location) : List Bytes :=
  t.entries.filterMap fun (location, _) =>
    match location.getLast? with
    | some name => if location.dropLast = dir then some name else none
    | none => none

/-- Whether a place lies below a directory. -/
def isBelow (dir location : Location) : Bool :=
  dir.isPrefixOf location && dir.length < location.length

/-- The entries below a directory, each with its place relative to the directory. -/
def below (t : FileTree) (dir : Location) : List (Location × Entry) :=
  t.entries.filterMap fun (location, entry) =>
    if isBelow dir location then some (location.drop dir.length, entry) else none

/-- The tree with an entry at a place; what was there before goes. -/
def set (t : FileTree) (location : Location) (entry : Entry) : FileTree :=
  if t.entries.any (·.1 == location) then
    ⟨t.entries.map fun item => if item.1 = location then (location, entry) else item⟩
  else
    ⟨t.entries ++ [(location, entry)]⟩

/-- The tree without the entry at a place. -/
def erase (t : FileTree) (location : Location) : FileTree :=
  ⟨t.entries.filter (·.1 != location)⟩

/-- The tree without what lies below a directory. -/
def clear (t : FileTree) (dir : Location) : FileTree :=
  ⟨t.entries.filter fun item => !isBelow dir item.1⟩

/-- The place that `location` has after all at and below `source` went to `target`. -/
def moved (source target location : Location) : Location :=
  if source.isPrefixOf location then target ++ location.drop source.length else location

/-- The tree in which everything at and below `source` is at `target` instead. -/
def move (t : FileTree) (source target : Location) : FileTree :=
  ⟨t.entries.map fun (location, entry) => (moved source target location, entry)⟩

end FileTree

end DebRelease
