import DebRelease.Errno
import DebRelease.FileTree.Basic

namespace DebRelease

/-- The directory that relative paths are read from; a directory that has been deleted has no
    place. -/
abbrev WorkingDir := Option Location

/-- What a path names. -/
inductive Target where
  | present (location : Location) (entry : Entry)
  /-- Nothing, but there is a directory the name could be put in. -/
  | absent (dir : Location) (name : Bytes)
  deriving DecidableEq, Repr

namespace Path

/-- The names of a path in the order in which they are followed, `.` and `..` included. -/
def names (p : Path) : List Bytes :=
  p.segments.filter (! ·.isEmpty)

/-- The names of a path; a slash at the end asks for a directory, like a `.` after it. -/
def steps (p : Path) : List Bytes :=
  if p.endsInSlash then p.names ++ [dot] else p.names

/-- The greatest length of a name. -/
def nameLimit : Nat := 255

/-- The least length at which a path is too long. -/
def lengthLimit : Nat := 4096

/-- The greatest number of symbolic links followed for one path. -/
def linkLimit : Nat := 40

end Path

namespace FileTree

/-- How far a path leads before a symbolic link has to be followed. -/
inductive Progress where
  | arrived (target : Target)
  /-- To a link in a directory, with names left after it. -/
  | link (dir : Location) (target : Path) (rest : List Bytes)

/-- Follows names from a place up to the next symbolic link. A link that is the last name counts as
    the end unless `follow` is set. -/
def advance (t : FileTree) (follow : Bool) : Location → List Bytes → Except Errno Progress
  | here, [] =>
    match t.get? here with
    | some entry => .ok (.arrived (.present here entry))
    | none => .error .noEntry
  | here, name :: rest =>
    match t.get? here with
    | none => .error .noEntry
    | some .directory =>
      if name = Path.dot then advance t follow here rest
      else if name = Path.dotDot then advance t follow here.dropLast rest
      else if Path.nameLimit < name.length then .error .nameTooLong
      else
        match t.get? (here ++ [name]) with
        | none =>
          if rest.isEmpty then .ok (.arrived (.absent here name)) else .error .noEntry
        | some (.symlink target) =>
          if rest.isEmpty && !follow then
            .ok (.arrived (.present (here ++ [name]) (.symlink target)))
          else
            .ok (.link here target rest)
        | some _ => advance t follow (here ++ [name]) rest
    | some _ => .error .notDirectory

/-- Follows names from a place, with at most `links` symbolic links on the way. -/
def follow (t : FileTree) (last : Bool) :
    Nat → Location → List Bytes → Except Errno Target
  | links, here, names =>
    match t.advance last here names with
    | .error e => .error e
    | .ok (.arrived target) => .ok target
    | .ok (.link dir target rest) =>
      match links with
      | 0 => .error .tooManyLinks
      | links + 1 =>
        t.follow last links (if target.isAbsolute then [] else dir) (target.steps ++ rest)

/-- Whether a path can be handed to the system at all. -/
def checkPath (p : Path) : Except SystemError Unit :=
  if p.bytes.contains 0 then .error .nulInPath
  else if p.bytes.isEmpty then .error (.os .noEntry)
  else if Path.lengthLimit ≤ p.bytes.length then .error (.os .nameTooLong)
  else .ok ()

/-- The place where a path begins. -/
def startOf (cwd : WorkingDir) (p : Path) : Except SystemError Location :=
  if p.isAbsolute then .ok []
  else
    match cwd with
    | some location => .ok location
    | none => .error (.os .noEntry)

/-- What a path names; a link that is its last name is followed if `last` is set. -/
def resolve (t : FileTree) (cwd : WorkingDir) (last : Bool) (p : Path) :
    Except SystemError Target := do
  checkPath p
  let start ← startOf cwd p
  (t.follow last Path.linkLimit start p.steps).mapError .os

/-- The last name of a path, as far as it decides what can be done with the path. -/
inductive LastName where
  | root
  | dot
  | dotDot
  /-- The last name is a name, possibly with a slash after it. -/
  | name (name : Bytes) (slash : Bool)
  deriving DecidableEq, Repr

/-- The last name of a path. -/
def lastName (p : Path) : LastName :=
  match p.names.getLast? with
  | none => .root
  | some name =>
    if name = Path.dot then .dot
    else if name = Path.dotDot then .dotDot
    else .name name p.endsInSlash

/-- The directory in which the last name of a path stands, and that name. The name itself is not
    looked up. -/
def resolveParent (t : FileTree) (cwd : WorkingDir) (p : Path) :
    Except SystemError (Location × LastName) := do
  checkPath p
  let start ← startOf cwd p
  match ← (t.follow true Path.linkLimit start p.names.dropLast).mapError .os with
  | .present dir .directory => pure (dir, lastName p)
  | .present .. => throw (.os .notDirectory)
  | .absent .. => throw (.os .noEntry)

/-- What a path names, links followed. -/
def stat (t : FileTree) (cwd : WorkingDir) (p : Path) : Except SystemError (Location × Entry) := do
  match ← t.resolve cwd true p with
  | .present location entry => pure (location, entry)
  | .absent .. => throw (.os .noEntry)

/-- What a path names, a link that is its last name not followed. -/
def lstat (t : FileTree) (cwd : WorkingDir) (p : Path) :
    Except SystemError (Location × Entry) := do
  match ← t.resolve cwd false p with
  | .present location entry => pure (location, entry)
  | .absent .. => throw (.os .noEntry)

/-- Whether a path names a directory. -/
def isDir (t : FileTree) (cwd : WorkingDir) (p : Path) : Bool :=
  match t.stat cwd p with
  | .ok (_, entry) => entry.isDirectory
  | .error _ => false

/-- The content of the file that a path names. -/
def read (t : FileTree) (cwd : WorkingDir) (p : Path) : Except SystemError Bytes := do
  match ← t.stat cwd p with
  | (_, .file content _) => pure content
  | _ => throw (.os .isDirectory)

/-- The names in the directory that a path names. -/
def list (t : FileTree) (cwd : WorkingDir) (p : Path) : Except SystemError (List Bytes) := do
  match ← t.stat cwd p with
  | (location, .directory) => pure (t.childNames location)
  | _ => throw (.os .notDirectory)

/-- Whether anything is at a path, links followed. -/
def exists? (t : FileTree) (cwd : WorkingDir) (p : Path) : Except SystemError Bool :=
  match t.stat cwd p with
  | .ok _ => .ok true
  | .error e => if e.isNotFound then .ok false else .error e

/-- The target of the symbolic link that a path names. -/
def readLink (t : FileTree) (cwd : WorkingDir) (p : Path) : Except SystemError Path := do
  match ← t.lstat cwd p with
  | (_, .symlink target) => pure target
  | _ => throw (.os .invalidArgument)

end FileTree

end DebRelease
