import DebRelease.FileTree.Resolve

namespace DebRelease

/-- A computation on a tree that may fail; changes made before a failure stay. -/
abbrev TreeM (ε : Type) := ExceptT ε (StateM FileTree)

namespace TreeM

/-- What is seen of the tree now. -/
def look (f : FileTree → Except ε α) : TreeM ε α := do
  match f (← get) with
  | .ok a => pure a
  | .error e => throw e

/-- A computation that fails with a number of the system. -/
def refuse (errno : Errno) : TreeM SystemError α :=
  throw (.os errno)

/-- The outcome of a computation in place of its failure. -/
def attempt (m : TreeM ε α) : TreeM ε' (Except ε α) := fun t =>
  let (outcome, t) := m t
  (.ok outcome, t)

/-- A computation whose failure is described anew. -/
def describe (f : ε → ε') (m : TreeM ε α) : TreeM ε' α := fun t =>
  let (outcome, t) := m t
  (outcome.mapError f, t)

end TreeM

namespace FileTree

open TreeM

/-- Makes a directory. -/
def makeDir (cwd : WorkingDir) (p : Path) : TreeM SystemError Unit := do
  match ← look (·.resolveParent cwd p) with
  | (dir, .name name _) =>
    if Path.nameLimit < name.length then refuse .nameTooLong
    match (← get).get? (dir ++ [name]) with
    | some _ => refuse .alreadyExists
    | none => modify (·.set (dir ++ [name]) .directory)
  | _ => refuse .alreadyExists

/-- Makes a symbolic link. -/
def makeLink (cwd : WorkingDir) (target p : Path) : TreeM SystemError Unit := do
  look fun _ => checkPath target
  match ← look (·.resolveParent cwd p) with
  | (dir, .name name slash) =>
    if Path.nameLimit < name.length then refuse .nameTooLong
    match (← get).get? (dir ++ [name]) with
    | some _ => refuse .alreadyExists
    | none =>
      if slash then refuse .noEntry
      modify (·.set (dir ++ [name]) (.symlink target))
  | _ => refuse .alreadyExists

/-- Removes a file or a link. -/
def unlink (cwd : WorkingDir) (p : Path) : TreeM SystemError Unit := do
  match ← look (·.resolveParent cwd p) with
  | (dir, .name name slash) =>
    if Path.nameLimit < name.length then refuse .nameTooLong
    match (← get).get? (dir ++ [name]) with
    | none => refuse .noEntry
    | some .directory => refuse .isDirectory
    | some _ =>
      if slash then refuse .notDirectory
      modify (·.erase (dir ++ [name]))
  | _ => refuse .isDirectory

/-- Removes an empty directory. -/
def removeDir (cwd : WorkingDir) (p : Path) : TreeM SystemError Unit := do
  match ← look (·.resolveParent cwd p) with
  | (dir, .name name _) =>
    if Path.nameLimit < name.length then refuse .nameTooLong
    match (← get).get? (dir ++ [name]) with
    | none => refuse .noEntry
    | some .directory =>
      if !((← get).below (dir ++ [name])).isEmpty then refuse .notEmpty
      modify (·.erase (dir ++ [name]))
    | some _ => refuse .notDirectory
  | (_, .dot) => refuse .invalidArgument
  | (_, .dotDot) => refuse .notEmpty
  | (_, .root) => refuse .busy

/-- Gives an entry another place. What is there goes, if a file may take the place of a file or a
    directory that of an empty directory. -/
def rename (cwd : WorkingDir) (source target : Path) : TreeM SystemError Unit := do
  look fun _ => checkPath source
  look fun _ => checkPath target
  let (sourceDir, sourceLast) ← look (·.resolveParent cwd source)
  let (targetDir, targetLast) ← look (·.resolveParent cwd target)
  match sourceLast, targetLast with
  | .name sourceName sourceSlash, .name targetName targetSlash =>
    let old := sourceDir ++ [sourceName]
    let new := targetDir ++ [targetName]
    if Path.nameLimit < sourceName.length || Path.nameLimit < targetName.length then
      refuse .nameTooLong
    match (← get).get? old with
    | none => refuse .noEntry
    | some entry =>
      if !entry.isDirectory && (sourceSlash || targetSlash) then refuse .notDirectory
      if entry.isDirectory && isBelow old new then refuse .invalidArgument
      if isBelow new old then refuse .notEmpty
      if old = new then return
      match entry.isDirectory, (← get).get? new with
      | _, none => modify (·.move old new)
      | true, some .directory =>
        if !((← get).below new).isEmpty then refuse .notEmpty
        modify fun t => (t.erase new).move old new
      | true, some _ => refuse .notDirectory
      | false, some .directory => refuse .isDirectory
      | false, some _ => modify fun t => (t.erase new).move old new
  | _, _ => refuse .busy

/-- Opens a file for writing and empties it; a file that is not there is made, a program if
    `executable` is set. The place of the file is returned. -/
def truncate (cwd : WorkingDir) (executable : Bool) (p : Path) : TreeM SystemError Location := do
  let (_, last) ← look (·.resolveParent cwd p)
  match last with
  | .name _ false =>
    match ← look (·.resolve cwd true p) with
    | .present location (.file _ executable) =>
      modify (·.set location (.file [] executable))
      pure location
    | .present .. => refuse .isDirectory
    | .absent dir name =>
      if Path.nameLimit < name.length then refuse .nameTooLong
      modify (·.set (dir ++ [name]) (.file [] executable))
      pure (dir ++ [name])
  | _ => refuse .isDirectory

/-- Puts content into a file that has been opened. -/
def fill (location : Location) (content : Bytes) : TreeM ε Unit :=
  modify fun t =>
    match t.get? location with
    | some (.file _ executable) => t.set location (.file content executable)
    | _ => t

/-- Writes a whole file. -/
def write (cwd : WorkingDir) (p : Path) (content : Bytes) : TreeM SystemError Unit := do
  let location ← truncate cwd false p
  fill location content

/-- Storage that may refuse to let a path be opened for writing: where what is there may not be written, the device is
    read-only or there is no room for another file. A refusal stands while the files are the same; what has been opened
    takes all that is written. -/
structure Storage where
  refusal? : FileTree → Path → Option Errno

/-- Storage that refuses nothing. -/
def Storage.willing : Storage := ⟨fun _ _ => none⟩

/-- Writes a whole file, if the storage lets it be opened. -/
def Storage.write (storage : Storage) (cwd : WorkingDir) (p : Path) (content : Bytes) :
    TreeM SystemError Unit := do
  match storage.refusal? (← get) p with
  | some errno => refuse errno
  | none => FileTree.write cwd p content

/-- Makes a file a program, or no program. -/
def setExecutable (cwd : WorkingDir) (p : Path) (executable : Bool) :
    TreeM SystemError Unit := do
  match ← look (·.stat cwd p) with
  | (location, .file content _) => modify (·.set location (.file content executable))
  | _ => pure ()

/-- Makes a directory and the directories above it that are missing. It is no error if the
    directory is there. `parents` bounds how many of those above are looked at. -/
def makeDirsUpTo (cwd : WorkingDir) : Nat → Path → TreeM SystemError Unit
  | parents, p => do
    if p.bytes.isEmpty then return
    match ← attempt (makeDir cwd p) with
    | .ok () => pure ()
    | .error e =>
      if e.isNotFound then
        match parents, p.parent? with
        | parents + 1, some parent =>
          makeDirsUpTo cwd parents parent
          match ← attempt (makeDir cwd p) with
          | .ok () => pure ()
          | .error e => if (← get).isDir cwd p then pure () else throw e
        | _, _ => throw e
      else if (← get).isDir cwd p then pure ()
      else throw e

/-- Makes a directory and the directories above it that are missing. -/
def makeDirs (cwd : WorkingDir) (p : Path) : TreeM SystemError Unit :=
  makeDirsUpTo cwd p.bytes.length p

end FileTree

end DebRelease
