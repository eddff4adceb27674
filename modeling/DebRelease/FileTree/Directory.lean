import DebRelease.Failure
import DebRelease.FileTree.Change

namespace DebRelease.FileTree

open TreeM

/-- Removes a directory and all below it, or a symbolic link. What lies below goes first; the
    directory itself is then looked up again, and it is no error if it is gone. -/
def removeAllAt (cwd : WorkingDir) (p : Path) : TreeM SystemError Unit := do
  match ← look (·.lstat cwd p) with
  | (_, .symlink _) => unlink cwd p
  | (_, .file ..) => refuse .notDirectory
  | (location, .directory) =>
    modify (·.clear location)
    match ← attempt (removeDir cwd p) with
    | .ok () => pure ()
    | .error e => if e.isNotFound then pure () else throw e

/-- Removes a directory and all below it; it is no error if nothing is there. -/
def removeAll (cwd : WorkingDir) (p : Path) : TreeM Failure Unit := do
  match ← attempt (removeAllAt cwd p) with
  | .ok () => pure ()
  | .error e => if e.isNotFound then pure () else throw (.file "removing directory" p e)

/-- Makes a directory empty, whether or not it was there. -/
def recreate (cwd : WorkingDir) (p : Path) : TreeM Failure Unit := do
  removeAll cwd p
  (makeDirs cwd p).describe (.file "creating directory" p)

/-- Copies a file, its being a program included. The target is emptied before the source is
    read. -/
def copyFile (cwd : WorkingDir) (source target : Path) : TreeM SystemError Unit := do
  match ← look (·.stat cwd source) with
  | (location, .file _ executable) =>
    let new ← truncate cwd executable target
    modify fun t =>
      match t.get? new with
      | some (.file content _) => t.set new (.file content executable)
      | _ => t
    match (← get).get? location with
    | some (.file content _) => fill new content
    | _ => pure ()
  | _ => throw .notRegularFile

/-- Copies one entry that a walk has come to; what lies below a directory is not copied. -/
def copyEntry (cwd : WorkingDir) (entry : Entry) (source target : Path) : TreeM Failure Unit := do
  match entry with
  | .symlink _ =>
    let linked ← look fun t => Failure.naming "reading symlink" source (t.readLink cwd source)
    (makeLink cwd linked target).describe (.file "creating symlink" target)
  | .directory => (makeDirs cwd target).describe (.file "creating directory" target)
  | .file .. => (copyFile cwd source target).describe (.file "copying file" target)

/-- The entries of a directory with their kinds. -/
def listEntries (t : FileTree) (cwd : WorkingDir) (p : Path) :
    Except SystemError (List (Bytes × Entry)) := do
  match ← t.stat cwd p with
  | (location, .directory) =>
    pure ((t.childNames location).filterMap fun name =>
      (t.get? (location ++ [name])).map fun entry => (name, entry))
  | _ => throw (.os .notDirectory)

/-- Copies what lies below a directory. A directory is listed after it has been copied and before
    anything in it is. Since paths have a greatest length, so have chains of directories. -/
def copyBelow (cwd : WorkingDir) : Nat → Path → Path → TreeM Failure Unit
  | 0, source, _ => throw (.traversal source (.os .nameTooLong))
  | depth + 1, source, target => do
    let entries ← look fun t => (t.listEntries cwd source).mapError (.traversal source)
    entries.forM fun (name, entry) => do
      let source := source.join ⟨name⟩
      let target := target.join ⟨name⟩
      copyEntry cwd entry source target
      if entry.isDirectory then copyBelow cwd depth source target

/-- Refuses what is no directory. -/
def requireDir (cwd : WorkingDir) (p : Path) : TreeM Failure Unit := do
  if !(← get).isDir cwd p then
    let shown := p.display
    throw (.plain s!"{shown} is not a directory")

/-- Makes the directory that a path stands in. -/
def makeParent (cwd : WorkingDir) (p : Path) : TreeM Failure Unit := do
  match p.parent? with
  | some parent => (makeDirs cwd parent).describe (.file "creating directory" parent)
  | none => pure ()

/-- Copies a directory, symbolic links as links. Files at the target are written over. If the source
    is itself given as a link, a link is what is copied first. -/
def copyDir (cwd : WorkingDir) (source target : Path) : TreeM Failure Unit := do
  requireDir cwd source
  makeParent cwd target
  let (_, entry) ← look fun t => (t.lstat cwd source).mapError (.traversal source)
  copyEntry cwd entry source (target.join .empty)
  copyBelow cwd Path.lengthLimit source target

/-- Moves a directory in place of what is at the target. If it cannot be renamed, it is copied and
    removed. -/
def moveDir (cwd : WorkingDir) (source target : Path) : TreeM Failure Unit := do
  requireDir cwd source
  removeAll cwd target
  makeParent cwd target
  match ← attempt (rename cwd source target) with
  | .ok () => pure ()
  | .error _ =>
    copyDir cwd source target
    removeAll cwd source

end DebRelease.FileTree
