import DebRelease.Manifest.Version
import DebRelease.Session

namespace DebRelease.Manifest

/-- What the name of a backup ends with. -/
def backupSuffix : String := ".hydrangea-release-backup"

/-- The backup of a manifest. -/
def backupOf (manifest : Path) : Path :=
  manifest.append backupSuffix

/-- A manifest that carries another version for a while. The bytes it had are kept in memory and in
    a backup beside it, and are put back when the guard is ended, in whichever way. -/
structure Guard where
  manifest : Path
  /-- Its bytes before the version was set. -/
  content : Bytes
  deriving DecidableEq, Repr

namespace Guard

open FileTree

/-- The backup of the guarded manifest. -/
def backup (g : Guard) : Path :=
  backupOf g.manifest

/-- What it takes to set the version in a manifest: its bytes and those with the version. A backup
    that is already there, whatever it holds, stands against it. -/
def prepare (cwd : WorkingDir) (manifest : Path) (version : String) (t : FileTree) :
    Except Failure (Bytes × Bytes) := do
  let backup := backupOf manifest
  if ← Failure.naming "checking for manifest backup" backup (t.exists? cwd backup) then
    let stale := backup.display
    let shown := manifest.display
    throw (.plain (s!"stale manifest backup {stale} from an interrupted run; " ++
      s!"restore {shown} from it (or delete it) and rerun"))
  let content ← Failure.naming "reading manifest" manifest (t.read cwd manifest)
  let shown := manifest.display
  let versioned ← (setVersion content version).mapError (.context s!"invalid manifest {shown}")
  pure (content, versioned)

/-- Ends a guard that was not restored: the manifest's bytes are put back and the backup is
    removed, or the log says why not and the backup stays. -/
def dropOn (storage : Storage) (cwd : WorkingDir) (g : Guard) : RunM σ Unit := do
  match ← RunM.onTree (TreeM.attempt (storage.write cwd g.manifest g.content)) with
  | .ok () =>
    let _ ← RunM.onTree (TreeM.attempt (unlink cwd g.backup))
  | .error e =>
    let shown := g.manifest.display
    let kept := g.backup.display
    RunM.log .error s!"Failed to restore {shown} (original kept at {kept}): {e.message}"

/-- Sets the version in a manifest. The backup is written first; if the manifest then cannot be
    written, the guard ends at once. -/
def acquireOn (storage : Storage) (cwd : WorkingDir) (manifest : Path) (version : String) :
    RunM σ Guard := do
  let (content, versioned) ← RunM.onTree (TreeM.look (prepare cwd manifest version))
  let g : Guard := ⟨manifest, content⟩
  RunM.onTree
    ((storage.write cwd g.backup content).describe (.file "backing up manifest" g.backup))
  match ← RunM.onTree (TreeM.attempt (storage.write cwd manifest versioned)) with
  | .ok () => pure g
  | .error e =>
    dropOn storage cwd g
    throw (.file "writing manifest" manifest e)

/-- Puts the manifest's bytes back and removes the backup. A guard whose bytes cannot be put back is
    dropped. -/
def restoreOn (storage : Storage) (cwd : WorkingDir) (g : Guard) : RunM σ Unit := do
  match ← RunM.onTree (TreeM.attempt (storage.write cwd g.manifest g.content)) with
  | .error e =>
    dropOn storage cwd g
    throw (.file "restoring manifest" g.manifest e)
  | .ok () =>
    match ← RunM.onTree (TreeM.attempt (unlink cwd g.backup)) with
    | .ok () => pure ()
    | .error e =>
      if e.isNotFound then pure ()
      else throw (.file "removing manifest backup" g.backup e)

/-- Ends a guard that was not restored, as a run does: on storage that refuses nothing but what the
    files themselves stand against. -/
def drop (cwd : WorkingDir) (g : Guard) : RunM σ Unit :=
  dropOn .willing cwd g

/-- Sets the version in a manifest, as a run does. -/
def acquire (cwd : WorkingDir) (manifest : Path) (version : String) : RunM σ Guard :=
  acquireOn .willing cwd manifest version

/-- Puts the manifest's bytes back and removes the backup, as a run does. -/
def restore (cwd : WorkingDir) (g : Guard) : RunM σ Unit :=
  restoreOn .willing cwd g

end Guard

end DebRelease.Manifest
