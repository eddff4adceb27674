import DebRelease.Manifest.Guard
import DebRelease.Proofs.FileTree.Edit
import DebRelease.Proofs.FileTree.Exact
import DebRelease.Proofs.Run.Computation

namespace DebRelease.Manifest

open FileTree

variable {σ : Type} {cwd : WorkingDir} {p : Path} {dir : Location} {name content : Bytes} {is : Bool}

/-- The name of the backup of a manifest. -/
def backupName (name : Bytes) : Bytes :=
  name ++ Bytes.ofText backupSuffix

theorem backupOf_ofLocation (dir : Location) (name : Bytes) :
    backupOf (.ofLocation (dir ++ [name])) = .ofLocation (dir ++ [backupName name]) :=
  Path.ofLocation_append dir name backupSuffix

theorem isName_backupName (h : Path.isName name = true) : Path.isName (backupName name) = true := by
  obtain ⟨hne, -, -, hslash⟩ := Path.isName_iff.mp h
  have hlong : 3 ≤ (backupName name).length := by
    have hsuffix : 3 ≤ (Bytes.ofText backupSuffix).length := by decide +kernel
    rw [backupName, List.length_append]
    omega
  have hfree : Path.slash ∉ Bytes.ofText backupSuffix := by decide +kernel
  refine Path.isName_iff.mpr ⟨?_, ?_, ?_, ?_⟩
  · intro heq
    simp [heq] at hlong
  · intro heq
    simp [heq, Path.dot] at hlong
  · intro heq
    simp [heq, Path.dotDot] at hlong
  · rw [backupName, List.mem_append, not_or]
    exact ⟨hslash, hfree⟩

theorem backupName_ne (name : Bytes) : backupName name ≠ name := by
  intro heq
  have hsuffix : 3 ≤ (Bytes.ofText backupSuffix).length := by decide +kernel
  have hlength := congrArg List.length heq
  rw [backupName, List.length_append] at hlength
  omega

theorem backup_ne (dir : Location) (name : Bytes) : dir ++ [backupName name] ≠ dir ++ [name] := by
  simp [backupName_ne name]

theorem get?_set_backup (t : FileTree) (dir : Location) (name : Bytes) (entry : Entry) :
    (t.set (dir ++ [backupName name]) entry).get? (dir ++ [name]) = t.get? (dir ++ [name]) :=
  get?_set_of_ne _ _ (by simp) (backup_ne dir name).symm

theorem get?_set_manifest (t : FileTree) (dir : Location) (name : Bytes) (entry : Entry) :
    (t.set (dir ++ [name]) entry).get? (dir ++ [backupName name]) = t.get? (dir ++ [backupName name]) :=
  get?_set_of_ne _ _ (by simp) (backup_ne dir name)

/-- A manifest that can carry a version: its content is an object. -/
def isObject (content : Bytes) : Bool :=
  match Json.parse content with
  | .ok (.object _) => true
  | _ => false

theorem setVersion_eq_ok (h : isObject content = true) (version : String) :
    ∃ versioned, setVersion content version = .ok versioned := by
  rw [isObject] at h
  rw [setVersion]
  split at h
  · rename_i members hparse
    rw [hparse]
    exact ⟨_, rfl⟩
  · cases h

namespace Guard

theorem prepare_eq_ok {manifest : Path} {version : String} {t : FileTree} {found versioned : Bytes}
    (h : prepare cwd manifest version t = .ok (found, versioned)) :
    t.exists? cwd (backupOf manifest) = .ok false ∧ t.read cwd manifest = .ok found ∧
      setVersion found version = .ok versioned := by
  rw [prepare] at h
  cases hexists : t.exists? cwd (backupOf manifest) with
  | error e =>
    rw [hexists] at h
    cases h
  | ok stale =>
    rw [hexists] at h
    cases stale with
    | true => cases h
    | false =>
      cases hread : t.read cwd manifest with
      | error e =>
        rw [hread] at h
        cases h
      | ok bytes =>
        rw [hread] at h
        cases hversion : setVersion bytes version with
        | error e => simp [bind, Except.bind, Failure.naming, Except.mapError, hversion] at h
        | ok result =>
          simp [bind, Except.bind, Failure.naming, Except.mapError, hversion] at h
          cases h
          exact ⟨rfl, rfl, hversion⟩

/-- Where both can be written, the backup is and then the manifest. -/
theorem acquireOn_of_writes {storage : Storage} {manifest : Path} {version : String} {s : Session σ}
    {versioned : Bytes} {backed written : FileTree}
    (hprepare : prepare cwd manifest version s.tree = .ok (content, versioned))
    (hbackup : storage.write cwd (backupOf manifest) content s.tree = (.ok (), backed))
    (hmanifest : storage.write cwd manifest versioned backed = (.ok (), written)) :
    acquireOn storage cwd manifest version s = (.ok ⟨manifest, content⟩, { s with tree := written }) := by
  rw [acquireOn, RunM.run_bind, RunM.run_onTree, TreeM.run_look, hprepare]
  dsimp only [backup]
  rw [RunM.run_bind, RunM.run_onTree, TreeM.run_describe, hbackup]
  dsimp only [Except.mapError]
  rw [RunM.run_bind, RunM.run_onTree, TreeM.run_attempt, hmanifest]
  rfl

/-- Setting the version fails before anything is written; or the backup is written, and then the manifest is, or it
    cannot be, and the guard is dropped. -/
theorem acquireOn_cases (storage : Storage) (cwd : WorkingDir) (manifest : Path) (version : String) (s : Session σ) :
    (∃ e, acquireOn storage cwd manifest version s = (.error e, s)) ∨
    ∃ content versioned backed, prepare cwd manifest version s.tree = .ok (content, versioned) ∧
      storage.write cwd (backupOf manifest) content s.tree = (.ok (), backed) ∧
      ((∃ written, storage.write cwd manifest versioned backed = (.ok (), written) ∧
          acquireOn storage cwd manifest version s = (.ok ⟨manifest, content⟩, { s with tree := written })) ∨
        ∃ e, storage.write cwd manifest versioned backed = (.error e, backed) ∧
          acquireOn storage cwd manifest version s = (.error (.file "writing manifest" manifest e),
            (dropOn storage cwd ⟨manifest, content⟩ { s with tree := backed }).2)) := by
  cases hprepare : prepare cwd manifest version s.tree with
  | error e =>
    refine .inl ⟨e, ?_⟩
    rw [acquireOn, RunM.run_bind, RunM.run_onTree, TreeM.run_look, hprepare]
  | ok found =>
    obtain ⟨content, versioned⟩ := found
    rcases storage.write_does cwd (backupOf manifest) content s.tree with ⟨e, hrun⟩ | ⟨backed, -, hrun, -⟩
    · refine .inl ⟨.file "backing up manifest" (backupOf manifest) e, ?_⟩
      rw [acquireOn, RunM.run_bind, RunM.run_onTree, TreeM.run_look, hprepare]
      dsimp only [backup]
      rw [RunM.run_bind, RunM.run_onTree, TreeM.run_describe, hrun]
      rfl
    refine .inr ⟨content, versioned, backed, rfl, hrun, ?_⟩
    rcases storage.write_does cwd manifest versioned backed with ⟨e, hwrite⟩ | ⟨written, -, hwrite, -⟩
    · refine .inr ⟨e, hwrite, ?_⟩
      rw [acquireOn, RunM.run_bind, RunM.run_onTree, TreeM.run_look, hprepare]
      dsimp only [backup]
      rw [RunM.run_bind, RunM.run_onTree, TreeM.run_describe, hrun]
      dsimp only [Except.mapError]
      rw [RunM.run_bind, RunM.run_onTree, TreeM.run_attempt, hwrite]
      dsimp only
      have hok := dropOn_eq_ok storage cwd ⟨manifest, content⟩ { s with tree := backed }
      rw [RunM.run_bind]
      cases hdrop : dropOn storage cwd ⟨manifest, content⟩ { s with tree := backed } with
      | mk outcome after =>
        rw [hdrop] at hok
        cases hok
        rfl
    · exact .inl ⟨written, hwrite, acquireOn_of_writes hprepare hrun hwrite⟩

theorem acquire_cases (cwd : WorkingDir) (manifest : Path) (version : String) (s : Session σ) :
    (∃ e, acquire cwd manifest version s = (.error e, s)) ∨
    ∃ content versioned backed, prepare cwd manifest version s.tree = .ok (content, versioned) ∧
      write cwd (backupOf manifest) content s.tree = (.ok (), backed) ∧
      ((∃ written, write cwd manifest versioned backed = (.ok (), written) ∧
          acquire cwd manifest version s = (.ok ⟨manifest, content⟩, { s with tree := written })) ∨
        ∃ e, write cwd manifest versioned backed = (.error e, backed) ∧
          acquire cwd manifest version s = (.error (.file "writing manifest" manifest e),
            (drop cwd ⟨manifest, content⟩ { s with tree := backed }).2)) := by
  have hcases := acquireOn_cases .willing cwd manifest version s
  simp only [Storage.willing_write] at hcases
  exact hcases

/-- What the log says of a manifest whose bytes could not be put back. -/
def unrestored (g : Guard) (e : SystemError) : LogRecord :=
  let shown := g.manifest.display
  let kept := g.backup.display
  ⟨.error, s!"Failed to restore {shown} (original kept at {kept}): {e.message}"⟩

/-- The outcome of restoring where the backup cannot be removed. It is no failure that the backup is gone. -/
def unremoved (g : Guard) (e : SystemError) : Except Failure Unit :=
  if e.isNotFound then .ok () else .error (.file "removing manifest backup" g.backup e)

/-- Restoring fails and says so, if the bytes cannot be put back; dropping the guard then fails alike. Otherwise the
    bytes are where the manifest leads, and the backup is removed if it can be. -/
theorem restore_cases (cwd : WorkingDir) (g : Guard) (s : Session σ) :
    (∃ e, restore cwd g s =
      (.error (.file "restoring manifest" g.manifest e), { s with log := s.log ++ [g.unrestored e] })) ∨
    ∃ location is, s.tree.Opens cwd g.manifest location ∧
      let written := s.tree.set location (.file g.content is)
      write cwd g.manifest g.content s.tree = (.ok (), written) ∧
      ((∃ e, unlink cwd g.backup written = (.error e, written) ∧
        restore cwd g s = (g.unremoved e, { s with tree := written })) ∨
      ∃ dir name entry, written.StandsFor cwd g.backup dir name ∧ written.get? (dir ++ [name]) = some entry ∧
        entry ≠ .directory ∧ restore cwd g s = (.ok (), { s with tree := written.erase (dir ++ [name]) })) := by
  rcases write_does cwd g.manifest g.content s.tree with ⟨e, hrun⟩ | ⟨_, _, hrun, location, is, hopens, -, rfl⟩
  · refine .inl ⟨e, ?_⟩
    rw [restore, restoreOn, Storage.willing_write, RunM.run_bind, RunM.run_onTree, TreeM.run_attempt, hrun]
    dsimp only
    rw [RunM.run_bind, dropOn, Storage.willing_write, RunM.run_bind, RunM.run_onTree, TreeM.run_attempt, hrun]
    rfl
  · refine .inr ⟨location, is, hopens, hrun, ?_⟩
    rcases unlink_does cwd g.backup (s.tree.set location (.file g.content is)) with
      ⟨e, hremove⟩ | ⟨_, _, hremove, dir, name, entry, hparent, hlength, hget, hentry, rfl⟩
    · refine .inl ⟨e, hremove, ?_⟩
      rw [restore, restoreOn, Storage.willing_write, RunM.run_bind, RunM.run_onTree, TreeM.run_attempt, hrun]
      dsimp only
      rw [RunM.run_bind, RunM.run_onTree, TreeM.run_attempt, hremove, unremoved]
      dsimp only
      split <;> rfl
    · refine .inr ⟨dir, name, entry, ⟨hparent, hlength⟩, hget, hentry, ?_⟩
      rw [restore, restoreOn, Storage.willing_write, RunM.run_bind, RunM.run_onTree, TreeM.run_attempt, hrun]
      dsimp only
      rw [RunM.run_bind, RunM.run_onTree, TreeM.run_attempt, hremove]
      rfl

section Standing

variable {version : String} {versioned : Bytes} {s : Session σ}

/-- The backup of a manifest stands beside it. -/
theorem standsFor_backup {t : FileTree} {last : Bool} {target : Target} (h : t.StandsFor cwd p dir name)
    (hresolve : t.resolve cwd last (backupOf p) = .ok target) : t.StandsFor cwd (backupOf p) dir (backupName name) :=
  h.append (by decide +kernel) (by decide +kernel) hresolve

/-- Setting the version writes the backup, which was not there, and the manifest. -/
theorem acquire_written (h : s.tree.StandsFor cwd p dir name)
    (hbackup : s.tree.StandsFor cwd (backupOf p) dir (backupName name))
    (hget : s.tree.get? (dir ++ [name]) = some (.file content is))
    (hnone : s.tree.get? (dir ++ [backupName name]) = none) (hversion : setVersion content version = .ok versioned) :
    acquire cwd p version s = (.ok ⟨p, content⟩, { s with
      tree := (s.tree.set (dir ++ [backupName name]) (.file content false)).set (dir ++ [name])
        (.file versioned is) }) := by
  have hexists : s.tree.exists? cwd (backupOf p) = .ok false := by
    rw [exists?, stat, resolve_of_parent_absent hbackup.parent hbackup.length_le hnone]
    rfl
  have hprepare : prepare cwd p version s.tree = .ok (content, versioned) := by
    simp [prepare, hexists, read_of_stat (h.stat hget rfl), hversion, Failure.naming, Except.mapError, bind,
      Except.bind, pure, Except.pure]
  have hget' : (s.tree.set (dir ++ [backupName name]) (.file content false)).get? (dir ++ [name]) =
      some (.file content is) := by
    rw [get?_set_backup, hget]
  have hkeeps : s.tree.Keeps (s.tree.set (dir ++ [backupName name]) (.file content false)) :=
    keeps_set (by simp) (by simp [hnone]) (by simp [hnone]) _
  exact acquireOn_of_writes hprepare (hbackup.write_absent hnone) ((h.keeps hkeeps).write_present hget')

/-- Setting the version where there is no backup fails and changes nothing, or writes the backup and the manifest. -/
theorem acquire_standing (version : String) (h : s.tree.StandsFor cwd p dir name)
    (hget : s.tree.get? (dir ++ [name]) = some (.file content is))
    (hfree : ∀ location entry, s.tree.lstat cwd (backupOf p) ≠ .ok (location, entry)) :
    (∃ e, acquire cwd p version s = (.error e, s)) ∨
      ∃ versioned, setVersion content version = .ok versioned ∧
        s.tree.StandsFor cwd (backupOf p) dir (backupName name) ∧
        acquire cwd p version s = (.ok ⟨p, content⟩, { s with
          tree := (s.tree.set (dir ++ [backupName name]) (.file content false)).set (dir ++ [name])
            (.file versioned is) }) := by
  rcases acquire_cases cwd p version s with hrefused | ⟨found, versioned, _, hprepare, hwrite, -⟩
  · exact .inl hrefused
  · obtain ⟨-, hread, hversion⟩ := prepare_eq_ok hprepare
    obtain rfl : content = found := by
      rw [read_of_stat (h.stat hget rfl)] at hread
      exact Except.ok.inj hread
    obtain ⟨_, _, hopens, -, -⟩ := write_eq_ok hwrite
    obtain ⟨_, hresolve, -⟩ := hopens.resolve
    have hbackup := standsFor_backup h hresolve
    exact .inr ⟨versioned, hversion, hbackup, acquire_written h hbackup hget (hbackup.get?_eq_none hfree) hversion⟩

/-- Either way of ending a guard puts the bytes back and removes the backup. -/
theorem end_standing {old backed : Bytes} {was : Bool} (content : Bytes) (h : s.tree.StandsFor cwd p dir name)
    (hbackup : s.tree.StandsFor cwd (backupOf p) dir (backupName name))
    (hget : s.tree.get? (dir ++ [name]) = some (.file old is))
    (hgetBackup : s.tree.get? (dir ++ [backupName name]) = some (.file backed was)) :
    let after := { s with
      tree := (s.tree.set (dir ++ [name]) (.file content is)).erase (dir ++ [backupName name]) }
    restore cwd ⟨p, content⟩ s = (.ok (), after) ∧ drop cwd ⟨p, content⟩ s = (.ok (), after) := by
  have hkeeps : s.tree.Keeps (s.tree.set (dir ++ [name]) (.file content is)) :=
    keeps_set (by simp) (by simp [hget]) (by simp [hget]) _
  have hget' : (s.tree.set (dir ++ [name]) (.file content is)).get? (dir ++ [backupName name]) =
      some (.file backed was) := by
    rw [get?_set_manifest, hgetBackup]
  have hunlink := (hbackup.keeps hkeeps).unlink hget' (by simp)
  constructor
  · rw [restore, restoreOn, Storage.willing_write, RunM.run_bind, RunM.run_onTree, TreeM.run_attempt,
      h.write_present hget]
    dsimp only
    rw [RunM.run_bind, RunM.run_onTree, TreeM.run_attempt, backup, hunlink]
    rfl
  · rw [drop, dropOn, Storage.willing_write, RunM.run_bind, RunM.run_onTree, TreeM.run_attempt, h.write_present hget]
    dsimp only
    rw [RunM.run_bind, RunM.run_onTree, TreeM.run_attempt, backup, hunlink]
    rfl

end Standing

section Spelled

variable {version : String} {versioned : Bytes} {s : Session σ}

theorem acquire_spells (hmanifest : (Path.ofLocation (dir ++ [name])).Spells (dir ++ [name]))
    (hbackup : (Path.ofLocation (dir ++ [backupName name])).Spells (dir ++ [backupName name]))
    (hwf : s.tree.WellFormed) (hget : s.tree.get? (dir ++ [name]) = some (.file content is))
    (hnone : s.tree.get? (dir ++ [backupName name]) = none) (hversion : setVersion content version = .ok versioned) :
    acquire cwd (.ofLocation (dir ++ [name])) version s =
      (.ok ⟨.ofLocation (dir ++ [name]), content⟩,
        { s with
          tree := (s.tree.set (dir ++ [backupName name]) (.file content false)).set (dir ++ [name])
            (.file versioned is) }) := by
  have hdir := hwf.parent hget
  refine acquire_written (hmanifest.standsFor cwd hwf hdir) ?_ hget hnone hversion
  rw [backupOf_ofLocation]
  exact hbackup.standsFor cwd hwf hdir

/-- Setting the version fails and changes nothing, or writes the backup, which was not there, and the manifest. -/
theorem acquire_at (cwd : WorkingDir) (version : String) {s : Session σ} (hwf : s.tree.WellFormed)
    (hget : s.tree.get? (dir ++ [name]) = some (.file content is))
    (hlink : ∀ link, s.tree.get? (dir ++ [backupName name]) ≠ some (.symlink link)) :
    (∃ e, acquire cwd (.ofLocation (dir ++ [name])) version s = (.error e, s)) ∨
      ∃ versioned, setVersion content version = .ok versioned ∧
        s.tree.get? (dir ++ [backupName name]) = none ∧
        (Path.ofLocation (dir ++ [name])).Spells (dir ++ [name]) ∧
        (Path.ofLocation (dir ++ [backupName name])).Spells (dir ++ [backupName name]) ∧
        acquire cwd (.ofLocation (dir ++ [name])) version s =
          (.ok ⟨.ofLocation (dir ++ [name]), content⟩,
            { s with
              tree := (s.tree.set (dir ++ [backupName name]) (.file content false)).set (dir ++ [name])
                (.file versioned is) }) := by
  rcases acquire_cases cwd (.ofLocation (dir ++ [name])) version s with
    hrefused | ⟨found, versioned, _, hprepare, hwrite, -⟩
  · exact .inl hrefused
  · obtain ⟨hexists, hread, hversion⟩ := prepare_eq_ok hprepare
    have hspells := hwf.spells hget (checkPath_of_read hread)
    obtain rfl : content = found := by
      rw [read_spells hspells hwf hget] at hread
      exact Except.ok.inj hread
    obtain ⟨_, _, hopens, -, -⟩ := write_eq_ok hwrite
    obtain ⟨_, hresolve, -⟩ := hopens.resolve
    have hstands := hspells.standsFor cwd hwf (hwf.parent hget)
    have hbackup := standsFor_backup hstands hresolve
    have hnone : s.tree.get? (dir ++ [backupName name]) = none := by
      by_contra hsome
      obtain ⟨entry, hthere⟩ := Option.ne_none_iff_exists'.mp hsome
      have hplain : entry.isSymlink = false := Entry.isSymlink_of_ne fun link heq => hlink link (heq ▸ hthere)
      rw [exists?, hbackup.stat hthere hplain] at hexists
      cases hexists
    refine .inr ⟨versioned, hversion, hnone, hspells, ?_, acquire_written hstands hbackup hget hnone hversion⟩
    rw [backupOf_ofLocation] at hbackup
    exact hbackup.spells (fun other hmem => hspells.entryName other (by simp [hmem]))
      (isName_backupName (hwf.name hget).isName)

/-- Restoring puts the bytes back and removes the backup. -/
theorem restore_at {old backup : Bytes} {was : Bool} (hwf : s.tree.WellFormed)
    (hmanifest : (Path.ofLocation (dir ++ [name])).Spells (dir ++ [name]))
    (hbackup : (Path.ofLocation (dir ++ [backupName name])).Spells (dir ++ [backupName name]))
    (hget : s.tree.get? (dir ++ [name]) = some (.file old is))
    (hgetBackup : s.tree.get? (dir ++ [backupName name]) = some (.file backup was)) :
    restore cwd ⟨.ofLocation (dir ++ [name]), content⟩ s =
      (.ok (), { s with
        tree := (s.tree.set (dir ++ [name]) (.file content is)).erase (dir ++ [backupName name]) }) := by
  have hdir := hwf.parent hget
  refine (end_standing content (hmanifest.standsFor cwd hwf hdir) ?_ hget hgetBackup).1
  rw [backupOf_ofLocation]
  exact hbackup.standsFor cwd hwf hdir

end Spelled

end Guard

end DebRelease.Manifest
