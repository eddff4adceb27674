import DebRelease.Proofs.Manifest.Restoring
import DebRelease.Proofs.Run.Footprint

namespace DebRelease

open FileTree RunM Manifest

variable {σ : Type} {p : Pipeline σ} {manifest : Path} {version : String} {command : ToolCommand} {g : Guard}
    {s begun left ended after : Session σ} {called restored outcome : Except Failure Unit}

namespace Pipeline

/-- The outcome of packaging: a failure of the packager counts before one of restoring. -/
def packaged (called restored : Except Failure Unit) : Except Failure Unit :=
  match called with
  | .error e => .error e
  | .ok () => restored

/-- What packaging logs of a failure of restoring that does not count. -/
def overruled (called restored : Except Failure Unit) : List LogRecord :=
  match called, restored with
  | .error _, .error e => [⟨.error, e.message⟩]
  | _, _ => []

/-- Once the guard is acquired, packaging is the call and then restoring. -/
theorem package_eq (hacquire : Guard.acquire p.cwd manifest version s = (.ok g, begun))
    (hcall : runTool p.tools command begun = (called, left))
    (hrestore : Guard.restore p.cwd g left = (restored, ended)) :
    p.package manifest version command s =
      (packaged called restored, { ended with log := ended.log ++ overruled called restored }) := by
  rw [package, run_bind, hacquire]
  dsimp only
  rw [run_bind, run_attempt, hcall]
  dsimp only
  rw [run_bind, run_attempt, hrestore]
  cases called <;> cases restored <;> simp [packaged, overruled, run_bind]

/-- Packaging never loses the manifest silently. The packager's failure is the outcome if it fails, and else that of
    restoring. After a success the manifest has the bytes that it had, and there is no backup. Where it does not have
    them in the end, packaging has failed, the log names the manifest and the backup, and all is as the packager left
    it. If both fail, the log has both. The packager may do anything but have the manifest lead to the backup, or by way
    of a link in its place. -/
theorem package_accounts (hacquire : Guard.acquire p.cwd manifest version s = (.ok g, begun))
    (hcall : runTool p.tools command begun = (called, left)) (hrestore : Guard.restore p.cwd g left = (restored, ended))
    (hpackage : p.package manifest version command s = (outcome, after))
    (houtlasts : left.tree.Outlasts p.cwd manifest (backupOf manifest)) :
    s.tree.read p.cwd manifest = .ok g.content ∧ outcome = packaged called restored ∧
    (outcome = .ok () → after.tree.read p.cwd manifest = .ok g.content ∧
      ∀ location entry, after.tree.lstat p.cwd (backupOf manifest) ≠ .ok (location, entry)) ∧
    (after.tree.read p.cwd manifest ≠ .ok g.content → (∃ e, outcome = .error e) ∧
      (∃ cause later, after.log = left.log ++ g.unrestored cause :: later) ∧ after.tree = left.tree) ∧
    ∀ e e', called = .error e → restored = .error e' → after.log = ended.log ++ [⟨.error, e'.message⟩] := by
  obtain ⟨_, hmanifest, hread, -⟩ := Guard.acquire_eq_ok hacquire
  obtain ⟨name, hlast⟩ := Guard.lastName_backup hacquire
  have hbackup : g.backup = backupOf manifest := by rw [Guard.backup, hmanifest]
  have hrestored := Guard.restore_accounts hrestore (by rwa [hmanifest, hbackup]) (hbackup ▸ hlast)
  rw [hmanifest, hbackup] at hrestored
  rw [package_eq hacquire hcall hrestore] at hpackage
  obtain ⟨rfl, rfl⟩ := Prod.mk.inj hpackage
  refine ⟨hread, rfl, fun hok => ?_, fun hlost => ?_, ?_⟩
  · have hboth : restored = .ok () := by
      cases called with
      | error e => cases hok
      | ok => exact hok
    rcases hrestored with ⟨hkept, hgone⟩ | ⟨⟨e, hfailed⟩, -⟩
    · exact ⟨hkept, hgone hboth⟩
    · rw [hfailed] at hboth
      cases hboth
  · rcases hrestored with ⟨hkept, -⟩ | ⟨⟨e, rfl⟩, cause, rfl⟩
    · exact absurd hkept hlost
    · refine ⟨?_, ⟨cause, overruled called (.error e), List.append_assoc _ _ _⟩, rfl⟩
      cases called with
      | error e => exact ⟨e, rfl⟩
      | ok => exact ⟨e, rfl⟩
  · rintro e e' rfl rfl
    rfl

/-- Tools that leave a given tree and end with a given code. -/
def leaving (code : Int) (t : FileTree) : Runner Unit where
  run _ _ _ := ⟨.ok ⟨some code⟩, t, (), []⟩
  capture _ _ _ := ⟨.ok ⟨⟨some code⟩, ""⟩, t, (), []⟩

/-- A packager that fails, and puts a directory in place of the manifest. -/
def dirMaking : Pipeline Unit :=
  small "/b" "y" (leaving 1 (treeOf [("/b", .directory), ("/g", .directory), ("/g/package.json", .directory),
    ("/g/package.json.hydrangea-release-backup", bareManifest)]))

/-- Nothing can be put back in place of a directory, and packaging says so. -/
theorem package_accounts_directory :
    let after := (dirMaking.package "/g/package.json" "1" (Plan.packageApp dirMaking.config "1")
      (.start (smallTree []) ()))
    (∃ e, after.1 = .error e) ∧
      ∃ cause, (⟨"/g/package.json", Bytes.ofText "\x7b\x7d"⟩ : Guard).unrestored cause ∈ after.2.log := by
  have hacquire : (Guard.acquire dirMaking.cwd "/g/package.json" "1" (.start (smallTree []) ())).1 =
      .ok ⟨"/g/package.json", Bytes.ofText "\x7b\x7d"⟩ := by
    decide +kernel
  have hlast : lastName "/g/package.json" = .name (Bytes.ofText "package.json") false := by decide +kernel
  have hpackage : dirMaking.package "/g/package.json" "1" (Plan.packageApp dirMaking.config "1")
      (.start (smallTree []) ()) = (_, _) := (Prod.eta _).symm
  obtain ⟨-, -, -, hlost, -⟩ := package_accounts (Prod.ext hacquire rfl) (Prod.eta _).symm (Prod.eta _).symm hpackage
    (outlasts_backupOf hlast (by decide +kernel) (by decide +kernel))
  obtain ⟨hfailed, ⟨cause, later, hlog⟩, -⟩ := hlost (by decide +kernel)
  exact ⟨hfailed, cause, by rw [hlog]; simp⟩

/-- A packager that succeeds, and puts a link to the backup where the manifest, itself a link, leads. -/
def loopMaking : Pipeline Unit :=
  small "/b" "y" (leaving 0 (treeOf [("/g", .directory), ("/g/package.json", .symlink "/r"),
    ("/r", .symlink "/g/package.json.hydrangea-release-backup"),
    ("/g/package.json.hydrangea-release-backup", bareManifest)]))

/-- A manifest that is a link is lost, if the packager makes no link at its path or at that of the backup, but one to
    the backup where the manifest leads. -/
theorem not_package_accounts :
    ¬ ∀ (p : Pipeline Unit) (manifest : Path) (version : String) (command : ToolCommand) (g : Guard)
        (s begun left after : Session Unit) (called outcome : Except Failure Unit),
      Guard.acquire p.cwd manifest version s = (.ok g, begun) → runTool p.tools command begun = (called, left) →
      p.package manifest version command s = (outcome, after) →
      (∀ q ∈ [manifest, backupOf manifest],
        left.tree.NotLink p.cwd q ∨ left.tree.lstat p.cwd q = begun.tree.lstat p.cwd q) →
      outcome = .ok () → after.tree.read p.cwd manifest = .ok g.content := by
  intro hclaim
  have hread := hclaim loopMaking "/g/package.json" "1" (Plan.packageApp loopMaking.config "1")
    ⟨"/g/package.json", Bytes.ofText "\x7b\x7d"⟩
    (.start (treeOf [("/g", .directory), ("/g/package.json", .symlink "/r"), ("/r", bareManifest)]) ()) _ _ _ _ _
    (Prod.ext (by decide +kernel) rfl) rfl rfl (by decide +kernel) (by decide +kernel)
  exact absurd hread (by decide +kernel)

end Pipeline

end DebRelease
