import DebRelease.Proofs.FileTree.Stale
import DebRelease.Proofs.Run.Preserve

namespace DebRelease

open FileTree RunM

variable {σ : Type}

/-- A tree that comes of a first one by putting files at some spots and taking them away. -/
structure FileTree.Edited (spots : List Location) (t₀ t : FileTree) : Prop where
  wellFormed : t.WellFormed
  same : ∀ location ∉ spots, t.get? location = t₀.get? location
  plain : ∀ location, t₀.IsPlain location → t.IsPlain location

/-- A path whose place is one of some spots, and that no link is in the way of. -/
structure FileTree.Spot (spots : List Location) (t : FileTree) (p : Path) : Prop where
  direct : p.IsDirect
  plain : t.IsPlain p.place
  mem : p.place ∈ spots

namespace FileTree.Edited

variable {spots : List Location} {t₀ t : FileTree} {path : Path}

theorem refl (hwf : t.WellFormed) (spots : List Location) : Edited spots t t :=
  ⟨hwf, fun _ _ => rfl, fun _ h => h⟩

theorem write (h : Edited spots t₀ t) (cwd : WorkingDir) (content : Bytes) (hspot : Spot spots t₀ path) :
    Edited spots t₀ (FileTree.write cwd path content t).2 := by
  rcases write_at cwd content h.wellFormed hspot.direct (h.plain _ hspot.plain)
    with ⟨e, hrun⟩ | ⟨is, hrun, hne, hwf⟩ <;> rw [hrun]
  · exact h
  · refine ⟨hwf, fun location hout => ?_, fun location hplain => isPlain_set (h.plain location hplain) hne rfl⟩
    rw [get?_set_of_ne _ _ hne (ne_of_mem_of_not_mem hspot.mem hout).symm, h.same location hout]

theorem unlink (h : Edited spots t₀ t) (cwd : WorkingDir) (hspot : Spot spots t₀ path) :
    Edited spots t₀ (FileTree.unlink cwd path t).2 := by
  rcases unlink_at cwd h.wellFormed hspot.direct (h.plain _ hspot.plain) with ⟨e, hrun⟩ | ⟨hrun, hne, hwf⟩ <;> rw [hrun]
  · exact h
  · refine ⟨hwf, fun location hout => ?_, fun location hplain => isPlain_erase (h.plain location hplain) hne⟩
    rw [get?_erase _ hne, if_neg (ne_of_mem_of_not_mem hspot.mem hout).symm, h.same location hout]

end FileTree.Edited

namespace Manifest.Guard

variable {spots : List Location} {t₀ : FileTree} {cwd : WorkingDir} {manifest : Path} {g : Guard}

private theorem preserves_tryWrite (content : Bytes) (h : Spot spots t₀ manifest) :
    Preserves (onTree (TreeM.attempt (write cwd manifest content)) : RunM σ _) (Edited spots t₀) :=
  fun _ hedited => hedited.write cwd content h

private theorem preserves_tryUnlink (h : Spot spots t₀ manifest) :
    Preserves (onTree (TreeM.attempt (unlink cwd manifest)) : RunM σ _) (Edited spots t₀) :=
  fun _ hedited => hedited.unlink cwd h

/-- A guard that ends changes nothing but the manifest and its backup. -/
theorem preserves_drop (hmanifest : Spot spots t₀ g.manifest) (hbackup : Spot spots t₀ g.backup) :
    Preserves (drop cwd g : RunM σ Unit) (Edited spots t₀) := by
  refine (preserves_tryWrite g.content hmanifest).bind fun outcome => ?_
  cases outcome with
  | ok => exact (preserves_tryUnlink hbackup).bind fun _ => .pure _
  | error e => exact .log _ _

/-- Nor does setting the version change anything else. -/
theorem preserves_acquire (hmanifest : Spot spots t₀ manifest) (hbackup : Spot spots t₀ (backupOf manifest))
    (version : String) : Preserves (acquire cwd manifest version : RunM σ Guard) (Edited spots t₀) := by
  refine (Preserves.look _).bind fun ⟨content, versioned⟩ => ?_
  refine .bind (m := onTree ((write cwd (backupOf manifest) content).describe _)) ?_ fun _ => ?_
  · exact fun _ hedited => hedited.write cwd content hbackup
  refine (preserves_tryWrite versioned hmanifest).bind fun outcome => ?_
  cases outcome with
  | ok => exact .pure _
  | error e => exact (preserves_drop (g := ⟨manifest, content⟩) hmanifest hbackup).bind fun _ => .throw _

/-- Nor does restoring the manifest. -/
theorem preserves_restore (hmanifest : Spot spots t₀ g.manifest) (hbackup : Spot spots t₀ g.backup) :
    Preserves (restore cwd g : RunM σ Unit) (Edited spots t₀) := by
  refine (preserves_tryWrite g.content hmanifest).bind fun outcome => ?_
  cases outcome with
  | error e => exact (preserves_drop hmanifest hbackup).bind fun _ => .throw _
  | ok =>
    refine (preserves_tryUnlink hbackup).bind fun outcome => ?_
    cases outcome with
    | ok => exact .pure _
    | error e =>
      dsimp only
      split
      · exact .pure _
      · exact .throw _

end Manifest.Guard

end DebRelease
