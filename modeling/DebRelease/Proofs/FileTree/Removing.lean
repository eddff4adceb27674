import DebRelease.Proofs.FileTree.Leading
import DebRelease.Proofs.FileTree.Outside

namespace DebRelease.FileTree

open TreeM

variable {t : FileTree} {cwd : WorkingDir} {p q : Path} {dir place location : Location} {name : Bytes}
    {missing : List Bytes} {entry : Entry} {places : List Location}

/-- What a path stands for can be removed, unless it is a file, if the way there does not go by it. -/
theorem removeAll_standsFor (hwf : t.WellFormed) (h : (t.outside [dir ++ [name]]).StandsFor cwd p dir name)
    (hget : t.get? (dir ++ [name]) = some entry) (hfile : ∀ bytes is, entry ≠ .file bytes is) :
    removeAll cwd p t = (.ok (), t.outside [dir ++ [name]]) := by
  have hne : dir ++ [name] ≠ [] := by simp
  have hstands := h.keeps (keeps_of_outside t _)
  rw [removeAll_eq, removeAllAt, run_bind, run_look, hstands.lstat hget]
  cases entry with
  | file bytes is => exact absurd rfl (hfile bytes is)
  | symlink link =>
    dsimp only
    rw [hstands.unlink hget (by simp), hwf.erase_eq_outside hne (by simp [hget])]
  | directory =>
    have hwf' := hwf.clear (dir ++ [name])
    rw [← erase_clear] at h ⊢
    have hcleared := h.keeps (keeps_of_erase hne)
    have hthere : (t.clear (dir ++ [name])).get? (dir ++ [name]) = some .directory := by
      rw [get?_clear, if_neg (by simp [isBelow]), hget]
    have hempty : ((t.clear (dir ++ [name])).below (dir ++ [name])).isEmpty = true := by
      rw [hwf'.below_isEmpty_iff]
      intro rest hrest
      rw [get?_clear, if_pos (isBelow_iff.mpr ⟨List.prefix_append _ _, by simpa using hrest⟩)]
    have hremove : removeDir cwd p (t.clear (dir ++ [name])) =
        (.ok (), (t.clear (dir ++ [name])).erase (dir ++ [name])) := by
      rw [removeDir, run_bind, run_look, hcleared.parent]
      dsimp only
      rw [if_neg (Nat.not_lt.mpr h.length_le), run_bind, run_get]
      dsimp only
      rw [hthere]
      dsimp only
      rw [run_bind, run_get]
      dsimp only
      rw [hempty, if_neg (by simp)]
      rfl
    dsimp only
    rw [run_bind, run_modify]
    dsimp only
    rw [run_bind, run_attempt, hremove]
    rfl

/-- If something is there once, what was missing without it is its name only. -/
theorem Vacant.eq_singleton (h : (t.outside [dir ++ missing]).Vacant cwd q dir missing) (hwf : t.WellFormed)
    (hget : t.get? (dir ++ missing) = some entry) : ∃ name, missing = [name] := by
  obtain ⟨name, rest, rfl⟩ := List.exists_cons_of_ne_nil h.ne_nil
  obtain ⟨_, -, -, -, hnone, -⟩ := h
  refine ⟨name, ?_⟩
  by_contra hmore
  have hrest : rest ≠ [] := by simpa using hmore
  have hpre : dir ++ [name] <+: dir ++ name :: rest := (List.prefix_append_right_inj dir).mpr ⟨rest, rfl⟩
  have hne : dir ++ [name] ≠ dir ++ name :: rest := by simpa using hrest.symm
  rw [show (name :: rest).take 1 = [name] from rfl, get?_outside_of_out] at hnone
  · rw [hwf.directory_of_prefix hpre hne hget] at hnone
    cases hnone
  · intro place hmem
    rw [List.mem_singleton.mp hmem]
    exact fun hback => hne (hpre.eq_of_length_le hback.length_le)

/-- What is in the way at a path can be removed, unless it is a file. -/
theorem removeAll_vacant (hwf : t.WellFormed) (htidy : q.IsTidy) (hcheck : checkPath q = .ok ())
    (h : (t.outside [dir ++ missing]).Vacant cwd q dir missing)
    (hfile : ∀ bytes is, t.get? (dir ++ missing) ≠ some (.file bytes is)) :
    removeAll cwd q t = (.ok (), t.outside [dir ++ missing]) := by
  cases hget : t.get? (dir ++ missing) with
  | none =>
    have hsame := hwf.outside_eq_self hget
    rw [hsame] at h ⊢
    rw [removeAll_eq, removeAllAt, run_bind, run_look, h.lstat htidy hcheck]
    rfl
  | some entry =>
    obtain ⟨name, rfl⟩ := h.eq_singleton hwf hget
    exact removeAll_standsFor hwf (h.standsFor htidy hcheck) hget fun bytes is heq => hfile bytes is (heq ▸ hget)

/-- A file is not removed. -/
theorem removeAll_file {bytes : Bytes} {is : Bool} (h : t.StandsFor cwd q dir name)
    (hget : t.get? (dir ++ [name]) = some (.file bytes is)) :
    removeAll cwd q t = (.error (.file "removing directory" q (.os .notDirectory)), t) := by
  rw [removeAll_eq, removeAllAt, run_bind, run_look, h.lstat hget]
  rfl

end DebRelease.FileTree
