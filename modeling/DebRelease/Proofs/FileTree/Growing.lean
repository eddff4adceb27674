import DebRelease.Proofs.FileTree.Leading

namespace DebRelease.FileTree

open TreeM

variable {t t' t'' : FileTree} {cwd : WorkingDir} {p : Path} {dir location : Location} {name : Bytes} {entry : Entry}

/-- Nothing changes but that directories are made where nothing was. -/
structure Grows (t t' : FileTree) : Prop where
  wellFormed : t'.WellFormed
  get?_cases : ∀ location, t'.get? location = t.get? location ∨
    t.get? location = none ∧ t'.get? location = some .directory

namespace Grows

theorem refl (hwf : t.WellFormed) : Grows t t :=
  ⟨hwf, fun _ => .inl rfl⟩

theorem get?_eq (h : Grows t t') (hget : t.get? location = some entry) : t'.get? location = some entry := by
  rcases h.get?_cases location with hsame | ⟨hnone, -⟩
  · rw [hsame, hget]
  · rw [hnone] at hget
    cases hget

theorem trans (h : Grows t t') (h' : Grows t' t'') : Grows t t'' := by
  refine ⟨h'.wellFormed, fun location => ?_⟩
  rcases h'.get?_cases location with hsame | ⟨hnone, hmade⟩
  · rw [hsame]
    exact h.get?_cases location
  · cases hget : t.get? location with
    | none => exact .inr ⟨rfl, hmade⟩
    | some entry =>
      rw [h.get?_eq hget] at hnone
      cases hnone

theorem keeps (h : Grows t t') : t.Keeps t' :=
  ⟨h.get?_eq, h.get?_eq⟩

end Grows

theorem Refused.grows {ε α : Type} {m : TreeM ε α} (h : Refused m t) (hwf : t.WellFormed) : Grows t (m t).2 := by
  obtain ⟨e, hrun⟩ := h
  rw [hrun]
  exact .refl hwf

theorem makeDir_grows (cwd : WorkingDir) (p : Path) (hwf : t.WellFormed) : Grows t (makeDir cwd p t).2 := by
  rcases makeDir_does cwd p t with hrefused | ⟨_, _, hrun, dir, name, slash, hparent, hlength, hnone, rfl⟩
  · exact hrefused.grows hwf
  · have hne : dir ++ [name] ≠ [] := by simp
    rw [hrun]
    refine ⟨hwf.set (resolveParent_directory hparent) (isEntryName_of_parent hparent hlength)
      (by simp [hnone]) (by simp), fun location => ?_⟩
    by_cases heq : location = dir ++ [name]
    · rw [heq]
      exact .inr ⟨hnone, get?_set_self t _ hne⟩
    · exact .inl (get?_set_of_ne t _ hne heq)

theorem leads_of_makeDir (h : makeDir cwd p t = (.ok (), t')) : ∃ dir, t'.Leads cwd p dir := by
  rcases makeDir_does cwd p t with ⟨e, hrun⟩ | ⟨_, _, hrun, dir, name, slash, hparent, hlength, hnone, rfl⟩
  · rw [hrun] at h
    cases h
  · rw [hrun] at h
    cases h
    have hne : dir ++ [name] ≠ [] := by simp
    have hkeeps := (onlyMakes_set hne hnone).keeps
    exact ⟨_, leads_of_parent (hkeeps.resolveParent hparent) hlength (get?_set_self t _ hne)⟩

theorem leads_of_isDir (h : t.isDir cwd p = true) : ∃ dir, t.Leads cwd p dir := by
  rw [isDir] at h
  split at h
  · rename_i dir entry hstat
    cases entry with
    | directory => exact ⟨dir, leads_of_stat hstat⟩
    | _ => cases h
  · cases h

/-- What making a directory leaves, whether or not it succeeds. -/
def Grown (cwd : WorkingDir) (p : Path) (m : TreeM SystemError Unit) (t : FileTree) : Prop :=
  Grows t (m t).2 ∧ ((m t).1 = .ok () → ∃ dir, (m t).2.Leads cwd p dir)

namespace Grown

theorem throw (hwf : t.WellFormed) (e : SystemError) : Grown cwd p (throw e) t :=
  ⟨.refl hwf, fun h => by cases h⟩

theorem isDir (hwf : t.WellFormed) (e : SystemError) :
    Grown cwd p (do if (← get).isDir cwd p then pure () else MonadExcept.throw e) t := by
  rw [Grown, run_bind, run_get]
  dsimp only
  split
  · rename_i hdir
    exact ⟨.refl hwf, fun _ => leads_of_isDir hdir⟩
  · exact throw hwf e

/-- Trying to make a directory, and doing something else if that is refused. -/
theorem attempt {act : SystemError → TreeM SystemError Unit} (hwf : t.WellFormed)
    (hact : ∀ e, Grown cwd p (act e) t) :
    Grown cwd p (do
      match ← attempt (makeDir cwd p) with
      | .ok () => pure ()
      | .error e => act e) t := by
  rw [Grown, run_bind, run_attempt]
  have hgrows := makeDir_grows cwd p hwf
  rcases makeDir_does cwd p t with ⟨e, hrun⟩ | ⟨_, after, hrun, -⟩
  · rw [hrun]
    exact hact e
  · rw [hrun] at hgrows ⊢
    exact ⟨hgrows, fun _ => leads_of_makeDir hrun⟩

end Grown

theorem makeDirsUpTo_grown (cwd : WorkingDir) (parents : Nat) (p : Path) (hwf : t.WellFormed) (hne : p.bytes ≠ []) :
    Grown cwd p (makeDirsUpTo cwd parents p) t := by
  have hnonempty {p : Path} (hne : p.bytes ≠ []) : ¬ p.bytes.isEmpty = true := by simpa using hne
  induction parents generalizing p t with
  | zero =>
    rw [makeDirsUpTo, if_neg (hnonempty hne)]
    refine .attempt hwf fun e => ?_
    split
    · exact .throw hwf e
    · exact .isDir hwf e
  | succ parents ih =>
    rw [makeDirsUpTo, if_neg (hnonempty hne)]
    refine .attempt hwf fun e => ?_
    split
    · cases hparent : p.parent? with
      | none => exact .throw hwf e
      | some above =>
        -- an empty path above means the working directory, and nothing is made for it
        have habove : Grows t (makeDirsUpTo cwd parents above t).2 := by
          by_cases hempty : above.bytes = []
          · rw [makeDirsUpTo_of_empty hempty]
            exact .refl hwf
          · exact (ih above hwf hempty).1
        rw [Grown]
        dsimp only
        rw [run_bind]
        cases hrun : makeDirsUpTo cwd parents above t with
        | mk outcome ready =>
          rw [hrun] at habove
          cases outcome with
          | error => exact ⟨habove, fun h => by cases h⟩
          | ok =>
            have hagain : Grown cwd p _ ready := .attempt habove.wellFormed fun e => .isDir habove.wellFormed e
            exact ⟨habove.trans hagain.1, hagain.2⟩
    · exact .isDir hwf e

theorem makeDirs_grows (cwd : WorkingDir) (p : Path) (hwf : t.WellFormed) : Grows t (makeDirs cwd p t).2 := by
  by_cases hempty : p.bytes = []
  · rw [makeDirs, makeDirsUpTo_of_empty hempty]
    exact .refl hwf
  · exact (makeDirsUpTo_grown cwd _ p hwf hempty).1

theorem leads_of_makeDirs (hwf : t.WellFormed) (hne : p.bytes ≠ []) (h : makeDirs cwd p t = (.ok (), t')) :
    ∃ dir, t'.Leads cwd p dir := by
  have hgrown := (makeDirsUpTo_grown cwd p.bytes.length p hwf hne).2
  rw [← makeDirs, h] at hgrown
  exact hgrown rfl

theorem makeParent_grows (cwd : WorkingDir) (p : Path) (hwf : t.WellFormed) : Grows t (makeParent cwd p t).2 := by
  rw [makeParent]
  cases p.parent? with
  | none => exact .refl hwf
  | some above => exact makeDirs_grows cwd above hwf

end DebRelease.FileTree
