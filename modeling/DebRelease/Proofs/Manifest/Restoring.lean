import DebRelease.Proofs.Manifest.Versioned

namespace DebRelease

namespace FileTree

variable {t t' : FileTree} {cwd : WorkingDir} {p q : Path} {place location : Location} {name : Bytes} {entry : Entry}

/-- What a path leads to is not the entry that another path stands for, and does not depend on it, so that it is still
    there when that entry is removed. -/
def Outlasts (t : FileTree) (cwd : WorkingDir) (p q : Path) : Prop :=
  ∀ dir name target, t.StandsFor cwd q dir name → t.get? (dir ++ [name]) ≠ some .directory →
    t.resolve cwd true p = .ok target →
      target.location ≠ dir ++ [name] ∧ (t.erase (dir ++ [name])).resolve cwd true p = .ok target

theorem Opens.of_resolve {target : Target} (h : t.Opens cwd p location) (htarget : t.resolve cwd true p = .ok target)
    (hresolve : t'.resolve cwd true p = .ok target) : t'.Opens cwd p location := by
  rcases h with ⟨content, is, hfound⟩ | ⟨dir, name, hlocation, hfound⟩
  · rw [hfound] at htarget
    cases htarget
    exact .inl ⟨content, is, hresolve⟩
  · rw [hfound] at htarget
    cases htarget
    exact .inr ⟨dir, name, hlocation, hresolve⟩

/-- A tree keeps the directories and links of another that has the same at every place. -/
theorem Keeps.of_eq (h : ∀ location, t'.get? location = t.get? location) : t.Keeps t' :=
  ⟨fun hget => (h _).trans hget, fun hget => (h _).trans hget⟩

/-- What was written through one path is still there after another path is removed that it outlasts. -/
theorem Outlasts.read_erase {dir : Location} {content : Bytes} {is : Bool} (h : t.Outlasts cwd p q)
    (hopens : t.Opens cwd p location) (hstands : (t.set location (.file content is)).StandsFor cwd q dir name)
    (hnot : (t.set location (.file content is)).get? (dir ++ [name]) ≠ some .directory) :
    ((t.set location (.file content is)).erase (dir ++ [name])).read cwd p = .ok content := by
  obtain ⟨target, htarget, hlocation⟩ := hopens.resolve
  -- The file that was written is on nobody's way.
  have hback : (t.set location (.file content is)).Keeps t := by
    constructor
    · intro other hget
      have hother : other ≠ location := by
        rintro rfl
        simp [get?_set_self _ _ hopens.ne_nil] at hget
      rwa [get?_set_of_ne _ _ hopens.ne_nil hother] at hget
    · intro other link hget
      have hother : other ≠ location := by
        rintro rfl
        simp [get?_set_self _ _ hopens.ne_nil] at hget
      rwa [get?_set_of_ne _ _ hopens.ne_nil hother] at hget
  have hnot' : t.get? (dir ++ [name]) ≠ some .directory := by
    intro hdir
    exact hnot ((hopens.keeps _).directory hdir)
  obtain ⟨hne, hresolve⟩ := h dir name target (hstands.keeps hback) hnot' htarget
  rw [hlocation] at hne
  have hopens' := hopens.of_resolve htarget hresolve
  have hsame : ∀ other, ((t.set location (.file content is)).erase (dir ++ [name])).get? other =
      ((t.erase (dir ++ [name])).set location (.file content is)).get? other := by
    intro other
    rw [get?_erase _ (by simp), get?_set _ _ hopens.ne_nil, get?_set _ _ hopens.ne_nil, get?_erase _ (by simp)]
    by_cases hother : other = dir ++ [name]
    · simp [hother, hne.symm]
    · simp [hother]
  have hget : ((t.set location (.file content is)).erase (dir ++ [name])).get? location = some (.file content is) := by
    rw [hsame, get?_set_self _ _ hopens.ne_nil]
  exact read_of_stat ((Keeps.of_eq hsame).stat (hopens'.stat_set content is) hget fun _ => rfl)

/-- A path that is removed is no longer there. -/
theorem StandsFor.lstat_erase {dir : Location} (h : t.StandsFor cwd q dir name) (location : Location) (entry : Entry) :
    (t.erase (dir ++ [name])).lstat cwd q ≠ .ok (location, entry) := by
  intro hlstat
  have hne : dir ++ [name] ≠ [] := by simp
  have hthere : (t.erase (dir ++ [name])).get? location = some entry := resolve_fits (lstat_eq_ok_iff.mp hlstat)
  have hother : location ≠ dir ++ [name] := by
    rintro rfl
    simp [get?_erase t hne] at hthere
  have hkeeps := keeps_of_erase (t := t) hne
  exact hother (h.eq_of_lstat (hkeeps.lstat hlstat (get?_of_erase hne hthere) id))

/-- What is not found when it is to be removed is not there. -/
theorem lstat_of_unlink {e : SystemError} (hlast : lastName q = .name name false)
    (h : unlink cwd q t = (.error e, t)) (hnotFound : e.isNotFound = true) (location : Location) (entry : Entry) :
    t.lstat cwd q ≠ .ok (location, entry) := by
  intro hlstat
  obtain ⟨dir, hstands⟩ := standsFor_of_lastName hlast (lstat_eq_ok_iff.mp hlstat)
  rw [unlink, TreeM.run_bind, TreeM.run_look, hstands.parent] at h
  dsimp only at h
  rw [if_neg (Nat.not_lt.mpr hstands.length_le), TreeM.run_bind, TreeM.run_get] at h
  dsimp only at h
  rw [hstands.get?_of_lstat hlstat] at h
  cases entry with
  | directory =>
    cases h
    cases hnotFound
  | _ => cases h

/-- Where neither a manifest nor its backup is a link, the manifest outlasts the backup. -/
theorem outlasts_backupOf (hlast : lastName p = .name name false)
    (hlink : t.NotLink cwd p) (hlink' : t.NotLink cwd (Manifest.backupOf p)) :
    t.Outlasts cwd p (Manifest.backupOf p) := by
  intro dir beside target hbeside hnot hresolve
  obtain ⟨above, hstands⟩ := standsFor_of_lastName hlast hresolve
  have hcheck := (resolveParent_eq_ok_iff.mp hbeside.parent).1
  have hparent := hstands.parent_append (by decide +kernel) (by decide +kernel) hcheck
  obtain ⟨rfl, rfl⟩ : dir = above ∧ beside = Manifest.backupName name := by
    have heq := hbeside.parent.symm.trans hparent
    cases heq
    exact ⟨rfl, rfl⟩
  have hne := Manifest.backup_ne dir name
  have hfree : ∀ link, t.get? (dir ++ [Manifest.backupName name]) ≠ some (.symlink link) := fun link hget =>
    hlink' _ link (hbeside.lstat hget)
  have hstands' := hstands.keeps (keeps_erase (by simp) hnot hfree)
  have hsame : (t.erase (dir ++ [Manifest.backupName name])).get? (dir ++ [name]) = t.get? (dir ++ [name]) := by
    rw [get?_erase _ (by simp), if_neg hne.symm]
  cases hget : t.get? (dir ++ [name]) with
  | none =>
    rw [resolve_of_parent_absent hstands.parent hstands.length_le hget] at hresolve
    cases hresolve
    exact ⟨hne.symm, resolve_of_parent_absent hstands'.parent hstands'.length_le (hsame.trans hget) true⟩
  | some entry =>
    have hplain := hlink.isSymlink (hstands.lstat hget)
    rw [resolve_of_parent_present hstands.parent hstands.length_le hget fun _ => hplain] at hresolve
    cases hresolve
    exact ⟨hne.symm, resolve_of_parent_present hstands'.parent hstands'.length_le (hsame.trans hget) fun _ => hplain⟩

end FileTree

namespace Manifest.Guard

open FileTree

variable {σ : Type} {cwd : WorkingDir} {g : Guard} {s : Session σ}

/-- The path of the backup of a guard that was acquired ends in a name. -/
theorem lastName_backup {manifest : Path} {version : String} {after : Session σ}
    (h : acquire cwd manifest version s = (.ok g, after)) :
    ∃ name, lastName (backupOf manifest) = .name name false := by
  obtain ⟨_, _, _, -, -, hbackup, -⟩ := writes_of_acquire h
  obtain ⟨_, _, -, ⟨dir, name, hparent⟩, -⟩ := write_eq_ok hbackup
  obtain ⟨-, hlast, -⟩ := resolveParent_eq_ok_iff.mp hparent
  exact ⟨name, hlast.symm⟩

/-- Restoring a manifest that outlasts its backup leaves the bytes where the manifest leads, with no backup if it
    succeeds; or it fails, says so, and leaves all as it was. -/
theorem restore_accounts {name : Bytes} {restored : Except Failure Unit} {ended : Session σ}
    (h : restore cwd g s = (restored, ended)) (houtlasts : s.tree.Outlasts cwd g.manifest g.backup)
    (hlast : lastName g.backup = .name name false) :
    (ended.tree.read cwd g.manifest = .ok g.content ∧
      (restored = .ok () → ∀ location entry, ended.tree.lstat cwd g.backup ≠ .ok (location, entry))) ∨
    (∃ e, restored = .error e) ∧ ∃ cause, ended = { s with log := s.log ++ [g.unrestored cause] } := by
  rcases restore_cases cwd g s with ⟨e, hrun⟩ |
    ⟨location, is, hopens, -, ⟨e, hremove, hrun⟩ | ⟨dir, beside, entry, hstands, hget, hentry, hrun⟩⟩
  · rw [hrun] at h
    cases h
    exact .inr ⟨⟨_, rfl⟩, e, rfl⟩
  · rw [hrun] at h
    cases h
    refine .inl ⟨read_of_stat (hopens.stat_set g.content is), fun hok => ?_⟩
    refine lstat_of_unlink hlast hremove ?_
    by_contra hkept
    rw [unremoved, if_neg hkept] at hok
    cases hok
  · rw [hrun] at h
    cases h
    refine .inl ⟨houtlasts.read_erase hopens hstands ?_, fun _ => hstands.lstat_erase⟩
    rw [hget]
    simpa using hentry

end Manifest.Guard

end DebRelease
