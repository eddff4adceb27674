import DebRelease.Proofs.Manifest.Guarded
import DebRelease.Proofs.FileTree.Transfer

namespace DebRelease

open FileTree

theorem FileTree.stat_of_read {t : FileTree} {cwd : WorkingDir} {p : Path} {content : Bytes}
    (h : t.read cwd p = .ok content) : ∃ place is, t.stat cwd p = .ok (place, .file content is) := by
  rw [read] at h
  cases hstat : t.stat cwd p with
  | error e =>
    rw [hstat] at h
    cases h
  | ok found =>
    obtain ⟨place, entry⟩ := found
    rw [hstat] at h
    cases entry with
    | file bytes is =>
      cases h
      exact ⟨place, is, rfl⟩
    | _ => cases h

namespace Manifest.Guard

variable {σ : Type} {cwd : WorkingDir} {manifest : Path} {version : String} {g : Guard} {s after : Session σ}

/-- What is missing is written where nothing is. -/
theorem get?_of_missing {t : FileTree} {p : Path} {location : Location} (hmissing : t.exists? cwd p = .ok false)
    (hopens : t.Opens cwd p location) : t.get? location = none := by
  rcases hopens with ⟨_, _, hresolve⟩ | ⟨_, _, rfl, hresolve⟩
  · rw [exists?, stat_eq_ok_iff.mpr hresolve] at hmissing
    cases hmissing
  · exact (resolve_fits hresolve).2.1

/-- A backup that was missing is not written where the manifest leads, and so the manifest leads there still. -/
theorem stat_backed {t : FileTree} {location : Location} {content : Bytes}
    (hmissing : t.exists? cwd (backupOf manifest) = .ok false) (hread : t.read cwd manifest = .ok content)
    (hopens : t.Opens cwd (backupOf manifest) location) (entry : Entry) : ∃ place is, place ≠ location ∧
      t.stat cwd manifest = .ok (place, .file content is) ∧
      (t.set location entry).stat cwd manifest = .ok (place, .file content is) := by
  obtain ⟨place, is, hstat⟩ := stat_of_read hread
  have hthere : t.get? place = some (.file content is) := resolve_fits (stat_eq_ok_iff.mp hstat)
  have hne : place ≠ location := by
    rintro rfl
    rw [get?_of_missing hmissing hopens] at hthere
    cases hthere
  refine ⟨place, is, hne, hstat, (hopens.keeps entry).stat hstat ?_ fun _ => rfl⟩
  rw [get?_set_of_ne _ _ hopens.ne_nil hne, hthere]

/-- A guard is acquired by writing the backup and then the manifest. -/
theorem writes_of_acquire (h : acquire cwd manifest version s = (.ok g, after)) :
    ∃ versioned backed written, prepare cwd manifest version s.tree = .ok (g.content, versioned) ∧
      g.manifest = manifest ∧ write cwd (backupOf manifest) g.content s.tree = (.ok (), backed) ∧
      write cwd manifest versioned backed = (.ok (), written) ∧ after = { s with tree := written } := by
  rcases acquire_cases cwd manifest version s with
    ⟨e, hrun⟩ | ⟨content, versioned, backed, hprepare, hbackup, ⟨written, hmanifest, hrun⟩ | ⟨_, -, hrun⟩⟩
  · rw [hrun] at h
    cases h
  · rw [hrun] at h
    cases h
    exact ⟨versioned, backed, written, hprepare, rfl, hbackup, hmanifest, rfl⟩
  · rw [hrun] at h
    cases h

/-- A guard that was acquired knows the bytes of the manifest. They are in the backup, and the manifest
    carries the version. -/
theorem acquire_eq_ok (h : acquire cwd manifest version s = (.ok g, after)) :
    ∃ versioned, g.manifest = manifest ∧ s.tree.read cwd manifest = .ok g.content ∧
      setVersion g.content version = .ok versioned ∧ after.tree.read cwd manifest = .ok versioned ∧
      after.tree.read cwd (backupOf manifest) = .ok g.content ∧ after.calls = s.calls := by
  obtain ⟨versioned, backed, written, hprepare, hg, hbackup, hmanifest, rfl⟩ := writes_of_acquire h
  obtain ⟨hexists, hread, hversion⟩ := prepare_eq_ok hprepare
  obtain ⟨location, is, hopens, -, rfl⟩ := write_eq_ok hbackup
  obtain ⟨place, was, hne, -, hstat'⟩ := stat_backed hexists hread hopens (.file g.content is)
  obtain ⟨place', is', hopens', -, rfl⟩ := write_eq_ok hmanifest
  obtain rfl : place' = place := hopens'.eq_of_stat hstat'
  have hbacked := hopens.stat_set g.content is
  have hkept : ((s.tree.set location (.file g.content is)).set place' (.file versioned is')).get? location =
      some (.file g.content is) := by
    rw [get?_set_of_ne _ _ hopens'.ne_nil hne.symm, get?_set_self _ _ hopens.ne_nil]
  exact ⟨versioned, hg, hread, hversion, read_of_stat (hopens'.stat_set versioned is'),
    read_of_stat ((hopens'.keeps _).stat hbacked hkept fun _ => rfl), rfl⟩

/-- Where no link is in the way, a guard that was restored leaves the bytes at the place of the manifest, and
    no link where there was none. -/
theorem restore_eq_ok {dir : Location} {name content : Bytes}
    (hnames : ∀ other ∈ dir ++ [name], Path.isName other = true)
    (hwf : s.tree.WellFormed) (hplain : s.tree.IsPlain (dir ++ [name]))
    (h : restore cwd ⟨.ofLocation (dir ++ [name]), content⟩ s = (.ok (), after)) :
    after.tree.WellFormed ∧ (∃ is, after.tree.get? (dir ++ [name]) = some (.file content is)) ∧
      ∀ location, s.tree.IsPlain location → after.tree.IsPlain location := by
  obtain ⟨hdirect, hplace⟩ := Path.isDirect_ofLocation hnames
  rcases restore_cases cwd ⟨.ofLocation (dir ++ [name]), content⟩ s with ⟨e, hrun⟩ | ⟨location, is, -, hwrite, hended⟩
  · rw [hrun] at h
    cases h
  rcases write_at cwd content hwf hdirect (hplace.symm ▸ hplain) with ⟨e, hrefused⟩ | ⟨was, hdone, -, hwf'⟩
  · rw [hrefused] at hwrite
    cases hwrite
  have hwritten : s.tree.set location (.file content is) = s.tree.set (dir ++ [name]) (.file content was) := by
    rw [hdone, hplace] at hwrite
    exact (Prod.mk.inj hwrite).2.symm
  rw [hplace] at hwf'
  rw [hwritten, backup, backupOf_ofLocation] at hended
  have hget : (s.tree.set (dir ++ [name]) (.file content was)).get? (dir ++ [name]) = some (.file content was) :=
    get?_set_self _ _ (by simp)
  rcases hended with ⟨e, -, hrun⟩ | ⟨above, last, entry, hbackup, hthere, hfile, hrun⟩
  · rw [hrun] at h
    obtain ⟨-, rfl⟩ := Prod.mk.inj h
    exact ⟨hwf', ⟨was, hget⟩, fun location hlocation => isPlain_set hlocation (by simp) rfl⟩
  · have hentries := hwf'.isEntryName hget
    have hspells := hbackup.spells (fun other hmem => hentries other (List.mem_append_left _ hmem))
      (isName_backupName (hnames name (by simp)))
    have hsame := hbackup.parent.symm.trans (hspells.standsFor cwd hwf' (hwf'.parent hget)).parent
    cases hsame
    rw [hrun] at h
    cases h
    refine ⟨hwf'.erase (by simp) fun rest hrest => hwf'.none_below ?_ hrest, ⟨was, ?_⟩, fun location hlocation => ?_⟩
    · rw [hthere]
      simpa using hfile
    · rw [get?_erase _ (by simp), if_neg (backup_ne dir name).symm, hget]
    · exact isPlain_erase (isPlain_set hlocation (by simp) rfl) (by simp)

end Manifest.Guard

end DebRelease
