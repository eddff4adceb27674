import DebRelease.Proofs.FileTree.Listing
import DebRelease.Proofs.Run.Computation

namespace DebRelease

namespace FileTree

variable {t t' : FileTree} {cwd : WorkingDir} {p dir : Path} {place : Location} {found : List Artifact}

/-- A path names a directory that has an entry with the name. -/
def HasEntry (t : FileTree) (cwd : WorkingDir) (dir : Path) (name : Bytes) : Prop :=
  ∃ place entry, t.stat cwd dir = .ok (place, .directory) ∧ t.get? (place ++ [name]) = some entry

/-- What a path names cannot be read as an artifact: nothing is found, or a walk of the directory that is found comes
    to a file whose path is refused. -/
def Unreadable (t : FileTree) (cwd : WorkingDir) (p : Path) : Prop :=
  (∃ e, t.stat cwd p = .error e) ∨ ∃ place rest content, t.stat cwd p = .ok (place, .directory) ∧
    t.HasFile place rest content ∧ checkPath (p.descend rest.dropLast) = .ok () ∧ checkPath (p.descend rest) ≠ .ok ()

/-- What a path names is an artifact. -/
structure IsArtifact (t : FileTree) (cwd : WorkingDir) (p : Path) (a : Artifact) : Prop where
  path : a.path = p
  checksum : t.checksum cwd p = .ok a.checksum
  /-- The size of a file is its length, and that of a directory the length of all files that a walk comes to: those in
      directories whose paths are accepted. -/
  size : (∃ place content executable, t.stat cwd p = .ok (place, .file content executable) ∧ a.size = content.length) ∨
    ∃ place files, t.stat cwd p = .ok (place, .directory) ∧
      Lists files (fun rest content => t.HasFile place rest content ∧ checkPath (p.descend rest.dropLast) = .ok ()) ∧
      a.size = (files.map fun file => file.2.length).sum

/-- A directory cannot be read as an artifact if a file that is gathered has a path that is refused. -/
private theorem unreadable_iff (hwf : t.WellFormed) (hstat : t.stat cwd p = .ok (place, .directory)) :
    t.Unreadable cwd p ↔ ∃ file ∈ t.gathered p place, checkPath (p.descend file.1) ≠ .ok () := by
  have hlists := hwf.lists_gathered p (leads_of_stat hstat).directory
  constructor
  · rintro (⟨e, herror⟩ | ⟨found, rest, content, hfound, hfile, hparent, hrefused⟩)
    · cases hstat.symm.trans herror
    · cases hstat.symm.trans hfound
      exact ⟨(rest, content), hlists.mem_iff.mpr ⟨hfile, hparent⟩, hrefused⟩
  · rintro ⟨⟨rest, content⟩, hmem, hrefused⟩
    obtain ⟨hfile, hparent⟩ := hlists.mem_iff.mp hmem
    exact .inr ⟨place, rest, content, hstat, hfile, hparent, hrefused⟩

private theorem size_of_error {e : SystemError} (hstat : t.stat cwd p = .error e) :
    t.size cwd p = .error (.file "reading artifact metadata" p e) := by
  rw [size, hstat]
  rfl

/-- What a path names is an artifact, unless it cannot be read. -/
theorem artifact_cases (hwf : t.WellFormed) (cwd : WorkingDir) (p : Path) :
    (t.Unreadable cwd p ∧ ∃ e, t.artifact cwd p = .error e) ∨
      ¬ t.Unreadable cwd p ∧ ∃ a, t.artifact cwd p = .ok a ∧ t.IsArtifact cwd p a := by
  cases hstat : t.stat cwd p with
  | error e =>
    refine .inl ⟨.inl ⟨e, hstat⟩, .file "reading artifact metadata" p e, ?_⟩
    rw [artifact, size_of_error hstat]
    rfl
  | ok found =>
    obtain ⟨place, entry⟩ := found
    cases entry with
    -- A link is followed, so it is never what is found.
    | symlink link => cases hwf.isSymlink_of_stat hstat
    | file content executable =>
      refine .inr ⟨?_, _, artifact_of_file hstat, rfl, checksumBy_of_file hstat,
        .inl ⟨place, content, executable, hstat, rfl⟩⟩
      rintro (⟨e, herror⟩ | ⟨found, rest, _, hfound, -⟩)
      · cases hstat.symm.trans herror
      · cases hstat.symm.trans hfound
    | directory =>
      have hchecksum : t.checksum cwd p = _ := checksumBy_of_directory hwf hstat
      rw [unreadable_iff hwf hstat]
      -- Both walks come to the same files: the checksum fails at the first one that is refused.
      cases hfind : (t.gathered p place).find? fun file => checkPath (p.descend file.1) ≠ .ok () with
      | none =>
        have haccepted : ∀ file ∈ t.gathered p place, checkPath (p.descend file.1) = .ok () := fun file hmem => by
          simpa using List.find?_eq_none.mp hfind file hmem
        rw [hfind] at hchecksum
        refine .inr ⟨?_, _, artifact_of_directory hwf hstat haccepted, rfl, hchecksum,
          .inr ⟨place, _, hstat, hwf.lists_gathered p (leads_of_stat hstat).directory, rfl⟩⟩
        rintro ⟨file, hmem, hrefused⟩
        exact hrefused (haccepted file hmem)
      | some file =>
        have hrefused := List.find?_some hfind
        rw [hfind] at hchecksum
        refine .inl ⟨⟨file, List.mem_of_find?_eq_some hfind, by simpa using hrefused⟩, ?_⟩
        rw [artifact, hchecksum]
        cases t.size cwd p <;> exact ⟨_, rfl⟩

/-- A directory lists its entries. -/
theorem list_eq_ok (hwf : t.WellFormed) {names : List Bytes} (h : t.list cwd dir = .ok names) :
    names.Nodup ∧ ∀ name, name ∈ names ↔ t.HasEntry cwd dir name := by
  rw [list] at h
  cases hstat : t.stat cwd dir with
  | error e =>
    rw [hstat] at h
    cases h
  | ok found =>
    obtain ⟨place, entry⟩ := found
    rw [hstat] at h
    cases entry with
    | directory =>
      cases h
      refine ⟨hwf.nodup_childNames place, fun name => hwf.mem_childNames_iff.trans ⟨?_, ?_⟩⟩
      · rintro ⟨entry, hget⟩
        exact ⟨place, entry, hstat, hget⟩
      · rintro ⟨found, entry, hfound, hget⟩
        cases hstat.symm.trans hfound
        exact ⟨entry, hget⟩
    | _ => cases h

/-- The artifacts are those at the names that are listed, in order. -/
theorem artifacts_of_list {names : List Bytes} (h : t.list cwd dir = .ok names) : t.artifacts cwd dir =
    (names.mergeSort Bytes.le).mapM fun name => t.artifact cwd (dir.join ⟨name⟩) := by
  rw [artifacts, h]
  rfl

theorem artifacts_of_list_error {e : SystemError} (h : t.list cwd dir = .error e) :
    t.artifacts cwd dir = .error (.file "listing directory" dir e) := by
  rw [artifacts, h]
  rfl

/-- The list of artifacts fails where the directory cannot be listed or an entry cannot be read. -/
theorem artifacts_eq_error_iff (hwf : t.WellFormed) : (∃ e, t.artifacts cwd dir = .error e) ↔
    (∃ e, t.list cwd dir = .error e) ∨ ∃ name, t.HasEntry cwd dir name ∧ t.Unreadable cwd (dir.join ⟨name⟩) := by
  cases hlist : t.list cwd dir with
  | error e => exact ⟨fun _ => .inl ⟨e, rfl⟩, fun _ => ⟨_, artifacts_of_list_error hlist⟩⟩
  | ok names =>
    have hentries := (list_eq_ok hwf hlist).2
    rw [artifacts_of_list hlist, mapM_eq_error_iff]
    constructor
    · rintro ⟨name, hmem, e, herror⟩
      refine .inr ⟨name, (hentries name).mp (List.mem_mergeSort.mp hmem), ?_⟩
      obtain ⟨hunreadable, -⟩ | ⟨-, a, hok, -⟩ := artifact_cases hwf cwd (dir.join ⟨name⟩)
      · exact hunreadable
      · cases herror.symm.trans hok
    · rintro (⟨e, herror⟩ | ⟨name, hentry, hunreadable⟩)
      · cases herror
      · obtain ⟨-, herror⟩ | ⟨hreadable, -⟩ := artifact_cases hwf cwd (dir.join ⟨name⟩)
        · exact ⟨name, List.mem_mergeSort.mpr ((hentries name).mpr hentry), herror⟩
        · exact absurd hunreadable hreadable

/-- The list of artifacts holds one for each entry, in the order of their names. -/
theorem artifacts_eq_ok (hwf : t.WellFormed) (h : t.artifacts cwd dir = .ok found) : ∃ names,
    names.Pairwise (· < ·) ∧ (∀ name, name ∈ names ↔ t.HasEntry cwd dir name) ∧
      List.Forall₂ (fun name => t.IsArtifact cwd (dir.join ⟨name⟩)) names found := by
  cases hlist : t.list cwd dir with
  | error e => cases (artifacts_of_list_error hlist).symm.trans h
  | ok names =>
    obtain ⟨hnodup, hentries⟩ := list_eq_ok hwf hlist
    rw [artifacts_of_list hlist, mapM_eq_ok_iff] at h
    refine ⟨names.mergeSort Bytes.le, ?_, fun name => List.mem_mergeSort.trans (hentries name), h.imp ?_⟩
    · have hsorted : (names.mergeSort Bytes.le).Pairwise fun a b => Bytes.le a b = true := by
        refine List.pairwise_mergeSort ?_ Bytes.le_total names
        exact fun _ _ _ => Bytes.le_trans
      have hdistinct := (List.mergeSort_perm names Bytes.le).nodup_iff.mpr hnodup
      exact (hsorted.and hdistinct).imp fun ⟨hle, hne⟩ => Bytes.lt_of_le hle hne
    · intro name a hname
      obtain ⟨-, e, herror⟩ | ⟨-, b, hok, hartifact⟩ := artifact_cases hwf cwd (dir.join ⟨name⟩)
      · cases hname.symm.trans herror
      · cases hname.symm.trans hok
        exact hartifact

private theorem size_of_get?_eq (hwf : t.WellFormed) (hwf' : t'.WellFormed) (hsame : t'.get? = t.get?)
    (cwd : WorkingDir) (p : Path) : t'.size cwd p = t.size cwd p := by
  have hstat := stat_of_get?_eq hsame cwd p
  cases hfound : t.stat cwd p with
  | error e => rw [size_of_error (hstat.trans hfound), size_of_error hfound]
  | ok found =>
    obtain ⟨place, entry⟩ := found
    rw [hfound] at hstat
    cases entry with
    | symlink link => cases hwf.isSymlink_of_stat hfound
    | file content executable => rw [size_of_file hstat, size_of_file hfound]
    | directory =>
      have hlength : t'.fileSize? cwd = t.fileSize? cwd := by
        funext path
        rw [fileSize?, fileSize?, lstat_of_get?_eq hsame]
      rw [size_eq_sum hwf' hstat, size_eq_sum hwf hfound, gathered_of_get?_eq hwf hwf' hsame, hlength]

private theorem list_of_get?_eq (hwf : t.WellFormed) (hwf' : t'.WellFormed) (hsame : t'.get? = t.get?)
    (cwd : WorkingDir) (dir : Path) : (∃ e, t'.list cwd dir = .error e ∧ t.list cwd dir = .error e) ∨
      ∃ names names', t'.list cwd dir = .ok names' ∧ t.list cwd dir = .ok names ∧
        names'.mergeSort Bytes.le = names.mergeSort Bytes.le := by
  rw [list, list, stat_of_get?_eq hsame]
  cases t.stat cwd dir with
  | error e => exact .inl ⟨e, rfl, rfl⟩
  | ok found =>
    obtain ⟨place, entry⟩ := found
    cases entry with
    | directory => exact .inr ⟨_, _, rfl, rfl, sorted_childNames_eq hwf' hwf fun rest => by rw [hsame]⟩
    | _ => exact .inl ⟨_, rfl, rfl⟩

/-- In which order directories list their entries does not matter to the list of artifacts. -/
theorem artifacts_of_get?_eq (hwf : t.WellFormed) (hwf' : t'.WellFormed) (hsame : t'.get? = t.get?) (cwd : WorkingDir)
    (dir : Path) : t'.artifacts cwd dir = t.artifacts cwd dir := by
  have hartifact (p : Path) : t'.artifact cwd p = t.artifact cwd p := by
    rw [artifact, artifact, size_of_get?_eq hwf hwf' hsame, checksum, checksum,
      checksumBy_of_get?_eq .full .full hwf hwf' hsame]
  obtain ⟨e, herror', herror⟩ | ⟨names, names', hnames', hnames, hsorted⟩ := list_of_get?_eq hwf hwf' hsame cwd dir
  · rw [artifacts_of_list_error herror', artifacts_of_list_error herror]
  · rw [artifacts_of_list hnames', artifacts_of_list hnames, hsorted]
    simp only [hartifact]

end FileTree

namespace Pipeline

open RunM

/-- Listing the artifacts gives those of the tree, and does no more than show them. -/
theorem run_listArtifacts {σ : Type} (p : Pipeline σ) (dir : Path) (s : Session σ) : ∃ shown,
    listArtifacts p dir s = (s.tree.artifacts p.cwd dir, { s with writes := s.writes ++ shown }) := by
  rw [listArtifacts_eq, run_bind, run_onTree, TreeM.run_look]
  cases s.tree.artifacts p.cwd dir with
  | error e => exact ⟨[], by simp⟩
  | ok found => exact ⟨p.console.artifactLines dir found, by simp [run_bind]⟩

end Pipeline

namespace FileTree

variable {t : FileTree} {p : Path}

/-- The artifacts of a directory are those of its entries, in the order of their names, whatever the order in which
    directories list them. There are none if the directory cannot be listed or an entry cannot be read. A run that
    lists them leaves the files alone. -/
theorem artifacts_complete (hwf : t.WellFormed) (cwd : WorkingDir) (dir : Path) :
    ((∃ e, t.artifacts cwd dir = .error e) ↔ (∃ e, t.list cwd dir = .error e) ∨
      ∃ name, t.HasEntry cwd dir name ∧ t.Unreadable cwd (dir.join ⟨name⟩)) ∧
    (∀ found, t.artifacts cwd dir = .ok found → ∃ names, names.Pairwise (· < ·) ∧
      (∀ name, name ∈ names ↔ t.HasEntry cwd dir name) ∧
      List.Forall₂ (fun name => t.IsArtifact cwd (dir.join ⟨name⟩)) names found) ∧
    (∀ t' : FileTree, t'.WellFormed → t'.get? = t.get? → t'.artifacts cwd dir = t.artifacts cwd dir) ∧
    ∀ {σ : Type} (p : Pipeline σ) (s : Session σ), p.cwd = cwd → s.tree = t →
      (p.listArtifacts dir s).1 = t.artifacts cwd dir ∧ (p.listArtifacts dir s).2.tree = t := by
  refine ⟨artifacts_eq_error_iff hwf, fun found => artifacts_eq_ok hwf,
    fun t' hwf' hsame => artifacts_of_get?_eq hwf hwf' hsame cwd dir, ?_⟩
  rintro σ p s rfl rfl
  obtain ⟨shown, hrun⟩ := p.run_listArtifacts dir s
  rw [hrun]
  exact ⟨rfl, rfl⟩

/-- A directory with a file, a directory with a file in a directory of its own, and a link to that. -/
def shelf : FileTree :=
  ⟨[(Path.place "/o", .directory), (Path.place "/o/b", .file (Bytes.ofText "xy") false),
    (Path.place "/o/a", .symlink "d"), (Path.place "/o/d", .directory), (Path.place "/o/d/e", .directory),
    (Path.place "/o/d/e/f", .file (Bytes.ofText "1") false), (Path.place "/o/d/g", .symlink "../b")]⟩

/-- The same with a link that leads nowhere. -/
def brokenShelf : FileTree :=
  ⟨shelf.entries ++ [(Path.place "/o/c", .symlink "gone")]⟩

/-- The artifact that a path of the inner directory gives. -/
private theorem artifact_shelf {p : Path} (hstat : shelf.stat (some []) p = .ok (Path.place "/o/d", .directory))
    (hcheck : checkPath (p.descend (Path.place "/e/f")) = .ok ()) : ∃ checksum,
      shelf.artifact (some []) p = .ok ⟨p, 1, checksum⟩ := by
  have hwf : shelf.WellFormed := by decide +kernel
  have hfiles : shelf.filesBelow (Path.place "/o/d") = [(Path.place "/e/f", Bytes.ofText "1")] := by
    rw [filesBelow, List.mergeSort_of_pairwise (by decide +kernel)]
    decide +kernel
  have hne := (checkPath_eq_ok_iff.mp (resolve_eq_ok_iff.mp (stat_eq_ok_iff.mp hstat)).1).2.1
  have haccepted : ∀ file ∈ shelf.filesBelow (Path.place "/o/d"), checkPath (p.descend file.1) = .ok () := by
    rw [hfiles]
    exact List.forall_mem_singleton.mpr hcheck
  have hgathered := hwf.gathered_of_accepted hne haccepted
  have hartifact := artifact_of_directory hwf hstat (hgathered.symm ▸ haccepted)
  have hsize : ([(Path.place "/e/f", Bytes.ofText "1")].map fun file => file.2.length).sum = 1 := by decide +kernel
  rw [hgathered, hfiles, hsize] at hartifact
  exact ⟨_, hartifact⟩

theorem artifacts_complete_shelf : shelf.WellFormed ∧ brokenShelf.WellFormed ∧
    (∃ found names, shelf.artifacts (some []) "/o" = .ok found ∧ found.map Artifact.size = [1, 2, 1] ∧
      names.Pairwise (· < ·) ∧
      List.Forall₂ (fun name => shelf.IsArtifact (some []) (Path.join "/o" ⟨name⟩)) names found) ∧
    ∃ e, brokenShelf.artifacts (some []) "/o" = .error e := by
  have hwf : shelf.WellFormed := by decide +kernel
  have hbroken : brokenShelf.WellFormed := by decide +kernel
  refine ⟨hwf, hbroken, ?_, ?_⟩
  · let entry (name : String) : Path := Path.join "/o" ⟨Bytes.ofText name⟩
    obtain ⟨linked, ha⟩ := artifact_shelf (p := entry "a") (by decide +kernel) (by decide +kernel)
    obtain ⟨inner, hd⟩ := artifact_shelf (p := entry "d") (by decide +kernel) (by decide +kernel)
    have hstat : shelf.stat (some []) (entry "b") = .ok (Path.place "/o/b", .file (Bytes.ofText "xy") false) := by
      decide +kernel
    have hb := artifact_of_file hstat
    rw [show (Bytes.ofText "xy").length = 2 by decide +kernel] at hb
    have hlist : shelf.list (some []) "/o" = .ok [Bytes.ofText "b", Bytes.ofText "a", Bytes.ofText "d"] := by
      decide +kernel
    have hswapped : [Bytes.ofText "b", Bytes.ofText "a", Bytes.ofText "d"].mergeSort Bytes.le =
        [Bytes.ofText "a", Bytes.ofText "b", Bytes.ofText "d"].mergeSort Bytes.le :=
      mergeSort_eq (fun _ _ _ => Bytes.le_trans) Bytes.le_total (fun _ _ _ _ => Bytes.le_antisymm)
        (List.Perm.swap _ _ _)
    have hsorted : [Bytes.ofText "a", Bytes.ofText "b", Bytes.ofText "d"].mergeSort Bytes.le =
        [Bytes.ofText "a", Bytes.ofText "b", Bytes.ofText "d"] :=
      List.mergeSort_of_pairwise (by decide +kernel)
    have hfound : shelf.artifacts (some []) "/o" = .ok [⟨entry "a", 1, linked⟩,
        ⟨entry "b", 2, (Sha256.hash (Bytes.ofText "xy")).hex⟩, ⟨entry "d", 1, inner⟩] := by
      rw [artifacts_of_list hlist, hswapped, hsorted, mapM_eq_ok_iff]
      exact .cons ha (.cons hb (.cons hd .nil))
    obtain ⟨-, hcomplete, -⟩ := artifacts_complete hwf (some []) "/o"
    obtain ⟨names, hascending, -, hartifacts⟩ := hcomplete _ hfound
    exact ⟨_, names, hfound, rfl, hascending, hartifacts⟩
  · obtain ⟨hfails, -⟩ := artifacts_complete hbroken (some []) "/o"
    exact hfails.mpr (.inr ⟨Bytes.ofText "c", ⟨Path.place "/o", .symlink "gone", by decide +kernel, by decide +kernel⟩,
      .inl ⟨.os .noEntry, by decide +kernel⟩⟩)

/-- A directory with a file of a long name. -/
def deepFile : FileTree :=
  ⟨[(Path.place "/d", .directory), (Path.place "/d/a-long-name", .file (Bytes.ofText "x") false)]⟩

/-- A directory with a file in a directory of a long name. -/
def deepDirectory : FileTree :=
  ⟨[(Path.place "/d", .directory), (Path.place "/d/a-long-name", .directory),
    (Path.place "/d/a-long-name/f", .file (Bytes.ofText "x") false)]⟩

/-- The path of a working directory with one entry. The path of the entry is accepted, and that of what has a long name
    in it is not. -/
private structure Reaches (t : FileTree) (p : Path) : Prop where
  stat : t.stat (some []) p = .ok ([], .directory)
  names : t.childNames [] = [Bytes.ofText "d"]
  get? : t.get? [Bytes.ofText "d"] = some .directory
  accepted : checkPath (p.join ⟨Bytes.ofText "d"⟩) = .ok ()
  refused : checkPath ((p.join ⟨Bytes.ofText "d"⟩).join ⟨Bytes.ofText "a-long-name"⟩) ≠ .ok ()

private theorem Reaches.list (h : t.Reaches p) : t.list (some []) p = .ok [Bytes.ofText "d"] := by
  rw [FileTree.list, h.stat, ← h.names]
  rfl

private theorem Reaches.entry (h : t.Reaches p) (hwf : t.WellFormed) :
    t.stat (some []) (p.join ⟨Bytes.ofText "d"⟩) = .ok ([Bytes.ofText "d"], .directory) := by
  have hstat : t.stat (some []) (p.descend [Bytes.ofText "d"]) = .ok ([] ++ [Bytes.ofText "d"], .directory) :=
    (leads_of_stat h.stat).stat_descend hwf (by simp) h.get? rfl h.accepted
  exact hstat

/-- A file whose path is too long fails the list. -/
private theorem artifacts_deepFile (hwf : deepFile.WellFormed) (h : deepFile.Reaches p) :
    ∃ e, deepFile.artifacts (some []) p = .error e := by
  refine (artifacts_eq_error_iff hwf).mpr (.inr ⟨Bytes.ofText "d", ⟨[], .directory, h.stat, h.get?⟩, ?_⟩)
  exact .inr ⟨_, [Bytes.ofText "a-long-name"], Bytes.ofText "x", h.entry hwf, ⟨false, by decide +kernel⟩, h.accepted,
    h.refused⟩

private theorem filesBelow_deepDirectory : deepDirectory.filesBelow [Bytes.ofText "d"] =
    [([Bytes.ofText "a-long-name", Bytes.ofText "f"], Bytes.ofText "x")] := by
  rw [filesBelow, List.mergeSort_of_pairwise (by decide +kernel)]
  decide +kernel

/-- The files in a directory whose path is too long do not count. -/
private theorem artifacts_deepDirectory (hwf : deepDirectory.WellFormed) (h : deepDirectory.Reaches p) :
    deepDirectory.artifacts (some []) p = .ok [⟨p.join ⟨Bytes.ofText "d"⟩, 0, (Sha256.hash []).hex⟩] := by
  have hgathered : deepDirectory.gathered (p.join ⟨Bytes.ofText "d"⟩) [Bytes.ofText "d"] = [] := by
    rw [gathered, filesBelow_deepDirectory, List.filter_eq_nil_iff, List.forall_mem_singleton, decide_eq_true_eq]
    exact h.refused
  have hartifact := artifact_of_directory hwf (h.entry hwf) (by simp [hgathered])
  rw [hgathered] at hartifact
  rw [artifacts_of_list h.list, List.mergeSort_singleton, mapM_eq_ok_iff]
  exact .cons hartifact .nil

/-- A file whose path is too long fails the list, though the entry that it lies below can be read; and the files in a
    directory whose path is too long do not count. -/
theorem not_artifacts_complete :
    (¬ ∀ (t : FileTree) (cwd : WorkingDir) (dir : Path), t.WellFormed →
      ((∃ e, t.artifacts cwd dir = .error e) ↔ (∃ e, t.list cwd dir = .error e) ∨
        ∃ name, t.HasEntry cwd dir name ∧ ∃ e, t.stat cwd (dir.join ⟨name⟩) = .error e)) ∧
    ¬ ∀ (t : FileTree) (cwd : WorkingDir) (dir : Path) (found : List Artifact), t.WellFormed →
      t.artifacts cwd dir = .ok found → ∀ a ∈ found, ∀ place files, t.stat cwd a.path = .ok (place, .directory) →
        Lists files (t.HasFile place) → a.size = (files.map fun file => file.2.length).sum := by
  have haccepted : checkPath (longDots.join ⟨Bytes.ofText "d"⟩) = .ok () := by decide +kernel
  have hrefused : checkPath ((longDots.join ⟨Bytes.ofText "d"⟩).join ⟨Bytes.ofText "a-long-name"⟩) ≠ .ok () := by
    decide +kernel
  constructor
  · intro hclaim
    have hwf : deepFile.WellFormed := by decide +kernel
    have h : deepFile.Reaches longDots :=
      ⟨by decide +kernel, by decide +kernel, by decide +kernel, haccepted, hrefused⟩
    obtain ⟨e, herror⟩ | ⟨name, hentry, e, herror⟩ := (hclaim _ _ _ hwf).mp (artifacts_deepFile hwf h)
    · cases h.list.symm.trans herror
    · rw [← (list_eq_ok hwf h.list).2, List.mem_singleton] at hentry
      rw [hentry, h.entry hwf] at herror
      cases herror
  · intro hclaim
    have hwf : deepDirectory.WellFormed := by decide +kernel
    have h : deepDirectory.Reaches longDots :=
      ⟨by decide +kernel, by decide +kernel, by decide +kernel, haccepted, hrefused⟩
    have hsize := hclaim _ _ _ _ hwf (artifacts_deepDirectory hwf h) _ List.mem_cons_self _ _ (h.entry hwf)
      (hwf.lists_filesBelow h.get?)
    rw [filesBelow_deepDirectory] at hsize
    exact absurd hsize (by change (0 : Nat) ≠ _; decide +kernel)

end FileTree

end DebRelease
