import DebRelease.Proofs.Checksum.Reference
import Mathlib.Algebra.Ring.Nat

namespace DebRelease

namespace FileTree

variable {t tree : FileTree} {cwd : WorkingDir} {place dir : Location} {name : Bytes}

/-- The names in two directories that hold the same are the same. -/
theorem sorted_childNames_eq (hwf : t.WellFormed) (hwf' : tree.WellFormed)
    (hsame : ∀ rest, t.get? (place ++ rest) = tree.get? (dir ++ rest)) :
    (t.childNames place).mergeSort Bytes.le = (tree.childNames dir).mergeSort Bytes.le := by
  refine mergeSort_eq (fun _ _ _ => Bytes.le_trans) Bytes.le_total (fun _ _ _ _ => Bytes.le_antisymm) ?_
  rw [List.perm_ext_iff_of_nodup (hwf.nodup_childNames place) (hwf'.nodup_childNames dir)]
  intro name
  rw [hwf.mem_childNames_iff, hwf'.mem_childNames_iff, hsame]

/-- The artifact that a top-level entry of a tree is in a directory with the given path: a file with its
    length and the hash of its content, or a directory with those of the files below it. -/
def artifactOf (tree : FileTree) (dir : Path) (name : Bytes) : Artifact :=
  match tree.get? [name] with
  | some (.file content _) => ⟨dir.join ⟨name⟩, content.length, (Sha256.hash content).hex⟩
  | _ =>
    let files := tree.filesBelow [name]
    ⟨dir.join ⟨name⟩, (files.map fun file => file.2.length).sum, (Sha256.hash (digestInput files)).hex⟩

/-- The artifacts that the top-level entries of a tree are, sorted by name. -/
def artifactsOf (tree : FileTree) (dir : Path) : List Artifact :=
  ((tree.childNames []).mergeSort Bytes.le).map (tree.artifactOf dir)

theorem size_of_file {p : Path} {content : Bytes} {executable : Bool}
    (hstat : t.stat cwd p = .ok (place, .file content executable)) : t.size cwd p = .ok content.length := by
  rw [size, hstat]
  rfl

/-- The size of a directory is that of the files gathered below it whose lengths can be read. -/
theorem size_eq_sum {p : Path} (hwf : t.WellFormed) (hstat : t.stat cwd p = .ok (place, .directory)) :
    t.size cwd p =
      .ok (((t.gathered p place).map fun file => p.descend file.1).filterMap (t.fileSize? cwd)).sum := by
  have hleads := leads_of_stat hstat
  have hcheck := (resolve_eq_ok_iff.mp (stat_eq_ok_iff.mp hstat)).1
  have hperm : (t.walkFiles cwd p).Perm ((t.gathered p place).map fun file => p.descend file.1) := by
    rw [← hleads.mergeSort_walkFiles hwf hcheck]
    exact (List.mergeSort_perm _ _).symm
  rw [size, hstat, ← (hperm.filterMap _).sum_nat, List.sum_eq_foldl]
  rfl

/-- The lengths of all can be read if their paths are accepted. -/
theorem size_of_directory {p : Path} (hwf : t.WellFormed) (hstat : t.stat cwd p = .ok (place, .directory))
    (haccepted : ∀ file ∈ t.gathered p place, checkPath (p.descend file.1) = .ok ()) :
    t.size cwd p = .ok ((t.gathered p place).map fun file => file.2.length).sum := by
  have hsizes : ((t.gathered p place).map fun file => p.descend file.1).filterMap (t.fileSize? cwd) =
      (t.gathered p place).map fun file => file.2.length := by
    rw [List.filterMap_map, ← List.filterMap_eq_map]
    refine List.filterMap_congr ?_
    rintro ⟨rest, content⟩ hmem
    obtain ⟨hrest, ⟨executable, hget⟩, -⟩ := hwf.mem_gathered_iff.mp hmem
    simp [fileSize?, (leads_of_stat hstat).lstat_descend hwf hrest hget (haccepted _ hmem)]
  rw [size_eq_sum hwf hstat, hsizes]

theorem artifact_of_file {p : Path} {content : Bytes} {executable : Bool}
    (hstat : t.stat cwd p = .ok (place, .file content executable)) :
    t.artifact cwd p = .ok ⟨p, content.length, (Sha256.hash content).hex⟩ := by
  rw [artifact, size_of_file hstat, checksum, checksumBy_of_file hstat]
  rfl

theorem artifact_of_directory {p : Path} (hwf : t.WellFormed) (hstat : t.stat cwd p = .ok (place, .directory))
    (haccepted : ∀ file ∈ t.gathered p place, checkPath (p.descend file.1) = .ok ()) :
    t.artifact cwd p = .ok ⟨p, ((t.gathered p place).map fun file => file.2.length).sum,
      (Sha256.hash (digestInput (t.gathered p place))).hex⟩ := by
  have hfind : (t.gathered p place).find? (fun file => checkPath (p.descend file.1) ≠ .ok ()) = none :=
    List.find?_eq_none.mpr fun file hmem => by simpa using haccepted file hmem
  rw [artifact, size_of_directory hwf hstat haccepted, checksum, checksumBy_of_directory hwf hstat, hfind]
  rfl

private theorem artifact_eq (hwf : t.WellFormed) (htree : tree.WellFormed) (hholds : t.Contains place tree.get?)
    {dir : Path} {entry : Entry} (hspells : (dir.join ⟨name⟩).Spells (place ++ [name]))
    (hget : tree.get? [name] = some entry) (hlink : entry.isSymlink = false)
    (hspans : (dir.join ⟨name⟩).Spans (Content.child tree.get? name)) :
    t.artifact cwd (dir.join ⟨name⟩) = .ok (tree.artifactOf dir name) := by
  have hthere : t.get? (place ++ [name]) = some entry := by rw [hholds, hget]
  have hstat : t.stat cwd (dir.join ⟨name⟩) = .ok (place ++ [name], entry) := stat_spells hspells hwf hthere hlink
  rw [artifactOf, hget]
  cases entry with
  | symlink link => cases hlink
  | file content executable => exact artifact_of_file hstat
  | directory =>
    have hfiles : t.filesBelow (place ++ [name]) = tree.filesBelow [name] :=
      filesBelow_eq hwf htree fun rest => by rw [← hholds, List.append_assoc]
    have hbelow : ∀ file ∈ t.filesBelow (place ++ [name]), checkPath ((dir.join ⟨name⟩).descend file.1) = .ok () := by
      rintro ⟨rest, content⟩ hmem
      obtain ⟨-, executable, hfile⟩ := hwf.mem_filesBelow_iff.mp hmem
      rw [List.append_assoc, List.singleton_append, hholds] at hfile
      refine hspans rest ?_
      rw [Content.child, hfile]
      exact Option.some_ne_none _
    have hne := (checkPath_eq_ok_iff.mp (resolve_eq_ok_iff.mp (stat_eq_ok_iff.mp hstat)).1).2.1
    have hgathered := hwf.gathered_of_accepted hne hbelow
    rw [artifact_of_directory hwf hstat (hgathered.symm ▸ hbelow), hgathered, hfiles]

/-- Listing a directory that holds a tree without links at its top succeeds and shows the top-level
    entries of the tree. -/
theorem artifacts_eq (cwd : WorkingDir) {dir : Path} (hdir : dir.Spells place) (hwf : t.WellFormed)
    (htree : tree.WellFormed) (hholds : t.Contains place tree.get?)
    (hentries : ∀ name entry, tree.get? [name] = some entry →
      (dir.join ⟨name⟩).Spells (place ++ [name]) ∧ entry.isSymlink = false)
    (hspans : dir.Spans tree.get?) :
    t.artifacts cwd dir = .ok (tree.artifactsOf dir) := by
  have hlist : t.list cwd dir = .ok (t.childNames place) := by
    rw [list, stat_spells hdir hwf hholds.get? rfl]
    rfl
  have hnames : (t.childNames place).mergeSort Bytes.le = (tree.childNames []).mergeSort Bytes.le :=
    sorted_childNames_eq hwf htree hholds
  rw [artifacts, hlist, artifactsOf, ← hnames]
  refine mapM_eq_ok_iff.mpr (List.forall₂_map_right_iff.mpr (List.forall₂_same.mpr fun name hmem => ?_))
  obtain ⟨entry, hget⟩ := hwf.mem_childNames_iff.mp (List.mem_mergeSort.mp hmem)
  rw [hholds] at hget
  obtain ⟨hspells, hlink⟩ := hentries name entry hget
  exact artifact_eq hwf htree hholds hspells hget hlink (hspans.child name)

end FileTree

end DebRelease
