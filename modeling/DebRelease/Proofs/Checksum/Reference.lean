import DebRelease.Proofs.Checksum.Files
import DebRelease.Proofs.Outcome

namespace DebRelease

namespace FileTree

variable {t t' : FileTree} {cwd : WorkingDir} {p : Path} {dir rest : Location} {content : Bytes} {chunking : Chunking}

theorem advance_of_get?_eq (h : t'.get? = t.get?) (last : Bool) (here : Location) (names : List Bytes) :
    t'.advance last here names = t.advance last here names := by
  induction names generalizing here with
  | nil => rw [advance, advance, h]
  | cons name rest ih => simp only [advance, h, ih]

theorem follow_of_get?_eq (h : t'.get? = t.get?) (last : Bool) (links : Nat) (here : Location) (names : List Bytes) :
    t'.follow last links here names = t.follow last links here names := by
  induction links generalizing here names with
  | zero => rw [follow, follow, advance_of_get?_eq h]
  | succ links ih =>
    rw [follow, follow, advance_of_get?_eq h]
    simp only [ih]

/-- In which order a tree lists its entries does not matter to what a path names. -/
theorem stat_of_get?_eq (h : t'.get? = t.get?) (cwd : WorkingDir) (p : Path) : t'.stat cwd p = t.stat cwd p := by
  simp only [stat, resolve, follow_of_get?_eq h]

theorem lstat_of_get?_eq (h : t'.get? = t.get?) (cwd : WorkingDir) (p : Path) : t'.lstat cwd p = t.lstat cwd p := by
  simp only [lstat, resolve, follow_of_get?_eq h]

theorem gathered_of_get?_eq (hwf : t.WellFormed) (hwf' : t'.WellFormed) (h : t'.get? = t.get?) (p : Path)
    (dir : Location) : t'.gathered p dir = t.gathered p dir := by
  rw [gathered, gathered, filesBelow_eq hwf' hwf fun rest => by rw [h]]

/-- The text that a file below a directory is hashed with, then its content. -/
def digestParts (chunking : Chunking) (file : Location × Bytes) : List Bytes :=
  Bytes.ofText (Path.ofSegments false file.1).display :: chunking.parts file.2

theorem flatten_digestParts (chunking : Chunking) (files : List (Location × Bytes)) :
    (files.map (digestParts chunking)).flatten.flatten = digestInput files := by
  induction files with
  | nil => rfl
  | cons file files ih => simp [digestInput, digestParts, chunking.flatten_parts] at ih ⊢; exact ih

/-- The name of an entry can make a path too long and nothing else. -/
theorem checkPath_join {name : Bytes} (hcheck : checkPath p = .ok ()) (hname : Path.IsEntryName name)
    (hrefused : checkPath (p.join ⟨name⟩) ≠ .ok ()) : checkPath (p.join ⟨name⟩) = .error (.os .nameTooLong) := by
  obtain ⟨hzero, hne, -⟩ := checkPath_eq_ok_iff.mp hcheck
  have hzero' : 0 ∉ (p.join ⟨name⟩).bytes := by
    rw [Path.join, (Path.names_of_isName hname.isName).1, if_neg (by simp)]
    split
    · simpa using ⟨hzero, hname.noZero⟩
    · simpa [Path.slash] using ⟨hzero, hname.noZero⟩
  have hne' : (p.join ⟨name⟩).bytes ≠ [] := (p.isPrefix_join hname.isName).ne_nil hne
  have hlong : Path.lengthLimit ≤ (p.join ⟨name⟩).bytes.length := by
    by_contra hshort
    exact hrefused (checkPath_eq_ok_iff.mpr ⟨hzero', hne', Nat.not_le.mp hshort⟩)
  rw [checkPath, if_neg (by simpa using hzero'), if_neg (by simpa using hne'), if_pos hlong]

/-- What is hashed of a gathered file. -/
private theorem Leads.fileParts (hleads : t.Leads cwd p dir) (hwf : t.WellFormed) (hcheck : checkPath p = .ok ())
    {file : Location × Bytes} (hmem : file ∈ t.gathered p dir) : t.fileParts chunking cwd p (p.descend file.1) =
      if checkPath (p.descend file.1) ≠ .ok () then
        .error (.file "opening file for hashing" (p.descend file.1) (.os .nameTooLong))
      else .ok (digestParts chunking file) := by
  obtain ⟨rest, content⟩ := file
  obtain ⟨hrest, ⟨executable, hget⟩, hparent⟩ := hwf.mem_gathered_iff.mp hmem
  have hne := (checkPath_eq_ok_iff.mp hcheck).2.1
  split
  · rename_i hrefused
    obtain ⟨front, name, rfl⟩ := (List.eq_nil_or_concat rest).resolve_left hrest
    rw [List.concat_eq_append] at hget hparent hrefused ⊢
    rw [List.dropLast_concat] at hparent
    rw [Path.descend_concat] at hrefused ⊢
    rw [← List.append_assoc] at hget
    have hlong := checkPath_join hparent (hwf.name hget) hrefused
    have hstat : t.stat cwd ((p.descend front).join ⟨name⟩) = .error (.os .nameTooLong) := by
      rw [FileTree.stat, resolve, hlong]
      rfl
    rw [FileTree.fileParts, readParts, hstat]
    rfl
  · rename_i haccepted
    have hstat := hleads.stat_descend hwf hrest hget rfl (not_not.mp haccepted)
    rw [FileTree.fileParts, readParts, hstat, p.relativeTo?_descend (hwf.isName hget)]
    rfl

/-- What is hashed for a directory: the gathered files, if none of them has a path that is refused. -/
theorem hashedParts_of_directory (chunking : Chunking) (hwf : t.WellFormed)
    (hstat : t.stat cwd p = .ok (dir, .directory)) : t.hashedParts chunking cwd p =
      ((t.gathered p dir).find? fun file => checkPath (p.descend file.1) ≠ .ok ()).elim
        (.ok ((t.gathered p dir).map (digestParts chunking)).flatten)
        fun file => .error (.file "opening file for hashing" (p.descend file.1) (.os .nameTooLong)) := by
  have hleads := leads_of_stat hstat
  have hcheck := (resolve_eq_ok_iff.mp (stat_eq_ok_iff.mp hstat)).1
  have hparts : ((t.gathered p dir).map fun file => p.descend file.1).mapM (t.fileParts chunking cwd p) =
      ((t.gathered p dir).find? fun file => checkPath (p.descend file.1) ≠ .ok ()).elim
        (.ok ((t.gathered p dir).map (digestParts chunking)))
        fun file => .error (.file "opening file for hashing" (p.descend file.1) (.os .nameTooLong)) := by
    rw [List.mapM_map]
    refine mapM_eq_find? fun file hmem => ?_
    simpa using hleads.fileParts hwf hcheck hmem
  rw [hashedParts, hstat]
  change (do
    let parts ← ((t.walkFiles cwd p).mergeSort fun a b => locationLe a.components b.components).mapM
      (t.fileParts chunking cwd p)
    pure parts.flatten : Except Failure (List Bytes)) = _
  rw [hleads.mergeSort_walkFiles hwf hcheck, hparts]
  cases (t.gathered p dir).find? fun file => checkPath (p.descend file.1) ≠ .ok () <;> rfl

/-- If the paths of all files below are accepted, all of them are hashed. -/
theorem hashedParts_of_accepted (chunking : Chunking) (hwf : t.WellFormed)
    (hstat : t.stat cwd p = .ok (dir, .directory)) {files : List (Location × Bytes)}
    (hfiles : Lists files (t.HasFile dir))
    (haccepted : ∀ file ∈ files, checkPath (p.descend file.1) = .ok ()) :
    t.hashedParts chunking cwd p = .ok (files.map (digestParts chunking)).flatten := by
  have hdir : t.get? dir = some .directory := (leads_of_stat hstat).directory
  have hne := (checkPath_eq_ok_iff.mp (resolve_eq_ok_iff.mp (stat_eq_ok_iff.mp hstat)).1).2.1
  have hall : files = t.filesBelow dir := hfiles.unique (hwf.lists_filesBelow hdir) fun _ _ => Iff.rfl
  have hgathered : t.gathered p dir = files := by
    rw [hall] at haccepted ⊢
    exact hwf.gathered_of_accepted hne haccepted
  have hfind : files.find? (fun file => checkPath (p.descend file.1) ≠ .ok ()) = none :=
    List.find?_eq_none.mpr fun file hmem => by simpa using haccepted file hmem
  rw [hashedParts_of_directory chunking hwf hstat, hgathered, hfind]
  rfl

theorem checksumBy_of_parts {parts : List Bytes} (h : t.hashedParts chunking cwd p = .ok parts) :
    t.checksumBy chunking cwd p = .ok (Sha256.hash parts.flatten).hex := by
  rw [checksumBy, h, ← Sha256.Hasher.finish_foldl]
  rfl

theorem checksumBy_of_file {location : Location} {executable : Bool}
    (hstat : t.stat cwd p = .ok (location, .file content executable)) :
    t.checksumBy chunking cwd p = .ok (Sha256.hash content).hex := by
  have hparts : t.hashedParts chunking cwd p = .ok (chunking.parts content) := by
    rw [hashedParts, hstat]
    change t.readParts chunking cwd p = _
    rw [readParts, hstat]
    rfl
  rw [checksumBy_of_parts hparts, chunking.flatten_parts]

private theorem checksumBy_of_error {e : Failure} (h : t.hashedParts chunking cwd p = .error e) :
    t.checksumBy chunking cwd p = .error e := by
  rw [checksumBy, h]
  rfl

theorem checksumBy_of_directory (hwf : t.WellFormed) (hstat : t.stat cwd p = .ok (dir, .directory)) :
    t.checksumBy chunking cwd p =
      ((t.gathered p dir).find? fun file => checkPath (p.descend file.1) ≠ .ok ()).elim
        (.ok (Sha256.hash (digestInput (t.gathered p dir))).hex)
        fun file => .error (.file "opening file for hashing" (p.descend file.1) (.os .nameTooLong)) := by
  have hparts := hashedParts_of_directory chunking hwf hstat
  cases hfind : (t.gathered p dir).find? fun file => checkPath (p.descend file.1) ≠ .ok () with
  | none =>
    rw [hfind] at hparts
    rw [checksumBy_of_parts hparts, flatten_digestParts]
    rfl
  | some file =>
    rw [hfind] at hparts
    exact checksumBy_of_error hparts

private theorem hashedParts_of_stat_error {e : SystemError} (hstat : t.stat cwd p = .error e) :
    t.hashedParts chunking cwd p = .error (.file "reading artifact metadata" p e) := by
  rw [hashedParts, hstat]
  rfl

theorem checksumBy_of_get?_eq (chunking chunking' : Chunking) (hwf : t.WellFormed) (hwf' : t'.WellFormed)
    (hsame : t'.get? = t.get?) : t'.checksumBy chunking' cwd p = t.checksumBy chunking cwd p := by
  have hstat := stat_of_get?_eq hsame cwd p
  cases hfound : t.stat cwd p with
  | error e =>
    rw [hfound] at hstat
    rw [checksumBy_of_error (hashedParts_of_stat_error hstat), checksumBy_of_error (hashedParts_of_stat_error hfound)]
  | ok found =>
    obtain ⟨location, entry⟩ := found
    rw [hfound] at hstat
    cases entry with
    | directory =>
      rw [checksumBy_of_directory hwf' hstat, checksumBy_of_directory hwf hfound, gathered_of_get?_eq hwf hwf' hsame]
    | file content executable => rw [checksumBy_of_file hstat, checksumBy_of_file hfound]
    | symlink link => cases hwf.isSymlink_of_stat hfound

/-- The checksum of a file, a link followed, is the hash of its content, in whatever parts it is read. That of a
    directory is the hash of the files that a walk comes to, those in directories whose paths are accepted: they stand
    in the order of their places, each path as text before the content. The first of them whose own path is not accepted
    fails it. In which order directories list their entries plays no part. -/
theorem checksumBy_eq (chunking : Chunking) (cwd : WorkingDir) (p : Path) (hwf : t.WellFormed) :
    (∀ location content executable, t.stat cwd p = .ok (location, .file content executable) →
      t.checksumBy chunking cwd p = .ok (Sha256.hash content).hex) ∧
    (∀ dir, t.stat cwd p = .ok (dir, .directory) → ∃ files,
      Lists files (fun rest content => t.HasFile dir rest content ∧ checkPath (p.descend rest.dropLast) = .ok ()) ∧
      t.checksumBy chunking cwd p =
        match files.find? fun file => checkPath (p.descend file.1) ≠ .ok () with
        | some file => .error (.file "opening file for hashing" (p.descend file.1) (.os .nameTooLong))
        | none => .ok (Sha256.hash (digestInput files)).hex) ∧
    ∀ (t' : FileTree) (chunking' : Chunking), t'.WellFormed → t'.get? = t.get? →
      t'.checksumBy chunking' cwd p = t.checksumBy chunking cwd p := by
  refine ⟨fun location content executable hstat => checksumBy_of_file hstat, fun dir hstat => ?_,
    fun t' chunking' hwf' hsame => checksumBy_of_get?_eq chunking chunking' hwf hwf' hsame⟩
  refine ⟨t.gathered p dir, hwf.lists_gathered p (leads_of_stat hstat).directory, ?_⟩
  rw [checksumBy_of_directory hwf hstat]
  cases (t.gathered p dir).find? fun file => checkPath (p.descend file.1) ≠ .ok () <;> rfl

/-- A directory whose files are not in the order of the texts of their places, with a link in it, a link to it, and a
    file beside it. -/
def checkable : FileTree :=
  ⟨[(Path.place "/d", .directory), (Path.place "/d/a", .directory),
    (Path.place "/d/a/b", .file (Bytes.ofText "1") false),
    (Path.place "/d/a.c", .file (Bytes.ofText "2") false), (Path.place "/d/e", .symlink "a"),
    (Path.place "/l", .symlink "d"), (Path.place "/f", .file (Bytes.ofText "hello") false)]⟩

theorem checksumBy_eq_checkable : checkable.WellFormed ∧
    checkable.checksumBy .full (some []) "f" =
      .ok "2cf24dba5fb0a30e26e83b2ac5b9e29e1b161e5c1fa7425e73043362938b9824" ∧
    checkable.checksumBy .full (some []) "l" = .ok (Sha256.hash (Bytes.ofText "a/b1a.c2")).hex := by
  have hwf : checkable.WellFormed := by decide +kernel
  obtain ⟨hfile, -⟩ := checksumBy_eq .full (some []) "f" hwf
  obtain ⟨-, hdirectory, -⟩ := checksumBy_eq .full (some []) "l" hwf
  obtain ⟨files, hfiles, hchecksum⟩ := hdirectory (Path.place "/d") (by decide +kernel)
  have hgathered : checkable.gathered "l" (Path.place "/d") =
      [(Path.place "/a/b", Bytes.ofText "1"), (Path.place "/a.c", Bytes.ofText "2")] := by
    rw [gathered, filesBelow, List.mergeSort_of_pairwise (by decide +kernel)]
    decide +kernel
  have hall : files = [(Path.place "/a/b", Bytes.ofText "1"), (Path.place "/a.c", Bytes.ofText "2")] :=
    (hfiles.unique (hwf.lists_gathered "l" (by decide +kernel)) fun _ _ => Iff.rfl).trans hgathered
  have hhello : (Sha256.hash (Bytes.ofText "hello")).hex =
      "2cf24dba5fb0a30e26e83b2ac5b9e29e1b161e5c1fa7425e73043362938b9824" := by
    decide +kernel
  refine ⟨hwf, ?_, ?_⟩
  · rw [hfile (Path.place "/f") (Bytes.ofText "hello") false (by decide +kernel), hhello]
  · have haccepted : files.find? (fun file => checkPath (("l" : Path).descend file.1) ≠ .ok ()) = none := by
      rw [hall]
      decide +kernel
    have hinput : digestInput files = Bytes.ofText "a/b1a.c2" := by
      rw [hall]
      decide +kernel
    rw [hchecksum, haccepted, hinput]

/-- A directory with one file. -/
def single : FileTree :=
  ⟨[(Path.place "/directory", .directory), (Path.place "/directory/f", .file (Bytes.ofText "x") false)]⟩

/-- The path of the working directory, so long that the directories in it have paths which are not accepted. -/
def longDots : Path :=
  ⟨(List.replicate 2044 [0x2E, Path.slash]).flatten⟩

theorem wellFormed_single : single.WellFormed := by decide +kernel

theorem stat_single : single.stat (some []) longDots = .ok ([], .directory) := by decide +kernel

theorem filesBelow_single : single.filesBelow [] = [(Path.place "/directory/f", Bytes.ofText "x")] := by
  rw [filesBelow, List.mergeSort_of_pairwise (by decide +kernel)]
  decide +kernel

/-- No file is gathered, since the directory of the only one has a path that is not accepted. -/
theorem gathered_single : single.gathered longDots [] = [] := by
  rw [gathered, filesBelow_single]
  decide +kernel

/-- Files in directories whose paths are not accepted are left out. -/
theorem not_checksumBy_of_all : ¬ ∀ (t : FileTree) (cwd : WorkingDir) (p : Path) (dir : Location), t.WellFormed →
    t.stat cwd p = .ok (dir, .directory) → ∃ files, Lists files (t.HasFile dir) ∧
      t.checksumBy .full cwd p = .ok (Sha256.hash (digestInput files)).hex := by
  intro hclaim
  obtain ⟨files, hfiles, hchecksum⟩ := hclaim single (some []) longDots [] wellFormed_single stat_single
  have hall : files = [(Path.place "/directory/f", Bytes.ofText "x")] :=
    (hfiles.unique (wellFormed_single.lists_filesBelow rfl) fun _ _ => Iff.rfl).trans filesBelow_single
  rw [checksumBy_of_directory wellFormed_single stat_single, gathered_single, hall] at hchecksum
  exact absurd (Except.ok.inj hchecksum) (by decide +kernel)

end FileTree

end DebRelease
