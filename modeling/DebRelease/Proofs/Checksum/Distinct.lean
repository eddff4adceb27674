import DebRelease.Proofs.Checksum.Reference
import DebRelease.Proofs.Text.Decoding
import DebRelease.Proofs.Text.Encoding
import Mathlib.Data.List.Perm.Subperm

namespace DebRelease

namespace Bytes

theorem ofText_lossy_ne_nil {bytes : Bytes} (h : bytes ≠ []) : ofText bytes.lossy ≠ [] := by
  have hne : Utf8.lossyFrom .start bytes ≠ [] := Utf8.lossyFrom_ne_nil (.inr h)
  obtain ⟨c, chars, hchars⟩ := List.exists_cons_of_ne_nil hne
  rw [lossy, hchars, ofText_ofList, ofChars_cons]
  simp [String.utf8EncodeChar_ne_nil]

private theorem digitChar_injective : ∀ n < 16, ∀ m < 16, Nat.digitChar n = Nat.digitChar m → n = m := by
  decide

/-- Bytes are determined by their digits. -/
theorem hex_injective : Function.Injective hex := by
  intro bytes bytes' heq
  have hdigits := String.ofList_inj.mp heq
  clear heq
  induction bytes generalizing bytes' with
  | nil =>
    cases bytes' with
    | nil => rfl
    | cons => cases hdigits
  | cons b bytes ih =>
    cases bytes' with
    | nil => cases hdigits
    | cons b' bytes' =>
      simp only [List.flatMap_cons, List.cons_append, List.nil_append, List.cons.injEq] at hdigits
      obtain ⟨hhigh, hlow, hrest⟩ := hdigits
      have hb := b.toNat_lt
      have hb' := b'.toNat_lt
      have hdiv := digitChar_injective _ (by omega) _ (by omega) hhigh
      have hmod := digitChar_injective _ (by omega) _ (by omega) hlow
      rw [ih hrest, UInt8.toNat_inj.mp (show b.toNat = b'.toNat by omega)]

end Bytes

namespace FileTree

variable {t t' : FileTree} {cwd cwd' : WorkingDir} {p p' : Path} {dir dir' rest : Location}
    {file : Location × Bytes} {files files' : List (Location × Bytes)}

/-- The text that a file at a place is hashed with. -/
def placeText (rest : Location) : Bytes :=
  Bytes.ofText (Path.ofSegments false rest).display

theorem placeText_ne_nil (hne : rest ≠ []) (hnames : ∀ name ∈ rest, Path.isName name = true) : placeText rest ≠ [] := by
  refine Bytes.ofText_lossy_ne_nil ?_
  obtain ⟨name, rest, rfl⟩ := List.exists_cons_of_ne_nil hne
  have hname := (Path.isName_iff.mp (hnames name (by simp))).1
  cases rest with
  | nil => simpa [Path.ofSegments, Bytes.joinWith] using hname
  | cons => simp [Path.ofSegments, Bytes.joinWith]

theorem digestInput_cons (file : Location × Bytes) (files : List (Location × Bytes)) :
    digestInput (file :: files) = placeText file.1 ++ (file.2 ++ digestInput files) := by
  rw [digestInput, List.flatMap_cons, List.append_assoc]
  rfl

theorem digestInput_append (files more : List (Location × Bytes)) :
    digestInput (files ++ more) = digestInput files ++ digestInput more :=
  List.flatMap_append

/-- The lengths of what is hashed for a file: of its path as text and of its content. -/
def lengths (file : Location × Bytes) : Nat × Nat :=
  ((placeText file.1).length, file.2.length)

/-- Where the boundaries fall at the same positions, each path and each content can be read off. -/
theorem map_eq_of_digestInput_eq (hlengths : files.map lengths = files'.map lengths)
    (heq : digestInput files = digestInput files') :
    (files.map fun file => (placeText file.1, file.2)) = files'.map fun file => (placeText file.1, file.2) := by
  induction files generalizing files' with
  | nil =>
    rw [List.map_eq_nil_iff.mp hlengths.symm]
  | cons file files ih =>
    cases files' with
    | nil => cases hlengths
    | cons file' files' =>
      rw [List.map_cons, List.map_cons, List.cons.injEq, lengths, lengths, Prod.mk.injEq] at hlengths
      obtain ⟨⟨hplace, hcontent⟩, hlengths⟩ := hlengths
      rw [digestInput_cons, digestInput_cons] at heq
      obtain ⟨htext, heq⟩ := List.append_inj heq hplace
      obtain ⟨hbytes, heq⟩ := List.append_inj heq hcontent
      rw [List.map_cons, List.map_cons, htext, hbytes, ih hlengths heq]

/-- More files make more bytes. -/
theorem length_digestInput_lt (hnodup : files.Nodup) (hsub : files ⊆ files') (hmem : file ∈ files')
    (hnew : file ∉ files) (htext : placeText file.1 ≠ []) :
    (digestInput files).length < (digestInput files').length := by
  obtain ⟨some, hperm, hsublist⟩ : (file :: files).Subperm files' :=
    List.subperm_of_subset (List.nodup_cons.mpr ⟨hnew, hnodup⟩) (List.cons_subset.mpr ⟨hmem, hsub⟩)
  obtain ⟨more, hall⟩ := hsublist.exists_perm_append
  have hlength : (digestInput files').length = (digestInput (file :: files ++ more)).length :=
    ((hall.trans (hperm.append_right more)).flatMap_right _).length_eq
  have hpos := List.length_pos_iff.mpr htext
  rw [hlength, digestInput_append, digestInput_cons]
  simp only [List.length_append]
  omega

/-- How the files of two directories differ where what is hashed for them tells them apart. -/
inductive Discernible (files files' : List (Location × Bytes)) : Prop where
  | more (file : Location × Bytes) (hsub : files ⊆ files') (hmem : file ∈ files') (hnew : file ∉ files)
  | fewer (file : Location × Bytes) (hsub : files' ⊆ files) (hmem : file ∈ files) (hnew : file ∉ files')
  | edited (front back : List (Location × Bytes)) (rest : Location) (content content' : Bytes)
    (hfiles : files = front ++ (rest, content) :: back) (hfiles' : files' = front ++ (rest, content') :: back)
    (hne : content ≠ content')
  /-- One by one, the paths as text and the contents have the same lengths, and no two paths read alike. -/
  | aligned (hne : files ≠ files') (hlengths : files.map lengths = files'.map lengths)
    (htexts : ∀ file ∈ files, ∀ file' ∈ files', placeText file.1 = placeText file'.1 → file.1 = file'.1)

namespace Discernible

/-- Two lists are the same if a function that tells their elements apart takes them to the same. -/
private theorem eq_of_map_eq {α β : Type} {f : α → β} {xs ys : List α}
    (hinj : ∀ x ∈ xs, ∀ y ∈ ys, f x = f y → x = y) (heq : xs.map f = ys.map f) : xs = ys := by
  induction xs generalizing ys with
  | nil => rw [List.map_eq_nil_iff.mp heq.symm]
  | cons x xs ih =>
    cases ys with
    | nil => cases heq
    | cons y ys =>
      rw [List.map_cons, List.map_cons, List.cons.injEq] at heq
      rw [hinj x (by simp) y (by simp) heq.1, ih (fun x hx y hy => hinj x (by simp [hx]) y (by simp [hy])) heq.2]

theorem digestInput_ne {P P' : Location → Bytes → Prop} (h : Discernible files files') (hfiles : Lists files P)
    (hfiles' : Lists files' P') (htext : ∀ file ∈ files, placeText file.1 ≠ [])
    (htext' : ∀ file ∈ files', placeText file.1 ≠ []) : digestInput files ≠ digestInput files' := by
  intro heq
  cases h with
  | more file hsub hmem hnew =>
    have hlt := length_digestInput_lt hfiles.nodup hsub hmem hnew (htext' file hmem)
    rw [heq] at hlt
    exact Nat.lt_irrefl _ hlt
  | fewer file hsub hmem hnew =>
    have hlt := length_digestInput_lt hfiles'.nodup hsub hmem hnew (htext file hmem)
    rw [heq] at hlt
    exact Nat.lt_irrefl _ hlt
  | edited front back rest content content' hfront hfront' hne =>
    rw [hfront, hfront', digestInput_append, digestInput_append, digestInput_cons, digestInput_cons,
      List.append_right_inj, List.append_right_inj, List.append_left_inj] at heq
    exact hne heq
  | aligned hne hlengths htexts =>
    refine hne (eq_of_map_eq (fun file hmem file' hmem' heq => ?_) (map_eq_of_digestInput_eq hlengths heq))
    rw [Prod.mk.injEq] at heq
    exact Prod.ext (htexts file hmem file' hmem' heq.1) heq.2

end Discernible

/-- Every file of a list has a path as text. -/
private theorem placeText_of_mem (hwf : t.WellFormed) (hstat : t.stat cwd p = .ok (dir, .directory))
    (hfiles : Lists files (t.HasFile dir)) : ∀ file ∈ files, placeText file.1 ≠ [] := by
  rintro ⟨rest, content⟩ hmem
  obtain ⟨executable, hget⟩ := hfiles.mem_iff.mp hmem
  refine placeText_ne_nil ?_ (hwf.isName hget)
  rintro rfl
  simp [(leads_of_stat hstat).directory] at hget

/-- For two directories whose files can be discerned different bytes are hashed; if their checksums are equal, two
    different messages have the same hash. -/
theorem hashedParts_ne (chunking chunking' : Chunking) (hwf : t.WellFormed) (hwf' : t'.WellFormed)
    (hstat : t.stat cwd p = .ok (dir, .directory)) (hstat' : t'.stat cwd' p' = .ok (dir', .directory))
    (hfiles : Lists files (t.HasFile dir)) (hfiles' : Lists files' (t'.HasFile dir'))
    (haccepted : ∀ file ∈ files, checkPath (p.descend file.1) = .ok ())
    (haccepted' : ∀ file ∈ files', checkPath (p'.descend file.1) = .ok ()) (hdiffer : Discernible files files') :
    ∃ parts parts', t.hashedParts chunking cwd p = .ok parts ∧ t'.hashedParts chunking' cwd' p' = .ok parts' ∧
      parts.flatten ≠ parts'.flatten ∧
      (t.checksumBy chunking cwd p = t'.checksumBy chunking' cwd' p' →
        Sha256.hash parts.flatten = Sha256.hash parts'.flatten) := by
  have hparts := hashedParts_of_accepted chunking hwf hstat hfiles haccepted
  have hparts' := hashedParts_of_accepted chunking' hwf' hstat' hfiles' haccepted'
  refine ⟨_, _, hparts, hparts', ?_, fun heq => ?_⟩
  · rw [flatten_digestParts, flatten_digestParts]
    exact hdiffer.digestInput_ne hfiles hfiles' (placeText_of_mem hwf hstat hfiles)
      (placeText_of_mem hwf' hstat' hfiles')
  · rw [checksumBy_of_parts hparts, checksumBy_of_parts hparts'] at heq
    exact Bytes.hex_injective (Except.ok.inj heq)

/-- Two directories that differ in which content is whose. -/
def swapped : FileTree :=
  ⟨[(Path.place "/x", .directory), (Path.place "/x/a", .file (Bytes.ofText "1") false),
    (Path.place "/x/b", .file (Bytes.ofText "2") false), (Path.place "/y", .directory),
    (Path.place "/y/a", .file (Bytes.ofText "2") false), (Path.place "/y/b", .file (Bytes.ofText "1") false)]⟩

theorem hashedParts_ne_swapped : swapped.WellFormed ∧
    Discernible (swapped.filesBelow (Path.place "/x")) (swapped.filesBelow (Path.place "/y")) ∧
    ∃ parts parts', swapped.hashedParts .full (some []) "x" = .ok parts ∧
      swapped.hashedParts .full (some []) "y" = .ok parts' ∧ parts.flatten ≠ parts'.flatten := by
  have hwf : swapped.WellFormed := by decide +kernel
  have hx : swapped.filesBelow (Path.place "/x") =
      [(Path.place "/a", Bytes.ofText "1"), (Path.place "/b", Bytes.ofText "2")] := by
    rw [filesBelow, List.mergeSort_of_pairwise (by decide +kernel)]
    decide +kernel
  have hy : swapped.filesBelow (Path.place "/y") =
      [(Path.place "/a", Bytes.ofText "2"), (Path.place "/b", Bytes.ofText "1")] := by
    rw [filesBelow, List.mergeSort_of_pairwise (by decide +kernel)]
    decide +kernel
  have hdiffer : Discernible (swapped.filesBelow (Path.place "/x")) (swapped.filesBelow (Path.place "/y")) := by
    rw [hx, hy]
    exact .aligned (by decide +kernel) (by decide +kernel) (by decide +kernel)
  obtain ⟨parts, parts', hparts, hparts', hne, -⟩ := hashedParts_ne .full .full hwf hwf
    (show swapped.stat (some []) "x" = .ok (Path.place "/x", .directory) by decide +kernel)
    (show swapped.stat (some []) "y" = .ok (Path.place "/y", .directory) by decide +kernel)
    (hwf.lists_filesBelow (by decide +kernel)) (hwf.lists_filesBelow (by decide +kernel))
    (by rw [hx]; decide +kernel) (by rw [hy]; decide +kernel) hdiffer
  exact ⟨hwf, hdiffer, parts, parts', hparts, hparts', hne⟩

/-- Different bytes are hashed for two directories whose files differ in a given way. -/
def Identifies (Differ : List (Location × Bytes) → List (Location × Bytes) → Prop) : Prop :=
  ∀ (t t' : FileTree) (cwd : WorkingDir) (p p' : Path) (dir dir' : Location) (files files' : List (Location × Bytes))
    (parts parts' : List Bytes), t.WellFormed → t'.WellFormed → t.stat cwd p = .ok (dir, .directory) →
    t'.stat cwd p' = .ok (dir', .directory) → Lists files (t.HasFile dir) → Lists files' (t'.HasFile dir') →
    Differ files files' → t.hashedParts .full cwd p = .ok parts → t'.hashedParts .full cwd p' = .ok parts' →
    parts.flatten ≠ parts'.flatten

private theorem not_identifies {Differ : List (Location × Bytes) → List (Location × Bytes) → Prop} (hwf : t.WellFormed)
    (hstat : t.stat cwd p = .ok (dir, .directory)) (hstat' : t.stat cwd p' = .ok (dir', .directory))
    (hfiles : t.filesBelow dir = files) (hfiles' : t.filesBelow dir' = files')
    (haccepted : ∀ file ∈ files, checkPath (p.descend file.1) = .ok ())
    (haccepted' : ∀ file ∈ files', checkPath (p'.descend file.1) = .ok ()) (hdiffer : Differ files files')
    (heq : digestInput files = digestInput files') : ¬ Identifies Differ := by
  intro hclaim
  have hlists : Lists files (t.HasFile dir) := hfiles ▸ hwf.lists_filesBelow (leads_of_stat hstat).directory
  have hlists' : Lists files' (t.HasFile dir') := hfiles' ▸ hwf.lists_filesBelow (leads_of_stat hstat').directory
  refine hclaim t t cwd p p' dir dir' files files' _ _ hwf hwf hstat hstat' hlists hlists' hdiffer
    (hashedParts_of_accepted .full hwf hstat hlists haccepted)
    (hashedParts_of_accepted .full hwf hstat' hlists' haccepted') ?_
  rw [flatten_digestParts, flatten_digestParts, heq]

/-- Two directories with different files: where the path of the file ends, the content begins. -/
def unseparated : FileTree :=
  ⟨[(Path.place "/x", .directory), (Path.place "/x/a", .file (Bytes.ofText "bc") false),
    (Path.place "/y", .directory), (Path.place "/y/ab", .file (Bytes.ofText "c") false)]⟩

/-- Two directories with different files: the names are no text. -/
def undecodable : FileTree :=
  ⟨[(Path.place "/x", .directory), (Path.place "/x" ++ [[0xFF]], .file [] false),
    (Path.place "/y", .directory), (Path.place "/y" ++ [[0xFE]], .file [] false)]⟩

/-- Nothing is hashed for a directory whose only file is left out, as for one that has none. -/
private theorem not_identifies_discernible : ¬ Identifies Discernible := by
  intro hclaim
  have hstat : empty.stat (some []) longDots = .ok ([], .directory) := by decide +kernel
  have hfiles : Lists [(Path.place "/directory/f", Bytes.ofText "x")] (single.HasFile []) :=
    filesBelow_single ▸ wellFormed_single.lists_filesBelow rfl
  have hnone : Lists [] (empty.HasFile []) := by
    refine ⟨.nil, fun {rest content} => iff_of_false (by simp) ?_⟩
    rintro ⟨executable, hget⟩
    cases rest <;> simp [empty, get?] at hget
  have hparts := hashedParts_of_directory .full wellFormed_single stat_single
  rw [gathered_single] at hparts
  refine hclaim single empty (some []) longDots longDots [] [] _ _ _ _ wellFormed_single wellFormed_empty stat_single
    hstat hfiles hnone (.fewer _ (List.nil_subset _) List.mem_cons_self (by simp)) hparts
    (hashedParts_of_accepted .full wellFormed_empty hstat hnone (by simp)) rfl

/-- It is not enough that files differ, even if no two of their paths read alike, or if the boundaries fall at the same
    positions; nor is any difference seen in files that are left out. -/
theorem not_identifies_differing :
    ¬ Identifies (fun files files' => files ≠ files') ∧ ¬ Identifies Discernible ∧
    ¬ Identifies (fun files files' => files ≠ files' ∧
      ∀ file ∈ files, ∀ file' ∈ files', placeText file.1 = placeText file'.1 → file.1 = file'.1) ∧
    ¬ Identifies (fun files files' => files ≠ files' ∧ files.map lengths = files'.map lengths) := by
  have hwf : unseparated.WellFormed := by decide +kernel
  have hstat : unseparated.stat (some []) "x" = .ok (Path.place "/x", .directory) := by decide +kernel
  have hstat' : unseparated.stat (some []) "y" = .ok (Path.place "/y", .directory) := by decide +kernel
  have hfiles : unseparated.filesBelow (Path.place "/x") = [(Path.place "/a", Bytes.ofText "bc")] := by
    rw [filesBelow, List.mergeSort_of_pairwise (by decide +kernel)]
    decide +kernel
  have hfiles' : unseparated.filesBelow (Path.place "/y") = [(Path.place "/ab", Bytes.ofText "c")] := by
    rw [filesBelow, List.mergeSort_of_pairwise (by decide +kernel)]
    decide +kernel
  have hwf₂ : undecodable.WellFormed := by decide +kernel
  have hfiles₂ : undecodable.filesBelow (Path.place "/x") = [([[0xFF]], [])] := by
    rw [filesBelow, List.mergeSort_of_pairwise (by decide +kernel)]
    decide +kernel
  have hfiles₂' : undecodable.filesBelow (Path.place "/y") = [([[0xFE]], [])] := by
    rw [filesBelow, List.mergeSort_of_pairwise (by decide +kernel)]
    decide +kernel
  refine ⟨?_, not_identifies_discernible, ?_, ?_⟩
  · exact not_identifies hwf hstat hstat' hfiles hfiles' (by decide +kernel) (by decide +kernel) (by decide +kernel)
      (by decide +kernel)
  · exact not_identifies hwf hstat hstat' hfiles hfiles' (by decide +kernel) (by decide +kernel) (by decide +kernel)
      (by decide +kernel)
  · exact not_identifies hwf₂
      (show undecodable.stat (some []) "x" = .ok (Path.place "/x", .directory) by decide +kernel)
      (show undecodable.stat (some []) "y" = .ok (Path.place "/y", .directory) by decide +kernel) hfiles₂ hfiles₂'
      (by decide +kernel) (by decide +kernel) (by decide +kernel) (by decide +kernel)

end FileTree

end DebRelease
