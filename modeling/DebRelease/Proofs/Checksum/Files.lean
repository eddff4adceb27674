import DebRelease.Proofs.FileTree.Walking
import DebRelease.Proofs.Checksum.Streaming

namespace DebRelease

namespace Bytes

theorem le_total (a b : Bytes) : (le a b || le b a) = true := by
  induction a generalizing b with
  | nil => simp [le]
  | cons x xs ih =>
    cases b with
    | nil => simp [le]
    | cons y ys =>
      have hrest := ih ys
      simp only [le, Bool.or_eq_true, Bool.and_eq_true, decide_eq_true_eq, beq_iff_eq] at hrest ⊢
      rcases Nat.lt_trichotomy x.toNat y.toNat with hlt | heq | hgt
      · exact .inl (.inl (UInt8.lt_iff_toNat_lt.mpr hlt))
      · have heq := UInt8.toNat_inj.mp heq
        exact hrest.imp (fun h => .inr ⟨heq, h⟩) fun h => .inr ⟨heq.symm, h⟩
      · exact .inr (.inl (UInt8.lt_iff_toNat_lt.mpr hgt))

theorem le_trans {a b c : Bytes} (h : le a b = true) (h' : le b c = true) : le a c = true := by
  induction a generalizing b c with
  | nil => rfl
  | cons x xs ih =>
    cases b with
    | nil => cases h
    | cons y ys =>
      cases c with
      | nil => cases h'
      | cons z zs =>
        simp only [le, Bool.or_eq_true, Bool.and_eq_true, decide_eq_true_eq, beq_iff_eq] at h h' ⊢
        rcases h with hlt | ⟨rfl, hle⟩
        · rcases h' with hlt' | ⟨rfl, -⟩
          · exact .inl (UInt8.lt_trans hlt hlt')
          · exact .inl hlt
        · rcases h' with hlt' | ⟨rfl, hle'⟩
          · exact .inl hlt'
          · exact .inr ⟨rfl, ih hle hle'⟩

theorem le_antisymm {a b : Bytes} (h : le a b = true) (h' : le b a = true) : a = b := by
  induction a generalizing b with
  | nil =>
    cases b with
    | nil => rfl
    | cons => cases h'
  | cons x xs ih =>
    cases b with
    | nil => cases h
    | cons y ys =>
      simp only [le, Bool.or_eq_true, Bool.and_eq_true, decide_eq_true_eq, beq_iff_eq] at h h'
      rcases h with hlt | ⟨rfl, hle⟩
      · rcases h' with hlt' | ⟨rfl, -⟩
        · exact absurd hlt' (UInt8.lt_asymm hlt)
        · exact absurd hlt (UInt8.lt_irrefl _)
      · rcases h' with hlt' | ⟨-, hle'⟩
        · exact absurd hlt' (UInt8.lt_irrefl _)
        · rw [ih hle hle']

theorem lt_of_le {a b : Bytes} (h : le a b = true) (hne : a ≠ b) : a < b := by
  induction a generalizing b with
  | nil =>
    cases b with
    | nil => exact absurd rfl hne
    | cons => exact List.nil_lt_cons _ _
  | cons x xs ih =>
    cases b with
    | nil => cases h
    | cons y ys =>
      simp only [le, Bool.or_eq_true, Bool.and_eq_true, decide_eq_true_eq, beq_iff_eq] at h
      rw [List.cons_lt_cons_iff]
      rcases h with hlt | ⟨rfl, hle⟩
      · exact .inl hlt
      · exact .inr ⟨rfl, ih hle fun heq => hne (heq ▸ rfl)⟩

end Bytes

namespace FileTree

theorem locationLe_total (a b : Location) : (locationLe a b || locationLe b a) = true := by
  induction a generalizing b with
  | nil => simp [locationLe]
  | cons x xs ih =>
    cases b with
    | nil => simp [locationLe]
    | cons y ys =>
      by_cases heq : x = y
      · simpa [locationLe, heq] using ih ys
      · simpa [locationLe, heq, Ne.symm heq] using Bytes.le_total x y

theorem locationLe_trans {a b c : Location} (h : locationLe a b = true) (h' : locationLe b c = true) :
    locationLe a c = true := by
  induction a generalizing b c with
  | nil => rfl
  | cons x xs ih =>
    cases b with
    | nil => cases h
    | cons y ys =>
      cases c with
      | nil => cases h'
      | cons z zs =>
        rw [locationLe] at h h' ⊢
        split at h
        · rename_i heq
          subst heq
          split at h'
          · rename_i heq'
            rw [if_pos heq']
            exact ih h h'
          · rename_i hne'
            rw [if_neg hne']
            exact h'
        · rename_i hne
          split at h'
          · rename_i heq'
            subst heq'
            rw [if_neg hne]
            exact h
          · rw [if_neg]
            · exact Bytes.le_trans h h'
            · rintro rfl
              exact hne (Bytes.le_antisymm h h')

theorem locationLe_antisymm {a b : Location} (h : locationLe a b = true) (h' : locationLe b a = true) : a = b := by
  induction a generalizing b with
  | nil =>
    cases b with
    | nil => rfl
    | cons => cases h'
  | cons x xs ih =>
    cases b with
    | nil => cases h
    | cons y ys =>
      rw [locationLe] at h h'
      by_cases heq : x = y
      · subst heq
        rw [if_pos rfl] at h h'
        rw [ih h h']
      · rw [if_neg heq] at h
        rw [if_neg (Ne.symm heq)] at h'
        exact absurd (Bytes.le_antisymm h h') heq

theorem lt_of_locationLe {a b : Location} (h : locationLe a b = true) (hne : a ≠ b) : a < b := by
  induction a generalizing b with
  | nil =>
    cases b with
    | nil => exact absurd rfl hne
    | cons => exact List.nil_lt_cons _ _
  | cons x xs ih =>
    cases b with
    | nil => cases h
    | cons y ys =>
      rw [List.cons_lt_cons_iff]
      rw [locationLe] at h
      split at h
      · rename_i heq
        subst heq
        exact .inr ⟨rfl, ih h fun heq => hne (heq ▸ rfl)⟩
      · rename_i hfirst
        exact .inl (Bytes.lt_of_le h hfirst)

theorem locationLe_append_left (front a b : Location) : locationLe (front ++ a) (front ++ b) = locationLe a b := by
  induction front with
  | nil => rfl
  | cons x front ih => rw [List.cons_append, List.cons_append, locationLe, if_pos rfl, ih]

theorem pairwise_mergeSort_locationLe {α : Type} (place : α → Location) (xs : List α) :
    (xs.mergeSort fun a b => locationLe (place a) (place b)).Pairwise fun a b =>
      locationLe (place a) (place b) = true := by
  refine List.pairwise_mergeSort ?_ ?_ xs
  · exact fun _ _ _ => locationLe_trans
  · exact fun a b => locationLe_total (place a) (place b)

/-- Sorting forgets an order that came before. -/
theorem mergeSort_eq {α : Type} {le : α → α → Bool} {xs ys : List α}
    (htrans : ∀ a b c, le a b = true → le b c = true → le a c = true) (htotal : ∀ a b, (le a b || le b a) = true)
    (hantisymm : ∀ a ∈ xs, ∀ b ∈ xs, le a b = true → le b a = true → a = b) (hperm : xs.Perm ys) :
    xs.mergeSort le = ys.mergeSort le := by
  refine List.Perm.eq_of_pairwise ?_ (List.pairwise_mergeSort htrans htotal xs)
    (List.pairwise_mergeSort htrans htotal ys) ?_
  · intro a b ha hb
    exact hantisymm a (List.mem_mergeSort.mp ha) b (hperm.mem_iff.mpr (List.mem_mergeSort.mp hb))
  · exact (List.mergeSort_perm xs le).trans (hperm.trans (List.mergeSort_perm ys le).symm)

variable {t tree : FileTree} {cwd : WorkingDir} {p path : Path} {place dir rest : Location} {content : Bytes}
    {executable : Bool} {chunking : Chunking}

/-- The files below a directory, sorted by their places relative to it, with their contents.
    Symbolic links are not followed. -/
def filesBelow (t : FileTree) (dir : Location) : List (Location × Bytes) :=
  let files := (t.below dir).filterMap fun (location, entry) =>
    match entry with
    | .file content _ => some (location, content)
    | _ => none
  files.mergeSort fun a b => locationLe a.1 b.1

/-- What is hashed for the files of a directory: for each file its relative path as text, then its
    content. -/
def digestInput (files : List (Location × Bytes)) : Bytes :=
  files.flatMap fun (location, content) =>
    Bytes.ofText (Path.ofSegments false location).display ++ content

theorem WellFormed.nodup_below (h : t.WellFormed) (dir : Location) : (t.below dir).Nodup := by
  refine h.nodup.of_map.filterMap ?_
  rintro ⟨location, entry⟩ ⟨location', entry'⟩ ⟨rest, found⟩ hitem hitem'
  simp only [Option.mem_def, Option.ite_none_right_eq_some, Option.some.injEq, Prod.mk.injEq] at hitem hitem'
  obtain ⟨hbelow, rfl, rfl⟩ := hitem
  obtain ⟨hbelow', hdrop, rfl⟩ := hitem'
  obtain ⟨⟨front, rfl⟩, -⟩ := isBelow_iff.mp hbelow
  obtain ⟨⟨front', rfl⟩, -⟩ := isBelow_iff.mp hbelow'
  rw [List.drop_left, List.drop_left] at hdrop
  rw [hdrop]

theorem WellFormed.mem_filesBelow_iff (h : t.WellFormed) :
    (rest, content) ∈ t.filesBelow dir ↔
      rest ≠ [] ∧ ∃ executable, t.get? (dir ++ rest) = some (.file content executable) := by
  rw [filesBelow, List.mem_mergeSort, List.mem_filterMap]
  constructor
  · rintro ⟨⟨location, entry⟩, hbelow, hsome⟩
    cases entry with
    | file bytes executable =>
      cases hsome
      obtain ⟨hne, hget⟩ := h.mem_below_iff.mp hbelow
      exact ⟨hne, executable, hget⟩
    | _ => cases hsome
  · rintro ⟨hne, executable, hget⟩
    exact ⟨(rest, .file content executable), h.mem_below_iff.mpr ⟨hne, hget⟩, rfl⟩

/-- A place holds one file at most. -/
theorem WellFormed.eq_of_mem_filesBelow (h : t.WellFormed) {a b : Location × Bytes} (ha : a ∈ t.filesBelow dir)
    (hb : b ∈ t.filesBelow dir) (heq : a.1 = b.1) : a = b := by
  obtain ⟨rest, content⟩ := a
  obtain ⟨rest', content'⟩ := b
  obtain rfl : rest = rest' := heq
  obtain ⟨-, _, hget⟩ := h.mem_filesBelow_iff.mp ha
  obtain ⟨-, _, hget'⟩ := h.mem_filesBelow_iff.mp hb
  rw [hget] at hget'
  cases hget'
  rfl

theorem WellFormed.nodup_filesBelow (h : t.WellFormed) (dir : Location) : (t.filesBelow dir).Nodup := by
  have hplaces : (t.below dir).Pairwise fun a b => a.1 ≠ b.1 := by
    refine (h.nodup_below dir).imp_of_mem ?_
    rintro ⟨location, entry⟩ ⟨location', entry'⟩ hmem hmem' hne rfl
    have hget := (h.mem_below_iff.mp hmem).2
    rw [(h.mem_below_iff.mp hmem').2] at hget
    cases hget
    exact hne rfl
  rw [filesBelow, (List.mergeSort_perm _ _).nodup_iff]
  refine hplaces.filterMap _ ?_
  rintro ⟨location, entry⟩ ⟨location', entry'⟩ hne ⟨rest, content⟩ hfile ⟨rest', content'⟩ hfile'
  cases entry with
  | file =>
    cases entry' with
    | file =>
      cases hfile
      cases hfile'
      exact fun heq => hne (Prod.mk.inj heq).1
    | _ => cases hfile'
  | _ => cases hfile

theorem pairwise_filesBelow (t : FileTree) (dir : Location) :
    (t.filesBelow dir).Pairwise fun a b => locationLe a.1 b.1 = true :=
  pairwise_mergeSort_locationLe Prod.fst _

/-- They are in order, each at a place of its own. -/
theorem WellFormed.sorted_filesBelow (h : t.WellFormed) (dir : Location) :
    (t.filesBelow dir).Pairwise fun a b => a.1 < b.1 := by
  refine ((pairwise_filesBelow t dir).and (h.nodup_filesBelow dir)).imp_of_mem fun {a b} ha hb ⟨hle, hne⟩ => ?_
  exact lt_of_locationLe hle fun heq => hne (h.eq_of_mem_filesBelow ha hb heq)

/-- The files below two directories that hold the same are listed alike. -/
theorem filesBelow_eq (hwf : t.WellFormed) (hwf' : tree.WellFormed)
    (hsame : ∀ rest, t.get? (place ++ rest) = tree.get? (dir ++ rest)) :
    t.filesBelow place = tree.filesBelow dir := by
  have hperm : (t.below place).Perm (tree.below dir) := by
    rw [List.perm_ext_iff_of_nodup (hwf.nodup_below place) (hwf'.nodup_below dir)]
    rintro ⟨rest, entry⟩
    rw [hwf.mem_below_iff, hwf'.mem_below_iff, hsame]
  rw [filesBelow, filesBelow]
  refine mergeSort_eq (fun _ _ _ => locationLe_trans) (fun a b => locationLe_total a.1 b.1) ?_ (hperm.filterMap _)
  intro a ha b hb hle hle'
  exact hwf.eq_of_mem_filesBelow (List.mem_mergeSort.mpr ha) (List.mem_mergeSort.mpr hb) (locationLe_antisymm hle hle')

/-- A file with a content lies below a directory at a place relative to it. -/
def HasFile (t : FileTree) (dir rest : Location) (content : Bytes) : Prop :=
  ∃ executable, t.get? (dir ++ rest) = some (.file content executable)

/-- A list of the files that have a property, in the order of their places. -/
structure Lists (files : List (Location × Bytes)) (P : Location → Bytes → Prop) : Prop where
  sorted : files.Pairwise fun a b => a.1 < b.1
  mem_iff : ∀ {rest : Location} {content : Bytes}, (rest, content) ∈ files ↔ P rest content

namespace Lists

variable {files files' : List (Location × Bytes)} {P Q : Location → Bytes → Prop}

theorem nodup (h : Lists files P) : files.Nodup :=
  h.sorted.imp fun hlt heq => absurd (heq ▸ hlt) (List.lt_irrefl _)

/-- There is one such list only. -/
theorem unique (h : Lists files P) (h' : Lists files' Q) (hiff : ∀ rest content, P rest content ↔ Q rest content) :
    files = files' := by
  have hperm : files.Perm files' := by
    rw [List.perm_ext_iff_of_nodup h.nodup h'.nodup]
    rintro ⟨rest, content⟩
    rw [h.mem_iff, h'.mem_iff, hiff]
  refine List.Perm.eq_of_pairwise ?_ h.sorted h'.sorted hperm
  exact fun a b _ _ hlt hlt' => absurd hlt' (List.lt_asymm hlt)

end Lists

/-- The files below a directory that a walk from a path comes to: those in directories whose paths the system
    accepts. -/
def gathered (t : FileTree) (p : Path) (dir : Location) : List (Location × Bytes) :=
  (t.filesBelow dir).filter fun file => checkPath (p.descend file.1.dropLast) = .ok ()

theorem WellFormed.mem_gathered_iff (h : t.WellFormed) : (rest, content) ∈ t.gathered p dir ↔
    rest ≠ [] ∧ (∃ executable, t.get? (dir ++ rest) = some (.file content executable)) ∧
      checkPath (p.descend rest.dropLast) = .ok () := by
  rw [gathered, List.mem_filter, h.mem_filesBelow_iff, decide_eq_true_eq, and_assoc]

theorem WellFormed.lists_filesBelow (h : t.WellFormed) (hdir : t.get? dir = some .directory) :
    Lists (t.filesBelow dir) (t.HasFile dir) where
  sorted := h.sorted_filesBelow dir
  mem_iff := by
    intro rest content
    rw [h.mem_filesBelow_iff]
    refine ⟨fun ⟨_, hget⟩ => hget, fun ⟨executable, hget⟩ => ⟨?_, executable, hget⟩⟩
    rintro rfl
    simp [hdir] at hget

theorem WellFormed.lists_gathered (h : t.WellFormed) (p : Path) (hdir : t.get? dir = some .directory) :
    Lists (t.gathered p dir) fun rest content =>
      t.HasFile dir rest content ∧ checkPath (p.descend rest.dropLast) = .ok () where
  sorted := (h.sorted_filesBelow dir).filter _
  mem_iff := by
    intro rest content
    rw [gathered, List.mem_filter, decide_eq_true_eq, (h.lists_filesBelow hdir).mem_iff]

/-- If the paths of all files below are accepted, all are gathered. -/
theorem WellFormed.gathered_of_accepted (h : t.WellFormed) (hne : p.bytes ≠ [])
    (haccepted : ∀ file ∈ t.filesBelow dir, checkPath (p.descend file.1) = .ok ()) :
    t.gathered p dir = t.filesBelow dir := by
  refine List.filter_eq_self.mpr ?_
  rintro ⟨rest, content⟩ hmem
  obtain ⟨-, executable, hget⟩ := h.mem_filesBelow_iff.mp hmem
  exact decide_eq_true (checkPath_descend_dropLast (haccepted _ hmem) hne (h.isName hget))

theorem WellFormed.sorted_gathered (h : t.WellFormed) (p : Path) (dir : Location) :
    (t.gathered p dir).Pairwise fun a b => a.1 < b.1 :=
  (h.sorted_filesBelow dir).filter _

theorem WellFormed.isName_gathered (h : t.WellFormed) {file : Location × Bytes} (hmem : file ∈ t.gathered p dir) :
    ∀ name ∈ file.1, Path.isName name = true := by
  obtain ⟨-, ⟨_, hget⟩, -⟩ := h.mem_gathered_iff.mp hmem
  exact h.isName hget

/-- The files that a walk comes to are those gathered below the directory. -/
private theorem Leads.mem_walkFiles_iff (hleads : t.Leads cwd p dir) (hwf : t.WellFormed)
    (hcheck : checkPath p = .ok ()) :
    path ∈ t.walkFiles cwd p ↔ ∃ file ∈ t.gathered p dir, p.descend file.1 = path := by
  have hwalk {entry : Entry} : (path, entry) ∈ t.walk cwd Path.lengthLimit p ↔ _ :=
    hleads.mem_walk_iff hwf hcheck (Nat.le_add_left _ _)
  rw [walkFiles, List.mem_filterMap]
  constructor
  · rintro ⟨⟨found, entry⟩, hmem, hsome⟩
    cases entry with
    | file content executable =>
      cases hsome
      obtain ⟨rest, hne, hget, rfl, hparent⟩ := hwalk.mp hmem
      exact ⟨(rest, content), hwf.mem_gathered_iff.mpr ⟨hne, ⟨executable, hget⟩, hparent⟩, rfl⟩
    | _ => cases hsome
  · rintro ⟨⟨rest, content⟩, hmem, rfl⟩
    obtain ⟨hne, ⟨executable, hget⟩, hparent⟩ := hwf.mem_gathered_iff.mp hmem
    exact ⟨(p.descend rest, .file content executable), hwalk.mpr ⟨rest, hne, hget, rfl, hparent⟩, rfl⟩

private theorem nodup_walkFiles (cwd : WorkingDir) (hwf : t.WellFormed) (p : Path) : (t.walkFiles cwd p).Nodup := by
  refine (List.pairwise_map.mp (nodup_walk cwd hwf Path.lengthLimit p)).filterMap _ ?_
  rintro ⟨path, entry⟩ ⟨path', entry'⟩ hne found hfound found' hfound'
  cases entry with
  | file =>
    cases entry' with
    | file =>
      cases hfound
      cases hfound'
      exact hne
    | _ => cases hfound'
  | _ => cases hfound

/-- Sorted by their paths they stand as the gathered files do. -/
theorem Leads.mergeSort_walkFiles (hleads : t.Leads cwd p dir) (hwf : t.WellFormed) (hcheck : checkPath p = .ok ()) :
    ((t.walkFiles cwd p).mergeSort fun a b => locationLe a.components b.components) =
      (t.gathered p dir).map fun file => p.descend file.1 := by
  have hcomponents {file : Location × Bytes} (hmem : file ∈ t.gathered p dir) :
      (p.descend file.1).components = p.components ++ file.1 :=
    p.components_descend (hwf.isName_gathered hmem)
  have hsorted : ((t.gathered p dir).map fun file => p.descend file.1).Pairwise fun a b =>
      locationLe a.components b.components = true := by
    refine List.pairwise_map.mpr (((pairwise_filesBelow t dir).filter _).imp_of_mem fun {a b} ha hb hle => ?_)
    rw [hcomponents ha, hcomponents hb, locationLe_append_left]
    exact hle
  have hnodup : ((t.gathered p dir).map fun file => p.descend file.1).Nodup := by
    refine List.pairwise_map.mpr ((hwf.sorted_gathered p dir).imp_of_mem fun {a b} ha hb hlt heq => ?_)
    have hplace := p.descend_injective (hwf.isName_gathered ha) (hwf.isName_gathered hb) heq
    exact absurd (hplace ▸ hlt) (List.lt_irrefl _)
  have hperm : (t.walkFiles cwd p).Perm ((t.gathered p dir).map fun file => p.descend file.1) := by
    rw [List.perm_ext_iff_of_nodup (nodup_walkFiles cwd hwf p) hnodup]
    intro path
    rw [hleads.mem_walkFiles_iff hwf hcheck, List.mem_map]
  refine List.Perm.eq_of_pairwise ?_ (pairwise_mergeSort_locationLe Path.components _) hsorted
    ((List.mergeSort_perm _ _).trans hperm)
  intro a b ha hb hle hle'
  obtain ⟨file, hfile, rfl⟩ := (hleads.mem_walkFiles_iff hwf hcheck).mp (List.mem_mergeSort.mp ha)
  obtain ⟨file', hfile', rfl⟩ := List.mem_map.mp hb
  have heq := locationLe_antisymm hle hle'
  rw [hcomponents hfile, hcomponents hfile', List.append_right_inj] at heq
  rw [heq]

end FileTree

end DebRelease
