import DebRelease.FileTree.Resolve
import DebRelease.Proofs.FileTree.Lookup
import Mathlib.Data.List.Nodup

namespace DebRelease

/-- A name that an entry of a directory can have. -/
structure Path.IsEntryName (name : Bytes) : Prop where
  isName : Path.isName name = true
  noZero : 0 ∉ name
  length_le : name.length ≤ Path.nameLimit

instance (name : Bytes) : Decidable (Path.IsEntryName name) :=
  decidable_of_iff (Path.isName name = true ∧ 0 ∉ name ∧ name.length ≤ Path.nameLimit)
    ⟨fun ⟨hname, hzero, hlength⟩ => ⟨hname, hzero, hlength⟩, fun h => ⟨h.isName, h.noZero, h.length_le⟩⟩

namespace FileTree

/-- The tree is one that a file system can hold. -/
structure WellFormed (t : FileTree) : Prop where
  nodup : (t.entries.map Prod.fst).Nodup
  root : ∀ item ∈ t.entries, item.1 ≠ []
  parent : ∀ {dir : Location} {name : Bytes} {entry : Entry},
    t.get? (dir ++ [name]) = some entry → t.get? dir = some .directory
  name : ∀ {dir : Location} {name : Bytes} {entry : Entry},
    t.get? (dir ++ [name]) = some entry → Path.IsEntryName name
  link : ∀ {location : Location} {target : Path},
    t.get? location = some (.symlink target) → checkPath target = .ok ()

variable {t : FileTree} {location other dir source target : Location} {name : Bytes} {entry : Entry}

theorem wellFormed_empty : empty.WellFormed where
  nodup := List.nodup_nil
  root := by simp [empty]
  parent := by
    intro dir name entry hget
    rw [get?_of_ne_nil _ (by simp)] at hget
    simp [empty] at hget
  name := by
    intro dir name entry hget
    rw [get?_of_ne_nil _ (by simp)] at hget
    simp [empty] at hget
  link := by
    intro location target hget
    cases location <;> simp [empty, get?] at hget

namespace WellFormed

theorem mem_entries_iff (h : t.WellFormed) :
    (location, entry) ∈ t.entries ↔ location ≠ [] ∧ t.get? location = some entry := by
  constructor
  · intro hmem
    have hne := h.root _ hmem
    refine ⟨hne, ?_⟩
    rw [get?_of_ne_nil t hne, List.lookup_eq_some_iff]
    obtain ⟨before, after, hsplit⟩ := List.append_of_mem hmem
    refine ⟨before, after, hsplit, ?_⟩
    intro item hitem
    have hnodup := h.nodup
    rw [hsplit, List.map_append, List.nodup_append] at hnodup
    have hkey := hnodup.2.2 item.1 (List.mem_map_of_mem hitem) location (by simp)
    simpa using fun heq => hkey heq.symm
  · rintro ⟨hne, hget⟩
    rw [get?_of_ne_nil t hne, List.lookup_eq_some_iff] at hget
    obtain ⟨before, after, hsplit, -⟩ := hget
    simp [hsplit]

/-- All that lies above an entry is a directory. -/
theorem directory_above (h : t.WellFormed) {rest : Location} (hrest : rest ≠ [])
    (hget : t.get? (dir ++ rest) = some entry) : t.get? dir = some .directory := by
  induction rest using List.reverseRecOn generalizing entry with
  | nil => exact absurd rfl hrest
  | append_singleton rest name ih =>
    rw [← List.append_assoc] at hget
    have hparent := h.parent hget
    by_cases hnil : rest = []
    · simpa [hnil] using hparent
    · exact ih hnil hparent

theorem directory_of_prefix (h : t.WellFormed) (hpre : dir <+: location) (hne : dir ≠ location)
    (hget : t.get? location = some entry) : t.get? dir = some .directory := by
  obtain ⟨rest, rfl⟩ := hpre
  exact h.directory_above (by simpa using hne) hget

/-- Nothing lies below what is no directory. -/
theorem none_below (h : t.WellFormed) (hdir : t.get? dir ≠ some .directory) {rest : Location}
    (hrest : rest ≠ []) : t.get? (dir ++ rest) = none := by
  cases hget : t.get? (dir ++ rest) with
  | none => rfl
  | some entry => exact absurd (h.directory_above hrest hget) hdir

theorem none_of_prefix (h : t.WellFormed) (hnone : t.get? dir = none) (hpre : dir <+: location) :
    t.get? location = none := by
  obtain ⟨rest, rfl⟩ := hpre
  by_cases hrest : rest = []
  · simpa [hrest] using hnone
  · exact h.none_below (by simp [hnone]) hrest

theorem mem_childNames_iff (h : t.WellFormed) :
    name ∈ t.childNames dir ↔ ∃ entry, t.get? (dir ++ [name]) = some entry := by
  simp only [childNames, List.mem_filterMap, Prod.exists]
  constructor
  · rintro ⟨location, entry, hmem, hname⟩
    rcases List.eq_nil_or_concat location with rfl | ⟨above, last, rfl⟩
    · simp at hname
    · simp only [List.concat_eq_append, List.getLast?_append, List.getLast?_singleton,
        Option.some_or, List.dropLast_concat, Option.ite_none_right_eq_some, Option.some.injEq] at hname
      obtain ⟨rfl, rfl⟩ := hname
      rw [List.concat_eq_append] at hmem
      exact ⟨entry, ((h.mem_entries_iff).mp hmem).2⟩
  · rintro ⟨entry, hget⟩
    exact ⟨dir ++ [name], entry, (h.mem_entries_iff).mpr ⟨by simp, hget⟩, by simp⟩

/-- Each name in a directory is that of an entry, in the order of the entries. -/
private theorem childNames_sublist (t : FileTree) (dir : Location) :
    ((t.childNames dir).map fun name => dir ++ [name]).Sublist (t.entries.map Prod.fst) := by
  obtain ⟨entries⟩ := t
  simp only [childNames]
  induction entries with
  | nil => exact .slnil
  | cons item entries ih =>
    obtain ⟨location, entry⟩ := item
    rcases List.eq_nil_or_concat location with rfl | ⟨above, last, rfl⟩
    · rw [List.filterMap_cons_none rfl]
      exact ih.cons []
    rw [List.concat_eq_append]
    by_cases hdir : above = dir
    · rw [List.filterMap_cons_some (b := last) (by simp [hdir]), hdir]
      exact ih.cons_cons (dir ++ [last])
    · rw [List.filterMap_cons_none (by simp [hdir])]
      exact ih.cons (above ++ [last])

theorem nodup_childNames (h : t.WellFormed) (dir : Location) : (t.childNames dir).Nodup :=
  (h.nodup.sublist (childNames_sublist t dir)).of_map

theorem mem_below_iff (h : t.WellFormed) {rest : Location} :
    (rest, entry) ∈ t.below dir ↔ rest ≠ [] ∧ t.get? (dir ++ rest) = some entry := by
  simp only [below, List.mem_filterMap, Prod.exists, Option.ite_none_right_eq_some, Option.some.injEq,
    Prod.mk.injEq]
  constructor
  · rintro ⟨location, found, hmem, hbelow, rfl, rfl⟩
    obtain ⟨hpre, hne⟩ := isBelow_iff.mp hbelow
    obtain ⟨rest, rfl⟩ := hpre
    rw [List.drop_left]
    exact ⟨by simpa using hne, ((h.mem_entries_iff).mp hmem).2⟩
  · rintro ⟨hrest, hget⟩
    refine ⟨dir ++ rest, entry, (h.mem_entries_iff).mpr ⟨by simp [hrest], hget⟩, ?_, by simp, rfl⟩
    exact isBelow_iff.mpr ⟨List.prefix_append _ _, by simpa using hrest⟩

theorem below_isEmpty_iff (h : t.WellFormed) :
    (t.below dir).isEmpty = true ↔ ∀ rest ≠ [], t.get? (dir ++ rest) = none := by
  rw [List.isEmpty_iff, List.eq_nil_iff_forall_not_mem]
  constructor
  · intro hempty rest hrest
    cases hget : t.get? (dir ++ rest) with
    | none => rfl
    | some entry => exact absurd (h.mem_below_iff.mpr ⟨hrest, hget⟩) (hempty _)
  · rintro hnone ⟨rest, entry⟩ hmem
    obtain ⟨hrest, hget⟩ := h.mem_below_iff.mp hmem
    simp [hnone rest hrest] at hget

end WellFormed

/-- What is asked of an entry that is listed: it has a name, stands in a directory, and if it is a link it
    has a target. -/
def isListable (t : FileTree) (item : Location × Entry) : Bool :=
  (match item.1.getLast? with
    | some name => decide (Path.IsEntryName name)
    | none => false) &&
  decide (t.get? item.1.dropLast = some .directory) &&
  match item.2 with
  | .symlink target => decide (checkPath target = .ok ())
  | _ => true

theorem wellFormed_iff :
    t.WellFormed ↔ (t.entries.map Prod.fst).Nodup ∧ ∀ item ∈ t.entries, t.isListable item = true := by
  constructor
  · intro h
    refine ⟨h.nodup, fun ⟨location, entry⟩ hmem => ?_⟩
    obtain ⟨hne, hget⟩ := h.mem_entries_iff.mp hmem
    obtain ⟨dir, name, rfl⟩ := (List.eq_nil_or_concat location).resolve_left hne
    rw [List.concat_eq_append] at hget ⊢
    cases entry with
    | symlink target => simp [isListable, h.name hget, h.parent hget, h.link hget]
    | _ => simp [isListable, h.name hget, h.parent hget]
  · rintro ⟨hnodup, hall⟩
    have hlisted {location : Location} {entry : Entry} (hne : location ≠ [])
        (hget : t.get? location = some entry) : t.isListable (location, entry) = true := by
      rw [get?_of_ne_nil t hne, List.lookup_eq_some_iff] at hget
      obtain ⟨before, after, hsplit, -⟩ := hget
      exact hall _ (by simp [hsplit])
    refine ⟨hnodup, fun item hmem hnil => ?_, fun {dir name entry} hget => ?_, fun {dir name entry} hget => ?_,
      fun {location target} hget => ?_⟩
    · have hlistable := hall item hmem
      simp [isListable, hnil] at hlistable
    · have hlistable := hlisted (by simp) hget
      simp only [isListable, List.getLast?_concat, List.dropLast_concat, Bool.and_eq_true,
        decide_eq_true_eq] at hlistable
      exact hlistable.1.2
    · have hlistable := hlisted (by simp) hget
      simp only [isListable, List.getLast?_concat, List.dropLast_concat, Bool.and_eq_true,
        decide_eq_true_eq] at hlistable
      exact hlistable.1.1
    · by_cases hnil : location = []
      · simp [hnil] at hget
      · have hlistable := hlisted hnil hget
        simp only [isListable, Bool.and_eq_true, decide_eq_true_eq] at hlistable
        exact hlistable.2

instance (t : FileTree) : Decidable t.WellFormed := decidable_of_iff' _ wellFormed_iff

end FileTree

end DebRelease
