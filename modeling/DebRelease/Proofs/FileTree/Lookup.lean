import DebRelease.FileTree.Basic
import Mathlib.Data.List.Infix

namespace DebRelease

theorem Entry.isSymlink_of_ne {entry : Entry} (h : ∀ link, entry ≠ .symlink link) : entry.isSymlink = false := by
  cases entry with
  | symlink link => exact absurd rfl (h link)
  | _ => rfl

namespace FileTree

variable {t : FileTree} {location other dir : Location} {entry : Entry}

@[simp] theorem get?_nil (t : FileTree) : t.get? [] = some .directory := rfl

theorem get?_of_ne_nil (t : FileTree) (h : location ≠ []) :
    t.get? location = t.entries.lookup location := by
  cases location with
  | nil => exact absurd rfl h
  | cons name rest => rfl

theorem get?_eq_none_iff (h : location ≠ []) :
    t.get? location = none ↔ ∀ item ∈ t.entries, item.1 ≠ location := by
  rw [get?_of_ne_nil t h, List.lookup_eq_none_iff]
  constructor
  · intro hnone item hitem heq
    exact absurd (hnone item hitem) (by simp [heq])
  · intro hne item hitem
    simpa using fun heq => hne item hitem heq.symm

/-- The places of a tree at which there is something. -/
def places (t : FileTree) : List Location :=
  [] :: t.entries.map Prod.fst

theorem mem_places (h : t.get? location ≠ none) : location ∈ t.places := by
  by_cases hnil : location = []
  · simp [places, hnil]
  · refine List.mem_cons_of_mem _ (Classical.not_not.mp fun hout => h ?_)
    exact (get?_eq_none_iff hnil).mpr fun item hitem heq => hout (heq ▸ List.mem_map_of_mem hitem)

theorem get?_of_not_mem_places (h : location ∉ t.places) : t.get? location = none :=
  Classical.not_not.mp fun hthere => h (mem_places hthere)

private theorem lookup_cons_of_ne {key : Location} (rest : List (Location × Entry))
    (h : other ≠ key) : List.lookup other ((key, entry) :: rest) = rest.lookup other := by
  simp [List.lookup_cons, beq_false_of_ne h]

private theorem lookup_overwrite (entries : List (Location × Entry)) :
    (entries.map fun item => if item.1 = location then (location, entry) else item).lookup other =
      if other = location ∧ entries.any (·.1 == location) then some entry
      else entries.lookup other := by
  induction entries with
  | nil => simp
  | cons item rest ih =>
    obtain ⟨key, old⟩ := item
    by_cases hkey : key = location
    · subst hkey
      by_cases hother : other = key
      · simp [hother]
      · simp [lookup_cons_of_ne, hother, ih]
    · have hany : ((key == location) || rest.any (·.1 == location)) = rest.any (·.1 == location) := by
        rw [beq_false_of_ne hkey, Bool.false_or]
      by_cases hother : other = key
      · simp [hkey, hother]
      · rw [List.map_cons, if_neg hkey, lookup_cons_of_ne _ hother, ih, List.any_cons, hany,
          lookup_cons_of_ne _ hother]

theorem get?_set (t : FileTree) (entry : Entry) (h : location ≠ []) (other : Location) :
    (t.set location entry).get? other = if other = location then some entry else t.get? other := by
  by_cases hother : other = []
  · subst hother
    simp [h.symm]
  · rw [get?_of_ne_nil _ hother, get?_of_ne_nil _ hother, set]
    split
    · rename_i hany
      rw [lookup_overwrite]
      simp only [hany, and_true]
    · rename_i hnone
      have hlookup : t.entries.lookup location = none := by
        rw [List.lookup_eq_none_iff]
        intro item hitem
        simp only [List.any_eq_true, beq_iff_eq, not_exists, not_and] at hnone
        simpa using fun heq => hnone item hitem heq.symm
      change (t.entries ++ [(location, entry)]).lookup other = _
      rw [List.lookup_append]
      by_cases heq : other = location
      · simp [heq, hlookup]
      · simp [lookup_cons_of_ne, heq]

@[simp] theorem get?_set_self (t : FileTree) (entry : Entry) (h : location ≠ []) :
    (t.set location entry).get? location = some entry := by
  simp [get?_set t entry h]

theorem get?_set_of_ne (t : FileTree) (entry : Entry) (h : location ≠ []) (hother : other ≠ location) :
    (t.set location entry).get? other = t.get? other := by
  simp [get?_set t entry h, hother]

/-- Of two entries put at a place the second stays. -/
@[simp] theorem set_set (t : FileTree) (location : Location) (old new : Entry) :
    (t.set location old).set location new = t.set location new := by
  by_cases hany : t.entries.any (·.1 == location)
  · have hstill : ((t.entries.map fun item => if item.1 = location then (location, old) else item).any
        (·.1 == location)) = true := by
      rw [List.any_map, ← hany]
      congr 1
      funext item
      by_cases heq : item.1 = location <;> simp [heq]
    rw [set, set, if_pos hany, if_pos hstill, set, if_pos hany, List.map_map]
    congr 1
    refine List.map_congr_left fun item _ => ?_
    by_cases heq : item.1 = location <;> simp [heq]
  · have hsame : t.entries.map (fun item => if item.1 = location then (location, new) else item) = t.entries := by
      refine (List.map_congr_left fun item hitem => if_neg fun heq => hany ?_).trans (List.map_id _)
      exact List.any_eq_true.mpr ⟨item, hitem, by simpa using heq⟩
    rw [set, set, if_neg hany, if_pos (by simp), set, if_neg hany, List.map_append, hsame]
    simp

theorem lookup_filter_key (entries : List (Location × Entry)) (p : Location → Bool) :
    (entries.filter fun item => p item.1).lookup other =
      if p other then entries.lookup other else none := by
  induction entries with
  | nil => simp
  | cons item rest ih =>
    obtain ⟨key, old⟩ := item
    by_cases hother : other = key
    · subst hother
      by_cases hkey : p other <;> simp [hkey, ih]
    · by_cases hkey : p key <;> simp [lookup_cons_of_ne, hkey, hother, ih]

theorem get?_erase (t : FileTree) (h : location ≠ []) (other : Location) :
    (t.erase location).get? other = if other = location then none else t.get? other := by
  by_cases hother : other = []
  · subst hother
    simp [h.symm]
  · rw [get?_of_ne_nil _ hother, get?_of_ne_nil _ hother, erase]
    rw [lookup_filter_key t.entries fun key => key != location]
    by_cases heq : other = location <;> simp [heq]

theorem isBelow_iff : isBelow dir location = true ↔ dir <+: location ∧ dir ≠ location := by
  simp only [isBelow, Bool.and_eq_true, List.isPrefixOf_iff_prefix, decide_eq_true_eq]
  constructor
  · rintro ⟨hpre, hlength⟩
    exact ⟨hpre, fun heq => by simp [heq] at hlength⟩
  · rintro ⟨hpre, hne⟩
    refine ⟨hpre, Nat.lt_of_le_of_ne hpre.length_le fun heq => hne (hpre.eq_of_length heq)⟩

theorem get?_clear (t : FileTree) (dir other : Location) :
    (t.clear dir).get? other = if isBelow dir other then none else t.get? other := by
  by_cases hother : other = []
  · subst hother
    have hbelow : isBelow dir [] = false := by
      simp [isBelow]
    simp [hbelow]
  · rw [get?_of_ne_nil _ hother, get?_of_ne_nil _ hother, clear]
    rw [lookup_filter_key t.entries fun key => !isBelow dir key]
    cases isBelow dir other <;> simp

end FileTree

end DebRelease
