import DebRelease.Proofs.FileTree.Content

namespace DebRelease.FileTree

variable {t t' : FileTree} {places places' : List Location} {place location dir source target : Location} {name : Bytes}
    {entry : Entry} {cwd : WorkingDir} {p : Path} {last : Bool}

/-- Whether a location is not at or below one of some places. -/
def isOutside (places : List Location) (location : Location) : Bool :=
  places.all fun place => !place.isPrefixOf location

/-- The tree without what lies at or below some places. -/
def outside (t : FileTree) (places : List Location) : FileTree :=
  ⟨t.entries.filter fun item => isOutside places item.1⟩

theorem isOutside_iff : isOutside places location = true ↔ ∀ place ∈ places, ¬ place <+: location := by
  simp [isOutside, ← Bool.not_eq_true, List.isPrefixOf_iff_prefix]

theorem get?_outside (t : FileTree) (places : List Location) (h : location ≠ []) :
    (t.outside places).get? location = if isOutside places location then t.get? location else none := by
  rw [get?_of_ne_nil _ h, get?_of_ne_nil _ h, outside]
  exact lookup_filter_key t.entries (isOutside places)

theorem get?_outside_of_out (t : FileTree) (h : ∀ place ∈ places, ¬ place <+: location) :
    (t.outside places).get? location = t.get? location := by
  by_cases hnil : location = []
  · simp [hnil]
  · rw [get?_outside t places hnil, if_pos (isOutside_iff.mpr h)]

@[simp] theorem outside_nil (t : FileTree) : t.outside [] = t := by
  simp [outside, isOutside]

/-- What is outside of more places is outside of fewer. -/
theorem outside_outside (t : FileTree) (h : places ⊆ places') :
    (t.outside places).outside places' = t.outside places' := by
  simp only [outside, List.filter_filter, mk.injEq]
  refine List.filter_congr fun item _ => ?_
  cases hout : isOutside places' item.1 with
  | false => rfl
  | true =>
    rw [isOutside_iff] at hout
    simpa using isOutside_iff.mpr fun place hmem => hout place (h hmem)

theorem outside_cons (t : FileTree) (place : Location) (places : List Location) :
    t.outside (place :: places) = (t.outside [place]).outside places := by
  simp [outside, isOutside, List.filter_filter, Bool.and_comm]

theorem outside_mono (h : t.outside places = t'.outside places) (hsubset : places ⊆ places') :
    t.outside places' = t'.outside places' := by
  rw [← outside_outside t hsubset, h, outside_outside t' hsubset]

theorem WellFormed.outside (h : t.WellFormed) (places : List Location) : (t.outside places).WellFormed := by
  refine h.of_filter (isOutside places) rfl (fun location hne => get?_outside t places hne) ?_
  intro above last _ hkept _
  rw [isOutside_iff] at hkept ⊢
  exact fun place hmem hpre => hkept place hmem (hpre.trans (List.prefix_append _ _))

/-- A tree in which nothing is at a place has nothing below it either. -/
theorem WellFormed.outside_eq_self (h : t.WellFormed) (hnone : t.get? place = none) :
    t.outside [place] = t := by
  have hall : ∀ item ∈ t.entries, isOutside [place] item.1 = true := by
    intro item hmem
    rw [isOutside_iff]
    simp only [List.mem_singleton, forall_eq]
    intro hpre
    have hget := (h.mem_entries_iff.mp hmem).2
    rw [h.none_of_prefix hnone hpre] at hget
    cases hget
  rw [FileTree.outside, List.filter_eq_self.mpr hall]

theorem outside_set (t : FileTree) (entry : Entry) (h : ∀ place ∈ places, ¬ place <+: location) :
    (t.set location entry).outside places = (t.outside places).set location entry := by
  have hout := isOutside_iff.mpr h
  have hany : (t.outside places).entries.any (·.1 == location) = t.entries.any (·.1 == location) := by
    rw [Bool.eq_iff_iff]
    simp only [outside, List.any_eq_true, List.mem_filter, beq_iff_eq]
    constructor
    · rintro ⟨item, ⟨hmem, -⟩, heq⟩
      exact ⟨item, hmem, heq⟩
    · rintro ⟨item, hmem, heq⟩
      exact ⟨item, ⟨hmem, heq ▸ hout⟩, heq⟩
  rw [set, set, hany]
  split
  · simp only [outside, List.filter_map, mk.injEq]
    congr 1
    refine List.filter_congr fun item _ => ?_
    simp only [Function.comp_apply]
    split
    · rename_i heq
      rw [heq]
    · rfl
  · simp [outside, List.filter_append, hout]

theorem outside_erase (t : FileTree) (places : List Location) (location : Location) :
    (t.erase location).outside places = (t.outside places).erase location := by
  simp only [outside, erase, List.filter_filter, Bool.and_comm]

theorem outside_clear (t : FileTree) (places : List Location) (dir : Location) :
    (t.clear dir).outside places = (t.outside places).clear dir := by
  simp only [outside, clear, List.filter_filter, Bool.and_comm]

/-- What is left when a directory is cleared and removed. -/
theorem erase_clear (t : FileTree) (place : Location) : (t.clear place).erase place = t.outside [place] := by
  simp only [erase, clear, outside, List.filter_filter, mk.injEq]
  refine List.filter_congr fun item _ => ?_
  rw [Bool.eq_iff_iff, isOutside_iff]
  simp only [Bool.and_eq_true, bne_iff_ne, ne_eq, Bool.not_eq_true', List.mem_singleton, forall_eq,
    ← Bool.not_eq_true, isBelow_iff, not_and, not_not]
  constructor
  · rintro ⟨hne, hbelow⟩ hpre
    exact hne (hbelow hpre).symm
  · intro hout
    exact ⟨fun heq => hout (heq ▸ List.prefix_rfl), fun hpre => absurd hpre hout⟩

/-- Nothing at or below a place is in the tree without it. -/
theorem without_outside (t : FileTree) (hne : place ≠ []) : Without place t (t.outside [place]) := by
  rw [← erase_clear]
  exact without_erase_clear hne

theorem get?_of_outside (h : (t.outside places).get? location = some entry) : t.get? location = some entry := by
  by_cases hnil : location = []
  · rw [hnil] at h ⊢
    exact h
  · rw [get?_outside t places hnil] at h
    split at h
    · exact h
    · cases h

/-- What is there without some places is not at or below them. -/
theorem outside_of_get? (h : (t.outside places).get? location = some entry) (hne : ∀ place ∈ places, place ≠ []) :
    ∀ place ∈ places, ¬ place <+: location := by
  by_cases hnil : location = []
  · intro place hmem hpre
    exact hne place hmem (List.prefix_nil.mp (hnil ▸ hpre))
  · rw [get?_outside t places hnil] at h
    split at h
    · rename_i hout
      exact isOutside_iff.mp hout
    · cases h

theorem keeps_of_outside (t : FileTree) (places : List Location) : (t.outside places).Keeps t :=
  ⟨get?_of_outside, get?_of_outside⟩

theorem keeps_of_clear (t : FileTree) (place : Location) : (t.clear place).Keeps t := by
  have hkept {location : Location} {entry : Entry} (hget : (t.clear place).get? location = some entry) :
      t.get? location = some entry := by
    rw [get?_clear] at hget
    split at hget
    · cases hget
    · exact hget
  exact ⟨hkept, hkept⟩

theorem erase_eq_self (hne : place ≠ []) (hnone : t.get? place = .none) : t.erase place = t := by
  have hall : ∀ item ∈ t.entries, (item.1 != place) = true := fun item hmem =>
    bne_iff_ne.mpr ((get?_eq_none_iff hne).mp hnone item hmem)
  rw [erase, List.filter_eq_self.mpr hall]

/-- Without what is no directory the tree is the one without all at and below it. -/
theorem WellFormed.erase_eq_outside (h : t.WellFormed) (hne : place ≠ []) (hnot : t.get? place ≠ some .directory) :
    t.erase place = t.outside [place] := by
  have hgone : (t.erase place).get? place = .none := by rw [get?_erase t hne, if_pos rfl]
  have hwf := h.erase hne fun rest hrest => h.none_below hnot hrest
  rw [← hwf.outside_eq_self hgone, outside_erase]
  exact erase_eq_self hne (by rw [get?_outside t _ hne, if_neg]; simp [isOutside])

/-- Of two places at or above a location one is at or above the other. -/
theorem not_prefix_of_separate (h : Separate place dir) (hpre : dir <+: location) : ¬ place <+: location := by
  intro hplace
  rcases List.prefix_or_prefix_of_prefix hplace hpre with habove | hbelow
  · exact h.1 habove
  · exact h.2 hbelow

theorem outside_move (t : FileTree) (h : ∀ place ∈ places, Separate place source ∧ Separate place target) :
    (t.move source target).outside places = (t.outside places).move source target := by
  simp only [outside, move, List.filter_map, mk.injEq]
  congr 1
  refine List.filter_congr fun item _ => ?_
  simp only [Function.comp_apply]
  by_cases hpre : source <+: item.1
  · obtain ⟨rest, hrest⟩ := hpre
    rw [← hrest, moved_append]
    have hout (dir : Location) (hdir : ∀ place ∈ places, Separate place dir) : isOutside places (dir ++ rest) = true :=
      isOutside_iff.mpr fun place hmem => not_prefix_of_separate (hdir place hmem) (List.prefix_append _ _)
    rw [hout target fun place hmem => (h place hmem).2, hout source fun place hmem => (h place hmem).1]
  · rw [moved_of_outside target hpre]

/-- A directory apart from the places lists the same names. -/
theorem childNames_outside (t : FileTree) (h : ∀ place ∈ places, Separate place dir) :
    (t.outside places).childNames dir = t.childNames dir := by
  simp only [childNames, outside, List.filterMap_filter]
  refine List.filterMap_congr fun item _ => ?_
  split
  · rfl
  · rename_i hin
    rcases List.eq_nil_or_concat item.1 with hnil | ⟨above, name, hconcat⟩
    · simp [hnil]
    · rw [List.concat_eq_append] at hconcat
      have hother : above ≠ dir := by
        rintro rfl
        refine hin (isOutside_iff.mpr fun place hmem => ?_)
        exact hconcat ▸ not_prefix_of_separate (h place hmem) (List.prefix_append _ _)
      simp [hconcat, hother]

theorem below_outside (t : FileTree) (h : ∀ place ∈ places, Separate place dir) :
    (t.outside places).below dir = t.below dir := by
  simp only [below, outside, List.filterMap_filter]
  refine List.filterMap_congr fun item _ => ?_
  split
  · rfl
  · rename_i hin
    refine (if_neg fun hbelow => hin (isOutside_iff.mpr fun place hmem => ?_)).symm
    exact not_prefix_of_separate (h place hmem) (isBelow_iff.mp hbelow).1

end DebRelease.FileTree
