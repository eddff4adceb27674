import DebRelease.Proofs.FileTree.WellFormed

namespace DebRelease.FileTree

variable {t : FileTree} {location other dir source target : Location} {name : Bytes} {entry : Entry}

theorem keys_set (t : FileTree) (location : Location) (entry : Entry) :
    (t.set location entry).entries.map Prod.fst =
      if t.entries.any (·.1 == location) then t.entries.map Prod.fst
      else t.entries.map Prod.fst ++ [location] := by
  rw [set]
  split
  · rw [List.map_map]
    apply List.map_congr_left
    intro item _
    simp only [Function.comp_apply]
    split
    · rename_i heq
      exact heq.symm
    · rfl
  · simp

theorem keys_set_of_some {old : Entry} (hne : location ≠ [])
    (hget : t.get? location = some old) : (t.set location entry).entries.map Prod.fst = t.entries.map Prod.fst := by
  rw [keys_set, if_pos]
  by_contra hnone
  have hfree : t.get? location = none := (get?_eq_none_iff hne).mpr fun item hitem heq =>
    hnone (List.any_eq_true.mpr ⟨item, hitem, beq_iff_eq.mpr heq⟩)
  rw [hfree] at hget
  cases hget

theorem keys_set_of_none (hne : location ≠ [])
    (hget : t.get? location = none) :
    (t.set location entry).entries.map Prod.fst = t.entries.map Prod.fst ++ [location] := by
  rw [keys_set, if_neg]
  intro hany
  obtain ⟨item, hitem, heq⟩ := List.any_eq_true.mp hany
  exact (get?_eq_none_iff hne).mp hget item hitem (beq_iff_eq.mp heq)

theorem keys_erase (t : FileTree) (location : Location) :
    (t.erase location).entries.map Prod.fst = (t.entries.map Prod.fst).filter (· != location) := by
  rw [erase, List.filter_map]
  rfl

/-- Two trees are the same if they list the same places in the same order, none twice, and have the same there. -/
theorem eq_of_get? {t' : FileTree} (hkeys : t.entries.map Prod.fst = t'.entries.map Prod.fst)
    (hnodup : (t'.entries.map Prod.fst).Nodup) (hroot : ∀ item ∈ t'.entries, item.1 ≠ [])
    (hget : ∀ location, t.get? location = t'.get? location) : t = t' := by
  have hlookup : ∀ location ∈ t'.entries.map Prod.fst, t.entries.lookup location = t'.entries.lookup location := by
    intro location hmem
    obtain ⟨item, hitem, rfl⟩ := List.mem_map.mp hmem
    rw [← get?_of_ne_nil t (hroot item hitem), ← get?_of_ne_nil t' (hroot item hitem), hget]
  obtain ⟨entries⟩ := t
  obtain ⟨entries'⟩ := t'
  congr 1
  dsimp only at hkeys hnodup hlookup
  clear hget hroot
  induction entries' generalizing entries with
  | nil => exact List.map_eq_nil_iff.mp hkeys
  | cons item' rest' ih =>
    cases entries with
    | nil => cases hkeys
    | cons item rest =>
      obtain ⟨key', entry'⟩ := item'
      obtain ⟨key, entry⟩ := item
      rw [List.map_cons, List.map_cons, List.cons.injEq] at hkeys
      obtain ⟨rfl, hkeys⟩ := hkeys
      obtain ⟨hfresh, hnodup⟩ := List.nodup_cons.mp hnodup
      have hfirst := hlookup key List.mem_cons_self
      rw [List.lookup_cons_self, List.lookup_cons_self] at hfirst
      rw [Option.some.inj hfirst, ih rest hnodup hkeys fun location hmem => ?_]
      have hne : (location == key) = false := beq_false_of_ne fun heq => hfresh (heq ▸ hmem)
      simpa [List.lookup_cons, hne] using hlookup location (List.mem_cons_of_mem _ hmem)

/-- Putting an entry where it already is changes nothing. -/
theorem WellFormed.set_eq_self (h : t.WellFormed) (hne : location ≠ []) (hget : t.get? location = some entry) :
    t.set location entry = t := by
  refine eq_of_get? (keys_set_of_some hne hget) h.nodup h.root fun other => ?_
  rw [get?_set t entry hne]
  split
  · rename_i heq
    rw [heq, hget]
  · rfl

namespace WellFormed

/-- An entry may be put into a directory in place of anything but a directory. -/
theorem set (h : t.WellFormed) (hdir : t.get? dir = some .directory) (hname : Path.IsEntryName name)
    (hnot : t.get? (dir ++ [name]) ≠ some .directory)
    (hlink : ∀ p, entry = .symlink p → checkPath p = .ok ()) :
    (t.set (dir ++ [name]) entry).WellFormed := by
  have hne : dir ++ [name] ≠ [] := by simp
  have hkeep {above : Location} (habove : t.get? above = some .directory) :
      (t.set (dir ++ [name]) entry).get? above = some .directory := by
    rw [get?_set_of_ne t entry hne fun heq => hnot (heq ▸ habove)]
    exact habove
  have hcases {above : Location} {last : Bytes} {found : Entry}
      (hget : (t.set (dir ++ [name]) entry).get? (above ++ [last]) = some found) :
      (above = dir ∧ last = name) ∨ t.get? (above ++ [last]) = some found := by
    by_cases heq : above ++ [last] = dir ++ [name]
    · obtain ⟨habove, hlast⟩ := List.append_inj' heq rfl
      exact .inl ⟨habove, by simpa using hlast⟩
    · rw [get?_set_of_ne t entry hne heq] at hget
      exact .inr hget
  refine ⟨?_, ?_, ?_, ?_, ?_⟩
  · rw [keys_set]
    split
    · exact h.nodup
    · rename_i hnone
      rw [List.nodup_append]
      refine ⟨h.nodup, List.nodup_singleton _, ?_⟩
      intro key hkey last hlast
      simp only [List.mem_singleton] at hlast
      subst hlast
      obtain ⟨item, hitem, rfl⟩ := List.mem_map.mp hkey
      simp only [List.any_eq_true, beq_iff_eq, not_exists, not_and] at hnone
      exact hnone item hitem
  · intro item hitem
    have hkey : item.1 ∈ (t.set (dir ++ [name]) entry).entries.map Prod.fst :=
      List.mem_map_of_mem hitem
    rw [keys_set] at hkey
    split at hkey
    · obtain ⟨old, hold, heq⟩ := List.mem_map.mp hkey
      exact heq ▸ h.root old hold
    · rcases List.mem_append.mp hkey with hold | hnew
      · obtain ⟨old, hold, heq⟩ := List.mem_map.mp hold
        exact heq ▸ h.root old hold
      · simp only [List.mem_singleton] at hnew
        exact hnew ▸ hne
  · intro above last found hget
    rcases hcases hget with ⟨rfl, -⟩ | hold
    · exact hkeep hdir
    · exact hkeep (h.parent hold)
  · intro above last found hget
    rcases hcases hget with ⟨-, rfl⟩ | hold
    · exact hname
    · exact h.name hold
  · intro place p hget
    by_cases heq : place = dir ++ [name]
    · subst heq
      rw [get?_set_self t entry hne] at hget
      exact hlink p (Option.some.inj hget)
    · rw [get?_set_of_ne t entry hne heq] at hget
      exact h.link hget

/-- A file may be written over. -/
theorem set_file (h : t.WellFormed) {old new : Bytes} {was is : Bool}
    (hget : t.get? location = some (.file old was)) :
    (t.set location (.file new is)).WellFormed := by
  rcases List.eq_nil_or_concat location with rfl | ⟨dir, name, rfl⟩
  · simp at hget
  · rw [List.concat_eq_append] at hget ⊢
    exact h.set (h.parent hget) (h.name hget) (by simp [hget]) (by simp)

/-- Entries may be taken away with all that lies below them. -/
theorem of_filter (h : t.WellFormed) (keep : Location → Bool) {t' : FileTree}
    (hentries : t'.entries = t.entries.filter fun item => keep item.1)
    (hget : ∀ place, place ≠ [] → t'.get? place = if keep place then t.get? place else none)
    (hup : ∀ above last, t.get? (above ++ [last]) ≠ none → keep (above ++ [last]) = true →
      above ≠ [] → keep above = true) : t'.WellFormed := by
  have hold {place : Location} {found : Entry} (hplace : place ≠ []) (hfound : t'.get? place = some found) :
      t.get? place = some found ∧ keep place = true := by
    rw [hget place hplace] at hfound
    split at hfound
    · exact ⟨hfound, by assumption⟩
    · simp at hfound
  refine ⟨?_, ?_, ?_, ?_, ?_⟩
  · rw [hentries]
    exact h.nodup.sublist (List.filter_sublist.map _)
  · intro item hitem
    rw [hentries] at hitem
    exact h.root item (List.mem_of_mem_filter hitem)
  · intro above last found hfound
    obtain ⟨hwas, hkept⟩ := hold (by simp) hfound
    by_cases hnil : above = []
    · simp [hnil]
    · rw [hget above hnil, if_pos (hup above last (by simp [hwas]) hkept hnil)]
      exact h.parent hwas
  · intro above last found hfound
    exact h.name (hold (by simp) hfound).1
  · intro place p hfound
    by_cases hnil : place = []
    · simp [hnil] at hfound
    · exact h.link (hold hnil hfound).1

/-- An entry with nothing below it may be taken away. -/
theorem erase (h : t.WellFormed) (hne : location ≠ [])
    (hleaf : ∀ rest ≠ [], t.get? (location ++ rest) = none) : (t.erase location).WellFormed := by
  refine h.of_filter (fun place => place != location) rfl ?_ ?_
  · intro place _
    rw [get?_erase t hne]
    by_cases heq : place = location <;> simp [heq]
  · intro above last hget _ _
    simp only [bne_iff_ne]
    rintro rfl
    exact hget (hleaf [last] (by simp))

/-- All that lies below a directory may be taken away. -/
theorem clear (h : t.WellFormed) (dir : Location) : (t.clear dir).WellFormed := by
  refine h.of_filter (fun place => !isBelow dir place) rfl ?_ ?_
  · intro place _
    rw [get?_clear]
    cases isBelow dir place <;> simp
  · intro above last _ hkept _
    simp only [Bool.not_eq_true'] at hkept ⊢
    by_contra habove
    simp only [Bool.not_eq_false] at habove
    obtain ⟨hpre, -⟩ := isBelow_iff.mp habove
    refine absurd (isBelow_iff.mpr ⟨hpre.trans (List.prefix_append above [last]), ?_⟩) (by simp [hkept])
    rintro rfl
    have hlength := hpre.length_le
    rw [List.length_append, List.length_singleton] at hlength
    omega

end WellFormed

theorem moved_of_outside (target : Location) (h : ¬ source <+: location) : moved source target location = location := by
  simp [moved, h]

theorem moved_append (source target rest : Location) : moved source target (source ++ rest) = target ++ rest := by
  simp [moved]

theorem moved_ne_nil (htarget : target ≠ []) (hne : location ≠ []) : moved source target location ≠ [] := by
  by_cases hin : source <+: location
  · obtain ⟨below, rfl⟩ := hin
    simp [moved_append, htarget]
  · rwa [moved_of_outside target hin]

/-- Places outside the target are not moved to one place. -/
theorem moved_injective {other : Location} (hout : ¬ target <+: location) (hout' : ¬ target <+: other)
    (heq : moved source target location = moved source target other) : location = other := by
  by_cases hin : source <+: location <;> by_cases hin' : source <+: other
  · obtain ⟨below, rfl⟩ := hin
    obtain ⟨below', rfl⟩ := hin'
    rw [moved_append, moved_append] at heq
    rw [List.append_cancel_left heq]
  · obtain ⟨below, rfl⟩ := hin
    rw [moved_append, moved_of_outside _ hin'] at heq
    exact absurd (heq ▸ List.prefix_append _ _) hout'
  · obtain ⟨below, rfl⟩ := hin'
    rw [moved_append, moved_of_outside _ hin] at heq
    exact absurd (heq ▸ List.prefix_append _ _) hout
  · rwa [moved_of_outside _ hin, moved_of_outside _ hin'] at heq

/-- No entry lies at or below a free place. -/
private theorem WellFormed.not_prefix_of_free (h : t.WellFormed) (hfree : t.get? target = none) :
    ∀ item ∈ t.entries, ¬ target <+: item.1 := by
  rintro ⟨key, found⟩ hitem hpre
  have hget := (h.mem_entries_iff.mp hitem).2
  rw [h.none_of_prefix hfree hpre] at hget
  cases hget

private theorem lookup_rename {entries : List (Location × Entry)} {f : Location → Location}
    {place origin : Location} (h : ∀ item ∈ entries, f item.1 = place ↔ item.1 = origin) :
    (entries.map fun item => (f item.1, item.2)).lookup place = entries.lookup origin := by
  induction entries with
  | nil => rfl
  | cons item rest ih =>
    obtain ⟨key, entry⟩ := item
    have hrest := ih fun item hitem => h item (List.mem_cons_of_mem _ hitem)
    have hkey := h (key, entry) List.mem_cons_self
    by_cases heq : key = origin
    · rw [List.map_cons, hkey.mpr heq, List.lookup_cons_self, ← show key = origin from heq,
        List.lookup_cons_self]
    · have hne : f key ≠ place := fun hf => heq (hkey.mp hf)
      simp [List.lookup_cons, beq_false_of_ne hne.symm, beq_false_of_ne (Ne.symm heq), hrest]

/-- What a move of an entry to a free place does to every place. -/
theorem get?_move (h : t.WellFormed) (hsource : source ≠ []) (htarget : target ≠ [])
    (hfree : t.get? target = none) (place : Location) :
    (t.move source target).get? place =
      if target <+: place then t.get? (source ++ place.drop target.length)
      else if source <+: place then none
      else t.get? place := by
  by_cases hnil : place = []
  · simp [hnil, hsource, htarget]
  rw [get?_of_ne_nil _ hnil]
  change (t.entries.map fun item => (moved source target item.1, item.2)).lookup place = _
  have hunused := h.not_prefix_of_free hfree
  split
  · rename_i hpre
    obtain ⟨rest, rfl⟩ := hpre
    rw [List.drop_left, get?_of_ne_nil _ (by simp [hsource])]
    apply lookup_rename
    rintro ⟨key, found⟩ hitem
    by_cases hkey : source <+: key
    · obtain ⟨below, rfl⟩ := hkey
      simp [moved_append]
    · rw [moved_of_outside _ hkey]
      constructor
      · rintro rfl
        exact absurd (List.prefix_append _ _) (hunused _ hitem)
      · rintro rfl
        exact absurd (List.prefix_append _ _) hkey
  · rename_i htargetOut
    split
    · rename_i hsourceIn
      rw [List.lookup_eq_none_iff]
      rintro ⟨new, found⟩ hnew
      obtain ⟨⟨key, old⟩, hitem, hmoved⟩ := List.mem_map.mp hnew
      simp only [Prod.mk.injEq] at hmoved
      obtain ⟨rfl, rfl⟩ := hmoved
      refine bne_iff_ne.mpr fun heq => ?_
      subst heq
      by_cases hkey : source <+: key
      · obtain ⟨below, rfl⟩ := hkey
        exact htargetOut (moved_append source target below ▸ List.prefix_append _ _)
      · exact hkey (moved_of_outside target hkey ▸ hsourceIn)
    · rename_i hsourceOut
      rw [get?_of_ne_nil _ hnil]
      apply lookup_rename
      rintro ⟨key, found⟩ hitem
      by_cases hkey : source <+: key
      · obtain ⟨below, rfl⟩ := hkey
        rw [moved_append]
        constructor
        · rintro rfl
          exact absurd (List.prefix_append _ _) htargetOut
        · rintro rfl
          exact absurd (List.prefix_append _ _) hsourceOut
      · rw [moved_of_outside _ hkey]

/-- An entry may be moved to a free name of a directory outside it. -/
theorem WellFormed.move (h : t.WellFormed) (hsource : source ≠ [])
    (hdir : t.get? dir = some .directory) (hname : Path.IsEntryName name)
    (hfree : t.get? (dir ++ [name]) = none) (hout : ¬ source <+: dir ++ [name]) :
    (t.move source (dir ++ [name])).WellFormed := by
  have hget := get?_move h hsource (by simp) hfree
  have hunused := h.not_prefix_of_free hfree
  refine ⟨?_, ?_, ?_, ?_, ?_⟩
  · have hmap : (t.move source (dir ++ [name])).entries.map Prod.fst =
        (t.entries.map Prod.fst).map (moved source (dir ++ [name])) := by
      simp [FileTree.move, Function.comp_def]
    rw [hmap]
    refine h.nodup.map_on fun place hplace other hother heq => ?_
    obtain ⟨item, hitem, rfl⟩ := List.mem_map.mp hplace
    obtain ⟨item', hitem', rfl⟩ := List.mem_map.mp hother
    exact moved_injective (hunused item hitem) (hunused item' hitem') heq
  · intro item hitem
    obtain ⟨old, hold, rfl⟩ := List.mem_map.mp hitem
    exact moved_ne_nil (by simp) (h.root old hold)
  · intro above last found hfound
    rw [hget] at hfound ⊢
    split at hfound
    · rename_i hpre
      rcases List.prefix_concat_iff.mp hpre with heq | habove
      · obtain ⟨rfl, -⟩ := List.append_inj' heq rfl
        have hself : ¬ dir ++ [name] <+: dir := by
          intro hin
          have hlength := hin.length_le
          rw [List.length_append, List.length_singleton] at hlength
          omega
        rw [if_neg hself, if_neg fun hin => hout (hin.trans (List.prefix_append _ _))]
        exact hdir
      · obtain ⟨rest, rfl⟩ := habove
        rw [if_pos (List.prefix_append _ _), List.drop_left]
        rw [List.append_assoc, List.drop_left, ← List.append_assoc] at hfound
        exact h.parent hfound
    · rename_i htargetOut
      split at hfound
      · simp at hfound
      · rename_i hsourceOut
        rw [if_neg fun hin => htargetOut (hin.trans (List.prefix_append _ _)),
          if_neg fun hin => hsourceOut (hin.trans (List.prefix_append _ _))]
        exact h.parent hfound
  · intro above last found hfound
    rw [hget] at hfound
    split at hfound
    · rename_i hpre
      rcases List.prefix_concat_iff.mp hpre with heq | habove
      · obtain ⟨-, hlast⟩ := List.append_inj' heq rfl
        simpa using (List.singleton_inj.mp hlast) ▸ hname
      · obtain ⟨rest, rfl⟩ := habove
        rw [List.append_assoc, List.drop_left, ← List.append_assoc] at hfound
        exact h.name hfound
    · split at hfound
      · simp at hfound
      · exact h.name hfound
  · intro place p hfound
    rw [hget] at hfound
    split at hfound
    · exact h.link hfound
    · split at hfound
      · simp at hfound
      · exact h.link hfound

end DebRelease.FileTree
