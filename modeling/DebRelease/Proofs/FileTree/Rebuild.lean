import DebRelease.Proofs.FileTree.Removing

namespace DebRelease

open FileTree TreeM

variable {t t' : FileTree} {cwd : WorkingDir} {p : Path} {dir place location : Location} {name : Bytes}

namespace Path.Spells

theorem isTidy (h : p.Spells (dir ++ [name])) : p.IsTidy where
  noDot := by
    rw [h.names]
    exact fun hmem => (isName_iff.mp (h.isName _ hmem)).2.1 rfl
  noDotDot := h.isDirect.noDotDot
  noSlash := by
    rw [h.eq]
    exact endsInSlash_ofLocation dir (h.isName name (by simp))

theorem leads (h : p.Spells place) (hwf : t.WellFormed) (hget : t.get? place = some .directory) :
    t.Leads cwd p place :=
  leads_of_stat (stat_spells h hwf hget rfl)

end Path.Spells

namespace FileTree

/-- At and above a place are directories, as far as anything is there. -/
def IsOpen (t : FileTree) (place : Location) : Prop :=
  ∀ above, above <+: place → t.get? above = none ∨ t.get? above = some .directory

theorem isOpen_iff_inits :
    t.IsOpen place ↔ ∀ above ∈ place.inits, t.get? above = none ∨ t.get? above = some .directory := by
  simp [IsOpen]

instance (t : FileTree) (place : Location) : Decidable (t.IsOpen place) :=
  decidable_of_iff' _ isOpen_iff_inits

namespace IsOpen

theorem of_prefix (h : t.IsOpen place) (hpre : dir <+: place) : t.IsOpen dir :=
  fun above habove => h above (habove.trans hpre)

/-- An entry of a directory is open, if it is none or a directory. -/
theorem of_parent (hwf : t.WellFormed) (hdir : t.get? dir = some .directory)
    (hthere : t.get? (dir ++ [name]) = none ∨ t.get? (dir ++ [name]) = some .directory) :
    t.IsOpen (dir ++ [name]) := by
  intro above hpre
  rcases List.prefix_concat_iff.mp hpre with rfl | hpre
  · exact hthere
  · by_cases heq : above = dir
    · exact .inr (heq ▸ hdir)
    · exact .inr (hwf.directory_of_prefix hpre heq hdir)

theorem of_without (h : t.IsOpen place) (hwithout : Without location t t') : t'.IsOpen place := by
  intro above hpre
  rw [hwithout]
  split
  · exact .inl rfl
  · exact h above hpre

end IsOpen

/-- A place that is free lies below a directory in which already the first name on the way is missing. -/
theorem IsOpen.split (h : t.IsOpen place) (hnone : t.get? place = none) : ∃ dir missing,
    place = dir ++ missing ∧ t.get? dir = some .directory ∧ t.get? (dir ++ missing.take 1) = none := by
  induction place using List.reverseRecOn with
  | nil => simp at hnone
  | append_singleton init name ih =>
    rcases h init (List.prefix_append _ _) with hmissing | hthere
    · obtain ⟨dir, missing, rfl, hdir, hfree⟩ := ih (h.of_prefix (List.prefix_append _ _)) hmissing
      obtain ⟨first, rest, rfl⟩ : ∃ first rest, missing = first :: rest := by
        refine List.exists_cons_of_ne_nil ?_
        rintro rfl
        simp [hdir] at hfree
      exact ⟨dir, first :: rest ++ [name], List.append_assoc _ _ _, hdir, hfree⟩
    · exact ⟨init, [name], rfl, hthere, hnone⟩

/-- At a path to a free place nothing is. -/
theorem IsOpen.vacant (cwd : WorkingDir) (h : t.IsOpen place) (hspells : p.Spells place) (hwf : t.WellFormed)
    (hnone : t.get? place = none) :
    ∃ dir missing, place = dir ++ missing ∧ t.Vacant cwd p dir missing := by
  obtain ⟨dir, missing, rfl, hdir, hfree⟩ := h.split hnone
  have habove := hspells.of_prefix (List.prefix_append dir missing)
  refine ⟨dir, missing, rfl, .ofLocation dir, ?_, ?_, habove.leads hwf hdir, hfree, fun name hmem => ?_⟩
  · rw [habove.isDirect.absolute, hspells.isDirect.absolute]
  · rw [habove.names, hspells.names]
  · exact (hspells.entryName name (List.mem_append_right _ hmem)).length_le

/-- Removing a directory succeeds. -/
theorem removeAll_open (cwd : WorkingDir) (h : p.Spells place) (hne : place ≠ []) (hwf : t.WellFormed)
    (hopen : t.IsOpen place) : removeAll cwd p t = (.ok (), t.outside [place]) := by
  obtain ⟨dir, name, rfl⟩ := (List.eq_nil_or_concat place).resolve_left hne
  rw [List.concat_eq_append] at h hopen ⊢
  rcases hopen _ List.prefix_rfl with hnone | hthere
  · have hself := hwf.outside_eq_self hnone
    obtain ⟨above, missing, heq, hvacant⟩ := hopen.vacant cwd h hwf hnone
    rw [heq] at hnone hself ⊢
    exact removeAll_vacant hwf h.isTidy h.check (by rwa [hself]) (by simp [hnone])
  · refine removeAll_standsFor hwf (h.standsFor cwd (hwf.outside _) ?_) hthere (by simp)
    rw [get?_outside_of_out t (by simpa using entry_not_above dir name), hwf.parent hthere]

/-- Making a directory anew succeeds and leaves it empty. -/
theorem recreate_open (cwd : WorkingDir) (h : p.Spells place) (hne : place ≠ []) (hwf : t.WellFormed)
    (hopen : t.IsOpen place) : Yields (recreate cwd p) t fun _ t' =>
      t'.WellFormed ∧ Within [place] t t' ∧ t'.get? place = some .directory ∧
        ∀ rest ≠ [], t'.get? (place ++ rest) = none := by
  have hwithout := without_outside t hne
  have hwf' := hwf.outside [place]
  obtain ⟨dir, missing, heq, hvacant⟩ := (hopen.of_without hwithout).vacant cwd h hwf'
    (hwithout.get?_eq_none List.prefix_rfl)
  refine .step (removeAll_open cwd h hne hwf hopen) ?_
  have htidy : p.IsTidy := by
    obtain ⟨above, name, rfl⟩ := (List.eq_nil_or_concat place).resolve_left hne
    rw [List.concat_eq_append] at h
    exact h.isTidy
  refine ((hvacant.makeDirs htidy h.check hwf').describe _).mono fun _ made hmade => ?_
  rw [← heq] at hmade
  refine ⟨hmade.wellFormed, hwithout.within.trans hmade.makes.within, hmade.leads.directory, fun rest hrest => ?_⟩
  rw [hmade.makes.get?_append hrest, hwithout.get?_eq_none (List.prefix_append _ _)]

end FileTree

end DebRelease
