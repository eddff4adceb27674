import DebRelease.Proofs.FileTree.Ignores
import DebRelease.Proofs.FileTree.Rebuild

namespace DebRelease.FileTree

open TreeM

variable {t t' : FileTree} {places : List Location} {place dir : Location} {cwd : WorkingDir} {p source target : Path}
    {name : Bytes} {entry : Entry}

/-- Neither of two paths leads to a place that meets one of some places. -/
def Apart (places : List Location) (source target : Path) : Prop :=
  ∀ place ∈ places, Separate place source.place ∧ Separate place target.place

namespace Apart

theorem out (h : Apart places source target) :
    (∀ place ∈ places, ¬ place <+: source.place) ∧ ∀ place ∈ places, ¬ place <+: target.place :=
  ⟨fun place hmem => (h place hmem).1.1, fun place hmem => (h place hmem).2.1⟩

/-- So it is below them. -/
theorem of_prefix {source' target' : Path} (h : Apart places source target) (hsource : source.place <+: source'.place)
    (htarget : target.place <+: target'.place) : Apart places source' target' := by
  obtain ⟨rest, hrest⟩ := hsource
  obtain ⟨rest', hrest'⟩ := htarget
  exact fun place hmem => ⟨hrest ▸ (h place hmem).1.append rest, hrest' ▸ (h place hmem).2.append rest'⟩

end Apart

/-- Work on entries of a directory one by one, each of which changes nothing but what lies at or below a name of its
    own that was free, does not see the places if each of its steps does not. -/
private theorem ignores_forM {act : Bytes × Entry → TreeM Failure Unit} {entries : List (Bytes × Entry)}
    (hwf : t.WellFormed) (hdir : t.get? dir = some .directory) (hnodup : (entries.map Prod.fst).Nodup)
    (hnone : ∀ item ∈ entries, ∀ rest, t.get? (dir ++ [item.1] ++ rest) = none)
    (hact : ∀ item ∈ entries, ∀ t' : FileTree, t'.WellFormed → t'.get? dir = some .directory →
      (∀ rest, t'.get? (dir ++ [item.1] ++ rest) = none) →
      (∀ location, ¬ dir <+: location → t'.get? location = t.get? location) →
        Alters [dir ++ [item.1]] (act item) t' (fun _ _ => True) ∧ Ignores places (act item) t') :
    Ignores places (entries.forM act) t := by
  induction entries generalizing t with
  | nil => exact .pure _
  | cons item entries ih =>
    rw [List.map_cons, List.nodup_cons] at hnodup
    obtain ⟨halters, hignores⟩ :=
      hact item List.mem_cons_self t hwf hdir (hnone item List.mem_cons_self) fun _ _ => rfl
    refine hignores.step (halters.of_child hwf hdir) ?_
    rintro _ after hwf' - ⟨-, hdir', hsame⟩
    refine ih hwf' hdir' hnodup.2 (fun other hmem rest => ?_) fun other hmem t' hwf'' hdir'' hfree hsame' => ?_
    · exact none_of_other hnodup.1 hsame (List.mem_map_of_mem hmem) (hnone other (List.mem_cons_of_mem _ hmem) rest)
    · refine hact other (List.mem_cons_of_mem _ hmem) t' hwf'' hdir'' hfree fun location hout => ?_
      rw [hsame' location hout, hsame location fun hpre => hout ((List.prefix_append _ _).trans hpre)]

/-- What a path to an entry of a directory names is what is there, a link or not. -/
private theorem readLink_child (cwd : WorkingDir) (hsource : t.Misses places source) (hname : Path.isName name = true)
    (hout : ∀ place ∈ places, ¬ place <+: source.place ++ [name]) :
    (t.outside places).readLink cwd (source.join ⟨name⟩) = t.readLink cwd (source.join ⟨name⟩) := by
  obtain ⟨habsolute, hnames⟩ := Path.names_of_isName hname
  obtain ⟨hdirect, hplace⟩ := hsource.direct.join_name hname
  obtain ⟨-, hjoined⟩ := Path.names_join source habsolute
  obtain ⟨-, hdot, -, -⟩ := Path.isName_iff.mp hname
  rw [hnames] at hjoined
  have hslash : (source.join ⟨name⟩).endsInSlash = false := source.endsInSlash_join_name hname
  have hlstat : (t.outside places).lstat cwd (source.join ⟨name⟩) = t.lstat cwd (source.join ⟨name⟩) := by
    refine lstat_congr hdirect hjoined hdot hslash ?_ fun above hpre => ?_
    · rw [hplace, List.dropLast_concat]
      exact hsource.plain
    · rw [hplace] at hpre
      exact get?_outside_of_out t fun place hmem habove => hout place hmem (habove.trans hpre)
  rw [readLink, readLink, hlstat]

/-- Copying what lies below a directory does not see what lies apart from it and from the target, which was
    empty. -/
theorem ignores_copyBelow (cwd : WorkingDir) (depth : Nat) (hwf : t.WellFormed) (hsource : t.Misses places source)
    (htarget : target.IsDirect) (hdir : t.get? target.place = some .directory)
    (hempty : ∀ rest ≠ [], t.get? (target.place ++ rest) = none) (hseparate : Separate source.place target.place)
    (hapart : Apart places source target) : Ignores places (copyBelow cwd depth source target) t := by
  induction depth generalizing source target t with
  | zero => exact .throw _
  | succ depth ih =>
    have hlisted := listEntries_outside cwd hsource fun place hmem => (hapart place hmem).1
    refine .look (by rw [hlisted]) fun entries hlist => ?_
    obtain ⟨location, hstat, hnodup, hentries⟩ := listEntries_eq_ok hwf (mapError_eq_ok_iff.mp hlist)
    obtain rfl : location = source.place :=
      resolve_place hsource.direct hsource.plain (stat_eq_ok_iff.mp hstat)
    refine ignores_forM hwf hdir hnodup (fun item _ rest => ?_) ?_
    · rw [List.append_assoc]
      exact hempty _ (by simp)
    rintro ⟨name, entry⟩ hmem t' hwf' hdir' hnone hsame
    have hname := (hwf.name (hentries.mp hmem)).isName
    obtain ⟨hchild, hplace⟩ := htarget.join_name hname
    obtain ⟨hfrom, hfromPlace⟩ := hsource.direct.join_name hname
    have hseparate' : Separate (source.join ⟨name⟩).place (target.join ⟨name⟩).place := by
      rw [hplace, hfromPlace]
      exact ((hseparate.symm.append [name]).symm.append [name])
    have hapart' : Apart places (source.join ⟨name⟩) (target.join ⟨name⟩) :=
      hapart.of_prefix (hfromPlace ▸ List.prefix_append _ _) (hplace ▸ List.prefix_append _ _)
    -- Nothing changes where the source lies.
    have hthere : t'.get? (source.place ++ [name]) = some entry := by
      rw [hsame _ (hseparate.symm.append [name]).1, hentries.mp hmem]
    have hplainSource : t'.IsPlain source.place := hsource.plain.congr fun above hpre =>
      hsame above fun habove => hseparate.2 (habove.trans hpre)
    have hmisses (hentry : ∀ link, entry ≠ .symlink link) : t'.Misses places (source.join ⟨name⟩) := by
      refine ⟨hfrom, hfromPlace ▸ hplainSource.concat fun link hget => hentry link ?_, hapart'.out.1⟩
      exact Option.some.inj (hthere.symm.trans hget)
    have hfree := hnone []
    rw [List.append_nil] at hfree
    have hplain : t'.IsPlain (target.place ++ [name]) := (hwf'.isPlain_of_directory hdir').concat (by simp [hfree])
    rw [← hplace] at hplain hnone
    have hlink := readLink_child cwd ⟨hsource.direct, hplainSource, hsource.out⟩ hname
      (hfromPlace ▸ hapart'.out.1)
    have hcopied : Ignores places (copyEntry cwd entry (source.join ⟨name⟩) (target.join ⟨name⟩)) t' :=
      ignores_copyEntry cwd hwf' hlink (fun _ _ hfile => hmisses (by simp [hfile])) ⟨hchild, hplain, hapart'.out.2⟩
    refine ⟨?_, hcopied.step (copyEntry_alters cwd entry _ hwf' hchild hplain) ?_⟩
    · rw [← hplace]
      exact copyChild_alters cwd entry (source.join ⟨name⟩) hwf' hchild hplain hnone
        fun t'' hwf'' hdir'' hempty'' => copyBelow_alters cwd depth _ hwf'' hchild hdir'' hempty''
    · rintro _ copied hwf'' hwithin ⟨-, hmade⟩
      split
      · rename_i hisDir
        obtain rfl : entry = .directory := by
          cases entry <;> first | rfl | cases hisDir
        obtain ⟨hmakes, hthere'⟩ := hmade rfl
        have hmisses := hmisses (by simp)
        refine ih hwf'' ⟨hmisses.direct, hmakes.isPlain hmisses.plain, hmisses.out⟩ hchild hthere'
          (fun rest hrest => ?_) hseparate' hapart'
        rw [hmakes.get?_append hrest, hnone rest]
      · exact .pure _

/-- Copying a directory to a free place does not see what lies apart from both. -/
theorem ignores_copyDir (cwd : WorkingDir) (hwf : t.WellFormed) (hsource : t.Misses places source)
    (htarget : t.Misses places target) (hnone : t.get? target.place = none)
    (hnested : source.place <+: target.place → source.place = target.place) (hapart : Apart places source target) :
    Ignores places (copyDir cwd source target) t := by
  have hchecked : Alters [] (requireDir cwd source) t fun _ t' => t' = t ∧ t.isDir cwd source = true :=
    requireDir_alters cwd source hwf
  refine (ignores_requireDir cwd hsource).step hchecked ?_
  rintro _ _ - - ⟨rfl, hisDir⟩
  have hthere := get?_of_isDir hsource.direct hsource.plain hisDir
  have hseparate : Separate source.place target.place := by
    refine ⟨fun hpre => ?_, fun hpre => ?_⟩
    · rw [hnested hpre, hnone] at hthere
      cases hthere
    · rw [hwf.none_of_prefix hnone hpre] at hthere
      cases hthere
  refine (ignores_makeParent cwd hwf htarget).step (makeParent_alters cwd hwf htarget.direct htarget.plain) ?_
  intro _ ready hwf' _ hmakes
  have hsource' : ready.Misses places source := ⟨hsource.direct, hmakes.isPlain hsource.plain, hsource.out⟩
  refine .look (by rw [hsource'.lstat]) fun ⟨_, entry⟩ _ => ?_
  obtain ⟨hjoined, hplace⟩ := htarget.direct.join_empty
  have hplain : ready.IsPlain (target.join .empty).place := hplace ▸ hmakes.isPlain htarget.plain
  have hcopied := copyEntry_alters cwd entry source hwf' hjoined hplain
  refine (ignores_copyEntry cwd hwf' hsource'.readLink (fun _ _ _ => hsource')
    ⟨hjoined, hplain, hplace ▸ htarget.out⟩).step hcopied ?_
  rintro _ copied hwf'' hwithin ⟨hslash, hmade⟩
  obtain ⟨honly, hthere'⟩ := hmade (hslash htarget.direct.endsInSlash_join_empty)
  rw [hplace] at honly hthere'
  refine ignores_copyBelow cwd _ hwf'' ⟨hsource.direct, honly.isPlain hsource'.plain, hsource.out⟩
    htarget.direct hthere' (fun rest hrest => ?_) hseparate hapart
  rw [honly.get?_append hrest, hmakes.none_of_dropLast hwf hnone (List.prefix_append _ _)]

/-- Renaming to a free place does not see what lies apart from both. -/
theorem ignores_rename (cwd : WorkingDir) (hsource : t.Misses places source) (htarget : t.Misses places target)
    (hnone : t.get? target.place = none) (hapart : Apart places source target) :
    Ignores places (rename cwd source target) t := by
  refine .look rfl fun _ _ => .look rfl fun _ _ => .look hsource.resolveParent fun ⟨sourceDir, sourceLast⟩ hparent =>
    .look htarget.resolveParent fun ⟨targetDir, targetLast⟩ hparent' => ?_
  cases sourceLast with
  | name sourceName sourceSlash =>
    cases targetLast with
    | name targetName targetSlash =>
      have hold := resolveParent_place hsource.direct hsource.plain hparent
      have hnew := resolveParent_place htarget.direct htarget.plain hparent'
      dsimp only
      rw [hold, hnew]
      refine .check fun _ => .get (by rw [hsource.get?]) ?_
      cases t.get? source.place with
      | none => exact .refuse _
      | some entry =>
        refine .check fun _ => .check fun _ => .check fun _ => ?_
        split
        · exact .pure _
        · refine .get (by rw [htarget.get?]) ?_
          rw [hnone]
          exact .modify (outside_move t hapart).symm
    | _ => exact .refuse _
  | _ => cases targetLast <;> exact .refuse _

/-- Moving a directory does not see what lies apart from its old and its new place. -/
theorem ignores_moveDir (cwd : WorkingDir) (hwf : t.WellFormed) (hsource : t.Misses places source)
    (htarget : t.Misses places target) (hnested : source.place <+: target.place → source.place = target.place)
    (hapart : Apart places source target) : Ignores places (moveDir cwd source target) t := by
  have hchecked : Alters [] (requireDir cwd source) t fun _ t' => t' = t ∧ t.isDir cwd source = true :=
    requireDir_alters cwd source hwf
  refine (ignores_requireDir cwd hsource).step hchecked ?_
  rintro _ _ - - ⟨rfl, -⟩
  refine (ignores_removeAll cwd htarget fun place hmem => (hapart place hmem).2).step
    (removeAll_alters cwd hwf htarget.direct htarget.plain) ?_
  intro _ removed hwf₁ _ hwithout
  have htarget₁ : removed.Misses places target := ⟨htarget.direct, hwithout.isPlain htarget.plain, htarget.out⟩
  refine (ignores_makeParent cwd hwf₁ htarget₁).step (makeParent_alters cwd hwf₁ htarget₁.direct htarget₁.plain) ?_
  intro _ ready hwf₂ _ hmakes
  have hsource₂ : ready.Misses places source :=
    ⟨hsource.direct, hmakes.isPlain (hwithout.isPlain hsource.plain), hsource.out⟩
  have htarget₂ : ready.Misses places target := ⟨htarget.direct, hmakes.isPlain htarget₁.plain, htarget.out⟩
  have hfree : ready.get? target.place = none :=
    hmakes.none_of_dropLast hwf₁ (hwithout.get?_eq_none List.prefix_rfl) List.prefix_rfl
  refine (ignores_rename cwd hsource₂ htarget₂ hfree hapart).attempt.bind fun outcome after hrun => ?_
  rw [run_attempt] at hrun
  rcases rename_at cwd hwf₂ hsource.direct htarget.direct hsource₂.plain htarget₂.plain hfree with
    ⟨e, hrefused⟩ | ⟨hdone, -⟩
  · rw [hrefused] at hrun
    cases hrun
    have hcopy := copyDir_alters cwd source hwf₂ htarget.direct htarget₂.plain hfree
    refine (ignores_copyDir cwd hwf₂ hsource₂ htarget₂ hfree hnested hapart).step
      (hcopy.mono (List.Subset.refl _) fun _ _ _ hwithin hisDir => And.intro hwithin hisDir) ?_
    rintro _ copied - - ⟨hwithin, hisDir⟩
    have hthere := get?_of_isDir hsource.direct hsource₂.plain hisDir
    have hapart' : ¬ target.place <+: source.place := by
      intro hpre
      rw [hwf₂.none_of_prefix hfree hpre] at hthere
      cases hthere
    refine ignores_removeAll cwd
      ⟨hsource.direct, hwithin.isPlain hsource₂.plain (by simpa using hapart'), hsource.out⟩ ?_
    exact fun place hmem => (hapart place hmem).1
  · rw [hdone] at hrun
    cases hrun
    exact .pure _

/-- A path that the system does not accept is not removed. -/
private theorem removeAll_of_check {e : SystemError} (hdirect : p.IsDirect) (hcheck : checkPath p = .error e) :
    removeAll cwd p t = (.error (.file "removing directory" p e), t) := by
  have hkept : e ≠ .os .noEntry := fun heq => checkPath_ne_noEntry hdirect (heq ▸ hcheck)
  have hnot : e.isNotFound = false := by simpa [SystemError.isNotFound] using hkept
  rw [removeAll_eq, removeAllAt, run_bind, run_look, lstat, resolve, hcheck]
  simp only [bind, Except.bind, hnot, Bool.false_eq_true, if_false]

/-- A directory at a place, without links in its way, is removed from the tree, or the removal is refused: just as it
    is where nothing lies there. -/
theorem removeAll_outside (cwd : WorkingDir) (hwf : t.WellFormed) (hnames : ∀ name ∈ place, Path.isName name = true)
    (hne : place ≠ []) (hplain : t.IsPlain place)
    (hthere : t.get? place = none ∨ t.get? place = some .directory)
    (hseparate : ∀ other ∈ places, Separate other place) :
    ∃ outcome,
      removeAll cwd (.ofLocation place) (t.outside (place :: places)) = (outcome, t.outside (place :: places)) ∧
      ((∃ e, outcome = .error e ∧ removeAll cwd (.ofLocation place) t = (outcome, t)) ∨
        outcome = .ok () ∧ removeAll cwd (.ofLocation place) t = (outcome, t.outside [place])) := by
  obtain ⟨hdirect, hplace⟩ := Path.isDirect_ofLocation hnames
  cases hcheck : checkPath (.ofLocation place) with
  | error e =>
    exact ⟨_, removeAll_of_check hdirect hcheck, .inl ⟨_, rfl, removeAll_of_check hdirect hcheck⟩⟩
  | ok =>
    rw [← hplace] at hplain
    rcases hthere with hnone | hthere
    · have hself : t.outside (place :: places) = t.outside places := by
        rw [outside_cons, hwf.outside_eq_self hnone]
      have hmisses : t.Misses places (.ofLocation place) :=
        ⟨hdirect, hplain, fun other hmem => hplace.symm ▸ (hseparate other hmem).1⟩
      have hignores := ignores_removeAll cwd hmisses (hplace.symm ▸ hseparate)
      rw [Ignores, ← hself] at hignores
      rw [← hplace] at hnone
      rcases removeAll_cases cwd hwf hdirect hplain with ⟨e, hrun⟩ | ⟨-, hrun⟩ | ⟨hthere, -⟩
      · rw [hrun] at hignores
        exact ⟨_, hself ▸ hignores, .inl ⟨e, rfl, hrun⟩⟩
      · rw [hrun] at hignores
        refine ⟨_, hself ▸ hignores, .inr ⟨rfl, ?_⟩⟩
        rw [hrun, hwf.outside_eq_self (hplace ▸ hnone)]
      · rw [hnone] at hthere
        cases hthere
    · have hspells := hwf.spells hthere hcheck
      have hopen : t.IsOpen place := by
        intro above hpre
        by_cases heq : above = place
        · exact .inr (heq ▸ hthere)
        · exact .inr (hwf.directory_of_prefix hpre heq hthere)
      have hwf' := hwf.outside (place :: places)
      have hnone : (t.outside (place :: places)).get? place = none := by
        rw [get?_outside t _ hne, if_neg (by simp [isOutside_iff])]
      have hopen' : (t.outside (place :: places)).IsOpen place := by
        intro above hpre
        by_cases hnil : above = []
        · exact .inr (by simp [hnil])
        · rw [get?_outside t _ hnil]
          split
          · exact hopen above hpre
          · exact .inl rfl
      refine ⟨.ok (), ?_, .inr ⟨rfl, removeAll_open cwd hspells hne hwf hopen⟩⟩
      rw [removeAll_open cwd hspells hne hwf' hopen', hwf'.outside_eq_self hnone]

/-- What lies at or below some places stays as it is. -/
def Untouched (places : List Location) (t t' : FileTree) : Prop :=
  ∀ place ∈ places, ∀ rest, t'.get? (place ++ rest) = t.get? (place ++ rest)

namespace Untouched

variable {t'' : FileTree}

theorem refl (places : List Location) (t : FileTree) : Untouched places t t :=
  fun _ _ _ => rfl

theorem trans (h : Untouched places t t') (h' : Untouched places t' t'') : Untouched places t t'' :=
  fun place hmem rest => (h' place hmem rest).trans (h place hmem rest)

theorem mono {places' : List Location} (h : Untouched places t t') (hsubset : places' ⊆ places) :
    Untouched places' t t' :=
  fun place hmem => h place (hsubset hmem)

/-- What changes is apart from the places. -/
theorem of_within {changed : List Location} (h : Within changed t t')
    (hseparate : ∀ place ∈ places, ∀ other ∈ changed, Separate place other) : Untouched places t t' := by
  intro place hmem rest
  refine h.get?_eq (fun other hother => ((hseparate place hmem other hother).symm.append rest).1)
    (.inr fun other hother => ((hseparate place hmem other hother).symm.append rest).2)

theorem of_same {location : Location} (hout : ∀ place ∈ places, ¬ place <+: location)
    (hsame : ∀ other, other ≠ location → t'.get? other = t.get? other) : Untouched places t t' :=
  fun place hmem _ => hsame _ fun heq => hout place hmem (heq ▸ List.prefix_append _ _)

end Untouched

/-- A computation that neither sees nor touches what lies at or below some places. -/
structure Blind {ε α : Type} (places : List Location) (m : TreeM ε α) (t : FileTree) : Prop where
  ignores : Ignores places m t
  wellFormed : (m t).2.WellFormed
  untouched : Untouched places t (m t).2

namespace Blind

variable {ε ε' α : Type} {m : TreeM ε α}

theorem of_alters {changed : List Location} {P : α → FileTree → Prop} (hignores : Ignores places m t)
    (h : Alters changed m t P) (hseparate : ∀ place ∈ places, ∀ other ∈ changed, Separate place other) :
    Blind places m t :=
  ⟨hignores, h.wellFormed, .of_within h.within hseparate⟩

theorem describe (h : Blind places m t) (f : ε → ε') : Blind places (m.describe f) t :=
  ⟨h.ignores.describe f, h.wellFormed, h.untouched⟩

theorem attempt (h : Blind places m t) : Blind places (attempt m : TreeM ε' (Except ε α)) t :=
  ⟨h.ignores.attempt, h.wellFormed, h.untouched⟩

theorem look {f : FileTree → Except ε α} (hwf : t.WellFormed) (hf : f (t.outside places) = f t) :
    Blind places (TreeM.look f) t :=
  ⟨by simp [Ignores, hf], by rwa [run_look], by rw [run_look]; exact .refl _ t⟩

end Blind

theorem blind_write (cwd : WorkingDir) (content : Bytes) (hwf : t.WellFormed) (h : t.Misses places p) :
    Blind places (write cwd p content) t := by
  refine ⟨ignores_write cwd content hwf h, ?_, ?_⟩
  all_goals rcases write_at cwd content hwf h.direct h.plain with ⟨e, hrun⟩ | ⟨is, hrun, hne, hwf'⟩ <;> rw [hrun]
  · exact hwf
  · exact hwf'
  · exact .refl _ t
  · exact .of_same h.out fun other hother => get?_set_of_ne t _ hne hother

/-- Removing a file fails and changes nothing, or takes it from the place of the path. -/
theorem unlink_at (cwd : WorkingDir) (hwf : t.WellFormed) (hdirect : p.IsDirect) (hplain : t.IsPlain p.place) :
    Refused (unlink cwd p) t ∨
      unlink cwd p t = (.ok (), t.erase p.place) ∧ p.place ≠ [] ∧ (t.erase p.place).WellFormed := by
  rcases unlink_does cwd p t with hrefused | ⟨_, _, hrun, dir, name, entry, hparent, -, hget, hfile, rfl⟩
  · exact .inl hrefused
  · have hplace := resolveParent_place hdirect hplain hparent
    have hne : p.place ≠ [] := by simp [← hplace]
    rw [hplace] at hrun hget
    refine .inr ⟨hrun, hne, hwf.erase hne fun rest hrest => hwf.none_below ?_ hrest⟩
    rw [hget]
    simpa using hfile

theorem blind_unlink (cwd : WorkingDir) (hwf : t.WellFormed) (h : t.Misses places p) :
    Blind places (unlink cwd p) t := by
  refine ⟨ignores_unlink cwd h, ?_, ?_⟩
  all_goals rcases unlink_at cwd hwf h.direct h.plain with ⟨e, hrun⟩ | ⟨hrun, hne, hwf'⟩ <;> rw [hrun]
  · exact hwf
  · exact hwf'
  · exact .refl _ t
  · refine .of_same h.out fun other hother => ?_
    rw [get?_erase t hne, if_neg hother]

end DebRelease.FileTree
