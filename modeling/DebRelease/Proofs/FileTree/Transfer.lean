import DebRelease.Proofs.FileTree.Content
import DebRelease.Proofs.Outcome

namespace DebRelease.FileTree

open TreeM

variable {t t' : FileTree} {cwd : WorkingDir} {p source target : Path} {place dir location : Location}
    {name : Bytes} {entry : Entry} {places : List Location}

/-- In a directory that is there, nothing changes but what lies at or below the place. -/
theorem Within.get?_eq_of_parent (h : Within [dir ++ [name]] t t') (hwf : t.WellFormed)
    (hdir : t.get? dir = some .directory) (hout : ¬ dir ++ [name] <+: location) :
    t'.get? location = t.get? location := by
  refine h.get?_eq (by simpa using hout) ?_
  by_cases habove : location <+: dir ++ [name]
  · rcases List.prefix_concat_iff.mp habove with heq | hpre
    · exact absurd (heq ▸ List.prefix_rfl) hout
    · refine .inl ?_
      by_cases heq : location = dir
      · simp [heq, hdir]
      · simp [hwf.directory_of_prefix hpre heq hdir]
  · exact .inr (by simpa using habove)

theorem within_set (hne : place ≠ []) (entry : Entry) : Within [place] t (t.set place entry) := by
  intro location hout
  refine .inl (get?_set_of_ne t entry hne ?_)
  rintro rfl
  exact hout _ (List.mem_singleton_self _) List.prefix_rfl

/-- Emptying a file fails and changes nothing, or leaves an empty file at the place of the path. -/
theorem truncate_at (cwd : WorkingDir) (executable : Bool) (hwf : t.WellFormed) (hdirect : p.IsDirect)
    (hplain : t.IsPlain p.place) :
    Refused (truncate cwd executable p) t ∨ ∃ is,
      truncate cwd executable p t = (.ok p.place, t.set p.place (.file [] is)) ∧ p.place ≠ [] ∧
        (t.set p.place (.file [] is)).WellFormed ∧ p.endsInSlash = false := by
  rcases truncate_does cwd executable p t with
    hrefused | ⟨location, _, hrun, is, hopens, ⟨dir, name, hparent⟩, rfl⟩
  · exact .inl hrefused
  · obtain ⟨target, hresolve, rfl⟩ := hopens.resolve
    have hlength := length_le_of_resolve hparent hresolve
    rw [resolve_place hdirect hplain hresolve] at hrun hopens
    have hstands := stands_of_parent hdirect hplain hparent hlength
    have hnot : t.get? p.place ≠ some .directory := by
      rcases hopens.file_or_none with hnone | ⟨_, _, hfile⟩
      · simp [hnone]
      · simp [hfile]
    obtain ⟨-, hlast, -⟩ := resolveParent_eq_ok_iff.mp hparent
    obtain ⟨-, -, -, hslash⟩ := lastName_eq_name_iff.mp hlast.symm
    exact .inr ⟨is, hrun, hopens.ne_nil, hstands.wellFormed_set hwf hnot (by simp), hslash⟩

/-- Writing a file fails and changes nothing, or leaves it at the place of the path. -/
theorem write_at (cwd : WorkingDir) (content : Bytes) (hwf : t.WellFormed) (hdirect : p.IsDirect)
    (hplain : t.IsPlain p.place) :
    Refused (write cwd p content) t ∨ ∃ is,
      write cwd p content t = (.ok (), t.set p.place (.file content is)) ∧ p.place ≠ [] ∧
        (t.set p.place (.file content is)).WellFormed := by
  rcases truncate_at cwd false hwf hdirect hplain with ⟨e, hrun⟩ | ⟨is, hrun, hne, hwf', -⟩
  · exact .inl ⟨e, by rw [write, run_bind, hrun]⟩
  · have hget := get?_set_self t (.file [] is) hne
    refine .inr ⟨is, ?_, hne, ?_⟩
    · rw [write, run_bind, hrun]
      dsimp only
      rw [fill_eq hget, set_set]
    · rw [← set_set t p.place (.file [] is)]
      exact hwf'.set_file hget

/-- Writing over a file changes nothing else. -/
theorem alters_set_file {ε α : Type} {m : TreeM ε α} {a : α} {P : α → FileTree → Prop} {old new : Bytes}
    {was is : Bool} (hwf : t.WellFormed) (hget : t.get? place = some (.file old was))
    (hrun : m t = (.ok a, t.set place (.file new is))) (h : P a (t.set place (.file new is))) :
    Alters [place] m t P := by
  have hne : place ≠ [] := by
    rintro rfl
    simp at hget
  exact .of_eq hrun (hwf.set_file hget) (within_set hne _) h

/-- Copying a file changes nothing but its target, which does not end in a slash if that succeeds. -/
theorem copyFile_alters (cwd : WorkingDir) (source : Path) (hwf : t.WellFormed) (hdirect : target.IsDirect)
    (hplain : t.IsPlain target.place) :
    Alters [target.place] (copyFile cwd source target) t fun _ _ => target.endsInSlash = false := by
  refine .look hwf fun ⟨location, entry⟩ _ => ?_
  cases entry with
  | file old executable =>
    rcases truncate_at cwd executable hwf hdirect hplain with hrefused | ⟨is, hrun, hne, hwf', hslash⟩
    · exact .bind (P := fun _ _ => False) (.refused hwf hrefused) fun _ _ _ _ hfalse => hfalse.elim
    · refine .bind (P := fun new t' => new = target.place ∧ t'.get? target.place = some (.file [] is))
        (.of_eq hrun hwf' (within_set hne _) ⟨rfl, get?_set_self t _ hne⟩) ?_
      rintro _ emptied hwf' - ⟨rfl, hemptied⟩
      refine .bind (P := fun _ t' => t'.get? target.place = some (.file [] executable))
        (alters_set_file hwf' hemptied (by rw [run_modify, hemptied]) (get?_set_self emptied _ hne)) ?_
      refine fun _ marked hwf'' _ hmarked => .get ?_
      rcases marked.get? location with _ | _ | ⟨content, _⟩ | _
      case some.file => exact alters_set_file hwf'' hmarked (fill_eq hmarked content) hslash
      all_goals exact .pure hwf'' hslash
  | _ => exact .throw hwf _

/-- Making a link changes nothing but its place, and its path does not end in a slash if that succeeds. -/
theorem makeLink_alters (cwd : WorkingDir) (link : Path) (hwf : t.WellFormed) (hdirect : p.IsDirect)
    (hplain : t.IsPlain p.place) :
    Alters [p.place] (makeLink cwd link p) t fun _ _ => p.endsInSlash = false := by
  rcases makeLink_does cwd link p t with
    hrefused | ⟨_, _, hrun, dir, name, hparent, hlength, hnone, hcheck, rfl⟩
  · exact .refused hwf hrefused
  · have hstands := stands_of_parent hdirect hplain hparent hlength
    obtain ⟨-, hlast, -⟩ := resolveParent_eq_ok_iff.mp hparent
    obtain ⟨-, -, -, hslash⟩ := lastName_eq_name_iff.mp hlast.symm
    rw [hstands.place] at hnone hrun
    refine .of_eq hrun (hstands.wellFormed_set hwf (by simp [hnone]) ?_) (within_set hstands.place_ne_nil _) hslash
    rintro _ ⟨⟩
    exact hcheck

/-- Copying one entry changes nothing but its target. A directory is made and nothing is put into it;
    nothing else is copied to a path that ends in a slash. -/
theorem copyEntry_alters (cwd : WorkingDir) (entry : Entry) (source : Path) (hwf : t.WellFormed)
    (hdirect : target.IsDirect) (hplain : t.IsPlain target.place) :
    Alters [target.place] (copyEntry cwd entry source target) t fun _ t' =>
      (target.endsInSlash = true → entry = .directory) ∧ (entry = .directory →
        OnlyMakes target.place t t' ∧ t'.get? target.place = some .directory) := by
  cases entry with
  | directory =>
    refine ((makeDirs_alters cwd hwf hdirect hplain List.prefix_rfl).describe _).mono (List.Subset.refl _) ?_
    exact fun _ _ _ _ hmade => ⟨fun _ => rfl, fun _ => hmade⟩
  | file content executable =>
    refine ((copyFile_alters cwd source hwf hdirect hplain).describe _).mono (List.Subset.refl _) ?_
    exact fun _ _ _ _ hslash => ⟨by simp [hslash], by simp⟩
  | symlink link =>
    refine .look hwf fun linked _ => ?_
    refine ((makeLink_alters cwd linked hwf hdirect hplain).describe _).mono (List.Subset.refl _) ?_
    exact fun _ _ _ _ hslash => ⟨by simp [hslash], by simp⟩

/-- The entries that are listed are those of the directory, each once. -/
theorem listEntries_eq_ok {entries : List (Bytes × Entry)} (hwf : t.WellFormed)
    (h : t.listEntries cwd p = .ok entries) :
    ∃ location, t.stat cwd p = .ok (location, .directory) ∧ (entries.map Prod.fst).Nodup ∧
      ∀ {name : Bytes} {entry : Entry},
        (name, entry) ∈ entries ↔ t.get? (location ++ [name]) = some entry := by
  rw [listEntries] at h
  cases hstat : t.stat cwd p with
  | error e =>
    rw [hstat] at h
    cases h
  | ok found =>
    obtain ⟨location, entry⟩ := found
    rw [hstat] at h
    cases entry with
    | directory =>
      cases h
      refine ⟨location, rfl, ?_, fun {name entry} => ?_⟩
      · rw [List.map_filterMap]
        refine (hwf.nodup_childNames location).filterMap fun first second name hfirst hsecond => ?_
        simp only [Option.map_map, Option.mem_def, Option.map_eq_some_iff, Function.comp_apply] at hfirst hsecond
        obtain ⟨_, -, rfl⟩ := hfirst
        obtain ⟨_, -, rfl⟩ := hsecond
        rfl
      · rw [List.mem_filterMap]
        constructor
        · rintro ⟨found, -, hfound⟩
          obtain ⟨_, hget, heq⟩ := Option.map_eq_some_iff.mp hfound
          cases heq
          exact hget
        · intro hget
          exact ⟨name, hwf.mem_childNames_iff.mpr ⟨entry, hget⟩, by rw [hget]; rfl⟩
    | _ => cases h

/-- Copying an entry of a directory, and then what lies below it, changes nothing but what lies at or
    below its target, where nothing was. -/
theorem copyChild_alters {below : TreeM Failure Unit} (cwd : WorkingDir) (entry : Entry)
    (source : Path) (hwf : t.WellFormed) (hdirect : target.IsDirect) (hplain : t.IsPlain target.place)
    (hnone : ∀ rest, t.get? (target.place ++ rest) = none)
    (hbelow : ∀ t' : FileTree, t'.WellFormed → t'.get? target.place = some .directory →
      (∀ rest ≠ [], t'.get? (target.place ++ rest) = none) → Alters [target.place] below t' fun _ _ => True) :
    Alters [target.place] (do copyEntry cwd entry source target; if entry.isDirectory then below) t
      fun _ _ => True := by
  refine (copyEntry_alters cwd entry source hwf hdirect hplain).bind fun _ copied hwf' _ ⟨_, hmade⟩ => ?_
  split
  · rename_i hisDir
    have hentry : entry = .directory := by
      cases entry <;> first | rfl | cases hisDir
    obtain ⟨hmakes, hthere⟩ := hmade hentry
    exact hbelow copied hwf' hthere fun rest hrest => by rw [hmakes.get?_append hrest, hnone rest]
  · exact .pure hwf' trivial

/-- What changes at or below an entry of a directory changes below the directory. -/
theorem Alters.of_child {ε α : Type} {m : TreeM ε α} {P : α → FileTree → Prop}
    (h : Alters [dir ++ [name]] m t P) (hwf : t.WellFormed) (hdir : t.get? dir = some .directory) :
    Alters [dir] m t fun a t' => P a t' ∧ t'.get? dir = some .directory ∧
      ∀ location, ¬ dir ++ [name] <+: location → t'.get? location = t.get? location := by
  have hsame : ∀ location, ¬ dir ++ [name] <+: location → (m t).2.get? location = t.get? location :=
    fun location hout => h.within.get?_eq_of_parent hwf hdir hout
  refine ⟨h.wellFormed, fun location hout => .inl (hsame location fun hin => ?_), fun hok => ⟨h.result hok, ?_, hsame⟩⟩
  · exact hout dir (List.mem_singleton_self _) ((List.prefix_append _ _).trans hin)
  · rw [hsame dir, hdir]
    intro hpre
    have hlength := hpre.length_le
    rw [List.length_append, List.length_singleton] at hlength
    omega

/-- A name that was free is free when only what lies at or below another has changed. -/
theorem none_of_other {items : List Bytes} (hfresh : name ∉ items)
    (hsame : ∀ location, ¬ dir ++ [name] <+: location → t'.get? location = t.get? location) {other : Bytes}
    (hmem : other ∈ items) {rest : Location} (hnone : t.get? (dir ++ [other] ++ rest) = none) :
    t'.get? (dir ++ [other] ++ rest) = none := by
  have hother : Separate (dir ++ [name]) (dir ++ [other]) := .of_ne fun heq => hfresh (heq ▸ hmem)
  rw [hsame _ (hother.append rest).1, hnone]

/-- Work on entries of a directory one by one, each of which changes nothing but what lies at or below a
    name of its own that was free, changes nothing but what lies below the directory. -/
private theorem forM_alters {act : Bytes × Entry → TreeM Failure Unit} {entries : List (Bytes × Entry)}
    (hwf : t.WellFormed) (hdir : t.get? dir = some .directory) (hnodup : (entries.map Prod.fst).Nodup)
    (hnone : ∀ item ∈ entries, ∀ rest, t.get? (dir ++ [item.1] ++ rest) = none)
    (hact : ∀ item ∈ entries, ∀ t' : FileTree, t'.WellFormed → t'.get? dir = some .directory →
      (∀ rest, t'.get? (dir ++ [item.1] ++ rest) = none) →
        Alters [dir ++ [item.1]] (act item) t' fun _ _ => True) :
    Alters [dir] (entries.forM act) t fun _ _ => True := by
  induction entries generalizing t with
  | nil => exact .pure hwf trivial
  | cons item entries ih =>
    rw [List.map_cons, List.nodup_cons] at hnodup
    refine ((hact item List.mem_cons_self t hwf hdir (hnone item List.mem_cons_self)).of_child hwf hdir).bind ?_
    rintro _ after hwf' - ⟨-, hdir', hsame⟩
    refine ih hwf' hdir' hnodup.2 (fun other hmem rest => ?_) fun other hmem => hact other (List.mem_cons_of_mem _ hmem)
    exact none_of_other hnodup.1 hsame (List.mem_map_of_mem hmem) (hnone other (List.mem_cons_of_mem _ hmem) rest)

theorem IsPlain.concat (h : t.IsPlain dir) (hlink : ∀ link, t.get? (dir ++ [name]) ≠ some (.symlink link)) :
    t.IsPlain (dir ++ [name]) := by
  intro above hpre link
  rcases List.prefix_concat_iff.mp hpre with rfl | hpre
  · exact hlink link
  · exact h above hpre link

/-- Copying what lies below a directory changes nothing but what lies below the target, which was
    empty. -/
theorem copyBelow_alters (cwd : WorkingDir) (depth : Nat) (source : Path) (hwf : t.WellFormed)
    (hdirect : target.IsDirect) (hdir : t.get? target.place = some .directory)
    (hempty : ∀ rest ≠ [], t.get? (target.place ++ rest) = none) :
    Alters [target.place] (copyBelow cwd depth source target) t fun _ _ => True := by
  induction depth generalizing source target t with
  | zero => exact .throw hwf _
  | succ depth ih =>
    refine .look hwf fun entries hlist => ?_
    obtain ⟨location, -, hnodup, hentries⟩ := listEntries_eq_ok hwf (mapError_eq_ok_iff.mp hlist)
    refine forM_alters hwf hdir hnodup (fun item _ rest => ?_) ?_
    · rw [List.append_assoc]
      exact hempty _ (by simp)
    intro ⟨name, entry⟩ hmem t' hwf' hdir' hnone
    obtain ⟨hchild, hplace⟩ := hdirect.join_name (hwf.name (hentries.mp hmem)).isName
    have hfree := hnone []
    rw [List.append_nil] at hfree
    have hplain : t'.IsPlain (target.place ++ [name]) := (hwf'.isPlain_of_directory hdir').concat (by simp [hfree])
    rw [← hplace] at hplain hnone ⊢
    exact copyChild_alters cwd entry (source.join ⟨name⟩) hwf' hchild hplain hnone fun t'' hwf'' hdir'' hempty'' =>
      ih _ hwf'' hchild hdir'' hempty''

/-- Making the directory of a path makes only directories above its place. -/
theorem makeParent_alters (cwd : WorkingDir) (hwf : t.WellFormed) (hdirect : p.IsDirect)
    (hplain : t.IsPlain p.place) :
    Alters [p.place] (makeParent cwd p) t fun _ t' => OnlyMakes p.place.dropLast t t' := by
  rw [makeParent]
  cases hparent : p.parent? with
  | none => exact .pure hwf (OnlyMakes.refl _ t)
  | some parent =>
    obtain ⟨habove, hplace⟩ := hdirect.parent hparent
    have hpre : parent.place <+: p.place := hplace ▸ List.dropLast_prefix _
    refine ((makeDirs_alters cwd hwf habove (hplain.of_prefix hpre) hpre).describe _).mono
      (List.Subset.refl _) ?_
    exact fun _ _ _ _ ⟨hmakes, _⟩ => hplace ▸ hmakes

/-- What is made above a place is not at or below it. -/
theorem OnlyMakes.none_of_dropLast (h : OnlyMakes place.dropLast t t') (hwf : t.WellFormed)
    (hnone : t.get? place = none) (hpre : place <+: location) : t'.get? location = none := by
  rcases h location with hsame | ⟨-, -, habove⟩
  · rw [hsame, hwf.none_of_prefix hnone hpre]
  · have hlength := (hpre.trans habove).length_le
    rw [List.length_dropLast] at hlength
    have hnil : place = [] := List.length_eq_zero_iff.mp (by omega)
    simp [hnil] at hnone

theorem requireDir_alters (cwd : WorkingDir) (p : Path) (hwf : t.WellFormed) :
    Alters places (requireDir cwd p) t fun _ t' => t' = t ∧ t.isDir cwd p = true := by
  refine .get ?_
  dsimp only
  split
  · exact .throw hwf _
  · rename_i hnot
    exact .pure hwf ⟨rfl, by simpa using hnot⟩

/-- Copying a directory to a free place changes nothing else but that those above it are made. -/
theorem copyDir_alters (cwd : WorkingDir) (source : Path) (hwf : t.WellFormed) (hdirect : target.IsDirect)
    (hplain : t.IsPlain target.place) (hnone : t.get? target.place = none) :
    Alters [target.place] (copyDir cwd source target) t fun _ _ => t.isDir cwd source = true := by
  refine (requireDir_alters cwd source hwf).bind ?_
  rintro _ _ - - ⟨rfl, hisDir⟩
  refine (makeParent_alters cwd hwf hdirect hplain).bind fun _ ready hwf' _ hmakes => ?_
  refine .look hwf' fun ⟨_, entry⟩ _ => ?_
  obtain ⟨hjoined, hplace⟩ := hdirect.join_empty
  have hcopy := copyEntry_alters cwd entry source hwf' hjoined (hplace ▸ hmakes.isPlain hplain)
  rw [hplace] at hcopy
  refine hcopy.bind fun _ copied hwf'' _ ⟨hslash, hmade⟩ => ?_
  obtain ⟨honly, hthere⟩ := hmade (hslash hdirect.endsInSlash_join_empty)
  refine (copyBelow_alters cwd Path.lengthLimit source hwf'' hdirect hthere fun rest hrest => ?_).mono
    (List.Subset.refl _) fun _ _ _ _ _ => hisDir
  rw [honly.get?_append hrest, hmakes.none_of_dropLast hwf hnone (List.prefix_append _ _)]

/-- Renaming to a free place is refused, or moves all at and below one place to the other, outside it. -/
theorem rename_at (cwd : WorkingDir) (hwf : t.WellFormed) (hsource : source.IsDirect)
    (htarget : target.IsDirect) (hplainSource : t.IsPlain source.place) (hplainTarget : t.IsPlain target.place)
    (hnone : t.get? target.place = none) :
    Refused (rename cwd source target) t ∨
      rename cwd source target t = (.ok (), t.move source.place target.place) ∧
        (t.move source.place target.place).WellFormed ∧ source.place ≠ [] ∧ target.place ≠ [] ∧
        t.get? source.place ≠ none := by
  have hfree : ∀ dir name slash, t.resolveParent cwd target = .ok (dir, .name name slash) →
      t.get? (dir ++ [name]) = none := fun dir name slash hparent => by
    rw [resolveParent_place htarget hplainTarget hparent, hnone]
  rcases rename_does cwd source target t hfree with
    hrefused | ⟨_, _, hrun, sourceDir, sourceName, sourceSlash, targetDir, targetName, targetSlash, entry, hparent,
      hparent', hlength, hlength', hget, hout, rfl⟩
  · exact .inl hrefused
  · have hold := stands_of_parent hsource hplainSource hparent hlength
    have hnew := stands_of_parent htarget hplainTarget hparent' hlength'
    have hapart : ¬ sourceDir ++ [sourceName] <+: targetDir ++ [targetName] := by
      intro hpre
      refine hout ?_ hpre
      rcases List.prefix_concat_iff.mp hpre with heq | habove
      · rw [heq, hnew.place, hnone] at hget
        cases hget
      · by_cases heq : sourceDir ++ [sourceName] = targetDir
        · rw [heq, hnew.directory] at hget
          exact (Option.some.inj hget).symm
        · rw [hwf.directory_of_prefix habove heq hnew.directory] at hget
          exact (Option.some.inj hget).symm
    have hwf' := hwf.move hold.place_ne_nil hnew.directory hnew.isEntryName (by rw [hnew.place, hnone])
      (by rw [← hold.place]; exact hapart)
    rw [hold.place] at hget hrun
    rw [hnew.place] at hrun hwf'
    exact .inr ⟨hrun, hwf', hold.place_ne_nil, hnew.place_ne_nil, by simp [hget]⟩

/-- Moving a directory changes nothing but what lies at or below its old and its new place, and that
    directories above them are made. Nothing stays at the old place, which was not at or below the new one. -/
theorem moveDir_alters (cwd : WorkingDir) (hwf : t.WellFormed) (hsource : source.IsDirect)
    (htarget : target.IsDirect) (hplainSource : t.IsPlain source.place) (hplainTarget : t.IsPlain target.place) :
    Alters [source.place, target.place] (moveDir cwd source target) t fun _ t' => ¬ target.place <+: source.place ∧
      ∀ location, source.place <+: location → ¬ target.place <+: location → t'.get? location = none := by
  have hsubset : [target.place] ⊆ [source.place, target.place] := by simp
  refine (requireDir_alters cwd source hwf).bind ?_
  rintro _ _ - - ⟨rfl, -⟩
  refine ((removeAll_alters cwd hwf htarget hplainTarget).mono hsubset fun _ _ _ _ h => h).bind ?_
  intro _ removed hwf₁ _ hwithout
  have hplainTarget₁ := hwithout.isPlain hplainTarget
  refine ((makeParent_alters cwd hwf₁ htarget hplainTarget₁).mono hsubset fun _ _ _ _ h => h).bind ?_
  intro _ ready hwf₂ _ hmakes
  have hplainSource₂ := hmakes.isPlain (hwithout.isPlain hplainSource)
  have hplainTarget₂ := hmakes.isPlain hplainTarget₁
  have hfree : ∀ location, target.place <+: location → ready.get? location = none := fun location =>
    hmakes.none_of_dropLast hwf₁ (hwithout.get?_eq_none List.prefix_rfl)
  rcases rename_at cwd hwf₂ hsource htarget hplainSource₂ hplainTarget₂ (hfree _ List.prefix_rfl) with
    ⟨e, hrun⟩ | ⟨hrun, hwf₃, hneSource, hneTarget, hthere⟩
  · refine .bind (P := fun outcome t' => outcome = .error e ∧ t' = ready)
      (.of_eq (by rw [run_attempt, hrun]) hwf₂ (Within.refl _ ready) ⟨rfl, rfl⟩) ?_
    rintro _ _ - - ⟨rfl, rfl⟩
    refine ((copyDir_alters cwd source hwf₂ htarget hplainTarget₂ (hfree _ List.prefix_rfl)).mono hsubset
      fun _ _ _ hwithin hisDir => And.intro hwithin hisDir).bind fun _ copied hwf₃ _ ⟨hwithin, hisDir⟩ => ?_
    have hthere := get?_of_isDir hsource hplainSource₂ hisDir
    have hapart : ¬ target.place <+: source.place := by
      intro hpre
      rw [hfree _ hpre] at hthere
      cases hthere
    exact (removeAll_alters cwd hwf₃ hsource (hwithin.isPlain hplainSource₂ (by simpa using hapart))).mono (by simp)
      fun _ _ _ _ hgone => ⟨hapart, fun location hpre _ => hgone.get?_eq_none hpre⟩
  · have hmove := get?_move hwf₂ hneSource hneTarget (hfree _ List.prefix_rfl)
    refine .bind (P := fun outcome t' => outcome = .ok () ∧ t' = ready.move source.place target.place)
      (.of_eq (by rw [run_attempt, hrun]) hwf₃ (fun location hout => .inl ?_) ⟨rfl, rfl⟩) ?_
    · rw [hmove, if_neg (hout _ (by simp)), if_neg (hout _ (by simp))]
    · rintro _ _ hwf' - ⟨rfl, rfl⟩
      refine .pure hwf' ⟨fun hpre => hthere (hfree _ hpre), fun location hpre hout => ?_⟩
      rw [hmove, if_neg hout, if_pos hpre]

end DebRelease.FileTree
