import DebRelease.FileTree.Directory
import DebRelease.Proofs.FileTree.Edit
import DebRelease.Proofs.FileTree.Plain

namespace DebRelease.FileTree

open TreeM

variable {t t' t'' : FileTree} {cwd : WorkingDir} {p q : Path} {place other dir location : Location}
    {name : Bytes} {entry : Entry} {slash : Bool}

/-- Nothing changes but that directories at or above a place are made. -/
def OnlyMakes (place : Location) (t t' : FileTree) : Prop :=
  ∀ location, t'.get? location = t.get? location ∨
    t.get? location = none ∧ t'.get? location = some .directory ∧ location <+: place

/-- Nothing changes but what lies at or below some places, and that directories above them are made. -/
def Within (places : List Location) (t t' : FileTree) : Prop :=
  ∀ location, (∀ place ∈ places, ¬ place <+: location) → t'.get? location = t.get? location ∨
    t.get? location = none ∧ t'.get? location = some .directory ∧ ∃ place ∈ places, location <+: place

namespace OnlyMakes

theorem refl (place : Location) (t : FileTree) : OnlyMakes place t t :=
  fun _ => .inl rfl

theorem trans (h : OnlyMakes place t t') (h' : OnlyMakes place t' t'') : OnlyMakes place t t'' := by
  intro location
  rcases h' location with hsame' | ⟨hnone', hmade', habove⟩
  · rw [hsame']
    exact h location
  · rcases h location with hsame | ⟨-, hmade, -⟩
    · exact .inr ⟨hsame ▸ hnone', hmade', habove⟩
    · rw [hmade] at hnone'
      cases hnone'

theorem of_prefix (h : OnlyMakes other t t') (hpre : other <+: place) : OnlyMakes place t t' :=
  fun location => (h location).imp_right fun ⟨hnone, hmade, habove⟩ => ⟨hnone, hmade, habove.trans hpre⟩

theorem within (h : OnlyMakes place t t') : Within [place] t t' :=
  fun location _ => (h location).imp_right fun ⟨hnone, hmade, habove⟩ =>
    ⟨hnone, hmade, place, List.mem_singleton_self _, habove⟩

theorem isPlain (h : OnlyMakes place t t') (hplain : t.IsPlain location) : t'.IsPlain location := by
  intro above hpre link hget
  rcases h above with hsame | ⟨-, hmade, -⟩
  · exact hplain above hpre link (hsame ▸ hget)
  · rw [hmade] at hget
    cases hget

/-- What is made at a place is not below it. -/
theorem get?_append (h : OnlyMakes place t t') {rest : Location} (hrest : rest ≠ []) :
    t'.get? (place ++ rest) = t.get? (place ++ rest) := by
  rcases h (place ++ rest) with hsame | ⟨-, -, hpre⟩
  · exact hsame
  · have hlength := hpre.length_le
    rw [List.length_append] at hlength
    exact absurd (List.length_eq_zero_iff.mp (by omega)) hrest

end OnlyMakes

namespace Within

variable {places places' : List Location}

theorem refl (places : List Location) (t : FileTree) : Within places t t :=
  fun _ _ => .inl rfl

theorem trans (h : Within places t t') (h' : Within places t' t'') : Within places t t'' := by
  intro location hout
  rcases h' location hout with hsame' | ⟨hnone', hmade', habove⟩
  · rw [hsame']
    exact h location hout
  · rcases h location hout with hsame | ⟨-, hmade, -⟩
    · exact .inr ⟨hsame ▸ hnone', hmade', habove⟩
    · rw [hmade] at hnone'
      cases hnone'

theorem mono (h : Within places t t') (hsubset : places ⊆ places') : Within places' t t' := by
  intro location hout
  refine (h location fun place hmem => hout place (hsubset hmem)).imp_right ?_
  rintro ⟨hnone, hmade, place, hmem, habove⟩
  exact ⟨hnone, hmade, place, hsubset hmem, habove⟩

/-- What lies outside and is there, or does not lie above, stays as it is. -/
theorem get?_eq (h : Within places t t') (hout : ∀ place ∈ places, ¬ place <+: location)
    (hthere : t.get? location ≠ none ∨ ∀ place ∈ places, ¬ location <+: place) :
    t'.get? location = t.get? location := by
  rcases h location hout with hsame | ⟨hnone, -, place, hmem, habove⟩
  · exact hsame
  · rcases hthere with hthere | hapart
    · exact absurd hnone hthere
    · exact absurd habove (hapart place hmem)

/-- No link is put above the places or beside them. -/
theorem isPlain (h : Within places t t') (hplain : t.IsPlain location)
    (hout : ∀ place ∈ places, ¬ place <+: location) : t'.IsPlain location := by
  intro above hpre link hget
  rcases h above fun place hmem hin => hout place hmem (hin.trans hpre) with hsame | ⟨-, hmade, -⟩
  · exact hplain above hpre link (hsame ▸ hget)
  · rw [hmade] at hget
    cases hget

end Within

/-- Whatever comes of a computation, the tree stays well-formed and changes within some places only, and
    `P` holds of a success and the tree it leaves. -/
structure Alters {ε α : Type} (places : List Location) (m : TreeM ε α) (t : FileTree)
    (P : α → FileTree → Prop) : Prop where
  wellFormed : (m t).2.WellFormed
  within : Within places t (m t).2
  result : ∀ {a : α}, (m t).1 = .ok a → P a (m t).2

namespace Alters

variable {ε ε' α β : Type} {places places' : List Location} {m : TreeM ε α} {act : α → TreeM ε β}
    {P P' : α → FileTree → Prop} {Q : β → FileTree → Prop}

theorem refused (hwf : t.WellFormed) (h : Refused m t) : Alters places m t P := by
  obtain ⟨e, hrun⟩ := h
  refine ⟨?_, ?_, fun hok => ?_⟩
  · rw [hrun]
    exact hwf
  · rw [hrun]
    exact Within.refl places t
  · rw [hrun] at hok
    cases hok

theorem of_eq {a : α} (hrun : m t = (.ok a, t')) (hwf : t'.WellFormed) (hwithin : Within places t t')
    (h : P a t') : Alters places m t P := by
  refine ⟨by rwa [hrun], by rwa [hrun], fun hok => ?_⟩
  rw [hrun] at hok ⊢
  cases hok
  exact h

theorem pure {a : α} (hwf : t.WellFormed) (h : P a t) : Alters places (pure a : TreeM ε α) t P :=
  of_eq rfl hwf (Within.refl places t) h

theorem throw (hwf : t.WellFormed) (e : ε) : Alters places (throw e : TreeM ε α) t P :=
  refused hwf ⟨e, rfl⟩

theorem bind (h : Alters places m t P)
    (hact : ∀ a t', t'.WellFormed → Within places t t' → P a t' → Alters places (act a) t' Q) :
    Alters places (m >>= act) t Q := by
  obtain ⟨hwf, hwithin, hok⟩ := h
  cases hrun : m t with
  | mk outcome t' =>
    rw [hrun] at hwf hwithin hok
    cases outcome with
    | error e =>
      have hbind : (m >>= act) t = (.error e, t') := by rw [run_bind, hrun]
      refine ⟨by rwa [hbind], by rwa [hbind], fun hok => ?_⟩
      rw [hbind] at hok
      cases hok
    | ok a =>
      have hbind : (m >>= act) t = act a t' := by rw [run_bind, hrun]
      obtain ⟨hwf', hwithin', hok'⟩ := hact a t' hwf hwithin (hok rfl)
      exact ⟨by rwa [hbind], by rw [hbind]; exact hwithin.trans hwithin', by rwa [hbind]⟩

theorem look {f : FileTree → Except ε β} {act : β → TreeM ε α} (hwf : t.WellFormed)
    (h : ∀ b, f t = .ok b → Alters places (act b) t P) : Alters places (look f >>= act) t P := by
  cases hf : f t with
  | error e => exact refused hwf ⟨e, by rw [run_bind, run_look, hf]⟩
  | ok b =>
    have hrun : (TreeM.look f >>= act) t = act b t := by rw [run_bind, run_look, hf]
    obtain ⟨hwf', hwithin, hok⟩ := h b hf
    exact ⟨by rwa [hrun], by rwa [hrun], by rwa [hrun]⟩

theorem get {act : FileTree → TreeM ε α} (h : Alters places (act t) t P) : Alters places (get >>= act) t P :=
  ⟨h.wellFormed, h.within, h.result⟩

theorem mono (h : Alters places m t P) (hsubset : places ⊆ places')
    (hP : ∀ a t', t'.WellFormed → Within places t t' → P a t' → P' a t') : Alters places' m t P' :=
  ⟨h.wellFormed, h.within.mono hsubset, fun hok => hP _ _ h.wellFormed h.within (h.result hok)⟩

theorem describe (h : Alters places m t P) (f : ε → ε') : Alters places (m.describe f) t P := by
  obtain ⟨hwf, hwithin, hok⟩ := h
  refine ⟨hwf, hwithin, fun hdescribed => hok ?_⟩
  rw [run_describe] at hdescribed
  cases hrun : (m t).1 with
  | error e =>
    rw [hrun] at hdescribed
    cases hdescribed
  | ok a =>
    rw [hrun] at hdescribed
    cases hdescribed
    rfl

end Alters

/-- A path that stands in a directory of a tree without links in its way, with the entry that it names. -/
structure Stands (t : FileTree) (p : Path) (dir : Location) (name : Bytes) : Prop where
  directory : t.get? dir = some .directory
  isEntryName : Path.IsEntryName name
  place : dir ++ [name] = p.place

theorem stands_of_parent (hdirect : p.IsDirect) (hplain : t.IsPlain p.place)
    (h : t.resolveParent cwd p = .ok (dir, .name name slash)) (hlength : name.length ≤ Path.nameLimit) :
    t.Stands p dir name :=
  ⟨resolveParent_directory h, isEntryName_of_parent h hlength, resolveParent_place hdirect hplain h⟩

namespace Stands

theorem place_ne_nil (h : t.Stands p dir name) : p.place ≠ [] := by
  rw [← h.place]
  simp

/-- An entry may be put at the place of the path. -/
theorem wellFormed_set (h : t.Stands p dir name) (hwf : t.WellFormed)
    (hnot : t.get? p.place ≠ some .directory) (hlink : ∀ link, entry = .symlink link → checkPath link = .ok ()) :
    (t.set p.place entry).WellFormed := by
  rw [← h.place] at hnot ⊢
  exact hwf.set h.directory h.isEntryName hnot hlink

end Stands

theorem onlyMakes_set (hne : place ≠ []) (hnone : t.get? place = none) :
    OnlyMakes place t (t.set place .directory) := by
  intro location
  by_cases heq : location = place
  · subst heq
    exact .inr ⟨hnone, get?_set_self t _ hne, List.prefix_rfl⟩
  · exact .inl (get?_set_of_ne t _ hne heq)

/-- Making a directory fails and changes nothing, or makes it at the place of the path. -/
theorem makeDir_at (cwd : WorkingDir) (hwf : t.WellFormed) (hdirect : p.IsDirect) (hplain : t.IsPlain p.place) :
    Refused (makeDir cwd p) t ∨ ∃ after, makeDir cwd p t = (.ok (), after) ∧ after.WellFormed ∧
      OnlyMakes p.place t after ∧ after.get? p.place = some .directory := by
  rcases makeDir_does cwd p t with hrefused | ⟨_, _, hrun, dir, name, slash, hparent, hlength, hnone, rfl⟩
  · exact .inl hrefused
  · have hstands := stands_of_parent hdirect hplain hparent hlength
    have hne := hstands.place_ne_nil
    rw [hstands.place] at hnone hrun
    exact .inr ⟨_, hrun, hstands.wellFormed_set hwf (by simp [hnone]) (by simp), onlyMakes_set hne hnone,
      get?_set_self t _ hne⟩

theorem get?_of_isDir (hdirect : p.IsDirect) (hplain : t.IsPlain p.place) (h : t.isDir cwd p = true) :
    t.get? p.place = some .directory := by
  rw [isDir] at h
  split at h
  · rename_i location entry hstat
    have hresolve := stat_eq_ok_iff.mp hstat
    have hplace : location = p.place := resolve_place hdirect hplain hresolve
    have hget : t.get? location = some entry := resolve_fits hresolve
    cases entry with
    | directory => rw [← hplace, hget]
    | _ => cases h
  · cases h

theorem bytes_isEmpty (hdirect : p.IsDirect) : p.bytes.isEmpty = false := by
  obtain ⟨rest, hrest⟩ := Path.isAbsolute_iff.mp hdirect.absolute
  simp [hrest]

/-- What a computation makes at a place: directories at most, and on success one at the place. -/
def Makes (place : Location) (m : TreeM SystemError Unit) (t : FileTree) : Prop :=
  (m t).2.WellFormed ∧ OnlyMakes place t (m t).2 ∧
    ((m t).1 = .ok () → (m t).2.get? place = some .directory)

private theorem makes_throw (hwf : t.WellFormed) (e : SystemError) : Makes place (throw e) t :=
  ⟨hwf, OnlyMakes.refl place t, fun h => by cases h⟩

private theorem makes_isDir (cwd : WorkingDir) (hwf : t.WellFormed) (hdirect : p.IsDirect) (hplain : t.IsPlain p.place)
    (e : SystemError) : Makes p.place (do if (← get).isDir cwd p then pure () else throw e) t := by
  rw [Makes, run_bind, run_get]
  dsimp only
  split
  · rename_i hdir
    exact ⟨hwf, OnlyMakes.refl _ t, fun _ => get?_of_isDir hdirect hplain hdir⟩
  · exact makes_throw hwf e

/-- Trying to make a directory, and doing something else if that is refused. -/
private theorem makes_attempt {act : SystemError → TreeM SystemError Unit} (hwf : t.WellFormed)
    (hdirect : p.IsDirect) (hplain : t.IsPlain p.place) (hact : ∀ e, Makes p.place (act e) t) :
    Makes p.place (do
      match ← attempt (makeDir cwd p) with
      | .ok () => pure ()
      | .error e => act e) t := by
  rw [Makes, run_bind, run_attempt]
  rcases makeDir_at cwd hwf hdirect hplain with ⟨e, hrun⟩ | ⟨after, hrun, hwf', hmakes, hget⟩
  · rw [hrun]
    exact hact e
  · rw [hrun]
    exact ⟨hwf', hmakes, fun _ => hget⟩

/-- Making a directory with some of those above it makes nothing else. -/
theorem makeDirsUpTo_makes (cwd : WorkingDir) (parents : Nat) (hwf : t.WellFormed)
    (hdirect : p.IsDirect) (hplain : t.IsPlain p.place) : Makes p.place (makeDirsUpTo cwd parents p) t := by
  induction parents generalizing p t with
  | zero =>
    rw [makeDirsUpTo, if_neg (by simp [bytes_isEmpty hdirect])]
    refine makes_attempt hwf hdirect hplain fun e => ?_
    split
    · exact makes_throw hwf e
    · exact makes_isDir cwd hwf hdirect hplain e
  | succ parents ih =>
    rw [makeDirsUpTo, if_neg (by simp [bytes_isEmpty hdirect])]
    refine makes_attempt hwf hdirect hplain fun e => ?_
    split
    · cases hparent : p.parent? with
      | none => exact makes_throw hwf e
      | some above =>
        obtain ⟨habove, hplace⟩ := hdirect.parent hparent
        have hpre : above.place <+: p.place := hplace ▸ List.dropLast_prefix _
        obtain ⟨hwf', hmakes, -⟩ := ih hwf habove (hplain.of_prefix hpre)
        rw [Makes]
        dsimp only
        rw [run_bind]
        cases hrun : makeDirsUpTo cwd parents above t with
        | mk outcome after =>
          rw [hrun] at hwf' hmakes
          have hmakes' := hmakes.of_prefix hpre
          cases outcome with
          | error e' => exact ⟨hwf', hmakes', fun h => by cases h⟩
          | ok =>
            have hplain' := hmakes'.isPlain hplain
            obtain ⟨hwf'', hagain, hget⟩ :=
              makes_attempt hwf' hdirect hplain' fun e => makes_isDir cwd hwf' hdirect hplain' e
            exact ⟨hwf'', hmakes'.trans hagain, hget⟩
    · exact makes_isDir cwd hwf hdirect hplain e

/-- Making a directory with those above it makes nothing else. -/
theorem makeDirs_alters (cwd : WorkingDir) (hwf : t.WellFormed) (hdirect : p.IsDirect)
    (hplain : t.IsPlain p.place) (hpre : p.place <+: place) :
    Alters [place] (makeDirs cwd p) t fun _ t' =>
      OnlyMakes p.place t t' ∧ t'.get? p.place = some .directory := by
  obtain ⟨hwf', hmakes, hmade⟩ := makeDirsUpTo_makes cwd p.bytes.length hwf hdirect hplain
  exact ⟨hwf', (hmakes.of_prefix hpre).within, fun hok => ⟨hmakes, hmade hok⟩⟩

theorem within_erase (hne : place ≠ []) : Within [place] t (t.erase place) := by
  intro location hout
  refine .inl ?_
  rw [get?_erase t hne, if_neg]
  rintro rfl
  exact hout _ (List.mem_singleton_self _) List.prefix_rfl

theorem within_clear (place : Location) (t : FileTree) : Within [place] t (t.clear place) := by
  intro location hout
  refine .inl ?_
  rw [get?_clear, if_neg]
  exact fun hbelow => hout _ (List.mem_singleton_self _) (isBelow_iff.mp hbelow).1

theorem isPlain_clear (hplain : t.IsPlain location) (place : Location) : (t.clear place).IsPlain location := by
  refine hplain.of_links fun above link hget => ?_
  rw [get?_clear] at hget
  split at hget
  · cases hget
  · exact hget

theorem isPlain_erase (hplain : t.IsPlain location) (hne : place ≠ []) : (t.erase place).IsPlain location := by
  refine hplain.of_links fun above link hget => ?_
  rw [get?_erase t hne] at hget
  split at hget
  · cases hget
  · exact hget

theorem isPlain_set (hplain : t.IsPlain location) (hne : place ≠ []) (hlink : entry.isSymlink = false) :
    (t.set place entry).IsPlain location := by
  refine hplain.of_links fun above link hget => ?_
  rw [get?_set t entry hne] at hget
  split at hget
  · cases hget
    cases hlink
  · exact hget

/-- A tree without anything at or below a place. -/
def Without (place : Location) (t t' : FileTree) : Prop :=
  ∀ location, t'.get? location = if place <+: location then none else t.get? location

theorem without_erase_clear (hne : place ≠ []) : Without place t ((t.clear place).erase place) := by
  intro location
  rw [get?_erase _ hne, get?_clear]
  by_cases hpre : place <+: location
  · rw [if_pos hpre]
    split
    · rfl
    · rename_i hother
      rw [if_pos (isBelow_iff.mpr ⟨hpre, Ne.symm hother⟩)]
  · have hself : location ≠ place := by
      rintro rfl
      exact hpre List.prefix_rfl
    rw [if_neg hpre, if_neg hself, if_neg fun hbelow => hpre (isBelow_iff.mp hbelow).1]

namespace Without

theorem of_none (hwf : t.WellFormed) (hnone : t.get? place = none) : Without place t t := by
  intro location
  split
  · rename_i hpre
    exact hwf.none_of_prefix hnone hpre
  · rfl

theorem isPlain (h : Without place t t') (hplain : t.IsPlain location) : t'.IsPlain location := by
  refine hplain.of_links fun above link hget => ?_
  rw [h] at hget
  split at hget
  · cases hget
  · exact hget

theorem within (h : Without place t t') : Within [place] t t' := by
  intro location hout
  rw [h, if_neg (hout place (List.mem_singleton_self _))]
  exact .inl rfl

theorem get?_eq_none (h : Without place t t') (hpre : place <+: location) : t'.get? location = none := by
  rw [h, if_pos hpre]

end Without

theorem removeAll_eq (cwd : WorkingDir) (p : Path) (t : FileTree) : removeAll cwd p t =
    match removeAllAt cwd p t with
    | (.ok (), t') => (.ok (), t')
    | (.error e, t') => if e.isNotFound then (.ok (), t') else (.error (.file "removing directory" p e), t') := by
  rw [removeAll, run_bind, run_attempt]
  obtain ⟨outcome, t'⟩ := removeAllAt cwd p t
  cases outcome with
  | ok => rfl
  | error e => cases h : e.isNotFound <;> simp [h]

/-- Removing a directory that is not there is refused or does nothing, and one that is there is refused, or cleared
    and not removed, or removed. -/
theorem removeAll_cases (cwd : WorkingDir) (hwf : t.WellFormed) (hdirect : p.IsDirect) (hplain : t.IsPlain p.place) :
    (∃ e, removeAll cwd p t = (.error e, t)) ∨
      t.get? p.place = none ∧ removeAll cwd p t = (.ok (), t) ∨
      t.get? p.place = some .directory ∧ ((∃ e, removeAll cwd p t = (.error e, t.clear p.place)) ∨
        p.place ≠ [] ∧ ((t.clear p.place).erase p.place).WellFormed ∧
          removeAll cwd p t = (.ok (), (t.clear p.place).erase p.place)) := by
  rw [removeAll_eq, removeAllAt, run_bind, run_look]
  cases hlstat : t.lstat cwd p with
  | error e =>
    dsimp only
    split
    · rename_i hnotFound
      have he : e = .os .noEntry := by simpa [SystemError.isNotFound] using hnotFound
      exact .inr (.inl ⟨lstat_noEntry hwf hdirect hplain (he ▸ hlstat), rfl⟩)
    · exact .inl ⟨_, rfl⟩
  | ok found =>
    obtain ⟨location, entry⟩ := found
    have hresolve := lstat_eq_ok_iff.mp hlstat
    have hplace : location = p.place := resolve_place hdirect hplain hresolve
    have hget : t.get? p.place = some entry := hplace ▸ resolve_fits hresolve
    subst hplace
    cases entry with
    | symlink link => exact absurd hget (hplain _ List.prefix_rfl link)
    | file content executable => exact .inl ⟨_, rfl⟩
    | directory =>
      have hwf' := hwf.clear p.place
      have hplain' := isPlain_clear hplain p.place
      have hthere : (t.clear p.place).get? p.place = some .directory := by
        rw [get?_clear, if_neg (by simp [isBelow]), hget]
      dsimp only
      rw [run_bind, run_modify]
      dsimp only
      rw [run_bind, run_attempt]
      refine .inr (.inr ⟨hget, ?_⟩)
      rcases removeDir_does cwd p (t.clear p.place) with
        ⟨e, hrun⟩ | ⟨_, _, hrun, dir, name, slash, hparent, hlength, -, hempty, rfl⟩
      · have hkept : e ≠ .os .noEntry := by
          rintro rfl
          rcases removeDir_noEntry (by rw [hrun]) with hmissing | ⟨dir, name, slash, hparent, hnone⟩
          · rw [resolveParent_noEntry hwf' hdirect hplain' hmissing] at hthere
            cases hthere
          · rw [resolveParent_place hdirect hplain' hparent, hthere] at hnone
            cases hnone
        have hnot : e.isNotFound = false := by simpa [SystemError.isNotFound] using hkept
        refine .inl ⟨.file "removing directory" p e, ?_⟩
        rw [hrun]
        simp only [hnot, run_throw, Bool.false_eq_true, if_false]
      · have hstands := stands_of_parent hdirect hplain' hparent hlength
        have hne := hstands.place_ne_nil
        rw [hstands.place] at hempty hrun
        refine .inr ⟨hne, hwf'.erase hne (hwf'.below_isEmpty_iff.mp hempty), ?_⟩
        rw [hrun]
        rfl

/-- Removing a directory removes nothing else, and on success all of it. -/
theorem removeAll_alters (cwd : WorkingDir) (hwf : t.WellFormed) (hdirect : p.IsDirect)
    (hplain : t.IsPlain p.place) : Alters [p.place] (removeAll cwd p) t fun _ t' => Without p.place t t' := by
  rcases removeAll_cases cwd hwf hdirect hplain with
    hrefused | ⟨hnone, hrun⟩ | ⟨-, ⟨e, hrun⟩ | ⟨hne, hwf', hrun⟩⟩
  · exact .refused hwf hrefused
  · exact .of_eq hrun hwf (Within.refl _ t) (.of_none hwf hnone)
  · refine ⟨by rw [hrun]; exact hwf.clear _, by rw [hrun]; exact within_clear _ t, fun hok => ?_⟩
    rw [hrun] at hok
    cases hok
  · exact .of_eq hrun hwf' ((within_clear _ t).trans (within_erase hne)) (without_erase_clear hne)

/-- Making a directory empty changes nothing else but that those above it are made. -/
theorem recreate_alters (cwd : WorkingDir) (hwf : t.WellFormed) (hdirect : p.IsDirect)
    (hplain : t.IsPlain p.place) : Alters [p.place] (recreate cwd p) t fun _ t' =>
      ∃ removed, Without p.place t removed ∧ OnlyMakes p.place removed t' ∧ t'.get? p.place = some .directory := by
  refine (removeAll_alters cwd hwf hdirect hplain).bind fun _ removed hwf' _ hwithout => ?_
  have hmakes := makeDirs_alters cwd hwf' hdirect (hwithout.isPlain hplain) List.prefix_rfl
  exact (hmakes.describe _).mono (List.Subset.refl _) fun _ t' _ _ hmade => ⟨removed, hwithout, hmade⟩

end DebRelease.FileTree
