import DebRelease.Proofs.FileTree.Outside
import DebRelease.Proofs.FileTree.Overlap

namespace DebRelease.FileTree

open TreeM

variable {t t' made copied : FileTree} {cwd : WorkingDir} {p q : Path} {source target place location rest : Location}
    {doomed : Location → Prop} {entry : Entry} {e : Failure}

/-- What goes when what is at a path is removed: all at and below it, unless it is a file. -/
def Doomed (t : FileTree) (cwd : WorkingDir) (p : Path) (location : Location) : Prop :=
  ∃ place entry, t.lstat cwd p = .ok (place, entry) ∧ (∀ bytes is, entry ≠ .file bytes is) ∧ place <+: location

theorem not_doomed {e : SystemError} (h : t.lstat cwd p = .error e) (location : Location) :
    ¬ t.Doomed cwd p location := by
  rintro ⟨_, _, hlstat, -⟩
  rw [h] at hlstat
  cases hlstat

/-- All that is at and below a place, but what is doomed, is at and below a place of another tree. -/
def Survives (t : FileTree) (doomed : Location → Prop) (source : Location) (t' : FileTree) (place : Location) : Prop :=
  ∀ rest entry, ¬ doomed (source ++ rest) → t.get? (source ++ rest) = some entry →
    t'.get? (place ++ rest) = some entry

/-- Removes what is at a path, and makes a directory there that can be copied to. -/
def makeRoom (cwd : WorkingDir) (q : Path) : TreeM Failure Unit := do
  removeAll cwd q
  makeParent cwd q
  makeTarget cwd q

/-- Moves a directory as it is done where it cannot be renamed. -/
def moveByCopy (cwd : WorkingDir) (p q : Path) : TreeM Failure Unit := do
  requireDir cwd p
  removeAll cwd q
  makeParent cwd q
  copyDir cwd p q
  removeAll cwd p

/-- What work on a tree leaves that takes nothing but what is doomed. -/
structure TakesOnly (doomed : Location → Prop) (t t' : FileTree) : Prop where
  wellFormed : t'.WellFormed
  kept : ∀ {location : Location} {entry : Entry}, ¬ doomed location → t.get? location = some entry →
    t'.get? location = some entry

namespace TakesOnly

theorem refl (hwf : t.WellFormed) : TakesOnly doomed t t :=
  ⟨hwf, fun _ hget => hget⟩

theorem grows {t'' : FileTree} (h : TakesOnly doomed t t') (hgrows : Grows t' t'') : TakesOnly doomed t t'' :=
  ⟨hgrows.wellFormed, fun hspared hget => hgrows.get?_eq (h.kept hspared hget)⟩

theorem survives (h : TakesOnly doomed t t') (source : Location) : t.Survives doomed source t' source :=
  fun _ _ => h.kept

theorem clear (h : TakesOnly doomed t t') (hdoomed : ∀ location, place <+: location → doomed location) :
    TakesOnly doomed t (t'.clear place) := by
  refine ⟨h.wellFormed.clear place, fun hspared hget => ?_⟩
  rw [get?_clear, if_neg, h.kept hspared hget]
  exact fun hbelow => hspared (hdoomed _ (isBelow_iff.mp hbelow).1)

theorem erase (h : TakesOnly doomed t t') (hne : place ≠ []) (hempty : ∀ rest ≠ [], t'.get? (place ++ rest) = none)
    (hdoomed : doomed place) : TakesOnly doomed t (t'.erase place) := by
  refine ⟨h.wellFormed.erase hne hempty, fun hspared hget => ?_⟩
  rw [get?_erase _ hne, if_neg, h.kept hspared hget]
  rintro rfl
  exact hspared hdoomed

end TakesOnly

private theorem removeAllAt_takesOnly (cwd : WorkingDir) (p : Path) (hwf : t.WellFormed) :
    TakesOnly (t.Doomed cwd p) t (removeAllAt cwd p t).2 := by
  rw [removeAllAt, run_bind, run_look]
  cases hlstat : t.lstat cwd p with
  | error e => exact .refl hwf
  | ok found =>
    obtain ⟨place, found⟩ := found
    have hdoomed (hfile : ∀ bytes is, found ≠ .file bytes is) (location : Location) (hin : place <+: location) :
        t.Doomed cwd p location := ⟨place, found, hlstat, hfile, hin⟩
    cases found with
    | file bytes is => exact .refl hwf
    | symlink link =>
      dsimp only
      rcases unlink_does cwd p t with ⟨e, hrun⟩ | ⟨_, _, hrun, dir, name, entry, hparent, hlength, hget, hnot, rfl⟩
      · rw [hrun]
        exact .refl hwf
      · have hsame := (StandsFor.mk hparent hlength).lstat hget
        rw [hlstat] at hsame
        cases hsame
        rw [hrun]
        exact (TakesOnly.refl hwf).erase (by simp) (fun rest hrest => hwf.none_below (by simp [hget]) hrest)
          (hdoomed (by simp) _ List.prefix_rfl)
    | directory =>
      have hcleared := (TakesOnly.refl hwf).clear (hdoomed (by simp))
      dsimp only
      rw [run_bind, run_modify]
      dsimp only
      rw [run_bind, run_attempt]
      rcases removeDir_does cwd p (t.clear place) with
        ⟨e, hrun⟩ | ⟨_, _, hrun, dir, name, slash, hparent, hlength, hget, hempty, rfl⟩
      · rw [hrun]
        dsimp only
        split
        all_goals exact hcleared
      · rw [hrun]
        -- what is removed in the end is what was found first: the way there has not changed
        have hleads := (leads_of_parent hparent hlength hget).keeps (keeps_of_clear t place)
        obtain rfl := hleads.unique (leads_of_stat (stat_of_lstat rfl hlstat))
        exact hcleared.erase (by simp) (hcleared.wellFormed.below_isEmpty_iff.mp hempty)
          (hdoomed (by simp) _ List.prefix_rfl)

/-- Whether or not it succeeds, removing what is at a path takes nothing else. -/
theorem removeAll_takesOnly (cwd : WorkingDir) (p : Path) (hwf : t.WellFormed) :
    TakesOnly (t.Doomed cwd p) t (removeAll cwd p t).2 := by
  have htakes := removeAllAt_takesOnly cwd p hwf
  rw [removeAll_eq]
  cases hrun : removeAllAt cwd p t with
  | mk outcome after =>
    rw [hrun] at htakes
    cases outcome with
    | ok => exact htakes
    | error e =>
      dsimp only
      split
      all_goals exact htakes

/-- A directory whose removal fails is still there, whatever has gone below it. -/
theorem get?_of_removeAll_error (hlstat : t.lstat cwd p = .ok (place, .directory))
    (h : removeAll cwd p t = (.error e, t')) : t'.get? place = some .directory := by
  have hthere : (t.clear place).get? place = some .directory := by
    rw [get?_clear, if_neg (by simp [isBelow])]
    exact resolve_fits (lstat_eq_ok_iff.mp hlstat)
  rw [removeAll_eq, removeAllAt, run_bind, run_look, hlstat] at h
  dsimp only at h
  rw [run_bind, run_modify] at h
  dsimp only at h
  rw [run_bind, run_attempt] at h
  rcases removeDir_does cwd p (t.clear place) with ⟨e', hrun⟩ | ⟨_, _, hrun, -⟩
  · rw [hrun] at h
    dsimp only at h
    cases hfound : e'.isNotFound with
    | true =>
      simp only [hfound, if_true, run_pure] at h
      cases h
    | false =>
      simp only [hfound, Bool.false_eq_true, if_false, run_throw] at h
      cases h
      exact hthere
  · rw [hrun] at h
    cases h

/-- Renaming that fails changes nothing. -/
theorem rename_atomic (cwd : WorkingDir) (p q : Path) (t : FileTree) : Does (rename cwd p q) t fun _ _ => True := by
  refine .look fun _ _ => .look fun _ _ => .look fun ⟨sourceDir, sourceLast⟩ _ =>
    .look fun ⟨targetDir, targetLast⟩ _ => ?_
  cases sourceLast with
  | name sourceName sourceSlash =>
    cases targetLast with
    | name targetName targetSlash =>
      refine .check fun _ => .get ?_
      cases t.get? (sourceDir ++ [sourceName]) with
      | none => exact .refuse _
      | some entry =>
        refine .check fun _ => .check fun _ => .check fun _ => ?_
        split
        · exact .inr ⟨(), t, rfl, trivial⟩
        · refine .get ?_
          split
          · exact .modify _ trivial
          · exact .get (.check fun _ => .modify _ trivial)
          · exact .refuse _
          · exact .refuse _
          · exact .modify _ trivial
    | _ => exact .refuse _
  | _ => cases targetLast <;> exact .refuse _

/-- Work that goes on after other work may be replaced, if it fails as that does. -/
private theorem bind_error {ε α β : Type} {m : TreeM ε α} {act act' : α → TreeM ε β} {e : ε}
    (h : (m >>= act) t = (.error e, t'))
    (hact : ∀ a after, act a after = (.error e, t') → act' a after = (.error e, t')) :
    (m >>= act') t = (.error e, t') := by
  rw [run_bind] at h ⊢
  cases hrun : m t with
  | mk outcome after =>
    rw [hrun] at h
    cases outcome with
    | error => exact h
    | ok a => exact hact a after h

/-- Moving fails only as copying and removing does. -/
theorem moveByCopy_of_moveDir (h : moveDir cwd p q t = (.error e, t')) : moveByCopy cwd p q t = (.error e, t') := by
  refine bind_error h fun _ _ h => bind_error h fun _ _ h => bind_error h fun _ ready h => ?_
  rw [run_bind, run_attempt] at h
  rcases rename_atomic cwd p q ready with ⟨_, hrun⟩ | ⟨_, _, hrun, -⟩
  · rw [hrun] at h
    exact h
  · rw [hrun] at h
    cases h

namespace Copy

variable {c : Copy} {inner : Location}

/-- Copies come upon no link and upon no file of what is copied, and are put neither at nor below it unless the
    directory they go to is in it. -/
structure Detached (c : Copy) : Prop where
  /-- No link is where a copy is to be put. -/
  noLink : ∀ rest link, c.Comes rest → c.made.get? (c.target ++ rest) ≠ some (.symlink link)
  noFile : ∀ rest bytes is, c.Comes rest → c.made.get? (c.target ++ rest) = some (.file bytes is) →
    ¬ c.source <+: c.target ++ rest
  /-- Copies are put in what is copied only if the directory they go to is. -/
  outside : ∀ rest, c.made.get? (c.source ++ rest) ≠ none → c.source <+: c.target ++ rest →
    ∃ inner, inner ≠ [] ∧ c.target = c.source ++ inner

namespace Detached

theorem spares (h : c.Detached) : c.Spares :=
  fun rest hcomes =>
    ⟨fun bytes is => h.noFile rest bytes is hcomes, fun link hget => absurd hget (h.noLink rest link hcomes)⟩

theorem not_linked (h : c.Detached) (location : Location) : ¬ c.Linked location :=
  fun ⟨_, rest, link, _, _, hcomes, hget, _⟩ => h.noLink rest link hcomes hget

end Detached

/-- A directory is detached from directories in which there are only directories, unless they hold it. -/
theorem detached_of_directories (hnot : ¬ c.target <+: c.source)
    (h : ∀ rest entry, c.made.get? (c.target ++ rest) = some entry → entry = .directory) : c.Detached where
  noLink := fun rest _ _ hget => Entry.noConfusion (h rest _ hget)
  noFile := fun rest _ _ _ hget => Entry.noConfusion (h rest _ hget)
  outside := by
    intro rest _ hin
    rcases List.prefix_or_prefix_of_prefix hin (List.prefix_append _ _) with ⟨inner, hinner⟩ | hback
    · refine ⟨inner, ?_, hinner.symm⟩
      rintro rfl
      rw [List.append_nil] at hinner
      exact hnot (hinner ▸ List.prefix_rfl)
    · exact absurd hback hnot

/-- Copying a directory into one below it does not succeed: it comes to what it has put there, again and again, until a
    path is too long. -/
theorem copyBelow_inward (hspares : c.Spares) (hwf : c.made.WellFormed) (depth : Nat) (h : c.Copying rest t)
    (hfresh : c.Fresh t (c.target ++ rest)) (hne : inner ≠ [])
    (hinward : c.target ++ rest = c.source ++ rest ++ inner) :
    ∃ e t', copyBelow c.cwd depth (c.p.descend rest) (c.q.descend rest) t = (.error e, t') := by
  induction depth generalizing rest inner t with
  | zero => exact ⟨_, _, rfl⟩
  | succ depth ih =>
    cases hlist : t.listEntries c.cwd (c.p.descend rest) with
    | error e => exact ⟨_, _, copyBelow_of_error hlist depth _⟩
    | ok entries =>
      obtain ⟨name, inner, rfl⟩ := List.exists_cons_of_ne_nil hne
      obtain ⟨-, -, hentries⟩ := h.listed hfresh hlist
      -- the directory on the way to the target is one of those that are copied to it
      have hway : t.get? (c.source ++ rest ++ [name]) = some .directory := by
        have htarget := h.writes.directory
        rw [hinward, List.append_cons] at htarget
        by_cases hnil : inner = []
        · rwa [hnil, List.append_nil] at htarget
        · exact h.underway.persists.wellFormed.directory_above hnil htarget
      obtain ⟨front, back, rfl⟩ := List.append_of_mem (hentries.mpr hway)
      rw [copyBelow_of_list hlist, run_forM_append]
      cases hfront : front.forM (copyChild c.cwd depth (c.p.descend rest) (c.q.descend rest)) t with
      | mk outcome t' =>
        cases outcome with
        | error e => exact ⟨e, t', rfl⟩
        | ok =>
          obtain ⟨hcome, hitem⟩ := h.next hspares hwf hfresh hlist hfront
          dsimp only
          rw [run_forM_cons, copyChild, run_bind, ← Path.descend_concat, ← Path.descend_concat]
          cases hcopied :
            copyEntry c.cwd .directory (c.p.descend (rest ++ [name])) (c.q.descend (rest ++ [name])) t' with
          | mk outcome t'' =>
            cases outcome with
            | error e => exact ⟨e, t'', rfl⟩
            | ok =>
              obtain ⟨hbelow, hfresh'⟩ := hcome.enter hspares hitem rfl hcopied
              have hinward' : c.target ++ (rest ++ [name]) = c.source ++ (rest ++ [name]) ++ (inner ++ [name]) := by
                rw [← List.append_assoc, hinward]
                simp
              obtain ⟨e, after, hrun⟩ := ih hbelow hfresh' (by simp) hinward'
              refine ⟨e, after, ?_⟩
              simp [Entry.isDirectory, hrun]

end Copy

theorem Survives.trans {t'' : FileTree} (h : t.Survives doomed source t' source)
    (h' : t'.Survives doomed source t'' place) : t.Survives doomed source t'' place :=
  fun rest entry hspared hget => h' rest entry hspared (h rest entry hspared hget)

theorem Grows.survives (h : Grows t t') (source : Location) : t.Survives doomed source t' source :=
  fun _ _ _ => h.get?_eq

/-- When a directory has been made to copy to, what is copied is still the source, and it is detached from what it goes
    to. -/
structure KeepsApart (made : FileTree) (cwd : WorkingDir) (p q : Path) (source : Location) : Prop where
  reads : ∀ place, made.Leads cwd p place → place = source
  /-- Copies to where the other leads come upon nothing of it. -/
  writes : ∀ target, made.Leads cwd q target → Copy.Detached ⟨made, cwd, p, q, source, target⟩

/-- Nothing is in a directory of which no entries are listed. -/
private theorem none_of_listEntries (hwf : t.WellFormed) (hlist : t.listEntries cwd p = .ok [])
    (hstat : t.stat cwd p = .ok (place, .directory)) (hne : rest ≠ []) : t.get? (place ++ rest) = none := by
  obtain ⟨_, hstat', -, hentries⟩ := listEntries_eq_ok hwf hlist
  rw [hstat] at hstat'
  cases hstat'
  obtain ⟨name, rest, rfl⟩ := List.exists_cons_of_ne_nil hne
  rw [List.append_cons]
  refine hwf.none_of_prefix ?_ (List.prefix_append _ _)
  cases hget : t.get? (place ++ [name]) with
  | none => rfl
  | some entry => cases hentries.mpr hget

section Copied

variable (hwf : t.WellFormed) (hapart : ∀ made, makeTarget cwd q t = (.ok (), made) → made.KeepsApart cwd p q source)

include hwf hapart

/-- Copying that fails leaves what was to be copied where it was. -/
private theorem copyDir_failed (h : copyDir cwd p q t = (.error e, t')) : t.Survives doomed source t' source := by
  rcases copyDir_cases hwf with ⟨_, _, hrun, hgrows⟩ | ⟨place, made, hstat, hmake, hlstat, -⟩
  · rw [hrun] at h
    cases h
    exact hgrows.survives source
  · obtain rfl := (hapart made hmake).reads place (leads_of_stat (stat_of_lstat rfl hlstat))
    intro rest entry _ hget
    have hspared := copyDir_spared hwf hstat
      (fun made target hmake hleads => ((hapart made hmake).writes target hleads).spares) hget
    rwa [h] at hspared

/-- Copying that succeeds leaves all where it was to go, which is not where it was, unless there was nothing. -/
private theorem copyDir_arrived (h : copyDir cwd p q t = (.ok (), copied)) : copied.WellFormed ∧
    copied.lstat cwd p = .ok (source, .directory) ∧
      ((∃ made target, makeTarget cwd q t = (.ok (), made) ∧ made.Leads cwd q target ∧
        ∀ rest entry, t.get? (source ++ rest) = some entry →
          copied.get? (target ++ rest) = some entry ∧ ¬ source <+: target ++ rest) ∨
      ∀ rest entry, t.get? (source ++ rest) = some entry → rest = [] ∧ entry = .directory) := by
  rcases copyDir_cases hwf with ⟨_, _, hrun, -⟩ | ⟨place, made, hstat, hmake, hlstat, hrun⟩
  · rw [hrun] at h
    cases h
  have hsource := leads_of_stat (stat_of_lstat rfl hlstat)
  obtain rfl := (hapart made hmake).reads place hsource
  obtain ⟨hgrows, hmade⟩ := makeTarget_made hwf hmake
  rw [hrun] at h
  have hpersists := copyBelow_persists cwd Path.lengthLimit p q hgrows.wellFormed
  rw [h] at hpersists
  have hthere := hpersists.keeps.directory hsource.directory
  refine ⟨hpersists.wellFormed, hpersists.keeps.lstat hlstat hthere fun _ => rfl, ?_⟩
  by_cases hleads : ∃ target, made.Leads cwd q target
  · obtain ⟨target, hleads⟩ := hleads
    have hdetached := (hapart made hmake).writes target hleads
    have hcopying := copying_of_makeTarget hwf hstat hmake hleads
    have hfresh : Copy.Fresh ⟨made, cwd, p, q, place, target⟩ made (target ++ []) := fun _ _ => .inl rfl
    have hcopies := Copy.copyBelow_copies hdetached.spares hgrows.wellFormed Path.lengthLimit hcopying hfresh
    refine .inl ⟨made, target, hmake, hleads, fun rest entry hget => ⟨?_, fun hin => ?_⟩⟩
    · have harrived := hcopies.arrives hdetached.not_linked (congrArg Prod.fst h) [] (by simp) rest entry
      simp only [List.append_nil, Path.descend_nil, h] at harrived
      exact harrived (hgrows.get?_eq hget)
    · -- if the target were in the source, copying would not have succeeded
      obtain ⟨inner, hne, hinward⟩ := hdetached.outside rest (by simp [hgrows.get?_eq hget]) hin
      obtain ⟨e, after, hfailed⟩ := Copy.copyBelow_inward hdetached.spares hgrows.wellFormed Path.lengthLimit hcopying
        hfresh hne (by simpa using hinward)
      rw [show copyBelow cwd Path.lengthLimit p q made = _ from hfailed] at h
      cases h
  · -- then the path of the target is empty and there is no working directory, and only nothing can be copied
    rcases copyBelow_nowhere (not_exists.mp hleads) (hmade.resolve_right hleads) hgrows.wellFormed Path.lengthLimit p
      with ⟨e, hrefused⟩ | ⟨hlist, -⟩
    · rw [hrefused] at h
      cases h
    · refine .inr fun rest entry hget => ?_
      have hget' := hgrows.get?_eq hget
      by_cases hne : rest = []
      · rw [hne, List.append_nil, hsource.directory] at hget'
        exact ⟨hne, (Option.some.inj hget').symm⟩
      · rw [none_of_listEntries hgrows.wellFormed hlist (stat_of_lstat rfl hlstat) hne] at hget'
        cases hget'

end Copied

/-- If copying and then removing fails, all is where it was, or all is where it was to go. -/
private theorem copy_remove_failed (hwf : t.WellFormed)
    (hapart : ∀ made, makeTarget cwd q t = (.ok (), made) → made.KeepsApart cwd p q source)
    (h : (do copyDir cwd p q; removeAll cwd p) t = (.error e, t')) : t.Survives doomed source t' source ∨
      ∃ made target, makeTarget cwd q t = (.ok (), made) ∧ made.Leads cwd q target ∧
        t.Survives doomed source t' target := by
  rw [run_bind] at h
  cases hcopy : copyDir cwd p q t with
  | mk outcome copied =>
    rw [hcopy] at h
    cases outcome with
    | error e' =>
      cases h
      exact .inl (copyDir_failed hwf hapart hcopy)
    | ok =>
      have hremove : removeAll cwd p copied = (.error e, t') := h
      obtain ⟨hwf', hlstat, ⟨made, target, hmake, hleads, harrived⟩ | hempty⟩ := copyDir_arrived hwf hapart hcopy
      · have htakes := removeAll_takesOnly cwd p hwf'
        rw [hremove] at htakes
        refine .inr ⟨made, target, hmake, hleads, fun rest entry _ hget => ?_⟩
        obtain ⟨hthere, hout⟩ := harrived rest entry hget
        refine htakes.kept ?_ hthere
        rintro ⟨_, _, hlstat', -, hin⟩
        rw [hlstat] at hlstat'
        cases hlstat'
        exact hout hin
      · refine .inl fun rest entry _ hget => ?_
        obtain ⟨rfl, rfl⟩ := hempty rest entry hget
        rw [List.append_nil]
        exact get?_of_removeAll_error hlstat hremove

/-- A move that fails loses nothing of its source but what is removed at the target, whichever step fails, and also if
    renaming is never possible: all else is still where it was, files with what is in them, or all of it is at and below
    the directory that the target led to when it was made. For this, when there is room at the target, the path of the
    source still has to lead to it, and copies to come upon no link and no file of it and to be put neither at nor below
    it, unless the target is in it. -/
theorem moveDir_failure_keeps (hwf : t.WellFormed)
    (hapart : ∀ made, makeRoom cwd q t = (.ok (), made) → made.KeepsApart cwd p q source)
    (h : moveDir cwd p q t = (.error e, t') ∨ moveByCopy cwd p q t = (.error e, t')) :
    t.Survives (t.Doomed cwd q) source t' source ∨ ∃ made target, makeRoom cwd q t = (.ok (), made) ∧
      made.Leads cwd q target ∧ t.Survives (t.Doomed cwd q) source t' target := by
  replace h : moveByCopy cwd p q t = (.error e, t') := h.elim moveByCopy_of_moveDir id
  rw [moveByCopy, run_bind] at h
  rcases requireDir_does cwd p t with ⟨_, hrun⟩ | ⟨_, _, hrun, hsame, -⟩
  · rw [hrun] at h
    cases h
    exact .inl fun _ _ _ hget => hget
  rw [hrun, hsame] at h
  dsimp only at h
  rw [run_bind] at h
  have htakes := removeAll_takesOnly cwd q hwf
  cases hremove : removeAll cwd q t with
  | mk outcome cleared =>
    rw [hremove] at h htakes
    cases outcome with
    | error =>
      cases h
      exact .inl (htakes.survives source)
    | ok =>
      dsimp only at h
      rw [run_bind] at h
      have hgrows := makeParent_grows cwd q htakes.wellFormed
      cases hparent : makeParent cwd q cleared with
      | mk outcome ready =>
        rw [hparent] at h hgrows
        have hsurvives := (htakes.grows hgrows).survives source
        cases outcome with
        | error =>
          cases h
          exact .inl hsurvives
        | ok =>
          have hroom : makeRoom cwd q t = makeTarget cwd q ready := by
            rw [makeRoom, run_bind, hremove]
            dsimp only
            rw [run_bind, hparent]
          rw [hroom] at hapart ⊢
          rcases copy_remove_failed hgrows.wellFormed hapart h with hthere | ⟨made, target, hmake, hleads, harrived⟩
          · exact .inl (hsurvives.trans hthere)
          · exact .inr ⟨made, target, hmake, hleads, hsurvives.trans harrived⟩

/-- A directory that is given as `/s/.` can be copied, but cannot be removed: all is where it was to go. -/
theorem moveDir_failure_keeps_nested : ∃ e t', moveDir none "/s/." "/t" nested = (.error e, t') ∧
    ∀ rest entry, nested.get? (Path.place "/s" ++ rest) = some entry →
      t'.get? (Path.place "/t" ++ rest) = some entry := by
  have hmove : moveDir none "/s/." "/t" nested =
      (.error (.file "removing directory" "/s/." (.os .invalidArgument)), (moveDir none "/s/." "/t" nested).2) :=
    Prod.ext (by decide +kernel) rfl
  have hroom : makeRoom none "/t" nested = (.ok (), nested.set (Path.place "/t") .directory) :=
    Prod.ext (by decide +kernel) (by decide +kernel)
  have hreads : (nested.set (Path.place "/t") .directory).Leads none "/s/." (Path.place "/s") :=
    leads_of_stat (by decide +kernel)
  have hwrites : (nested.set (Path.place "/t") .directory).Leads none "/t" (Path.place "/t") :=
    leads_of_stat (by decide +kernel)
  have hfree : nested.lstat none "/t" = .error (.os .noEntry) := by decide +kernel
  have hapart : ∀ made, makeRoom none "/t" nested = (.ok (), made) →
      made.KeepsApart none "/s/." "/t" (Path.place "/s") := by
    intro made hmade
    cases hroom.symm.trans hmade
    refine ⟨fun place hleads => (hreads.unique hleads).symm, fun target hleads => ?_⟩
    cases hwrites.unique hleads
    exact Copy.detached_of_directories (by decide +kernel) (forall_contentAt.mpr (by decide +kernel))
  refine ⟨_, _, hmove, ?_⟩
  rcases moveDir_failure_keeps (by decide +kernel) hapart (.inl hmove) with
    hthere | ⟨made, target, hmade, hleads, harrived⟩
  · have hgone : (moveDir none "/s/." "/t" nested).2.get? (Path.place "/s" ++ Path.place "f") = none := by
      decide +kernel
    have hleft := hthere (Path.place "f") (.file [1] false) (not_doomed hfree _) (by decide +kernel)
    rw [hgone] at hleft
    cases hleft
  · cases hroom.symm.trans hmade
    cases hwrites.unique hleads
    exact fun rest entry => harrived rest entry (not_doomed hfree _)

/-- A directory with a file in a directory of the same name. -/
def doubled : FileTree :=
  ⟨[(Path.place "/z", .directory), (Path.place "/z/s", .directory), (Path.place "/z/s/s", .directory),
    (Path.place "/z/s/s/f", .file [1] false)]⟩

/-- A file is nowhere if no file has its content. -/
private theorem not_survives {bytes : Bytes} {is : Bool} (hget : t.get? (source ++ rest) = some (.file bytes is))
    (hgone : ∀ location entry, t'.get? ([] ++ location) = some entry → entry ≠ .file bytes is) :
    ¬ ∃ place, t.Survives (fun _ => False) source t' place := by
  rintro ⟨place, hsurvives⟩
  exact hgone (place ++ rest) _ (hsurvives rest _ not_false hget) rfl

/-- A directory that is moved in its own place is lost; what is removed at the target need not hold it for that, nor
    need copies come upon anything. -/
theorem not_moveDir_failure_keeps :
    (¬ ∀ (t : FileTree) (cwd : WorkingDir) (p q : Path) (source : Location), t.WellFormed →
      t.stat cwd p = .ok (source, .directory) → (moveDir cwd p q t).1 ≠ .ok () →
      ∃ place, t.Survives (fun _ => False) source (moveDir cwd p q t).2 place) ∧
    (¬ ∀ (t : FileTree) (cwd : WorkingDir) (p q : Path) (source : Location), t.WellFormed →
      t.stat cwd p = .ok (source, .directory) → (∀ location, ¬ t.Doomed cwd q location) →
      (moveDir cwd p q t).1 ≠ .ok () → ∃ place, t.Survives (fun _ => False) source (moveDir cwd p q t).2 place) ∧
    ¬ ∀ (t : FileTree) (cwd : WorkingDir) (p q : Path) (source : Location) (made : FileTree) (target : Location),
      t.WellFormed → t.stat cwd p = .ok (source, .directory) → (∀ location, ¬ t.Doomed cwd q location) →
      makeRoom cwd q t = (.ok (), made) → made.Leads cwd p source → made.Leads cwd q target →
      (∀ rest entry, made.get? (source ++ rest) = some entry → ∀ found, made.get? (target ++ rest) = some found →
        found = .directory) →
      (moveDir cwd p q t).1 ≠ .ok () → ∃ place, t.Survives (fun _ => False) source (moveDir cwd p q t).2 place := by
  have hnested : nested.get? (Path.place "/s" ++ Path.place "f") = some (.file [1] false) := by decide +kernel
  refine ⟨fun hclaim => ?_, fun hclaim => ?_, fun hclaim => ?_⟩
  · refine not_survives hnested ?_ (hclaim nested none "/s" "/s" (Path.place "/s") (by decide +kernel)
      (by decide +kernel) (by decide +kernel))
    exact forall_contentAt.mpr (by decide +kernel)
  · have hfree : nested.lstat none "/q/../s" = .error (.os .noEntry) := by decide +kernel
    refine not_survives hnested ?_ (hclaim nested none "/s/." "/q/../s" (Path.place "/s") (by decide +kernel)
      (by decide +kernel) (not_doomed hfree) (by decide +kernel))
    exact forall_contentAt.mpr (by decide +kernel)
  · have hdoubled : doubled.get? (Path.place "/z/s" ++ Path.place "s/f") = some (.file [1] false) := by decide +kernel
    have hfree : doubled.lstat none "/q/../z" = .error (.os .noEntry) := by decide +kernel
    have hroom : makeRoom none "/q/../z" doubled = (.ok (), doubled.set (Path.place "/q") .directory) :=
      Prod.ext (by decide +kernel) (by decide +kernel)
    refine not_survives hdoubled ?_ (hclaim doubled none "/z/s/." "/q/../z" (Path.place "/z/s") _ (Path.place "/z")
      (by decide +kernel) (by decide +kernel) (not_doomed hfree) hroom (leads_of_stat (by decide +kernel))
      (leads_of_stat (by decide +kernel)) ?_ (by decide +kernel))
    · exact forall_contentAt.mpr (by decide +kernel)
    · exact forall_contentAt.mpr (by decide +kernel)

end DebRelease.FileTree
