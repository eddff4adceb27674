import DebRelease.Proofs.FileTree.CopyDir
import DebRelease.Proofs.FileTree.Removing

namespace DebRelease.FileTree

open TreeM

variable {t t' : FileTree} {cwd : WorkingDir} {p q : Path} {source target dir above place location : Location}
    {name last : Bytes} {missing front : List Bytes} {content : Content} {entry : Entry} {places : List Location}

/-- A directory is renamed to a free name of another. -/
theorem rename_standsFor (hp : t.StandsFor cwd p above last) (hq : t.StandsFor cwd q dir name)
    (hseparate : Separate (above ++ [last]) (dir ++ [name])) (hget : t.get? (above ++ [last]) = some .directory)
    (hfree : t.get? (dir ++ [name]) = .none) :
    rename cwd p q t = (.ok (), t.move (above ++ [last]) (dir ++ [name])) := by
  have hbelow : isBelow (above ++ [last]) (dir ++ [name]) = false := by
    rw [← Bool.not_eq_true, isBelow_iff]
    exact fun h => hseparate.1 h.1
  have hbelow' : isBelow (dir ++ [name]) (above ++ [last]) = false := by
    rw [← Bool.not_eq_true, isBelow_iff]
    exact fun h => hseparate.2 h.1
  have hne : above ++ [last] ≠ dir ++ [name] := fun heq => hseparate.1 (heq ▸ List.prefix_rfl)
  have hlength : ¬ (decide (Path.nameLimit < last.length) || decide (Path.nameLimit < name.length)) = true := by
    simp [hp.length_le, hq.length_le]
  rw [rename, run_bind, run_look, hp.check]
  dsimp only
  rw [run_bind, run_look, hq.check]
  dsimp only
  rw [run_bind, run_look, hp.parent]
  dsimp only
  rw [run_bind, run_look, hq.parent]
  dsimp only
  rw [if_neg hlength, run_bind, run_get]
  dsimp only
  rw [hget]
  simp only [Entry.isDirectory, hbelow, hbelow', hne, Bool.not_true, Bool.false_and, Bool.and_false, Bool.false_eq_true,
    if_false]
  rw [run_bind, run_get]
  dsimp only
  rw [hfree]
  rfl

/-- What a directory is renamed in: nothing is in the way of the target, whose directory is there, and both paths stand
    for their names. -/
structure Cleared (cwd : WorkingDir) (p q : Path) (above : Location) (last : Bytes) (dir : Location) (name : Bytes)
    (t ready : FileTree) : Prop where
  wellFormed : ready.WellFormed
  /-- What was at the target is gone, and directories above it may have been made. -/
  makes : OnlyMakes dir (t.outside [dir ++ [name]]) ready
  source : ready.StandsFor cwd p above last
  target : ready.StandsFor cwd q dir name

/-- A target without a file in the way is cleared. -/
theorem cleared_of_vacant (hwf : t.WellFormed) (htidy : q.IsTidy) (hcheck : checkPath q = .ok ())
    (hp : (t.outside [dir ++ missing]).StandsFor cwd p above last)
    (hq : (t.outside [dir ++ missing]).Vacant cwd q dir missing)
    (hfile : ∀ bytes is, t.get? (dir ++ missing) ≠ some (.file bytes is)) :
    ∃ parent name ready, dir ++ missing = parent ++ [name] ∧ removeAll cwd q t = (.ok (), t.outside [dir ++ missing]) ∧
      makeParent cwd q (t.outside [dir ++ missing]) = (.ok (), ready) ∧
      Cleared cwd p q above last parent name t ready := by
  obtain ⟨front, name, rfl⟩ := (List.eq_nil_or_concat missing).resolve_left hq.ne_nil
  rw [List.concat_eq_append] at hp hq hfile ⊢
  obtain ⟨_, ready, hparent, hwf', hmakes, hstands⟩ := hq.makeParent htidy hcheck (hwf.outside _)
  refine ⟨dir ++ front, name, ready, (List.append_assoc ..).symm, removeAll_vacant hwf htidy hcheck hq hfile, hparent,
    hwf', ?_, hp.keeps hmakes.keeps, hstands⟩
  rwa [List.append_assoc]

namespace Cleared

variable {ready : FileTree} (h : Cleared cwd p q above last dir name t ready)
  (hseparate : Separate (above ++ [last]) (dir ++ [name]))

include h

theorem free : ready.get? (dir ++ [name]) = .none := by
  rw [h.makes.get?_append (List.cons_ne_nil _ _), get?_outside t _ (by simp), if_neg]
  simp [isOutside]

/-- Nothing else has changed but that directories above the target may have been made. -/
theorem get?_eq (hout : ¬ dir ++ [name] <+: location) : ready.get? location = t.get? location ∨
    t.get? location = .none ∧ ready.get? location = some .directory ∧ location <+: dir := by
  have hkept : (t.outside [dir ++ [name]]).get? location = t.get? location :=
    get?_outside_of_out t (by simpa using hout)
  exact hkept ▸ h.makes location

include hseparate

/-- The source is as it was. -/
theorem contains (hholds : t.Contains (above ++ [last]) content) : ready.Contains (above ++ [last]) content := by
  refine hholds.of_eq fun rest => ?_
  rcases h.get?_eq (hseparate.symm.append rest).1 with hsame | ⟨-, -, hpre⟩
  · exact hsame
  · exact absurd ((List.prefix_append _ rest).trans (hpre.trans (List.prefix_append _ _))) hseparate.1

omit hseparate in
theorem get?_move (location : Location) : (ready.move (above ++ [last]) (dir ++ [name])).get? location =
    if dir ++ [name] <+: location then ready.get? (above ++ [last] ++ location.drop (dir ++ [name]).length)
    else if above ++ [last] <+: location then .none
    else ready.get? location :=
  FileTree.get?_move h.wellFormed (by simp) (by simp) h.free location

variable (hholds : t.Contains (above ++ [last]) content) (hroot : content [] = some .directory)

include hholds hroot

theorem rename : rename cwd p q ready = (.ok (), ready.move (above ++ [last]) (dir ++ [name])) :=
  rename_standsFor h.source h.target hseparate ((h.contains hseparate hholds).get?.trans hroot) h.free

omit hroot in
/-- What renaming leaves: all of the source is at the target, and nothing is where it was. -/
theorem moved : (ready.move (above ++ [last]) (dir ++ [name])).Contains (above ++ [last]) .none ∧
    (ready.move (above ++ [last]) (dir ++ [name])).Contains (dir ++ [name]) content ∧
    ∀ location, ¬ above ++ [last] <+: location → ¬ dir ++ [name] <+: location →
      (ready.move (above ++ [last]) (dir ++ [name])).get? location = ready.get? location := by
  refine ⟨fun rest => ?_, fun rest => ?_, fun location hout hout' => ?_⟩
  · rw [h.get?_move, if_neg (hseparate.symm.append rest).1, if_pos (List.prefix_append _ _)]
    rfl
  · rw [h.get?_move, if_pos (List.prefix_append _ _), List.drop_left, h.contains hseparate hholds]
  · rw [h.get?_move, if_neg hout', if_neg hout]

/-- Copying the source and then removing it leaves what renaming it does, if the way to the source does not go by it. -/
theorem copy_remove (htidy : q.IsTidy) (hspans : p.Spans content) (hspans' : q.Spans content)
    (hslash : checkPath (q.join .empty) = .ok ())
    (hway : (t.outside [above ++ [last], dir ++ [name]]).StandsFor cwd p above last) :
    ∃ copied, (do copyDir cwd p q; removeAll cwd p) ready = (.ok (), copied) ∧
      ∀ location, copied.get? location = (ready.move (above ++ [last]) (dir ++ [name])).get? location := by
  have hsource := h.contains hseparate hholds
  obtain ⟨_, t₁, hcopy, hwf₁, hcopied, hwithin⟩ := copyDir_vacant h.source htidy (h.target.vacant htidy h.free)
    hseparate h.wellFormed hsource hroot hspans hspans' hslash
  -- The directory of the target is there, so that copying makes nothing outside of the target.
  have hsame {location : Location} (hout : ¬ dir ++ [name] <+: location) : t₁.get? location = ready.get? location :=
    hwithin.get?_eq_of_parent h.wellFormed h.target.directory hout
  have hkept {location : Location} {entry : Entry}
      (hget : (t.outside [above ++ [last], dir ++ [name]]).get? location = some entry) :
      (t₁.outside [above ++ [last]]).get? location = some entry := by
    have hout := outside_of_get? hget (by simp)
    have hout' : ¬ dir ++ [name] <+: location := hout _ (by simp)
    have hthere := get?_of_outside hget
    rw [get?_outside_of_out _ fun place hmem => hout place (List.mem_cons.mpr (.inl (List.mem_singleton.mp hmem))),
      hsame hout']
    rcases h.get?_eq hout' with heq | ⟨hnone, -⟩
    · rw [heq, hthere]
    · simp [hthere] at hnone
  have hthere : t₁.get? (above ++ [last]) = some .directory := by
    rw [hsame hseparate.2, hsource.get?, hroot]
  have hremove := removeAll_standsFor hwf₁ (hway.keeps ⟨hkept, hkept⟩) hthere (by simp)
  refine ⟨t₁.outside [above ++ [last]], by rw [run_bind, hcopy]; exact hremove, fun location => ?_⟩
  rw [h.get?_move]
  split
  · rename_i hin
    obtain ⟨rest, rfl⟩ := hin
    rw [get?_outside_of_out _ (by simpa using (hseparate.append rest).1), hcopied, List.drop_left, hsource]
  · rename_i hout
    split
    · rename_i hin
      have hnil : location ≠ [] := by
        rintro rfl
        simp at hin
      rw [get?_outside _ _ hnil, if_neg]
      simpa [isOutside] using hin
    · rename_i hout'
      rw [get?_outside_of_out _ (by simpa using hout'), hsame hout]

end Cleared

/-- A directory that can be renamed once the target is cleared is moved so. -/
theorem moveDir_of_rename {ready moved : FileTree} (hrequire : requireDir cwd p t = (.ok (), t))
    (hremove : removeAll cwd q t = (.ok (), t')) (hparent : makeParent cwd q t' = (.ok (), ready))
    (hrename : rename cwd p q ready = (.ok (), moved)) : moveDir cwd p q t = (.ok (), moved) := by
  rw [moveDir, run_bind, hrequire]
  dsimp only
  rw [run_bind, hremove]
  dsimp only
  rw [run_bind, hparent]
  dsimp only
  rw [run_bind, run_attempt, hrename]
  rfl

/-- Moving a directory moves it in place of what is at the target. Where neither path leads by way of the target, and
    the target is no file, it succeeds: nothing is left of the source, all of it is at the target, with the contents of
    files, their being programs and the targets of links, and nothing else changes but that directories above the target
    may be made. If the path of the source does not lead by way of the source either, copying and removing instead of
    renaming leaves the same. If the target is a file, moving fails and nothing changes. -/
theorem moveDir_replaces (hwf : t.WellFormed) (hp : p.IsTidy) (hq : q.IsTidy) (hcheck : checkPath q = .ok ())
    (hfrom : (t.outside [dir ++ missing]).lstat cwd p = .ok (source, .directory))
    (hto : (t.outside [dir ++ missing]).Vacant cwd q dir missing) (hseparate : Separate source (dir ++ missing)) :
    (∀ bytes is, t.get? (dir ++ missing) = some (.file bytes is) → ∃ e, moveDir cwd p q t = (.error e, t)) ∧
    ((∀ bytes is, t.get? (dir ++ missing) ≠ some (.file bytes is)) → ∃ ready moved,
      (do removeAll cwd q; makeParent cwd q) t = (.ok (), ready) ∧ rename cwd p q ready = (.ok (), moved) ∧
      moveDir cwd p q t = (.ok (), moved) ∧
      moved.Contains source .none ∧ moved.Contains (dir ++ missing) (t.contentAt source) ∧
      (∀ location, ¬ source <+: location → ¬ dir ++ missing <+: location → moved.get? location = t.get? location ∨
        t.get? location = .none ∧ moved.get? location = some .directory ∧ location <+: dir ++ missing) ∧
      ∀ above last, (t.outside [source, dir ++ missing]).StandsFor cwd p above last →
        p.Spans (t.contentAt source) → q.Spans (t.contentAt source) → checkPath (q.join .empty) = .ok () →
        ∃ copied, (do copyDir cwd p q; removeAll cwd p) ready = (.ok (), copied) ∧
          ∀ location, copied.get? location = moved.get? location) := by
  obtain ⟨above, last, rfl, hstands⟩ := standsFor_of_isTidy hp hfrom
  have hget : t.get? (above ++ [last]) = some .directory := get?_of_outside (hstands.get?_of_lstat hfrom)
  have hrequire := requireDir_standsFor (hstands.keeps (keeps_of_outside t _)) hget
  constructor
  · intro bytes is hthere
    obtain ⟨name, rfl⟩ := hto.eq_singleton hwf hthere
    have hremove := removeAll_file ((hto.standsFor hq hcheck).keeps (keeps_of_outside t _)) hthere
    refine ⟨.file "removing directory" q (.os .notDirectory), ?_⟩
    rw [moveDir, run_bind, hrequire]
    dsimp only
    rw [run_bind, hremove]
  · intro hfile
    have hholds := t.contains_contentAt (above ++ [last])
    have hroot : t.contentAt (above ++ [last]) [] = some .directory := hholds.get?.symm.trans hget
    obtain ⟨parent, name, ready, htarget, hremove, hparent, hready⟩ :=
      cleared_of_vacant hwf hq hcheck hstands hto hfile
    rw [htarget] at hseparate ⊢
    have hrename := hready.rename hseparate hholds hroot
    obtain ⟨hgone, hmoved, hrest⟩ := hready.moved hseparate hholds
    refine ⟨ready, _, by rw [run_bind, hremove]; exact hparent, hrename,
      moveDir_of_rename hrequire hremove hparent hrename, hgone, hmoved, fun location hout hout' => ?_, ?_⟩
    · rw [hrest location hout hout']
      refine (hready.get?_eq hout').imp_right fun ⟨hnone, hmade, hpre⟩ => ⟨hnone, hmade, ?_⟩
      exact hpre.trans (List.prefix_append _ _)
    · intro above' last' hway hspans hspans' hslash
      have hsame := (hway.keeps (keeps_of_outside t _)).parent.symm.trans (hstands.keeps (keeps_of_outside t _)).parent
      cases hsame
      exact hready.copy_remove hseparate hholds hroot hq hspans hspans' hslash hway

/-- The directory is moved in place of the other one, by renaming or by copying. -/
theorem moveDir_replaces_copiable : ∃ ready moved,
    moveDir none "/s" "/o" copiable = (.ok (), moved) ∧ moved.Contains (Path.place "/s") .none ∧
      moved.Contains (Path.place "/o") (copiable.contentAt (Path.place "/s")) ∧
      ∃ copied, (do copyDir none "/s" "/o"; removeAll none "/s") ready = (.ok (), copied) ∧
        ∀ location, copied.get? location = moved.get? location := by
  have hvacant : (copiable.outside [[] ++ Path.place "/o"]).Vacant .none "/o" [] (Path.place "/o") :=
    ⟨"/", by decide +kernel, by decide +kernel, leads_of_stat (by decide +kernel), by decide +kernel, by decide +kernel⟩
  have hfrom : (copiable.outside [[] ++ Path.place "/o"]).lstat .none "/s" = .ok (Path.place "/s", .directory) := by
    decide +kernel
  have hthere : copiable.get? (Path.place "/o") = some .directory := by decide +kernel
  obtain ⟨ready, moved, -, -, hmove, hgone, hmoved, -, hcopy⟩ := (moveDir_replaces (t := copiable) (by decide +kernel)
    (by decide +kernel) (by decide +kernel) (by decide +kernel) hfrom hvacant (by decide +kernel)).2
    (by rw [List.nil_append, hthere]; simp)
  exact ⟨ready, moved, hmove, hgone, hmoved, hcopy [] (Bytes.ofText "s") ⟨by decide +kernel, by decide +kernel⟩
    (by decide +kernel) (by decide +kernel) (by decide +kernel)⟩

/-- A directory whose path goes by a link in the directory `/z`, and one whose path goes by a link in itself. -/
def entwined : FileTree :=
  ⟨[(Path.place "/x", .directory), (Path.place "/x/a", .directory), (Path.place "/z", .directory),
    (Path.place "/z/l", .symlink "/x"), (Path.place "/k", .symlink "/z/l"), (Path.place "/x/a/l", .symlink "/x"),
    (Path.place "/y", .symlink "/x/a/l")]⟩

/-- A directory is not moved if its path goes by what is in the way, and copying and removing leave it empty but there
    if its path goes by itself. -/
theorem not_moveDir_replaces :
    (¬ ∀ (t : FileTree) (cwd : WorkingDir) (p q : Path) (source dir : Location) (name : Bytes), t.WellFormed →
      p.IsTidy → q.IsTidy → t.lstat cwd p = .ok (source, .directory) →
      t.resolveParent cwd q = .ok (dir, .name name false) → Separate source (dir ++ [name]) →
      (∀ bytes is, t.get? (dir ++ [name]) ≠ some (.file bytes is)) → ∃ t', moveDir cwd p q t = (.ok (), t')) ∧
    ¬ ∀ (t : FileTree) (cwd : WorkingDir) (p q : Path) (source dir : Location) (name : Bytes), t.WellFormed →
      p.IsTidy → q.IsTidy → t.lstat cwd p = .ok (source, .directory) →
      t.resolveParent cwd q = .ok (dir, .name name false) → Separate source (dir ++ [name]) →
      t.get? (dir ++ [name]) = .none → ∀ moved, rename cwd p q t = (.ok (), moved) →
      ∃ copied, (do copyDir cwd p q; removeAll cwd p) t = (.ok (), copied) ∧
        ∀ location, copied.get? location = moved.get? location := by
  have hwf : entwined.WellFormed := by decide +kernel
  constructor
  · intro hclaim
    have hthere : entwined.get? (Path.place "/z") = some .directory := by decide +kernel
    obtain ⟨_, hmove⟩ := hclaim entwined none "/k/a" "/z" (Path.place "/x/a") [] (Bytes.ofText "z") hwf
      (by decide +kernel) (by decide +kernel) (by decide +kernel) (by decide +kernel) (by decide +kernel)
      (by rw [show ([] ++ [Bytes.ofText "z"] : Location) = Path.place "/z" by decide +kernel, hthere]; simp)
    have hfailed : ¬ (moveDir none "/k/a" "/z" entwined).1 = .ok () := by decide +kernel
    exact hfailed (congrArg Prod.fst hmove)
  · intro hclaim
    have hrename : rename none "/y/a" "/t" entwined = (.ok (), (rename none "/y/a" "/t" entwined).2) :=
      Prod.ext (by decide +kernel) rfl
    obtain ⟨copied, hcopy, hsame⟩ := hclaim entwined none "/y/a" "/t" (Path.place "/x/a") [] (Bytes.ofText "t") hwf
      (by decide +kernel) (by decide +kernel) (by decide +kernel) (by decide +kernel) (by decide +kernel)
      (by decide +kernel) _ hrename
    have hleft := hsame (Path.place "/x/a")
    rw [← show ((do copyDir none "/y/a" "/t"; removeAll none "/y/a" : TreeM Failure Unit) entwined).2 = copied from
      congrArg Prod.snd hcopy] at hleft
    exact absurd hleft (by decide +kernel)

end DebRelease.FileTree
