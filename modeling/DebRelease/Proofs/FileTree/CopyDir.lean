import DebRelease.Proofs.FileTree.Overlay

namespace DebRelease.FileTree

open TreeM Content

variable {t t' : FileTree} {cwd : WorkingDir} {p q : Path} {source target dir above place : Location}
    {name last : Bytes} {content old : Content}

/-- A content whose paths are accepted is not deep. -/
private theorem length_lt_of_spans (h : p.Spans content) (hwf : t.WellFormed) (hholds : t.Contains source content) :
    ∀ rest, content rest ≠ .none → rest.length < Path.lengthLimit := by
  intro rest hrest
  obtain ⟨entry, hentry⟩ := Option.ne_none_iff_exists'.mp hrest
  have hnames := hwf.isEntryName ((hholds rest).trans hentry)
  have hlength : p.bytes.length + rest.length ≤ (p.descend rest).bytes.length :=
    Path.length_descend p fun name hmem => (hnames name (by simp [hmem])).isName
  have hlimit := (checkPath_eq_ok_iff.mp (h rest hrest)).2.2
  omega

theorem OnlyMakes.get?_of_not_above {location : Location} (h : OnlyMakes place t t') (hout : ¬ location <+: place) :
    t'.get? location = t.get? location := by
  rcases h location with hsame | ⟨-, -, hpre⟩
  · exact hsame
  · exact absurd hpre hout

theorem requireDir_standsFor (h : t.StandsFor cwd p above last) (hget : t.get? (above ++ [last]) = some .directory) :
    requireDir cwd p t = (.ok (), t) := by
  rw [requireDir, run_bind, run_get]
  dsimp only
  rw [(h.leads hget).isDir h.check]
  rfl

/-- Once both directories are there, copying is copying what lies below. -/
private theorem copyDir_eq {t₁ t₂ : FileTree} (hp : t.StandsFor cwd p above last)
    (hget : t.get? (above ++ [last]) = some .directory) (hkeeps : t.Keeps t₁)
    (hparent : makeParent cwd q t = (.ok (), t₁)) (hmake : makeDirs cwd (q.join .empty) t₁ = (.ok (), t₂)) :
    copyDir cwd p q t = copyBelow cwd Path.lengthLimit p q t₂ := by
  rw [copyDir, run_bind, requireDir_standsFor hp hget]
  dsimp only
  rw [run_bind, hparent]
  dsimp only
  rw [run_bind, run_look, (hp.keeps hkeeps).lstat (hkeeps.directory hget)]
  dsimp only [Except.mapError]
  rw [run_bind, copyEntry, run_describe, hmake]
  rfl

/-- Copying a directory to where nothing is succeeds, and all of it arrives. -/
theorem copyDir_vacant {missing : List Bytes} (hp : t.StandsFor cwd p above last) (htidy : q.IsTidy)
    (hq : t.Vacant cwd q dir missing) (hseparate : Separate (above ++ [last]) (dir ++ missing)) (hwf : t.WellFormed)
    (hholds : t.Contains (above ++ [last]) content) (hroot : content [] = some .directory)
    (hspans : p.Spans content) (hspans' : q.Spans content) (hslash : checkPath (q.join .empty) = .ok ()) :
    Yields (copyDir cwd p q) t fun _ t' => t'.WellFormed ∧ t'.Contains (dir ++ missing) content ∧
      Within [dir ++ missing] t t' := by
  have hcheck : checkPath q = .ok () := hspans' [] (by simp [hroot])
  obtain ⟨front, name, rfl⟩ := (List.eq_nil_or_concat missing).resolve_left hq.ne_nil
  rw [List.concat_eq_append] at hq hseparate ⊢
  obtain ⟨_, t₁, hparent, hwf₁, hmakes, hstands⟩ := hq.makeParent htidy hcheck hwf
  rw [← List.append_assoc] at hseparate ⊢
  have hnone : t.get? (dir ++ front ++ [name]) = .none := by
    rw [List.append_assoc]
    exact hq.get? hwf
  have hfree : t₁.get? (dir ++ front ++ [name]) = .none := by
    rw [hmakes.get?_append (List.cons_ne_nil _ _), hnone]
  have hmake := makeDirs_of_makeDir (checkPath_eq_ok_iff.mp hslash).2.1
    (makeDir_of_parent (hstands.parent_slash hslash) hstands.length_le hfree)
  have hmade := hstands.made hwf₁ hfree
  have hall := (hmakes.of_prefix (List.prefix_append _ [name])).trans hmade.makes
  have hget : t.get? (above ++ [last]) = some .directory := hholds.get?.trans hroot
  have hsource := hholds.of_eq fun rest => hall.get?_of_not_above fun hpre =>
    hseparate.1 ((List.prefix_append _ rest).trans hpre)
  have hempty := Contains.of_empty hmade.leads.directory fun rest hrest =>
    (hall.get?_append hrest).trans (hwf.none_of_prefix hnone (List.prefix_append _ _))
  rw [Yields, copyDir_eq hp hget hmakes.keeps hparent hmake]
  refine ((copyBelow_settles cwd _ hseparate hmade.wellFormed hsource hempty noLinks_empty
    ((hp.keeps hall.keeps).leads (hall.keeps.directory hget)) hmade.leads hspans hspans'
    (length_lt_of_spans hspans hwf hholds)).yields (fits_empty hroot)).mono fun _ t' harrives => ?_
  rw [overlay_empty hroot] at harrives
  refine ⟨harrives.wellFormed, harrives.holds, fun location hout => ?_⟩
  rw [harrives.same location (hout _ (List.mem_singleton_self _))]
  exact hall.within location hout

/-- Copying a directory over another one succeeds if and only if all of it fits what is there, and then it is laid over
    that. -/
theorem copyDir_over (hp : t.StandsFor cwd p above last) (htidy : q.IsTidy) (hq : t.Leads cwd q target)
    (hseparate : Separate (above ++ [last]) target) (hwf : t.WellFormed) (hholds : t.Contains (above ++ [last]) content)
    (hroot : content [] = some .directory) (hold : t.Contains target old) (hplain : old.NoLinks)
    (hspans : p.Spans content) (hspans' : q.Spans content) (hslash : checkPath (q.join .empty) = .ok ()) :
    Settles (copyDir cwd p q) t (content.FitsOver old) (Arrives (content.overlay old) target t) := by
  have hcheck : checkPath q = .ok () := hspans' [] (by simp [hroot])
  have hget : t.get? (above ++ [last]) = some .directory := hholds.get?.trans hroot
  obtain ⟨habsolute, hnames⟩ := Path.join_empty q
  rw [Settles, Yields, copyDir_eq hp hget ⟨id, id⟩ (hq.makeParent htidy hcheck)
    ((hq.of_names habsolute hnames).makeDirs fun _ => hslash)]
  exact copyBelow_settles cwd _ hseparate hwf hholds hold hplain (hp.leads hget) hq hspans hspans'
    (length_lt_of_spans hspans hwf hholds)

/-- The path of a directory that is spelled without `.`, `..` and a slash at the end stands for a name. -/
theorem standsFor_of_isTidy (htidy : p.IsTidy) (hlstat : t.lstat cwd p = .ok (source, .directory)) :
    ∃ above last, source = above ++ [last] ∧ t.StandsFor cwd p above last := by
  have hresolve := lstat_eq_ok_iff.mp hlstat
  obtain ⟨init, last, hnames, -⟩ := Path.names_append (checkPath_eq_ok_iff.mp (resolve_eq_ok_iff.mp hresolve).1).2.1
    htidy.noSlash (show Path.slash ∉ Bytes.ofText "" by decide +kernel)
  have hmem : last ∈ p.names := by simp [hnames]
  have hlast : lastName p = .name last false := lastName_eq_name_iff.mpr
    ⟨by rw [hnames, List.dropLast_concat], fun heq => htidy.noDot (heq ▸ hmem), fun heq => htidy.noDotDot (heq ▸ hmem),
      htidy.noSlash⟩
  obtain ⟨above, hstands⟩ := standsFor_of_lastName hlast hresolve
  exact ⟨above, last, hstands.eq_of_lstat hlstat, hstands⟩

/-- Copying a directory copies exactly, in whatever order the tree lists directories. To where nothing is, the nearest
    thing above it being a directory, it succeeds: all of the directory is there, with the contents of files, their
    being programs and the targets of links, the directory itself is unchanged, and nothing else is new but directories
    above the copy. Over a directory without links, if it succeeds, it lays what is copied over what was there and
    changes nothing else. -/
theorem copyDir_exact (hwf : t.WellFormed) (hp : p.IsTidy) (hq : q.IsTidy)
    (hfrom : t.lstat cwd p = .ok (source, .directory)) (hspans : p.Spans (t.contentAt source))
    (hspans' : q.Spans (t.contentAt source)) (hslash : checkPath (q.join .empty) = .ok ()) :
    (∀ dir missing, t.Vacant cwd q dir missing → Separate source (dir ++ missing) →
      ∃ t', copyDir cwd p q t = (.ok (), t') ∧ t'.Contains (dir ++ missing) (t.contentAt source) ∧
        t'.Contains source (t.contentAt source) ∧ Within [dir ++ missing] t t') ∧
    ∀ target, t.stat cwd q = .ok (target, .directory) → Separate source target → (t.contentAt target).NoLinks →
      ∀ t', copyDir cwd p q t = (.ok (), t') →
        t'.Contains target ((t.contentAt source).overlay (t.contentAt target)) ∧
        t'.Contains source (t.contentAt source) ∧
        ∀ location, ¬ target <+: location → t'.get? location = t.get? location := by
  obtain ⟨above, last, rfl, hstands⟩ := standsFor_of_isTidy hp hfrom
  have hholds := t.contains_contentAt (above ++ [last])
  have hroot : t.contentAt (above ++ [last]) [] = some .directory :=
    hholds.get?.symm.trans (hstands.get?_of_lstat hfrom)
  constructor
  · intro dir missing hvacant hseparate
    obtain ⟨_, t', hrun, -, hcopied, hwithin⟩ :=
      copyDir_vacant hstands hq hvacant hseparate hwf hholds hroot hspans hspans' hslash
    refine ⟨t', hrun, hcopied, hholds.of_within hwithin fun changed hmem => ?_, hwithin⟩
    rw [List.mem_singleton.mp hmem]
    exact hseparate.symm
  · intro target hstat hseparate hplain t' hrun
    obtain ⟨-, harrives⟩ := (copyDir_over hstands hq (leads_of_stat hstat) hseparate hwf hholds hroot
      (t.contains_contentAt target) hplain hspans hspans' hslash).of_ok hrun
    exact ⟨harrives.holds, hholds.of_eq fun rest => harrives.same _ (hseparate.symm.append rest).1, harrives.same⟩

/-- A directory `/s` with a program, a link to a directory and a link to nothing, and a directory `/o`. -/
def copiable : FileTree :=
  ⟨[(Path.place "/s", .directory), (Path.place "/s/d", .directory), (Path.place "/s/d/f", .file [1] true),
    (Path.place "/s/l", .symlink "d"), (Path.place "/s/x", .symlink "gone"), (Path.place "/o", .directory),
    (Path.place "/o/d", .directory), (Path.place "/o/d/f", .file [2] false), (Path.place "/o/d/g", .file [3] false)]⟩

/-- The directory is copied to a place two names below the root, and over the other directory. -/
theorem copyDir_exact_copiable :
    (∃ t', copyDir none "/s" "/n/c" copiable = (.ok (), t') ∧
      t'.Contains (Path.place "/n/c") (copiable.contentAt (Path.place "/s"))) ∧
    (copyDir none "/s" "/o" copiable).2.Contains (Path.place "/o")
      ((copiable.contentAt (Path.place "/s")).overlay (copiable.contentAt (Path.place "/o"))) := by
  have hwf : copiable.WellFormed := by decide +kernel
  have hfrom : copiable.lstat none "/s" = .ok (Path.place "/s", .directory) := by decide +kernel
  have hspans : (("/s" : Path)).Spans (copiable.contentAt (Path.place "/s")) := by decide +kernel
  constructor
  · have hvacant : copiable.Vacant none "/n/c" [] (Path.place "/n/c") :=
      ⟨"/", by decide +kernel, by decide +kernel, leads_of_stat (by decide +kernel), by decide +kernel,
        by decide +kernel⟩
    obtain ⟨t', hrun, hcopied, -⟩ := (copyDir_exact hwf (by decide +kernel) (by decide +kernel) hfrom hspans
      (by decide +kernel) (by decide +kernel)).1 _ _ hvacant (by decide +kernel)
    exact ⟨t', hrun, hcopied⟩
  · have hrun : copyDir none "/s" "/o" copiable = (.ok (), (copyDir none "/s" "/o" copiable).2) :=
      Prod.ext (by decide +kernel) rfl
    exact ((copyDir_exact hwf (by decide +kernel) (by decide +kernel) hfrom hspans (by decide +kernel)
      (by decide +kernel)).2 (Path.place "/o") (by decide +kernel) (by decide +kernel) (by decide +kernel) _ hrun).1

end DebRelease.FileTree
