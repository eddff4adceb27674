import DebRelease.Proofs.FileTree.Sparing

namespace DebRelease

namespace Path

variable {name : Bytes}

theorem join_of_empty {p : Path} (hempty : p.bytes = []) (hname : isName name = true) : p.join ⟨name⟩ = ⟨name⟩ := by
  rw [join, (names_of_isName hname).1, if_neg (by simp), if_pos (by simp [hempty]), hempty]
  rfl

/-- A single name stands in the directory that an empty path means. -/
theorem parent?_of_isName (hname : isName name = true) : (⟨name⟩ : Path).parent? = some ⟨[]⟩ := by
  obtain ⟨hne, hdot, -, hslash⟩ := isName_iff.mp hname
  have hrelative := (names_of_isName hname).1
  have hsegments : (⟨name⟩ : Path).segments = [name] := by
    rw [segments, hrelative, if_neg (by simp)]
    exact Bytes.splitOn_of_not_mem hslash
  have hsignificant : (⟨name⟩ : Path).significant = [] ++ [name] := by
    rw [significant, hrelative, hsegments]
    simp [hdot, dropTrailing, isTrivial, hne]
  rw [parent?_of_significant hsignificant, hrelative]
  rfl

end Path

namespace FileTree

open TreeM

variable {t t' made : FileTree} {cwd : WorkingDir} {p q path : Path} {source target rest : Location} {name : Bytes}
    {entry : Entry} {depth : Nat}

section Nowhere

variable (hnowhere : ∀ dir, ¬ t.Leads cwd q dir) (hname : Path.IsEntryName name)

include hnowhere hname

/-- No path goes by way of one that leads to no directory. -/
private theorem resolveParent_nowhere (found : Location × LastName) :
    t.resolveParent cwd (q.join ⟨name⟩) ≠ .ok found := by
  intro hparent
  obtain ⟨habsolute, hnames, -⟩ := q.join_name hname.isName
  obtain ⟨-, -, start, hstart, hfollow⟩ := resolveParent_eq_ok_iff.mp hparent
  rw [hnames, List.dropLast_concat] at hfollow
  exact hnowhere found.1 ⟨start, (startOf_congr habsolute.symm).trans hstart, hfollow⟩

private theorem resolve_nowhere (last : Bool) (found : Target) : t.resolve cwd last (q.join ⟨name⟩) ≠ .ok found := by
  intro hresolve
  obtain ⟨habsolute, hnames, hend⟩ := q.join_name hname.isName
  obtain ⟨-, start, hstart, hfollow⟩ := resolve_eq_ok_iff.mp hresolve
  rw [Path.steps, hend, if_neg (by simp), hnames] at hfollow
  obtain ⟨dir, hdir⟩ := follow_init hfollow
  exact hnowhere dir ⟨start, (startOf_congr habsolute.symm).trans hstart, hdir⟩

private theorem makeDirs_nowhere (hempty : q.bytes = []) : Refused (makeDirs cwd (q.join ⟨name⟩)) t := by
  rcases makeDir_does cwd (q.join ⟨name⟩) t with ⟨e, hmake⟩ | ⟨_, _, -, dir, last, slash, hparent, -⟩
  · have hnot : t.isDir cwd (q.join ⟨name⟩) = false := by
      rw [← Bool.not_eq_true, isDir]
      split
      · rename_i hstat
        exact absurd (stat_eq_ok_iff.mp hstat) (resolve_nowhere hnowhere hname true _)
      · simp
    rw [Path.join_of_empty hempty hname.isName] at hmake hnot ⊢
    have hne : name ≠ [] := (Path.isName_iff.mp hname.isName).1
    have hlength : name.length = (name.length - 1) + 1 := by
      have := List.length_pos_iff.mpr hne
      omega
    refine ⟨e, ?_⟩
    rw [makeDirs, hlength, makeDirsUpTo, if_neg (by simpa using hne), run_bind, run_attempt, hmake]
    dsimp only
    rw [Path.parent?_of_isName hname.isName]
    dsimp only
    split
    · rw [run_bind, makeDirsUpTo_of_empty rfl]
      dsimp only
      rw [run_bind, run_attempt, hmake]
      simp only [run_bind, run_get, hnot, Bool.false_eq_true, if_false, run_throw]
    · simp only [run_bind, run_get, hnot, Bool.false_eq_true, if_false, run_throw]
  · exact absurd hparent (resolveParent_nowhere hnowhere hname _)

private theorem copyEntry_nowhere (hempty : q.bytes = []) (entry : Entry) (p : Path) :
    Refused (copyEntry cwd entry p (q.join ⟨name⟩)) t := by
  have hfalse : Does (copyEntry cwd entry p (q.join ⟨name⟩)) t fun _ _ => False := by
    rw [copyEntry.eq_def]
    cases entry with
    | directory => exact Does.describe (.inl (makeDirs_nowhere hnowhere hname hempty)) _
    | file old was =>
      refine (Does.mono (copyFile_does cwd p _ t) fun _ after hafter => ?_).describe _
      obtain ⟨_, _, _, _, -, hopens, -⟩ := hafter
      obtain ⟨_, hresolve, -⟩ := hopens.resolve
      exact resolve_nowhere hnowhere hname true _ hresolve
    | symlink listed =>
      refine .look fun link _ => (Does.mono (makeLink_does cwd link _ t) fun _ after hafter => ?_).describe _
      obtain ⟨_, _, hparent, -⟩ := hafter
      exact resolveParent_nowhere hnowhere hname _ hparent
  rcases hfalse with hrefused | ⟨_, _, -, hfalse⟩
  · exact hrefused
  · exact hfalse.elim

private theorem copyChild_nowhere (hempty : q.bytes = []) (depth : Nat) (entry : Entry) (p : Path) :
    Refused (copyChild cwd depth p q (name, entry)) t := by
  obtain ⟨e, hrun⟩ := copyEntry_nowhere hnowhere hname hempty entry (p.join ⟨name⟩)
  exact ⟨e, by rw [copyChild, run_bind, hrun]⟩

end Nowhere

/-- Where an empty path does not lead to a directory, copying to it is refused, unless nothing is to be copied. -/
theorem copyBelow_nowhere (hnowhere : ∀ dir, ¬ t.Leads cwd q dir) (hempty : q.bytes = []) (hwf : t.WellFormed)
    (depth : Nat) (p : Path) : Refused (copyBelow cwd depth p q) t ∨
      t.listEntries cwd p = .ok [] ∧ copyBelow cwd depth p q t = (.ok (), t) := by
  cases depth with
  | zero => exact .inl ⟨_, rfl⟩
  | succ depth =>
    cases hlist : t.listEntries cwd p with
    | error e => exact .inl ⟨_, copyBelow_of_error hlist depth q⟩
    | ok entries =>
      obtain ⟨_, -, -, hentries⟩ := listEntries_eq_ok hwf hlist
      have hbelow := copyBelow_of_list hlist depth q
      cases entries with
      | nil => exact .inr ⟨rfl, hbelow⟩
      | cons item entries =>
        have hname := hwf.name (hentries.mp List.mem_cons_self)
        obtain ⟨e, hrun⟩ := copyChild_nowhere hnowhere hname hempty depth item.2 p
        exact .inl ⟨e, by rw [hbelow, run_forM_cons, hrun]⟩

/-- Makes the directory that a copy goes to, with those above it. -/
def makeTarget (cwd : WorkingDir) (q : Path) : TreeM Failure Unit := do
  makeParent cwd q
  (makeDirs cwd (q.join .empty)).describe (.file "creating directory" (q.join .empty))

/-- No link is made by a path that asks for a directory. -/
private theorem makeLink_slash (link : Path) : Refused (makeLink cwd link (q.join .empty)) t := by
  rcases makeLink_does cwd link (q.join .empty) t with hrefused | ⟨_, _, -, dir, name, hparent, -⟩
  · exact hrefused
  · obtain ⟨hcheck, hlast, -⟩ := resolveParent_eq_ok_iff.mp hparent
    obtain ⟨-, -, -, hend⟩ := lastName_eq_name_iff.mp hlast.symm
    have hne : q.bytes ≠ [] := by
      intro hempty
      refine (checkPath_eq_ok_iff.mp hcheck).2.1 ?_
      rw [Path.join, if_neg (by decide), if_pos (by simp [hempty]), hempty]
      rfl
    rw [q.endsInSlash_join_empty hne] at hend
    cases hend

/-- If a directory is given as a link, copying it fails. -/
private theorem copyEntry_root {location : Location} (hfrom : t.stat cwd p = .ok (source, .directory))
    (hlstat : t.lstat cwd p = .ok (location, entry)) :
    Refused (copyEntry cwd entry p (q.join .empty)) t ∨ entry = .directory ∧ location = source := by
  have hsame (hlink : entry.isSymlink = false) : entry = .directory ∧ location = source := by
    have hstat := stat_of_lstat hlink hlstat
    rw [hfrom] at hstat
    cases hstat
    exact ⟨rfl, rfl⟩
  cases entry with
  | directory => exact .inr (hsame rfl)
  | file bytes is => cases (hsame rfl).1
  | symlink listed =>
    left
    rw [copyEntry.eq_def, Refused]
    dsimp only
    rw [run_bind, run_look]
    cases Failure.naming "reading symlink" p (t.readLink cwd p) with
    | error e => exact ⟨e, rfl⟩
    | ok link =>
      obtain ⟨e, hrefused⟩ : Refused (makeLink cwd link (q.join .empty)) t := makeLink_slash link
      dsimp only
      rw [run_describe, hrefused]
      exact ⟨_, rfl⟩

theorem requireDir_does (cwd : WorkingDir) (p : Path) (t : FileTree) :
    Does (requireDir cwd p) t fun _ after => after = t ∧ ∃ place, t.stat cwd p = .ok (place, .directory) := by
  by_cases hdir : t.isDir cwd p = true
  · refine .inr ⟨(), t, ?_, rfl, ?_⟩
    · simp [requireDir, run_bind, hdir]
    · rw [isDir] at hdir
      split at hdir
      · rename_i place entry hstat
        cases entry with
        | directory => exact ⟨place, hstat⟩
        | _ => cases hdir
      · cases hdir
  · exact .inl ⟨.plain s!"{p.display} is not a directory", by simp [requireDir, run_bind, hdir]⟩

/-- What is no directory is not copied, and nothing is made for it. -/
theorem copyDir_refused (hfrom : ∀ place, t.stat cwd p ≠ .ok (place, .directory)) : Refused (copyDir cwd p q) t := by
  rcases requireDir_does cwd p t with ⟨e, hrun⟩ | ⟨_, _, -, -, place, hstat⟩
  · exact ⟨e, by rw [copyDir, run_bind, hrun]⟩
  · exact absurd hstat (hfrom place)

/-- Copying a directory fails before anything is copied, or makes the directory that the copy goes to and copies what
    lies below. -/
theorem copyDir_cases (hwf : t.WellFormed) :
    (∃ e t', copyDir cwd p q t = (.error e, t') ∧ Grows t t') ∨
      ∃ source made, t.stat cwd p = .ok (source, .directory) ∧ makeTarget cwd q t = (.ok (), made) ∧
        made.lstat cwd p = .ok (source, .directory) ∧
        copyDir cwd p q t = copyBelow cwd Path.lengthLimit p q made := by
  rw [copyDir, makeTarget]
  simp only [run_bind]
  rcases requireDir_does cwd p t with ⟨e, hrun⟩ | ⟨_, after, hrun, hsame, source, hfrom⟩
  · rw [hrun]
    exact .inl ⟨e, t, rfl, .refl hwf⟩
  have hget : t.get? source = some .directory := resolve_fits (stat_eq_ok_iff.mp hfrom)
  have hparent := makeParent_grows cwd q hwf
  rw [hrun, hsame]
  dsimp only
  cases hrun : makeParent cwd q t with
  | mk outcome ready =>
    rw [hrun] at hparent
    cases outcome with
    | error e => exact .inl ⟨e, ready, rfl, hparent⟩
    | ok =>
      have hfrom' : ready.stat cwd p = .ok (source, .directory) :=
        hparent.keeps.stat hfrom (hparent.get?_eq hget) fun _ => rfl
      dsimp only
      rw [run_look]
      cases hlstat : ready.lstat cwd p with
      | error e => exact .inl ⟨_, ready, rfl, hparent⟩
      | ok found =>
        obtain ⟨location, entry⟩ := found
        dsimp only [Except.mapError]
        rcases copyEntry_root (q := q) hfrom' hlstat with ⟨e, hrefused⟩ | ⟨rfl, rfl⟩
        · rw [hrefused]
          exact .inl ⟨e, ready, rfl, hparent⟩
        · have hmade := makeDirs_grows cwd (q.join .empty) hparent.wellFormed
          rw [copyEntry, run_describe]
          cases hmake : makeDirs cwd (q.join .empty) ready with
          | mk outcome made =>
            rw [hmake] at hmade
            cases outcome with
            | error e => exact .inl ⟨_, made, rfl, hparent.trans hmade⟩
            | ok =>
              have hthere := hmade.get?_eq (hparent.get?_eq hget)
              exact .inr ⟨location, made, hfrom, rfl, hmade.keeps.lstat hlstat hthere fun _ => rfl, rfl⟩

/-- What a copy goes to is a directory once it has been made, unless the path is empty. -/
theorem makeTarget_made (hwf : t.WellFormed) (h : makeTarget cwd q t = (.ok (), made)) :
    Grows t made ∧ (q.bytes = [] ∨ ∃ target, made.Leads cwd q target) := by
  have hready := makeParent_grows cwd q hwf
  rw [makeTarget, run_bind] at h
  cases hrun : makeParent cwd q t with
  | mk outcome ready =>
    rw [hrun] at h hready
    cases outcome with
    | error => cases h
    | ok =>
      dsimp only at h
      rw [run_describe] at h
      have hmade := makeDirs_grows cwd (q.join .empty) hready.wellFormed
      cases hmake : makeDirs cwd (q.join .empty) ready with
      | mk outcome after =>
        rw [hmake] at h hmade
        cases outcome with
        | error => cases h
        | ok =>
          cases h
          refine ⟨hready.trans hmade, or_iff_not_imp_left.mpr fun hne => ?_⟩
          have hne' : (q.join .empty).bytes ≠ [] := by
            rw [Path.join, if_neg (by decide)]
            split
            all_goals simp [hne]
          obtain ⟨habsolute, hnames⟩ := q.join_empty
          obtain ⟨target, hleads⟩ := leads_of_makeDirs hready.wellFormed hne' hmake
          exact ⟨target, hleads.of_names habsolute.symm hnames.symm⟩

/-- When the directory that a copy goes to has been made, copying begins at the source. -/
theorem copying_of_makeTarget (hwf : t.WellFormed) (hfrom : t.stat cwd p = .ok (source, .directory))
    (hmake : makeTarget cwd q t = (.ok (), made)) (hleads : made.Leads cwd q target) :
    Copy.Copying ⟨made, cwd, p, q, source, target⟩ [] made := by
  obtain ⟨hgrows, -⟩ := makeTarget_made hwf hmake
  refine ⟨.refl hgrows.wellFormed, ?_, ?_⟩
  · rw [List.append_nil]
    exact (leads_of_stat hfrom).keeps hgrows.keeps
  · rwa [List.append_nil]

/-- The paths that copying what lies below a directory comes to, and looks at. -/
inductive ComesTo (cwd : WorkingDir) : Nat → Path → Path → FileTree → Path → Prop
  /-- That of an entry, when those listed before it have been copied. -/
  | entry {depth : Nat} {p q : Path} {t t' : FileTree} {front back : List (Bytes × Entry)} {item : Bytes × Entry}
      (hlist : t.listEntries cwd p = .ok (front ++ item :: back))
      (hfront : front.forM (copyChild cwd depth p q) t = (.ok (), t')) :
      ComesTo cwd (depth + 1) p q t (p.join ⟨item.1⟩)
  /-- Those below a directory, when it has been copied itself. -/
  | inside {depth : Nat} {p q path : Path} {t t' t'' : FileTree} {front back : List (Bytes × Entry)}
      {item : Bytes × Entry} (hlist : t.listEntries cwd p = .ok (front ++ item :: back))
      (hfront : front.forM (copyChild cwd depth p q) t = (.ok (), t')) (hisDir : item.2 = .directory)
      (hcopied : copyEntry cwd item.2 (p.join ⟨item.1⟩) (q.join ⟨item.1⟩) t' = (.ok (), t''))
      (h : ComesTo cwd depth (p.join ⟨item.1⟩) (q.join ⟨item.1⟩) t'' path) : ComesTo cwd (depth + 1) p q t path

/-- Copying comes to nothing but what is there and what it has put there itself. -/
theorem ComesTo.comes {c : Copy} (h : ComesTo c.cwd depth p q t path) (hwf : c.made.WellFormed) (hspares : c.Spares)
    (hp : p = c.p.descend rest) (hq : q = c.q.descend rest) (hcome : c.Copying rest t)
    (hfresh : c.Fresh t (c.target ++ rest)) :
    ∃ below, below ≠ [] ∧ c.Comes (rest ++ below) ∧ path = p.descend below := by
  induction h generalizing rest with
  | entry hlist hfront =>
    subst hp hq
    obtain ⟨-, hitem⟩ := hcome.next hspares hwf hfresh hlist hfront
    exact ⟨[_], by simp, hitem.comes, rfl⟩
  | @inside _ p q _ _ _ _ _ _ item hlist hfront hisDir hcopied _ ih =>
    subst hp hq
    obtain ⟨hcome', hitem⟩ := hcome.next hspares hwf hfresh hlist hfront
    rw [← Path.descend_concat, ← Path.descend_concat] at hcopied
    obtain ⟨hbelow, hfresh'⟩ := hcome'.enter hspares hitem hisDir hcopied
    obtain ⟨below, -, hcomes, hpath⟩ := ih (Path.descend_concat ..).symm (Path.descend_concat ..).symm hbelow hfresh'
    rw [List.append_assoc] at hcomes
    exact ⟨item.1 :: below, by simp, hcomes, hpath⟩

/-- Where nothing is copied, copying comes to the first entry at most. -/
private theorem ComesTo.of_nowhere (h : ComesTo cwd depth p q t path) (hnowhere : ∀ dir, ¬ t.Leads cwd q dir)
    (hempty : q.bytes = []) (hwf : t.WellFormed) (hfrom : t.stat cwd p = .ok (source, .directory)) :
    ∃ name, t.get? (source ++ [name]) ≠ none ∧ path = p.join ⟨name⟩ := by
  have hlisted {front back : List (Bytes × Entry)} {item : Bytes × Entry}
      (hlist : t.listEntries cwd p = .ok (front ++ item :: back)) :
      (∀ other ∈ front ++ item :: back, Path.IsEntryName other.1) ∧ t.get? (source ++ [item.1]) ≠ none := by
    obtain ⟨dir, hstat, -, hentries⟩ := listEntries_eq_ok hwf hlist
    rw [hfrom] at hstat
    cases hstat
    have hget : t.get? (source ++ [item.1]) = some item.2 := hentries.mp (by simp)
    exact ⟨fun other hmem => hwf.name (hentries.mp hmem), by simp [hget]⟩
  cases h with
  | entry hlist _ => exact ⟨_, (hlisted hlist).2, rfl⟩
  | @inside depth _ _ _ _ t' _ front _ item hlist hfront _ hcopied _ =>
    have hnames := (hlisted hlist).1
    cases front with
    | nil =>
      cases hfront
      obtain ⟨e, hrun⟩ := copyEntry_nowhere hnowhere (hnames item (by simp)) hempty item.2 (p.join ⟨item.1⟩)
      rw [hrun] at hcopied
      cases hcopied
    | cons other front =>
      obtain ⟨e, hrun⟩ := copyChild_nowhere hnowhere (hnames other (by simp)) hempty depth other.2 p
      rw [run_forM_cons, hrun] at hfront
      cases hfront

/-- Copying a directory makes nothing go. -/
theorem copyDir_persists (hwf : t.WellFormed) : t.Persists (copyDir cwd p q t).2 := by
  rcases copyDir_cases hwf with ⟨e, t', hrun, hgrows⟩ | ⟨_, made, -, hmake, -, hrun⟩
  · rw [hrun]
    exact hgrows.persists
  · obtain ⟨hgrows, -⟩ := makeTarget_made hwf hmake
    rw [hrun]
    exact hgrows.persists.trans (copyBelow_persists cwd Path.lengthLimit p q hgrows.wellFormed)

/-- Copying a directory leaves a file as it was, unless it is written over. -/
theorem copyDir_file {location : Location} {bytes : Bytes} {is : Bool} (hwf : t.WellFormed)
    (hget : t.get? location = some (.file bytes is)) :
    (copyDir cwd p q t).2.get? location = some (.file bytes is) ∨
      ∃ made, makeTarget cwd q t = (.ok (), made) ∧ WritesOver cwd Path.lengthLimit p q made location := by
  rcases copyDir_cases hwf with ⟨e, t', hrun, hgrows⟩ | ⟨_, made, -, hmake, -, hrun⟩
  · rw [hrun]
    exact .inl (hgrows.get?_eq hget)
  · obtain ⟨hgrows, -⟩ := makeTarget_made hwf hmake
    rw [hrun]
    exact (copyBelow_file cwd Path.lengthLimit p q hgrows.wellFormed (hgrows.get?_eq hget)).imp_right fun h =>
      ⟨made, hmake, h⟩

section Sparing

variable (hwf : t.WellFormed) (hfrom : t.stat cwd p = .ok (source, .directory))

include hwf hfrom

/-- Copying a directory leaves all of it as it was, unless a copy comes upon a file of it. -/
theorem copyDir_spared (hspares : ∀ made target, makeTarget cwd q t = (.ok (), made) → made.Leads cwd q target →
      Copy.Spares ⟨made, cwd, p, q, source, target⟩) (hget : t.get? (source ++ rest) = some entry) :
    (copyDir cwd p q t).2.get? (source ++ rest) = some entry := by
  rcases copyDir_cases hwf with ⟨e, t', hrun, hgrows⟩ | ⟨_, made, -, hmake, -, hrun⟩
  · rw [hrun]
    exact hgrows.get?_eq hget
  · obtain ⟨hgrows, hmade⟩ := makeTarget_made hwf hmake
    rw [hrun]
    by_cases hleads : ∃ target, made.Leads cwd q target
    · obtain ⟨target, hleads⟩ := hleads
      have hdone := Copy.copyBelow_copies (hspares made target hmake hleads) hgrows.wellFormed Path.lengthLimit
        (copying_of_makeTarget hwf hfrom hmake hleads) fun _ _ => .inl rfl
      exact hdone.underway.spared (hgrows.get?_eq hget)
    · rcases copyBelow_nowhere (not_exists.mp hleads) (hmade.resolve_right hleads) hgrows.wellFormed Path.lengthLimit p
        with ⟨e, hrefused⟩ | ⟨-, hnothing⟩
      · rw [hrefused]
        exact hgrows.get?_eq hget
      · rw [hnothing]
        exact hgrows.get?_eq hget

/-- Copying a directory comes to nothing but what was there, unless something is put or made at or below it. -/
theorem ComesTo.there (h : ComesTo cwd Path.lengthLimit p q made path) (hmake : makeTarget cwd q t = (.ok (), made))
    (hsame : ∀ rest, made.get? (source ++ rest) = t.get? (source ++ rest))
    (hspares : ∀ target, made.Leads cwd q target → Copy.Spares ⟨made, cwd, p, q, source, target⟩)
    (hbeside : ∀ target, made.Leads cwd q target →
      ∀ rest, rest ≠ [] → t.get? (source ++ rest) ≠ none → ¬ source <+: target ++ rest) :
    ∃ rest, rest ≠ [] ∧ t.get? (source ++ rest) ≠ none ∧ path = p.descend rest := by
  obtain ⟨hgrows, hmade⟩ := makeTarget_made hwf hmake
  simp only [← hsame] at hbeside ⊢
  by_cases hleads : ∃ target, made.Leads cwd q target
  · obtain ⟨target, hleads⟩ := hleads
    obtain ⟨below, hne, hcomes, hpath⟩ := h.comes (c := ⟨made, cwd, p, q, source, target⟩) hgrows.wellFormed
      (hspares target hleads) rfl rfl (copying_of_makeTarget hwf hfrom hmake hleads) fun _ _ => .inl rfl
    exact ⟨below, hne, hcomes.get? hleads.directory (hbeside target hleads), hpath⟩
  · have hget : t.get? source = some .directory := resolve_fits (stat_eq_ok_iff.mp hfrom)
    obtain ⟨name, hthere, hpath⟩ := h.of_nowhere (not_exists.mp hleads) (hmade.resolve_right hleads) hgrows.wellFormed
      (hgrows.keeps.stat hfrom (hgrows.get?_eq hget) fun _ => rfl)
    exact ⟨[name], by simp, hthere, hpath⟩

/-- Copying a directory ends by itself and makes nothing go, with no assumption about how the two places overlap: no
    bound on the depth is felt, since paths have a greatest length, and whether or not it succeeds, directories and
    links stay as they are and files stay files, with what is in them unless a file is copied to a path that leads to
    them at that moment. All that was at and below the source is as it was, if no copy, one of what the copy itself has
    put there included, is to be put where a file of the source is, and every link that is in the way leads to a file
    elsewhere. If besides no copy is put at or below the source, nor anything made there to copy to, all that copying
    comes to was there. What is no directory is not copied at all: see `copyDir_refused`. -/
theorem copyDir_spares :
    (∀ depth, Path.lengthLimit ≤ depth → ∀ t' : FileTree, t'.WellFormed →
      copyBelow cwd depth p q t' = copyBelow cwd Path.lengthLimit p q t') ∧
    t.Persists (copyDir cwd p q t).2 ∧
    (∀ location bytes is, t.get? location = some (.file bytes is) →
      (copyDir cwd p q t).2.get? location = some (.file bytes is) ∨
        ∃ made, makeTarget cwd q t = (.ok (), made) ∧ WritesOver cwd Path.lengthLimit p q made location) ∧
    ((∀ made target, makeTarget cwd q t = (.ok (), made) → made.Leads cwd q target →
        Copy.Spares ⟨made, cwd, p, q, source, target⟩) →
      (∀ rest entry, t.get? (source ++ rest) = some entry →
        (copyDir cwd p q t).2.get? (source ++ rest) = some entry) ∧
      ∀ made, makeTarget cwd q t = (.ok (), made) → (∀ rest, made.get? (source ++ rest) = t.get? (source ++ rest)) →
        (∀ target, made.Leads cwd q target →
          ∀ rest, rest ≠ [] → t.get? (source ++ rest) ≠ none → ¬ source <+: target ++ rest) →
        ∀ path, ComesTo cwd Path.lengthLimit p q made path →
          ∃ rest, rest ≠ [] ∧ t.get? (source ++ rest) ≠ none ∧ path = p.descend rest) := by
  refine ⟨fun depth hdepth t' hwf' => copyBelow_depth cwd p q hwf' hdepth, copyDir_persists hwf,
    fun location bytes is => copyDir_file hwf, fun hspares =>
    ⟨fun rest entry hget => copyDir_spared hwf hfrom hspares hget, fun made hmake hsame hbeside path hpath => ?_⟩⟩
  exact hpath.there hwf hfrom hmake hsame (fun target => hspares made target hmake) hbeside

end Sparing

/-- What a copy goes to is found by making it. -/
private theorem spares_of_makeTarget (hmake : makeTarget cwd q t = (.ok (), made)) (hleads : made.Leads cwd q target)
    (hspares : Copy.Spares ⟨made, cwd, p, q, source, target⟩) {made' : FileTree} {target' : Location}
    (hmake' : makeTarget cwd q t = (.ok (), made')) (hleads' : made'.Leads cwd q target') :
    Copy.Spares ⟨made', cwd, p, q, source, target'⟩ := by
  cases hmake.symm.trans hmake'
  cases hleads.unique hleads'
  exact hspares

/-- A directory `/s` with a file, a link and an empty directory, and a directory `/o` with a link to a file
    elsewhere. -/
def nested : FileTree :=
  ⟨[(Path.place "/s", .directory), (Path.place "/s/f", .file [1] false), (Path.place "/s/l", .symlink "f"),
    (Path.place "/s/x", .directory), (Path.place "/k", .file [2] false), (Path.place "/o", .directory),
    (Path.place "/o/f", .symlink "/k")]⟩

/-- The directory is copied into itself, and to where a link is in the way. -/
theorem copyDir_spares_nested :
    (∀ rest entry, nested.get? (Path.place "/s" ++ rest) = some entry →
      (copyDir none "/s" "/s/x" nested).2.get? (Path.place "/s" ++ rest) = some entry) ∧
    (∀ rest entry, nested.get? (Path.place "/s" ++ rest) = some entry →
      (copyDir none "/s" "/o" nested).2.get? (Path.place "/s" ++ rest) = some entry) ∧
    ∀ path, ComesTo none Path.lengthLimit "/s" "/o" nested path →
      ∃ rest, rest ≠ [] ∧ nested.get? (Path.place "/s" ++ rest) ≠ none ∧ path = ("/s" : Path).descend rest := by
  have hwf : nested.WellFormed := by decide +kernel
  have hfrom : nested.stat none "/s" = .ok (Path.place "/s", .directory) := by decide +kernel
  constructor
  · have hmake : makeTarget none "/s/x" nested = (.ok (), nested) :=
      Prod.ext (by decide +kernel) (by decide +kernel)
    have hleads : nested.Leads none "/s/x" (Path.place "/s/x") := leads_of_stat (by decide +kernel)
    have hempty : ∀ rest entry, nested.get? (Path.place "/s/x" ++ rest) = some entry → entry = .directory :=
      forall_contentAt.mpr (by decide +kernel)
    exact ((copyDir_spares hwf hfrom).2.2.2 fun _ _ => spares_of_makeTarget hmake hleads
      (Copy.spares_of_directories hempty)).1
  · have hmake : makeTarget none "/o" nested = (.ok (), nested) :=
      Prod.ext (by decide +kernel) (by decide +kernel)
    have hleads : nested.Leads none "/o" (Path.place "/o") := leads_of_stat (by decide +kernel)
    have hbeside (rest : Location) : ¬ Path.place "/s" <+: Path.place "/o" ++ rest := by
      have hseparate : Separate (Path.place "/s") (Path.place "/o") := by decide +kernel
      exact (hseparate.append rest).1
    have hlinks : ∀ rest entry, nested.get? (Path.place "/o" ++ rest) = some entry → entry.isSymlink = true →
        rest = Path.place "f" := forall_contentAt.mpr (by decide +kernel)
    have hspares : Copy.Spares ⟨nested, none, "/s", "/o", Path.place "/s", Path.place "/o"⟩ := by
      refine Copy.spares_of_beside (by decide +kernel) (fun rest _ _ => hbeside rest) fun rest link _ hget => ?_
      obtain rfl := hlinks rest _ hget rfl
      exact ⟨Path.place "/k", [2], false, by decide +kernel, by decide +kernel⟩
    obtain ⟨hkept, hcomes⟩ := (copyDir_spares hwf hfrom).2.2.2 fun _ _ => spares_of_makeTarget hmake hleads hspares
    refine ⟨hkept, hcomes nested hmake (fun _ => rfl) fun target hleads' rest _ _ => ?_⟩
    cases hleads.unique hleads'
    exact hbeside rest

/-- A file that is copied onto itself is emptied, and copying a directory into itself comes to what has been made
    there. -/
theorem not_copyDir_spares :
    (¬ ∀ (t : FileTree) (cwd : WorkingDir) (p q : Path) (source rest : Location) (entry : Entry), t.WellFormed →
      t.stat cwd p = .ok (source, .directory) → t.get? (source ++ rest) = some entry →
      (copyDir cwd p q t).2.get? (source ++ rest) = some entry) ∧
    ¬ ∀ (t : FileTree) (cwd : WorkingDir) (p q : Path) (source : Location) (made : FileTree) (path : Path),
      t.WellFormed → t.stat cwd p = .ok (source, .directory) → makeTarget cwd q t = (.ok (), made) →
      ComesTo cwd Path.lengthLimit p q made path →
      ∃ rest, t.get? (source ++ rest) ≠ none ∧ path = p.descend rest := by
  have hwf : nested.WellFormed := by decide +kernel
  have hfrom : nested.stat none "/s" = .ok (Path.place "/s", .directory) := by decide +kernel
  constructor
  · intro hclaim
    have hkept := hclaim nested none "/s" "/s" (Path.place "/s") (Path.place "f") (.file [1] false) hwf hfrom
      (by decide +kernel)
    have hemptied : (copyDir none "/s" "/s" nested).2.get? (Path.place "/s" ++ Path.place "f") =
        some (.file [] false) := by decide +kernel
    rw [hemptied] at hkept
    cases hkept
  · intro hclaim
    let made := nested.set (Path.place "/s/x/n") .directory
    have hmake : makeTarget none "/s/x/n" nested = (.ok (), made) :=
      Prod.ext (by decide +kernel) (by decide +kernel)
    have hlist : made.listEntries none "/s/x" = .ok ([] ++ (Bytes.ofText "n", .directory) :: []) := by decide +kernel
    have hcome : ComesTo none (4095 + 1) "/s/x" "/s/x/n" made (("/s/x" : Path).join ⟨Bytes.ofText "n"⟩) :=
      .entry hlist rfl
    obtain ⟨rest, hrest, hpath⟩ := hclaim nested none "/s/x" "/s/x/n" (Path.place "/s/x") made _ hwf (by decide +kernel)
      hmake hcome
    obtain ⟨entry, hget⟩ := Option.ne_none_iff_exists'.mp hrest
    have hother : ∀ rest entry, nested.get? (Path.place "/s/x" ++ rest) = some entry →
        ("/s/x" : Path).join ⟨Bytes.ofText "n"⟩ ≠ ("/s/x" : Path).descend rest :=
      forall_contentAt.mpr (by decide +kernel)
    exact hother rest entry hget hpath

end FileTree

end DebRelease
