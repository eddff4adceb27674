import DebRelease.Proofs.FileTree.Exact
import DebRelease.Proofs.FileTree.Within
import DebRelease.Proofs.Path.Tidy

namespace DebRelease.FileTree

open TreeM

variable {t t' : FileTree} {cwd : WorkingDir} {p above : Path} {dir place : Location} {name : Bytes}
    {missing init : List Bytes} {here : Location} {links : Nat} {last slash : Bool}

/-- The names of a path lead to a directory. -/
def Leads (t : FileTree) (cwd : WorkingDir) (p : Path) (dir : Location) : Prop :=
  ∃ start, startOf cwd p = .ok start ∧ t.follow true Path.linkLimit start p.names = .ok (.present dir .directory)

theorem startOf_congr {q : Path} (h : q.isAbsolute = p.isAbsolute) : startOf cwd q = startOf cwd p := by
  simp only [startOf, h]

theorem OnlyMakes.keeps (h : OnlyMakes place t t') : t.Keeps t' where
  directory := by
    intro location hget
    rcases h location with hsame | ⟨hnone, -, -⟩
    · rw [hsame, hget]
    · simp [hnone] at hget
  link := by
    intro location link hget
    rcases h location with hsame | ⟨hnone, -, -⟩
    · rw [hsame, hget]
    · simp [hnone] at hget

/-- Names that lead to a directory lead on to a directory in it. -/
theorem follow_enter (h : t.follow true links here init = .ok (.present dir .directory)) (hname : Path.IsOrdinary name)
    (hget : t.get? (dir ++ [name]) = some .directory) :
    t.follow true links here (init ++ [name]) = .ok (.present (dir ++ [name]) .directory) := by
  obtain ⟨left, -, heq⟩ := follow_concat h true name
  rw [heq, FileTree.follow, advance_enter (follow_fits h) hname hget rfl, advance_nil hget]

namespace Leads

theorem directory (h : t.Leads cwd p dir) : t.get? dir = some .directory := by
  obtain ⟨_, -, hfollow⟩ := h
  exact follow_fits hfollow

/-- A path leads to one directory. -/
theorem unique {dir' : Location} (h : t.Leads cwd p dir) (h' : t.Leads cwd p dir') : dir = dir' := by
  obtain ⟨start, hstart, hfollow⟩ := h
  obtain ⟨start', hstart', hfollow'⟩ := h'
  cases hstart.symm.trans hstart'
  cases hfollow.symm.trans hfollow'
  rfl

theorem keeps (h : t.Leads cwd p dir) (hkeeps : t.Keeps t') : t'.Leads cwd p dir := by
  obtain ⟨start, hstart, hfollow⟩ := h
  exact ⟨start, hstart, hkeeps.follow hfollow (.present (hkeeps.directory (follow_fits hfollow)) fun _ => rfl)⟩

/-- It is by its names and by its beginning that a path leads somewhere. -/
theorem of_names {q : Path} (h : t.Leads cwd p dir) (habsolute : q.isAbsolute = p.isAbsolute)
    (hnames : q.names = p.names) : t.Leads cwd q dir := by
  rw [Leads, hnames, startOf_congr habsolute]
  exact h

theorem stat (h : t.Leads cwd p dir) (hcheck : checkPath p = .ok ()) : t.stat cwd p = .ok (dir, .directory) := by
  obtain ⟨start, hstart, hfollow⟩ := h
  refine stat_eq_ok_iff.mpr (resolve_eq_ok_iff.mpr ⟨hcheck, start, hstart, ?_⟩)
  rw [Path.steps]
  split
  · have hdir : t.get? dir = some .directory := follow_fits hfollow
    obtain ⟨left, -, heq⟩ := follow_concat hfollow true Path.dot
    rw [heq, FileTree.follow, advance_dot hdir, advance_nil hdir]
  · exact hfollow

theorem isDir (h : t.Leads cwd p dir) (hcheck : checkPath p = .ok ()) : t.isDir cwd p = true := by
  rw [FileTree.isDir, h.stat hcheck]
  rfl

/-- A path of one name more stands for that name in the directory. -/
theorem standsFor (h : t.Leads cwd above dir) (habsolute : p.isAbsolute = above.isAbsolute)
    (hnames : p.names = above.names ++ [name]) (hname : Path.IsOrdinary name) (hend : p.endsInSlash = false)
    (hcheck : checkPath p = .ok ()) : t.StandsFor cwd p dir name := by
  obtain ⟨start, hstart, hfollow⟩ := h
  exact standsFor_of_names hcheck ((startOf_congr habsolute).trans hstart) hnames hname hend hfollow

/-- A path that leads to a directory leads on to a directory in it. -/
theorem enter (h : t.Leads cwd p dir) (hname : Path.IsEntryName name)
    (hget : t.get? (dir ++ [name]) = some .directory) : t.Leads cwd (p.join ⟨name⟩) (dir ++ [name]) := by
  obtain ⟨start, hstart, hfollow⟩ := h
  obtain ⟨habsolute, hnames, -⟩ := Path.join_name p hname.isName
  rw [Leads, startOf_congr habsolute, hnames]
  exact ⟨start, hstart, follow_enter hfollow hname.isOrdinary hget⟩

theorem child (h : t.Leads cwd p dir) (hname : Path.IsEntryName name) (hcheck : checkPath (p.join ⟨name⟩) = .ok ()) :
    t.StandsFor cwd (p.join ⟨name⟩) dir name := by
  obtain ⟨habsolute, hnames, hend⟩ := Path.join_name p hname.isName
  exact h.standsFor habsolute hnames hname.isOrdinary hend hcheck

end Leads

/-- The path of a directory leads to it. -/
theorem leads_of_stat (h : t.stat cwd p = .ok (dir, .directory)) : t.Leads cwd p dir := by
  obtain ⟨-, start, hstart, hfollow⟩ := resolve_eq_ok_iff.mp (stat_eq_ok_iff.mp h)
  refine ⟨start, hstart, ?_⟩
  rw [Path.steps] at hfollow
  split at hfollow
  · obtain ⟨found, hfound⟩ := follow_init hfollow
    have hdir : t.get? found = some .directory := follow_fits hfound
    obtain ⟨left, -, heq⟩ := follow_concat hfound true Path.dot
    rw [heq, FileTree.follow, advance_dot hdir, advance_nil hdir] at hfollow
    cases hfollow
    exact hfound
  · exact hfollow

/-- A path leads to the directory that its last name is that of. -/
theorem leads_of_parent (hparent : t.resolveParent cwd p = .ok (dir, .name name slash))
    (hlength : name.length ≤ Path.nameLimit) (hget : t.get? (dir ++ [name]) = some .directory) :
    t.Leads cwd p (dir ++ [name]) := by
  obtain ⟨-, hlast, start, hstart, hfollow⟩ := resolveParent_eq_ok_iff.mp hparent
  obtain ⟨hnames, -⟩ := lastName_eq_name_iff.mp hlast.symm
  exact ⟨start, hstart, hnames ▸ follow_enter hfollow (isOrdinary_of_parent hparent hlength) hget⟩

/-- What leads to a directory, by a name at least, leads to the directory above first. -/
theorem Leads.leads_above (h : t.Leads cwd p dir) (habsolute : above.isAbsolute = p.isAbsolute)
    (hnames : p.names = above.names ++ [name]) : ∃ found, t.Leads cwd above found := by
  obtain ⟨start, hstart, hfollow⟩ := h
  rw [hnames] at hfollow
  obtain ⟨found, hfound⟩ := follow_init hfollow
  exact ⟨found, start, (startOf_congr habsolute).trans hstart, hfound⟩

namespace StandsFor

/-- A path leads to the directory that it stands for. -/
theorem leads (h : t.StandsFor cwd p dir name) (hget : t.get? (dir ++ [name]) = some .directory) :
    t.Leads cwd p (dir ++ [name]) :=
  leads_of_stat (h.stat hget rfl)

/-- A slash at the end changes nothing about the directory and the name. -/
theorem parent_slash (h : t.StandsFor cwd p dir name) (hcheck : checkPath (p.join .empty) = .ok ()) :
    t.resolveParent cwd (p.join .empty) = .ok (dir, .name name true) := by
  obtain ⟨hcheck', hlast, start, hstart, hfollow⟩ := resolveParent_eq_ok_iff.mp h.parent
  obtain ⟨hnames, hdot, hdotDot, -⟩ := lastName_eq_name_iff.mp hlast.symm
  obtain ⟨habsolute, hjoined⟩ := Path.join_empty p
  have hend := p.endsInSlash_join_empty (checkPath_eq_ok_iff.mp hcheck').2.1
  refine resolveParent_eq_ok_iff.mpr ⟨hcheck, ?_, start, (startOf_congr habsolute).trans hstart, ?_⟩
  · exact (lastName_eq_name_iff.mpr ⟨by rw [hjoined, ← hnames], hdot, hdotDot, hend⟩).symm
  · rw [hjoined]
    exact hfollow

end StandsFor

theorem makeDir_of_parent (hparent : t.resolveParent cwd p = .ok (dir, .name name slash))
    (hlength : name.length ≤ Path.nameLimit) (hnone : t.get? (dir ++ [name]) = none) :
    makeDir cwd p t = (.ok (), t.set (dir ++ [name]) .directory) := by
  rw [makeDir, run_bind, run_look, hparent]
  dsimp only
  rw [if_neg (Nat.not_lt.mpr hlength), run_bind, run_get]
  dsimp only
  rw [hnone]
  rfl

theorem makeDirs_of_makeDir (hne : p.bytes ≠ []) (hmake : makeDir cwd p t = (.ok (), t')) :
    makeDirs cwd p t = (.ok (), t') := by
  rw [makeDirs]
  cases p.bytes.length
  all_goals
    rw [makeDirsUpTo, if_neg (by simpa using hne), run_bind, run_attempt, hmake]
    rfl

/-- A directory cannot be made where one is, by whatever path. -/
theorem Leads.makeDir (h : t.Leads cwd p dir) (hcheck : checkPath p = .ok ()) :
    makeDir cwd p t = (.error (.os .alreadyExists), t) := by
  obtain ⟨start, hstart, hfollow⟩ := h
  rcases List.eq_nil_or_concat p.names with hnil | ⟨init, last, hnames⟩
  · have hparent : t.resolveParent cwd p = .ok (dir, .root) := by
      refine resolveParent_eq_ok_iff.mpr ⟨hcheck, by rw [lastName, hnil]; rfl, start, hstart, ?_⟩
      rw [hnil] at hfollow ⊢
      exact hfollow
    rw [FileTree.makeDir, run_bind, run_look, hparent]
    rfl
  rw [List.concat_eq_append] at hnames
  rw [hnames] at hfollow
  obtain ⟨found, hfound⟩ := follow_init hfollow
  have hparent : t.resolveParent cwd p = .ok (found, lastName p) :=
    resolveParent_eq_ok_iff.mpr ⟨hcheck, rfl, start, hstart, by rw [hnames, List.dropLast_concat]; exact hfound⟩
  rw [FileTree.makeDir, run_bind, run_look, hparent]
  dsimp only
  cases hlast : lastName p with
  | name name slash =>
    obtain ⟨hsplit, hdot, hdotDot, -⟩ := lastName_eq_name_iff.mp hlast
    obtain rfl : last = name := by
      rw [hnames, List.dropLast_concat] at hsplit
      simpa using hsplit
    obtain ⟨left, -, heq⟩ := follow_concat hfound true last
    have hdir : t.get? found = some .directory := follow_fits hfound
    rw [heq] at hfollow
    have hlength : last.length ≤ Path.nameLimit := by
      by_contra hlong
      rw [FileTree.follow, advance_tooLong hdir hdot hdotDot (Nat.not_le.mp hlong)] at hfollow
      cases hfollow
    dsimp only
    rw [if_neg (Nat.not_lt.mpr hlength), run_bind, run_get]
    dsimp only
    cases hget : t.get? (found ++ [last]) with
    | some => rfl
    | none =>
      rw [FileTree.follow, advance_absent hdir ⟨hdot, hdotDot, hlength⟩ hget] at hfollow
      cases hfollow
  | _ => rfl

/-- Nothing is made for an empty path. -/
theorem makeDirsUpTo_of_empty (hempty : p.bytes = []) (cwd : WorkingDir) (parents : Nat) (t : FileTree) :
    makeDirsUpTo cwd parents p t = (.ok (), t) := by
  cases parents
  all_goals
    rw [makeDirsUpTo, if_pos (by simp [hempty])]
    rfl

/-- A directory that is there need not be made. -/
theorem Leads.makeDirsUpTo (h : t.Leads cwd p dir) (hcheck : p.bytes ≠ [] → checkPath p = .ok ()) (parents : Nat) :
    makeDirsUpTo cwd parents p t = (.ok (), t) := by
  by_cases hempty : p.bytes = []
  · exact makeDirsUpTo_of_empty hempty cwd parents t
  · have hpresent : SystemError.isNotFound (.os .alreadyExists) = false := rfl
    have hnonempty : ¬ p.bytes.isEmpty = true := by simpa using hempty
    cases parents
    all_goals
      rw [FileTree.makeDirsUpTo, if_neg hnonempty, run_bind, run_attempt, h.makeDir (hcheck hempty)]
      simp only [hpresent, Bool.false_eq_true, if_false, run_bind, run_get, h.isDir (hcheck hempty), if_true, run_pure]

theorem Leads.makeDirs (h : t.Leads cwd p dir) (hcheck : p.bytes ≠ [] → checkPath p = .ok ()) :
    makeDirs cwd p t = (.ok (), t) :=
  h.makeDirsUpTo hcheck _

/-- Nothing is at a path: it leads to a directory, and on from there by names of which already the first is missing. -/
def Vacant (t : FileTree) (cwd : WorkingDir) (p : Path) (dir : Location) (missing : List Bytes) : Prop :=
  ∃ above : Path, above.isAbsolute = p.isAbsolute ∧ p.names = above.names ++ missing ∧ t.Leads cwd above dir ∧
    t.get? (dir ++ missing.take 1) = none ∧ ∀ name ∈ missing, name.length ≤ Path.nameLimit

private theorem take_one_append (h : init ≠ []) (more : List Bytes) : (init ++ more).take 1 = init.take 1 := by
  obtain ⟨first, rest, rfl⟩ := List.exists_cons_of_ne_nil h
  rfl

/-- Names on from a directory lead nowhere, if the first of them is missing. -/
private theorem follow_missing {front : List Bytes} (h : t.follow true links here front = .ok (.present dir .directory))
    (hget : t.get? (dir ++ missing.take 1) = none) (hnames : ∀ name ∈ missing, Path.IsOrdinary name) (last : Bool) :
    t.follow last links here (front ++ missing) = .error .noEntry ∨
      ∃ above free, t.follow last links here (front ++ missing) = .ok (.absent above free) := by
  have hdir : t.get? dir = some .directory := follow_fits h
  induction missing using List.reverseRecOn generalizing last with
  | nil => simp [hdir] at hget
  | append_singleton init name ih =>
    by_cases hnil : init = []
    · rw [hnil, List.nil_append] at hget hnames ⊢
      obtain ⟨left, -, heq⟩ := follow_concat h last name
      rw [heq, FileTree.follow, advance_absent hdir (hnames name (by simp)) hget]
      exact .inr ⟨dir, name, rfl⟩
    · rw [take_one_append hnil] at hget
      have hinit := ih hget (fun other hmem => hnames other (by simp [hmem])) true
      rw [← List.append_assoc]
      exact .inl (follow_concat_missing hinit last name)

namespace Vacant

variable {front : Location}

theorem ne_nil (h : t.Vacant cwd p dir missing) : missing ≠ [] := by
  rintro rfl
  obtain ⟨_, -, -, hleads, hnone, -⟩ := h
  simp [hleads.directory] at hnone

theorem get? (h : t.Vacant cwd p dir missing) (hwf : t.WellFormed) : t.get? (dir ++ missing) = none := by
  obtain ⟨_, -, -, -, hnone, -⟩ := h
  exact hwf.none_of_prefix hnone ((List.prefix_append_right_inj dir).mpr (List.take_prefix 1 missing))

theorem isOrdinary (h : t.Vacant cwd p dir missing) (htidy : p.IsTidy) : ∀ name ∈ missing, Path.IsOrdinary name := by
  obtain ⟨_, -, hnames, -, -, hlength⟩ := h
  intro name hmem
  have hmem' : name ∈ p.names := by
    rw [hnames]
    exact List.mem_append_right _ hmem
  exact ⟨fun heq => htidy.noDot (heq ▸ hmem'), fun heq => htidy.noDotDot (heq ▸ hmem'), hlength name hmem⟩

/-- If only the last name is missing, the path stands for it. -/
theorem standsFor (h : t.Vacant cwd p dir [name]) (htidy : p.IsTidy) (hcheck : checkPath p = .ok ()) :
    t.StandsFor cwd p dir name := by
  have hname := h.isOrdinary htidy name (by simp)
  obtain ⟨above, habsolute, hnames, hleads, -⟩ := h
  exact hleads.standsFor habsolute.symm hnames hname htidy.noSlash hcheck

/-- If more than the last name is missing, nothing is at the directory of the path either, and what leads there lets the
    path stand for its last name. -/
theorem parent (h : t.Vacant cwd p dir (front ++ [name])) (hfront : front ≠ []) (htidy : p.IsTidy)
    (hcheck : checkPath p = .ok ()) : ∃ above, p.parent? = some above ∧ above.IsTidy ∧ checkPath above = .ok () ∧
      above.bytes.length < p.bytes.length ∧ t.Vacant cwd above dir front ∧
      ∀ {t' : FileTree} {place : Location}, t'.Leads cwd above place → t'.StandsFor cwd p place name := by
  have hname := h.isOrdinary htidy name (by simp)
  obtain ⟨start, habsolute, hnames, hleads, hnone, hlength⟩ := h
  rw [← List.append_assoc] at hnames
  obtain ⟨above, hparent, habsolute', hnames', hbytes, hshorter, htidy'⟩ := htidy.parent? hnames
  have hne : start.names ++ front ≠ [] := by simp [hfront]
  have hnonempty : above.bytes ≠ [] := by
    intro hnil
    rw [Path.names_eq, hnil] at hnames'
    exact hne hnames'.symm
  refine ⟨above, hparent, htidy' hne, checkPath_of_isPrefix hcheck hbytes hnonempty, hshorter,
    ⟨start, habsolute.trans habsolute'.symm, hnames', hleads, ?_, ?_⟩, ?_⟩
  · rwa [take_one_append hfront] at hnone
  · exact fun other hmem => hlength other (List.mem_append_left _ hmem)
  · exact fun hleads' => hleads'.standsFor habsolute'.symm (by rw [hnames']; exact hnames) hname htidy.noSlash hcheck

/-- There is nowhere to stand, if more than the last name is missing. -/
theorem resolveParent (h : t.Vacant cwd p dir (front ++ [name])) (hfront : front ≠ []) (htidy : p.IsTidy)
    (hcheck : checkPath p = .ok ()) : t.resolveParent cwd p = .error (.os .noEntry) := by
  have hordinary := h.isOrdinary htidy
  obtain ⟨above, habsolute, hnames, ⟨start, hstart, hfollow⟩, hnone, -⟩ := h
  rw [take_one_append hfront] at hnone
  have hstart' : startOf cwd p = .ok start := (startOf_congr habsolute.symm).trans hstart
  have hmissing := follow_missing hfollow hnone (fun other hmem => hordinary other (by simp [hmem])) true
  rw [FileTree.resolveParent, hcheck, hstart', hnames, ← List.append_assoc, List.dropLast_concat]
  rcases hmissing with hmissing | ⟨_, _, hmissing⟩
  · simp [hmissing, bind, Except.bind, Except.mapError]
  · simp [hmissing, bind, Except.bind, Except.mapError]
    rfl

/-- Nothing is found at the path. -/
theorem lstat (h : t.Vacant cwd p dir missing) (htidy : p.IsTidy) (hcheck : checkPath p = .ok ()) :
    t.lstat cwd p = .error (.os .noEntry) := by
  have hordinary := h.isOrdinary htidy
  obtain ⟨above, habsolute, hnames, ⟨start, hstart, hfollow⟩, hnone, -⟩ := h
  have hstart' : startOf cwd p = .ok start := (startOf_congr habsolute.symm).trans hstart
  have hmissing := follow_missing hfollow hnone hordinary false
  rw [FileTree.lstat, resolve, hcheck, hstart', Path.steps, htidy.noSlash, if_neg (by simp), hnames]
  rcases hmissing with hmissing | ⟨_, _, hmissing⟩
  · simp [hmissing, bind, Except.bind, Except.mapError]
  · simp [hmissing, bind, Except.bind, Except.mapError]
    rfl

end Vacant

/-- What making a directory with those above it leaves: a directory that the path leads to, and nothing else is new but
    directories on the way. -/
structure Made (cwd : WorkingDir) (p : Path) (place : Location) (t t' : FileTree) : Prop where
  wellFormed : t'.WellFormed
  makes : OnlyMakes place t t'
  leads : t'.Leads cwd p place

/-- A directory may be put where nothing is. -/
theorem StandsFor.made (h : t.StandsFor cwd p dir name) (hwf : t.WellFormed) (hnone : t.get? (dir ++ [name]) = none) :
    Made cwd p (dir ++ [name]) t (t.set (dir ++ [name]) .directory) := by
  have hne : dir ++ [name] ≠ [] := by simp
  have hmakes : OnlyMakes (dir ++ [name]) t (t.set (dir ++ [name]) .directory) := onlyMakes_set hne hnone
  refine ⟨hwf.set h.directory h.isEntryName (by simp [hnone]) (by simp), hmakes, ?_⟩
  exact (h.keeps hmakes.keeps).leads (get?_set_self t _ hne)

/-- A directory is made where nothing is, with those above it that are missing. -/
private theorem Vacant.makeDirsUpTo (parents : Nat) (h : t.Vacant cwd p dir missing) (htidy : p.IsTidy)
    (hcheck : checkPath p = .ok ()) (hwf : t.WellFormed) (hparents : p.bytes.length ≤ parents) :
    Yields (makeDirsUpTo cwd parents p) t fun _ => Made cwd p (dir ++ missing) t := by
  induction parents generalizing p missing with
  | zero =>
    have hnonempty := List.length_pos_iff.mpr (checkPath_eq_ok_iff.mp hcheck).2.1
    omega
  | succ parents ih =>
    obtain ⟨front, name, rfl⟩ := (List.eq_nil_or_concat missing).resolve_left h.ne_nil
    rw [List.concat_eq_append] at h ⊢
    have hnonempty : ¬ p.bytes.isEmpty = true := by simpa using (checkPath_eq_ok_iff.mp hcheck).2.1
    rw [FileTree.makeDirsUpTo, if_neg hnonempty]
    refine .step (run_attempt _ t) ?_
    by_cases hfront : front = []
    · subst hfront
      have hstands := h.standsFor htidy hcheck
      rw [makeDir_of_parent hstands.parent hstands.length_le (h.get? hwf)]
      exact .pure (hstands.made hwf (h.get? hwf))
    · -- The directory above is missing: it is made, and then there is room for this one.
      obtain ⟨above, hparent, htidy', hcheck', hshorter, habove, hback⟩ := h.parent hfront htidy hcheck
      have hmissing : makeDir cwd p t = (.error (.os .noEntry), t) := by
        rw [makeDir, run_bind, run_look, h.resolveParent hfront htidy hcheck]
      have hfound : SystemError.isNotFound (.os .noEntry) = true := rfl
      rw [hmissing, hparent]
      dsimp only
      rw [if_pos hfound]
      refine (ih habove htidy' hcheck' (by omega)).bind fun _ ready hready => ?_
      have hstands := hback hready.leads
      have hfree : ready.get? (dir ++ front ++ [name]) = none := by
        rw [hready.makes.get?_append (List.cons_ne_nil _ _), List.append_assoc]
        exact h.get? hwf
      have hmade := hstands.made hready.wellFormed hfree
      refine .step (run_attempt _ ready) ?_
      rw [makeDir_of_parent hstands.parent hstands.length_le hfree, ← List.append_assoc]
      exact .pure ⟨hmade.wellFormed, (hready.makes.of_prefix (List.prefix_append _ _)).trans hmade.makes, hmade.leads⟩

theorem Vacant.makeDirs (h : t.Vacant cwd p dir missing) (htidy : p.IsTidy) (hcheck : checkPath p = .ok ())
    (hwf : t.WellFormed) : Yields (makeDirs cwd p) t fun _ => Made cwd p (dir ++ missing) t :=
  h.makeDirsUpTo _ htidy hcheck hwf le_rfl

/-- Where the directory of a path is there, nothing is made. -/
private theorem makeParent_of_leads (htidy : p.IsTidy) (hcheck : checkPath p = .ok ())
    (h : ∀ {above : Path} {name : Bytes}, above.isAbsolute = p.isAbsolute → p.names = above.names ++ [name] →
      ∃ found, t.Leads cwd above found) : makeParent cwd p t = (.ok (), t) := by
  obtain ⟨init, name, hnames, -⟩ := Path.names_append (checkPath_eq_ok_iff.mp hcheck).2.1 htidy.noSlash
    (show Path.slash ∉ Bytes.ofText "" by decide +kernel)
  obtain ⟨above, hparent, habsolute, hnames', hbytes, -⟩ := htidy.parent? hnames
  obtain ⟨found, hleads⟩ := h habsolute (hnames' ▸ hnames)
  rw [makeParent, hparent]
  dsimp only
  rw [run_describe, hleads.makeDirs (checkPath_of_isPrefix hcheck hbytes)]
  rfl

theorem Leads.makeParent (h : t.Leads cwd p dir) (htidy : p.IsTidy) (hcheck : checkPath p = .ok ()) :
    makeParent cwd p t = (.ok (), t) :=
  makeParent_of_leads htidy hcheck h.leads_above

theorem StandsFor.makeParent (h : t.StandsFor cwd p dir name) (htidy : p.IsTidy) :
    makeParent cwd p t = (.ok (), t) := by
  refine makeParent_of_leads htidy h.check fun {above last} habsolute hnames => ?_
  obtain ⟨-, -, start, hstart, hfollow⟩ := resolveParent_eq_ok_iff.mp h.parent
  rw [hnames, List.dropLast_concat] at hfollow
  exact ⟨dir, start, (startOf_congr habsolute).trans hstart, hfollow⟩

/-- A free name is all that is missing of a path that stands for it. -/
theorem StandsFor.vacant (h : t.StandsFor cwd p dir name) (htidy : p.IsTidy) (hnone : t.get? (dir ++ [name]) = none) :
    t.Vacant cwd p dir [name] := by
  obtain ⟨-, hlast, start, hstart, hfollow⟩ := resolveParent_eq_ok_iff.mp h.parent
  obtain ⟨hnames, -⟩ := lastName_eq_name_iff.mp hlast.symm
  obtain ⟨above, -, habsolute, hnames', -⟩ := htidy.parent? hnames
  refine ⟨above, habsolute, by rw [hnames']; exact hnames, ⟨start, (startOf_congr habsolute).trans hstart, ?_⟩, hnone,
    ?_⟩
  · rw [hnames']
    exact hfollow
  · simpa using h.length_le

/-- After the directory of a path has been made, the path stands for its last name. -/
theorem Vacant.makeParent {front : Location} (h : t.Vacant cwd p dir (front ++ [name])) (htidy : p.IsTidy)
    (hcheck : checkPath p = .ok ()) (hwf : t.WellFormed) : Yields (makeParent cwd p) t fun _ t' =>
      t'.WellFormed ∧ OnlyMakes (dir ++ front) t t' ∧ t'.StandsFor cwd p (dir ++ front) name := by
  by_cases hfront : front = []
  · subst hfront
    have hstands := h.standsFor htidy hcheck
    rw [List.append_nil]
    exact ⟨(), t, hstands.makeParent htidy, hwf, OnlyMakes.refl dir t, hstands⟩
  · obtain ⟨above, hparent, htidy', hcheck', -, habove, hback⟩ := h.parent hfront htidy hcheck
    rw [FileTree.makeParent, hparent]
    refine ((habove.makeDirs htidy' hcheck' hwf).describe _).mono fun _ ready hready => ?_
    exact ⟨hready.wellFormed, hready.makes, hback hready.leads⟩

end DebRelease.FileTree
