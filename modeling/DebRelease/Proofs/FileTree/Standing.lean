import DebRelease.Proofs.FileTree.Changes
import DebRelease.Proofs.FileTree.WellFormed
import DebRelease.Proofs.Path.Segments

namespace DebRelease.FileTree

open TreeM

variable {t t' : FileTree} {cwd : WorkingDir} {p : Path} {here dir location : Location} {name old content : Bytes}
    {names rest : List Bytes} {links : Nat} {entry : Entry} {is last : Bool} {target : Target}

/-- The path stands for a name in a directory, whether or not there is something. -/
structure StandsFor (t : FileTree) (cwd : WorkingDir) (p : Path) (dir : Location) (name : Bytes) : Prop where
  /-- The names before the last one lead to the directory. -/
  parent : t.resolveParent cwd p = .ok (dir, .name name false)
  length_le : name.length ≤ Path.nameLimit

/-- The path is not that of a symbolic link. -/
def NotLink (t : FileTree) (cwd : WorkingDir) (p : Path) : Prop :=
  ∀ location link, t.lstat cwd p ≠ .ok (location, .symlink link)

instance (t : FileTree) (cwd : WorkingDir) (p : Path) : Decidable (t.NotLink cwd p) :=
  decidable_of_iff (∀ found ∈ (t.lstat cwd p).toOption, found.2.isSymlink = false) <| by
    cases hlstat : t.lstat cwd p with
    | error e => simp [NotLink, hlstat, Except.toOption]
    | ok found =>
      obtain ⟨location, entry⟩ := found
      cases entry <;> simp [NotLink, hlstat, Except.toOption, Entry.isSymlink]

theorem NotLink.isSymlink (h : t.NotLink cwd p) (hlstat : t.lstat cwd p = .ok (location, entry)) :
    entry.isSymlink = false :=
  Entry.isSymlink_of_ne fun link heq => h location link (heq ▸ hlstat)

private theorem WellFormed.dropLast (hwf : t.WellFormed) (hdir : t.get? dir = some .directory) :
    t.get? dir.dropLast = some .directory := by
  rcases List.eq_nil_or_concat dir with rfl | ⟨above, last, rfl⟩
  · rfl
  · rw [List.concat_eq_append] at hdir ⊢
    rw [List.dropLast_concat]
    exact hwf.parent hdir

/-- A path whose last name is a name stands for that name, if it can be followed. -/
theorem standsFor_of_lastName (hlast : lastName p = .name name false) (h : t.resolve cwd last p = .ok target) :
    ∃ dir, t.StandsFor cwd p dir name := by
  obtain ⟨hcheck, start, hstart, hfollow⟩ := resolve_eq_ok_iff.mp h
  obtain ⟨hnames, -, -, hend⟩ := lastName_eq_name_iff.mp hlast
  rw [Path.steps, hend, if_neg (by simp), hnames] at hfollow
  obtain ⟨dir, hdir⟩ := follow_init hfollow
  have hparent : t.resolveParent cwd p = .ok (dir, .name name false) :=
    resolveParent_eq_ok_iff.mpr ⟨hcheck, hlast.symm, start, hstart, hdir⟩
  exact ⟨dir, hparent, length_le_of_resolve hparent h⟩

/-- A path stands for its last name in the directory that the names before it lead to. -/
theorem standsFor_of_names {start : Location} {init : List Bytes} (hcheck : checkPath p = .ok ())
    (hstart : startOf cwd p = .ok start) (hnames : p.names = init ++ [name]) (hname : Path.IsOrdinary name)
    (hend : p.endsInSlash = false) (hfollow : t.follow true Path.linkLimit start init = .ok (.present dir .directory)) :
    t.StandsFor cwd p dir name := by
  have hinit : p.names.dropLast = init := by rw [hnames, List.dropLast_concat]
  have hlast : lastName p = .name name false :=
    lastName_eq_name_iff.mpr ⟨by rw [hinit, hnames], hname.ne_dot, hname.ne_dotDot, hend⟩
  exact ⟨resolveParent_eq_ok_iff.mpr ⟨hcheck, hlast.symm, start, hstart, hinit ▸ hfollow⟩, hname.length_le⟩

/-- Neither `.` nor `..` leads to what is no directory. -/
private theorem ne_of_follow (hwf : t.WellFormed) (hdir : t.get? dir = some .directory) (hentry : entry ≠ .directory)
    (h : t.follow last links dir [name] = .ok (.present location entry)) : name ≠ Path.dot ∧ name ≠ Path.dotDot := by
  constructor
  · rintro rfl
    rw [FileTree.follow, advance_dot hdir, advance_nil hdir] at h
    cases h
    exact hentry rfl
  · rintro rfl
    rw [FileTree.follow, advance_dotDot hdir, advance_nil (hwf.dropLast hdir)] at h
    cases h
    exact hentry rfl

private theorem bytes_ne_nil (hcheck : checkPath p = .ok ()) : p.bytes ≠ [] := by
  intro hnil
  simp [checkPath, hnil] at hcheck

/-- A path that names what is no directory stands for a name. -/
theorem standsFor_of_resolve (hwf : t.WellFormed) (hentry : entry ≠ .directory)
    (h : t.resolve cwd last p = .ok (.present location entry)) : ∃ dir name, t.StandsFor cwd p dir name := by
  obtain ⟨hcheck, start, hstart, hfollow⟩ := resolve_eq_ok_iff.mp h
  have hsteps (init : List Bytes) (name : Bytes) (heq : p.steps = init ++ [name]) :
      name ≠ Path.dot ∧ name ≠ Path.dotDot := by
    rw [heq] at hfollow
    obtain ⟨dir, hdir⟩ := follow_init hfollow
    obtain ⟨left, -, hleft⟩ := follow_concat hdir last name
    exact ne_of_follow hwf (follow_fits hdir) hentry (hleft ▸ hfollow)
  have hend : p.endsInSlash = false := by
    by_contra hslash
    exact (hsteps p.names Path.dot (by rw [Path.steps, if_pos (by simpa using hslash)])).1 rfl
  obtain ⟨init, name, hnames, -⟩ := Path.names_append (bytes_ne_nil hcheck) hend
    (show Path.slash ∉ Bytes.ofText "" by decide +kernel)
  obtain ⟨hdot, hdotDot⟩ := hsteps init name (by rw [Path.steps, hend, if_neg (by simp), hnames])
  have hlast : lastName p = .name name false :=
    lastName_eq_name_iff.mpr ⟨by rw [hnames, List.dropLast_concat], hdot, hdotDot, hend⟩
  obtain ⟨dir, hstands⟩ := standsFor_of_lastName hlast h
  exact ⟨dir, name, hstands⟩

namespace StandsFor

theorem check (h : t.StandsFor cwd p dir name) : checkPath p = .ok () :=
  (resolveParent_eq_ok_iff.mp h.parent).1

theorem directory (h : t.StandsFor cwd p dir name) : t.get? dir = some .directory :=
  resolveParent_directory h.parent

theorem isEntryName (h : t.StandsFor cwd p dir name) : Path.IsEntryName name :=
  isEntryName_of_parent h.parent h.length_le

theorem keeps (h : t.StandsFor cwd p dir name) (hkeeps : t.Keeps t') : t'.StandsFor cwd p dir name :=
  ⟨hkeeps.resolveParent h.parent, h.length_le⟩

/-- The path with a text after it leads to the same directory, if it may be handed to the system. -/
theorem parent_append (h : t.StandsFor cwd p dir name) {suffix : String} (hslash : Path.slash ∉ Bytes.ofText suffix)
    (hlong : 3 ≤ (Bytes.ofText suffix).length) (hcheck : checkPath (p.append suffix) = .ok ()) :
    t.resolveParent cwd (p.append suffix) = .ok (dir, .name (name ++ Bytes.ofText suffix) false) := by
  obtain ⟨hcheckName, hlast, start, hstart, hfollow⟩ := resolveParent_eq_ok_iff.mp h.parent
  obtain ⟨hnames, -, -, hend⟩ := lastName_eq_name_iff.mp hlast.symm
  obtain ⟨init, found, hinit, happend, habsolute, hend'⟩ := Path.names_append (bytes_ne_nil hcheckName) hend hslash
  have hfound : init = p.names.dropLast ∧ found = name := by
    rw [hinit, List.dropLast_concat] at hnames
    refine ⟨by rw [hinit, List.dropLast_concat], ?_⟩
    simpa using hnames
  obtain ⟨rfl, rfl⟩ := hfound
  have hlength : 3 ≤ (found ++ Bytes.ofText suffix).length := by
    rw [List.length_append]
    omega
  refine resolveParent_eq_ok_iff.mpr ⟨hcheck, ?_, start, ?_, ?_⟩
  · refine (lastName_eq_name_iff.mpr ⟨?_, ?_, ?_, hend'⟩).symm
    · rw [happend, List.dropLast_concat]
    · intro heq
      rw [heq] at hlength
      exact absurd hlength (by decide)
    · intro heq
      rw [heq] at hlength
      exact absurd hlength (by decide)
  · simp only [startOf, habsolute] at hstart ⊢
    exact hstart
  · rw [happend, List.dropLast_concat]
    exact hfollow

/-- The path with a text after it stands for the name with the text after it, if it names anything or could. -/
theorem append (h : t.StandsFor cwd p dir name) {suffix : String} {last : Bool} {target : Target}
    (hslash : Path.slash ∉ Bytes.ofText suffix) (hlong : 3 ≤ (Bytes.ofText suffix).length)
    (hresolve : t.resolve cwd last (p.append suffix) = .ok target) :
    t.StandsFor cwd (p.append suffix) dir (name ++ Bytes.ofText suffix) := by
  have hparent := h.parent_append hslash hlong (resolve_eq_ok_iff.mp hresolve).1
  exact ⟨hparent, length_le_of_resolve hparent hresolve⟩

theorem stat (h : t.StandsFor cwd p dir name) (hget : t.get? (dir ++ [name]) = some entry)
    (hlink : entry.isSymlink = false) : t.stat cwd p = .ok (dir ++ [name], entry) :=
  stat_eq_ok_iff.mpr (resolve_of_parent_present h.parent h.length_le hget fun _ => hlink)

theorem lstat (h : t.StandsFor cwd p dir name) (hget : t.get? (dir ++ [name]) = some entry) :
    t.lstat cwd p = .ok (dir ++ [name], entry) :=
  lstat_eq_ok_iff.mpr (resolve_of_parent_present h.parent h.length_le hget (by simp))

theorem get?_of_lstat (h : t.StandsFor cwd p dir name) (hlstat : t.lstat cwd p = .ok (location, entry)) :
    t.get? (dir ++ [name]) = some entry := by
  cases hget : t.get? (dir ++ [name]) with
  | some found =>
    rw [h.lstat hget] at hlstat
    cases hlstat
    rfl
  | none =>
    have hresolve := lstat_eq_ok_iff.mp hlstat
    rw [resolve_of_parent_absent h.parent h.length_le hget] at hresolve
    cases hresolve

/-- Nothing is there if nothing is found at the path, not even a link. -/
theorem get?_eq_none (h : t.StandsFor cwd p dir name)
    (hfree : ∀ location entry, t.lstat cwd p ≠ .ok (location, entry)) : t.get? (dir ++ [name]) = none := by
  by_contra hsome
  obtain ⟨entry, hthere⟩ := Option.ne_none_iff_exists'.mp hsome
  exact hfree _ _ (h.lstat hthere)

theorem eq_of_lstat (h : t.StandsFor cwd p dir name) (hlstat : t.lstat cwd p = .ok (location, entry)) :
    location = dir ++ [name] := by
  rw [h.lstat (h.get?_of_lstat hlstat)] at hlstat
  cases hlstat
  rfl

/-- A file, be it reached through links, is emptied. -/
theorem truncate_over (h : t.StandsFor cwd p dir name) (hstat : t.stat cwd p = .ok (location, .file old is))
    (executable : Bool) : truncate cwd executable p t = (.ok location, t.set location (.file [] is)) := by
  rw [truncate, run_bind, run_look, h.parent]
  dsimp only
  rw [run_bind, run_look, stat_eq_ok_iff.mp hstat]
  rfl

/-- Where nothing is, an empty file is made. -/
theorem truncate_absent (h : t.StandsFor cwd p dir name) (hnone : t.get? (dir ++ [name]) = none)
    (executable : Bool) :
    truncate cwd executable p t = (.ok (dir ++ [name]), t.set (dir ++ [name]) (.file [] executable)) := by
  rw [truncate, run_bind, run_look, h.parent]
  dsimp only
  rw [run_bind, run_look, resolve_of_parent_absent h.parent h.length_le hnone]
  dsimp only
  rw [if_neg (Nat.not_lt.mpr h.length_le)]
  rfl

/-- Writing over a file, be it reached through links, changes its bytes only. -/
theorem write_over (h : t.StandsFor cwd p dir name) (hstat : t.stat cwd p = .ok (location, .file old is)) :
    write cwd p content t = (.ok (), t.set location (.file content is)) := by
  have hopens : t.Opens cwd p location := .of_stat hstat
  rw [write, run_bind, h.truncate_over hstat]
  dsimp only
  rw [fill_eq (get?_set_self t _ hopens.ne_nil), set_set]

theorem write_present (h : t.StandsFor cwd p dir name) (hget : t.get? (dir ++ [name]) = some (.file old is)) :
    write cwd p content t = (.ok (), t.set (dir ++ [name]) (.file content is)) :=
  h.write_over (h.stat hget rfl)

/-- Writing where nothing is makes a file. -/
theorem write_absent (h : t.StandsFor cwd p dir name) (hnone : t.get? (dir ++ [name]) = none) :
    write cwd p content t = (.ok (), t.set (dir ++ [name]) (.file content false)) := by
  rw [write, run_bind, h.truncate_absent hnone]
  dsimp only
  rw [fill_eq (get?_set_self t _ (by simp)), set_set]

theorem unlink (h : t.StandsFor cwd p dir name) (hget : t.get? (dir ++ [name]) = some entry)
    (hnot : entry ≠ .directory) : unlink cwd p t = (.ok (), t.erase (dir ++ [name])) := by
  rw [FileTree.unlink, run_bind, run_look, h.parent]
  dsimp only
  rw [if_neg (Nat.not_lt.mpr h.length_le), run_bind, run_get]
  dsimp only
  rw [hget]
  cases entry with
  | directory => exact absurd rfl hnot
  | _ => rfl

end StandsFor

/-- A path that names a file stands for a name. -/
theorem standsFor_of_lstat (hwf : t.WellFormed) (h : t.lstat cwd p = .ok (location, .file content is)) :
    ∃ dir name, location = dir ++ [name] ∧ t.StandsFor cwd p dir name := by
  obtain ⟨dir, name, hstands⟩ := standsFor_of_resolve hwf (by simp) (lstat_eq_ok_iff.mp h)
  exact ⟨dir, name, hstands.eq_of_lstat h, hstands⟩

/-- Where links are followed, names lead from what is no link to what is none. -/
private theorem isSymlink_of_advance (hwf : t.WellFormed) (hhere : ∀ found ∈ t.get? here, found.isSymlink = false)
    (h : t.advance true here names = .ok (.arrived (.present location entry))) : entry.isSymlink = false := by
  fun_induction FileTree.advance t true here names with
  | case1 here found hfound =>
    cases h
    exact hhere _ hfound
  | case4 here rest hdir ih => exact ih hhere h
  | case5 here rest hdir _ ih => exact ih (by simp [hwf.dropLast hdir, Entry.isSymlink]) h
  | case9 here name rest hdir hdot hdotDot hlength link hfound hend => simp at hend
  | case11 here name rest hdir hdot hdotDot hlength found hnot hfound ih =>
    refine ih (fun entry hentry => ?_) h
    obtain rfl := Option.some.inj (hfound.symm.trans hentry)
    exact Entry.isSymlink_of_ne hnot
  | _ => cases h

private theorem directory_of_link {link : Path} (h : t.advance last here names = .ok (.link dir link rest)) :
    t.get? dir = some .directory := by
  fun_induction FileTree.advance t last here names with
  | case4 here rest hdir ih => exact ih h
  | case5 here rest hdir _ ih => exact ih h
  | case10 here name rest hdir hdot hdotDot hlength link hfound hend =>
    cases h
    exact hdir
  | case11 here name rest hdir hdot hdotDot hlength found hnot hfound ih => exact ih h
  | _ => cases h

private theorem isSymlink_of_follow (hwf : t.WellFormed) (hdir : t.get? here = some .directory)
    (h : t.follow true links here names = .ok (.present location entry)) : entry.isSymlink = false := by
  fun_induction FileTree.follow t true links here names with
  | case2 links here names found hfound =>
    cases h
    exact isSymlink_of_advance hwf (by simp [hdir, Entry.isSymlink]) hfound
  | case4 here names dir link rest hlink links ih =>
    refine ih ?_ h
    split
    · rfl
    · exact directory_of_link hlink
  | _ => cases h

/-- Where links are followed, none is found at the end. -/
theorem WellFormed.isSymlink_of_stat (hwf : t.WellFormed) (h : t.stat cwd p = .ok (location, entry)) :
    entry.isSymlink = false := by
  have hresolve := stat_eq_ok_iff.mp h
  by_cases hentry : entry = .directory
  · rw [hentry]
    rfl
  · obtain ⟨dir, name, hstands⟩ := standsFor_of_resolve hwf hentry hresolve
    obtain ⟨left, heq⟩ := resolve_of_parent hstands.parent true
    rw [hresolve] at heq
    cases hfollow : t.follow true left dir [name] with
    | error e =>
      rw [hfollow] at heq
      cases heq
    | ok target =>
      rw [hfollow] at heq
      cases heq
      exact isSymlink_of_follow hwf hstands.directory hfollow

end DebRelease.FileTree
