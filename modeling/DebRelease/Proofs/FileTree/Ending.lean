import DebRelease.Proofs.FileTree.Growing
import DebRelease.Proofs.FileTree.Transfer

namespace DebRelease

/-- The names of a path that the system accepts, `.` and `..` apart, are names that entries can have. -/
theorem Path.isEntryName_of_mem_steps {p : Path} {name : Bytes} (hcheck : FileTree.checkPath p = .ok ())
    (hmem : name ∈ p.steps) (hname : Path.IsOrdinary name) : Path.IsEntryName name := by
  have hnames : name ∈ p.names := by
    rw [steps] at hmem
    split at hmem
    · rcases List.mem_append.mp hmem with hmem | hmem
      · exact hmem
      · exact absurd (List.mem_singleton.mp hmem) hname.ne_dot
    · exact hmem
  obtain ⟨hsegment, hne⟩ := mem_names_iff.mp hnames
  refine ⟨isName_iff.mpr ⟨hne, hname.ne_dot, hname.ne_dotDot, slash_not_mem_segment hsegment⟩, fun hzero => ?_,
    hname.length_le⟩
  exact (FileTree.checkPath_eq_ok_iff.mp hcheck).1 (mem_of_mem_segment hsegment hzero)

namespace FileTree

open TreeM

variable {t t' : FileTree} {cwd : WorkingDir} {p q : Path} {here dir location : Location} {name : Bytes}
    {names rest : List Bytes} {last : Bool} {links : Nat} {entry : Entry}

private theorem mem_of_advance_absent (h : t.advance last here names = .ok (.arrived (.absent dir name))) :
    name ∈ names := by
  fun_induction FileTree.advance t last here names with
  | case4 here rest hdir ih => exact List.mem_cons_of_mem _ (ih h)
  | case5 here rest hdir _ ih => exact List.mem_cons_of_mem _ (ih h)
  | case7 here name rest hdir hdot hdotDot hlength hnone hend =>
    cases h
    exact List.mem_cons_self
  | case11 here name rest hdir hdot hdotDot hlength found hnot hfound ih => exact List.mem_cons_of_mem _ (ih h)
  | _ => cases h

private theorem of_advance_link {link : Path} (h : t.advance last here names = .ok (.link dir link rest)) :
    (∃ location, t.get? location = some (.symlink link)) ∧ rest ⊆ names := by
  fun_induction FileTree.advance t last here names with
  | case4 here rest hdir ih => exact (ih h).imp_right (List.subset_cons_of_subset _)
  | case5 here rest hdir _ ih => exact (ih h).imp_right (List.subset_cons_of_subset _)
  | case10 here name rest hdir hdot hdotDot hlength link hfound hend =>
    cases h
    exact ⟨⟨_, hfound⟩, List.subset_cons_self _ _⟩
  | case11 here name rest hdir hdot hdotDot hlength found hnot hfound ih =>
    exact (ih h).imp_right (List.subset_cons_of_subset _)
  | _ => cases h

/-- A free name that is come to is one of those that are followed, or of those of a link. -/
private theorem mem_of_follow_absent (h : t.follow last links here names = .ok (.absent dir name)) :
    name ∈ names ∨ ∃ location link, t.get? location = some (.symlink link) ∧ name ∈ link.steps := by
  fun_induction FileTree.follow t last links here names with
  | case2 links here names found hfound =>
    cases h
    exact .inl (mem_of_advance_absent hfound)
  | case4 here names dir' link rest hlink links ih =>
    obtain ⟨⟨location, hget⟩, hsubset⟩ := of_advance_link hlink
    rcases ih h with hmem | hlinked
    · rcases List.mem_append.mp hmem with hmem | hmem
      · exact .inr ⟨location, link, hget, hmem⟩
      · exact .inl (hsubset hmem)
    · exact .inr hlinked
  | _ => cases h

/-- A free name that a path leads to is one that an entry can have. -/
theorem WellFormed.isEntryName_of_absent (h : t.WellFormed) (hresolve : t.resolve cwd last p = .ok (.absent dir name)) :
    Path.IsEntryName name := by
  obtain ⟨-, -, hname⟩ : t.Fits (.absent dir name) := resolve_fits hresolve
  obtain ⟨hcheck, start, -, hfollow⟩ := resolve_eq_ok_iff.mp hresolve
  rcases mem_of_follow_absent hfollow with hmem | ⟨location, link, hget, hmem⟩
  · exact Path.isEntryName_of_mem_steps hcheck hmem hname
  · exact Path.isEntryName_of_mem_steps (h.link hget) hmem hname

/-- Copying a file fails before anything changes, or puts a file where the target leads: one with the bytes of the
    source, unless the target has been emptied by opening it because it is the source. -/
theorem copyFile_does (cwd : WorkingDir) (p q : Path) (t : FileTree) :
    Does (copyFile cwd p q) t fun _ after => ∃ location bytes is place, t.stat cwd p = .ok (location, .file bytes is) ∧
      t.Opens cwd q place ∧ after = t.set place (.file (if location = place then [] else bytes) is) := by
  refine .look fun ⟨location, entry⟩ hstat => ?_
  cases entry with
  | file bytes is =>
    rcases truncate_does cwd is q t with ⟨e, hrun⟩ | ⟨place, _, hrun, was, hopens, -, rfl⟩
    · exact .inl ⟨e, by dsimp only; rw [run_bind, hrun]⟩
    · have hput (content : Bytes) (executable : Bool) :
          (t.set place (.file content executable)).get? place = some (.file content executable) :=
        get?_set_self t _ hopens.ne_nil
      refine .inr ⟨(), _, ?_, location, bytes, is, place, hstat, hopens, rfl⟩
      dsimp only
      rw [run_bind, hrun]
      dsimp only
      rw [run_bind, run_modify, hput]
      dsimp only
      rw [set_set, run_bind, run_get]
      dsimp only
      by_cases hsame : location = place
      · rw [if_pos hsame, hsame, hput]
        dsimp only
        rw [fill_eq (hput _ _), set_set]
      · have hget : t.get? location = some (.file bytes is) := resolve_fits (stat_eq_ok_iff.mp hstat)
        rw [if_neg hsame, get?_set_of_ne t _ hopens.ne_nil hsame, hget]
        dsimp only
        rw [fill_eq (hput _ _), set_set]
  | _ => exact .inl ⟨_, rfl⟩

/-- Nothing goes: directories and links stay as they are, and files stay files. -/
structure Persists (t t' : FileTree) : Prop where
  wellFormed : t'.WellFormed
  keeps : t.Keeps t'
  file : ∀ {location : Location} {bytes : Bytes} {is : Bool}, t.get? location = some (.file bytes is) →
    ∃ bytes' is', t'.get? location = some (.file bytes' is')

namespace Persists

theorem refl (hwf : t.WellFormed) : t.Persists t :=
  ⟨hwf, .refl t, fun hget => ⟨_, _, hget⟩⟩

theorem trans {t'' : FileTree} (h : t.Persists t') (h' : t'.Persists t'') : t.Persists t'' := by
  refine ⟨h'.wellFormed, h.keeps.trans h'.keeps, fun hget => ?_⟩
  obtain ⟨_, _, hget'⟩ := h.file hget
  exact h'.file hget'

/-- An entry is put where nothing was. -/
theorem put_new (hwf : (t.set location entry).WellFormed) (hne : location ≠ []) (hnone : t.get? location = none) :
    t.Persists (t.set location entry) := by
  have hkept {other : Location} {found : Entry} (hget : t.get? other = some found) :
      (t.set location entry).get? other = some found := by
    rw [get?_set_of_ne t entry hne fun heq => ?_, hget]
    rw [heq, hnone] at hget
    cases hget
  exact ⟨hwf, ⟨hkept, hkept⟩, fun hget => ⟨_, _, hkept hget⟩⟩

/-- A file is written over. -/
theorem put_over {bytes bytes' : Bytes} {is is' : Bool} (hwf : t.WellFormed)
    (hget : t.get? location = some (.file bytes is)) : t.Persists (t.set location (.file bytes' is')) := by
  have hne : location ≠ [] := by
    rintro rfl
    simp at hget
  refine ⟨hwf.set_file hget, keeps_set hne (by simp [hget]) (by simp [hget]) _, fun {other _ _} hother => ?_⟩
  by_cases heq : other = location
  · exact ⟨bytes', is', by rw [heq]; exact get?_set_self t _ hne⟩
  · exact ⟨_, _, (get?_set_of_ne t _ hne heq).trans hother⟩

end Persists

theorem Refused.persists {ε α : Type} {m : TreeM ε α} (h : Refused m t) (hwf : t.WellFormed) : t.Persists (m t).2 := by
  obtain ⟨e, hrun⟩ := h
  rw [hrun]
  exact .refl hwf

theorem Grows.persists (h : Grows t t') : t.Persists t' :=
  ⟨h.wellFormed, h.keeps, fun hget => ⟨_, _, h.get?_eq hget⟩⟩

/-- A file may be put where a path leads for writing. -/
theorem Opens.persists (h : t.Opens cwd p location) (hwf : t.WellFormed) (content : Bytes) (is : Bool) :
    t.Persists (t.set location (.file content is)) := by
  rcases h with ⟨old, was, hresolve⟩ | ⟨dir, name, rfl, hresolve⟩
  · exact .put_over hwf (resolve_fits hresolve)
  · obtain ⟨hdir, hnone, -⟩ : t.Fits (.absent dir name) := resolve_fits hresolve
    exact .put_new (hwf.set hdir (hwf.isEntryName_of_absent hresolve) (by simp [hnone]) (by simp)) (by simp) hnone

/-- Whatever is copied where, nothing goes. -/
theorem copyEntry_persists (cwd : WorkingDir) (entry : Entry) (p q : Path) (hwf : t.WellFormed) :
    t.Persists (copyEntry cwd entry p q t).2 := by
  rw [copyEntry.eq_def]
  cases entry with
  | directory => exact (makeDirs_grows cwd q hwf).persists
  | file content is =>
    dsimp only
    rw [run_describe]
    rcases copyFile_does cwd p q t with hrefused | ⟨_, _, hrun, _, _, _, place, -, hopens, rfl⟩
    · exact hrefused.persists hwf
    · rw [hrun]
      exact hopens.persists hwf _ _
  | symlink listed =>
    dsimp only
    rw [run_bind, run_look]
    cases Failure.naming "reading symlink" p (t.readLink cwd p) with
    | error => exact .refl hwf
    | ok link =>
      dsimp only
      rw [run_describe]
      rcases makeLink_does cwd link q t with hrefused | ⟨_, _, hrun, dir, name, hparent, hlength, hnone, hcheck, rfl⟩
      · exact hrefused.persists hwf
      · rw [hrun]
        refine .put_new (hwf.set (resolveParent_directory hparent) (isEntryName_of_parent hparent hlength)
          (by simp [hnone]) ?_) (by simp) hnone
        rintro _ ⟨⟩
        exact hcheck

/-- The path of an entry holds no zero byte, if that of the directory holds none. -/
private theorem zero_not_mem_join (hzero : 0 ∉ p.bytes) (hname : Path.IsEntryName name) :
    0 ∉ (p.join ⟨name⟩).bytes := by
  have hslash : Path.slash ≠ 0 := by decide
  rw [Path.join]
  split
  · exact hname.noZero
  · split
    all_goals simp [hzero, hname.noZero, hslash.symm]

/-- Copies an entry of a directory, and then what lies below it. -/
def copyChild (cwd : WorkingDir) (depth : Nat) (p q : Path) (item : Bytes × Entry) : TreeM Failure Unit := do
  copyEntry cwd item.2 (p.join ⟨item.1⟩) (q.join ⟨item.1⟩)
  if item.2.isDirectory then copyBelow cwd depth (p.join ⟨item.1⟩) (q.join ⟨item.1⟩)

/-- What lies below a directory is listed first, and then the entries are copied one after another. -/
theorem copyBelow_succ (cwd : WorkingDir) (depth : Nat) (p q : Path) : copyBelow cwd (depth + 1) p q =
    (look fun t => (t.listEntries cwd p).mapError (.traversal p)) >>= fun entries =>
      entries.forM (copyChild cwd depth p q) :=
  rfl

theorem copyBelow_of_list {entries : List (Bytes × Entry)} (hlist : t.listEntries cwd p = .ok entries) (depth : Nat)
    (q : Path) : copyBelow cwd (depth + 1) p q t = entries.forM (copyChild cwd depth p q) t := by
  rw [copyBelow_succ, run_bind, run_look, hlist]
  rfl

theorem copyBelow_of_error {e : SystemError} (hlist : t.listEntries cwd p = .error e) (depth : Nat) (q : Path) :
    copyBelow cwd (depth + 1) p q t = (.error (.traversal p e), t) := by
  rw [copyBelow_succ, run_bind, run_look, hlist]
  rfl

theorem listEntries_of_checkPath {e : SystemError} (hcheck : checkPath p = .error e) :
    t.listEntries cwd p = .error e := by
  rw [listEntries, stat, resolve, hcheck]
  rfl

private theorem forM_persists {act : Bytes × Entry → TreeM Failure Unit}
    (hact : ∀ item (t : FileTree), t.WellFormed → t.Persists (act item t).2) (entries : List (Bytes × Entry))
    (hwf : t.WellFormed) : t.Persists (entries.forM act t).2 := by
  induction entries generalizing t with
  | nil => exact .refl hwf
  | cons item entries ih =>
    have hfirst := hact item t hwf
    rw [run_forM_cons]
    cases hrun : act item t with
    | mk outcome after =>
      rw [hrun] at hfirst
      cases outcome with
      | error => exact hfirst
      | ok => exact hfirst.trans (ih hfirst.wellFormed)

private theorem copyChild_persists {depth : Nat} (item : Bytes × Entry) (hwf : t.WellFormed)
    (hbelow : ∀ p q (t : FileTree), t.WellFormed → t.Persists (copyBelow cwd depth p q t).2) :
    t.Persists (copyChild cwd depth p q item t).2 := by
  have hcopied := copyEntry_persists cwd item.2 (p.join ⟨item.1⟩) (q.join ⟨item.1⟩) hwf
  rw [copyChild, run_bind]
  cases hrun : copyEntry cwd item.2 (p.join ⟨item.1⟩) (q.join ⟨item.1⟩) t with
  | mk outcome copied =>
    rw [hrun] at hcopied
    cases outcome with
    | error => exact hcopied
    | ok =>
      dsimp only
      split
      · exact hcopied.trans (hbelow _ _ copied hcopied.wellFormed)
      · exact hcopied

/-- Whatever is copied where, nothing goes. -/
theorem copyBelow_persists (cwd : WorkingDir) (depth : Nat) (p q : Path) (hwf : t.WellFormed) :
    t.Persists (copyBelow cwd depth p q t).2 := by
  induction depth generalizing p q t with
  | zero => exact .refl hwf
  | succ depth ih =>
    cases hlist : t.listEntries cwd p with
    | error e =>
      rw [copyBelow_of_error hlist]
      exact .refl hwf
    | ok entries =>
      rw [copyBelow_of_list hlist]
      exact forM_persists (fun item _ hwf' => copyChild_persists item hwf' fun _ _ _ => ih _ _) entries hwf

/-- The files that copying what lies below a directory may write over: those that the path of a copy leads to, when a
    file is copied to it. -/
inductive WritesOver (cwd : WorkingDir) : Nat → Path → Path → FileTree → Location → Prop
  /-- That of a file in the directory, when the entries listed before it have been copied. -/
  | entry {depth : Nat} {p q : Path} {t t' : FileTree} {front back : List (Bytes × Entry)} {name bytes : Bytes}
      {is : Bool} {location : Location} (hlist : t.listEntries cwd p = .ok (front ++ (name, .file bytes is) :: back))
      (hfront : front.forM (copyChild cwd depth p q) t = (.ok (), t'))
      (hopens : t'.Opens cwd (q.join ⟨name⟩) location) : WritesOver cwd (depth + 1) p q t location
  /-- One further below, when the directory that it is in has been copied itself. -/
  | inside {depth : Nat} {p q : Path} {t t' t'' : FileTree} {front back : List (Bytes × Entry)} {name : Bytes}
      {location : Location} (hlist : t.listEntries cwd p = .ok (front ++ (name, .directory) :: back))
      (hfront : front.forM (copyChild cwd depth p q) t = (.ok (), t'))
      (hcopied : copyEntry cwd .directory (p.join ⟨name⟩) (q.join ⟨name⟩) t' = (.ok (), t''))
      (h : WritesOver cwd depth (p.join ⟨name⟩) (q.join ⟨name⟩) t'' location) : WritesOver cwd (depth + 1) p q t location

section WritingOver

variable {bytes : Bytes} {is : Bool}

/-- Copying an entry leaves a file as it was, unless a file is copied to a path that leads to it. -/
theorem copyEntry_file (cwd : WorkingDir) (entry : Entry) (p q : Path) (hwf : t.WellFormed)
    (hget : t.get? location = some (.file bytes is)) :
    (copyEntry cwd entry p q t).2.get? location = some (.file bytes is) ∨
      ∃ old was, entry = .file old was ∧ t.Opens cwd q location := by
  rw [copyEntry.eq_def]
  cases entry with
  | directory => exact .inl ((makeDirs_grows cwd q hwf).get?_eq hget)
  | file old was =>
    dsimp only
    rw [run_describe]
    rcases copyFile_does cwd p q t with ⟨e, hrun⟩ | ⟨_, _, hrun, _, _, _, place, -, hopens, rfl⟩
    · rw [hrun]
      exact .inl hget
    · rw [hrun]
      by_cases heq : location = place
      · exact .inr ⟨old, was, rfl, heq ▸ hopens⟩
      · exact .inl ((get?_set_of_ne t _ hopens.ne_nil heq).trans hget)
  | symlink listed =>
    dsimp only
    rw [run_bind, run_look]
    cases Failure.naming "reading symlink" p (t.readLink cwd p) with
    | error => exact .inl hget
    | ok link =>
      dsimp only
      rw [run_describe]
      rcases makeLink_does cwd link q t with ⟨e, hrun⟩ | ⟨_, _, hrun, dir, name, -, -, hnone, -, rfl⟩
      · rw [hrun]
        exact .inl hget
      · rw [hrun]
        refine .inl ((get?_set_of_ne t _ (by simp) ?_).trans hget)
        rintro rfl
        rw [hnone] at hget
        cases hget

section Level

variable {depth : Nat} {start : FileTree} {back : List (Bytes × Entry)}
    (hbelow : ∀ (p q : Path) (t : FileTree), t.WellFormed → t.get? location = some (.file bytes is) →
      (copyBelow cwd depth p q t).2.get? location = some (.file bytes is) ∨ WritesOver cwd depth p q t location)

include hbelow

/-- Copying an entry with all below it leaves a file as it was, unless the directory is copied over it. -/
private theorem copyChild_file {front : List (Bytes × Entry)} {name : Bytes}
    (hlist : start.listEntries cwd p = .ok (front ++ (name, entry) :: back))
    (hfront : front.forM (copyChild cwd depth p q) start = (.ok (), t)) (hwf : t.WellFormed)
    (hget : t.get? location = some (.file bytes is)) :
    (copyChild cwd depth p q (name, entry) t).2.get? location = some (.file bytes is) ∨
      WritesOver cwd (depth + 1) p q start location := by
  have hcopied := copyEntry_persists cwd entry (p.join ⟨name⟩) (q.join ⟨name⟩) hwf
  rcases copyEntry_file cwd entry (p.join ⟨name⟩) (q.join ⟨name⟩) hwf hget with hkept | ⟨old, was, rfl, hopens⟩
  · rw [copyChild, run_bind]
    dsimp only
    cases hrun : copyEntry cwd entry (p.join ⟨name⟩) (q.join ⟨name⟩) t with
    | mk outcome copied =>
      rw [hrun] at hcopied hkept
      cases outcome with
      | error => exact .inl hkept
      | ok =>
        dsimp only
        cases entry with
        | directory =>
          exact (hbelow _ _ copied hcopied.wellFormed hkept).imp_right (.inside hlist hfront hrun)
        | _ => exact .inl hkept
  · exact .inr (.entry hlist hfront hopens)

/-- Copying entries one by one leaves a file as it was, unless the directory is copied over it. -/
private theorem forM_file (front : List (Bytes × Entry)) (hlist : start.listEntries cwd p = .ok (front ++ back))
    (hfront : front.forM (copyChild cwd depth p q) start = (.ok (), t)) (hwf : t.WellFormed)
    (hget : t.get? location = some (.file bytes is)) :
    (back.forM (copyChild cwd depth p q) t).2.get? location = some (.file bytes is) ∨
      WritesOver cwd (depth + 1) p q start location := by
  induction back generalizing front t with
  | nil => exact .inl hget
  | cons item back ih =>
    have hpersists := copyChild_persists (p := p) (q := q) item hwf fun p q _ => copyBelow_persists cwd depth p q
    have hchild := copyChild_file hbelow hlist hfront hwf hget
    rw [run_forM_cons]
    cases hrun : copyChild cwd depth p q item t with
    | mk outcome after =>
      rw [hrun] at hpersists hchild
      rcases hchild with hkept | hwrites
      · cases outcome with
        | error => exact .inl hkept
        | ok =>
          refine ih (front ++ [item]) (by simpa using hlist) ?_ hpersists.wellFormed hkept
          rw [run_forM_append, hfront]
          dsimp only
          rw [run_forM_cons, hrun]
          rfl
      · exact .inr hwrites

end Level

/-- Whatever is copied where, a file is as it was unless it is written over. -/
theorem copyBelow_file (cwd : WorkingDir) (depth : Nat) (p q : Path) (hwf : t.WellFormed)
    (hget : t.get? location = some (.file bytes is)) :
    (copyBelow cwd depth p q t).2.get? location = some (.file bytes is) ∨ WritesOver cwd depth p q t location := by
  induction depth generalizing p q t with
  | zero => exact .inl hget
  | succ depth ih =>
    cases hlist : t.listEntries cwd p with
    | error e =>
      rw [copyBelow_of_error hlist]
      exact .inl hget
    | ok entries =>
      rw [copyBelow_of_list hlist]
      exact forM_file (fun p q _ => ih p q) [] hlist rfl hwf hget

end WritingOver

/-- Work on entries one by one is the same if it is the same on each, as long as trees stay well-formed. -/
private theorem forM_congr {act act' : Bytes × Entry → TreeM Failure Unit} {entries : List (Bytes × Entry)}
    (hact : ∀ item (t : FileTree), t.WellFormed → t.Persists (act item t).2)
    (hsame : ∀ item ∈ entries, ∀ t : FileTree, t.WellFormed → act' item t = act item t) (hwf : t.WellFormed) :
    entries.forM act' t = entries.forM act t := by
  induction entries generalizing t with
  | nil => rfl
  | cons item entries ih =>
    have hfirst := hact item t hwf
    rw [run_forM_cons, run_forM_cons, hsame item List.mem_cons_self t hwf]
    cases hrun : act item t with
    | mk outcome after =>
      rw [hrun] at hfirst
      cases outcome with
      | error => rfl
      | ok => exact ih (fun other hmem => hsame other (List.mem_cons_of_mem _ hmem)) hfirst.wellFormed

/-- One more level makes no difference, if the paths down there are too long. -/
private theorem copyBelow_deeper {depth : Nat} (hzero : 0 ∉ p.bytes)
    (hdepth : Path.lengthLimit ≤ p.bytes.length + depth) (hwf : t.WellFormed) :
    copyBelow cwd (depth + 1) p q t = copyBelow cwd depth p q t := by
  induction depth generalizing p q t with
  | zero =>
    have hlong : Path.lengthLimit ≤ p.bytes.length := by simpa using hdepth
    have hne : p.bytes ≠ [] := by
      rintro hnil
      rw [hnil] at hlong
      exact absurd hlong (by decide)
    have hcheck : checkPath p = .error (.os .nameTooLong) := by
      rw [checkPath, if_neg (by simpa using hzero), if_neg (by simpa using hne), if_pos hlong]
    rw [copyBelow_of_error (listEntries_of_checkPath hcheck)]
    rfl
  | succ depth ih =>
    cases hlist : t.listEntries cwd p with
    | error e => rw [copyBelow_of_error hlist, copyBelow_of_error hlist]
    | ok entries =>
      obtain ⟨_, -, -, hentries⟩ := listEntries_eq_ok hwf hlist
      rw [copyBelow_of_list hlist, copyBelow_of_list hlist]
      refine forM_congr (fun item _ hwf' => copyChild_persists item hwf' fun p q _ => copyBelow_persists cwd depth p q)
        (fun item hmem t' hwf' => ?_) hwf
      have hname := hwf.name (hentries.mp hmem)
      -- the name makes the path longer, by as much as there is one level less
      have hlonger := p.length_join_name hname.isName
      have hcopied := copyEntry_persists cwd item.2 (p.join ⟨item.1⟩) (q.join ⟨item.1⟩) hwf'
      rw [copyChild, copyChild, run_bind, run_bind]
      cases hrun : copyEntry cwd item.2 (p.join ⟨item.1⟩) (q.join ⟨item.1⟩) t' with
      | mk outcome copied =>
        rw [hrun] at hcopied
        cases outcome with
        | error => rfl
        | ok =>
          dsimp only
          rw [apply_ite (fun m : TreeM Failure Unit => m copied), apply_ite (fun m : TreeM Failure Unit => m copied),
            ih ?_ (by omega) hcopied.wellFormed]
          exact zero_not_mem_join hzero hname

/-- Copying ends by itself: the bound on the depth makes no difference, whatever is copied where. -/
theorem copyBelow_depth (cwd : WorkingDir) (p q : Path) {depth : Nat} (hwf : t.WellFormed)
    (hdepth : Path.lengthLimit ≤ depth) : copyBelow cwd depth p q t = copyBelow cwd Path.lengthLimit p q t := by
  by_cases hzero : 0 ∈ p.bytes
  · have hcheck : checkPath p = .error .nulInPath := by rw [checkPath, if_pos (by simpa using hzero)]
    have hlist : t.listEntries cwd p = .error .nulInPath := listEntries_of_checkPath hcheck
    obtain ⟨depth, rfl⟩ := Nat.exists_eq_succ_of_ne_zero (Nat.ne_of_gt (Nat.lt_of_lt_of_le (by decide) hdepth))
    rw [copyBelow_of_error hlist, show Path.lengthLimit = 4095 + 1 from rfl, copyBelow_of_error hlist]
  · induction depth, hdepth using Nat.le_induction with
    | base => rfl
    | succ depth hdepth ih => rw [copyBelow_deeper hzero (by omega) hwf, ih]

end FileTree

end DebRelease
