import DebRelease.FileTree.Resolve
import DebRelease.Proofs.FileTree.WellFormed
import DebRelease.Proofs.Path.Place

namespace DebRelease

/-- A name that stands for an entry of a directory and is not too long. -/
structure Path.IsOrdinary (name : Bytes) : Prop where
  ne_dot : name ≠ Path.dot
  ne_dotDot : name ≠ Path.dotDot
  length_le : name.length ≤ Path.nameLimit

theorem Path.IsEntryName.isOrdinary {name : Bytes} (h : Path.IsEntryName name) : Path.IsOrdinary name := by
  have hname := h.isName
  simp only [Path.isName, Bool.and_eq_true, bne_iff_ne] at hname
  exact ⟨hname.1.1.2, hname.1.2, h.length_le⟩

/-- The place that is the end of a path. -/
def Target.location : Target → Location
  | .present location _ => location
  | .absent dir name => dir ++ [name]

namespace FileTree

variable {t t' : FileTree} {last : Bool} {here dir location : Location} {name : Bytes}
    {names rest init : List Bytes} {entry entry' : Entry} {links : Nat} {cwd : WorkingDir} {p : Path}
    {target : Target}

theorem advance_nil (h : t.get? here = some entry) :
    t.advance last here [] = .ok (.arrived (.present here entry)) := by
  simp [advance, h]

theorem advance_dot (h : t.get? here = some .directory) (rest : List Bytes) :
    t.advance last here (Path.dot :: rest) = t.advance last here rest := by
  simp [advance, h]

theorem advance_dotDot (h : t.get? here = some .directory) (rest : List Bytes) :
    t.advance last here (Path.dotDot :: rest) = t.advance last here.dropLast rest := by
  simp [advance, h, show Path.dotDot ≠ Path.dot by decide]

private theorem advance_cons (h : t.get? here = some .directory) (hname : Path.IsOrdinary name)
    (rest : List Bytes) :
    t.advance last here (name :: rest) =
      match t.get? (here ++ [name]) with
      | none => if rest.isEmpty then .ok (.arrived (.absent here name)) else .error .noEntry
      | some (.symlink link) =>
        if rest.isEmpty && !last then .ok (.arrived (.present (here ++ [name]) (.symlink link)))
        else .ok (.link here link rest)
      | some _ => t.advance last (here ++ [name]) rest := by
  have hlength := Nat.not_lt.mpr hname.length_le
  cases hget : t.get? (here ++ [name]) with
  | none => simp [advance, h, hget, hname.ne_dot, hname.ne_dotDot, hlength]
  | some entry => cases entry <;> simp [advance, h, hget, hname.ne_dot, hname.ne_dotDot, hlength]

theorem advance_absent (h : t.get? here = some .directory) (hname : Path.IsOrdinary name)
    (hget : t.get? (here ++ [name]) = none) :
    t.advance last here [name] = .ok (.arrived (.absent here name)) := by
  rw [advance_cons h hname, hget]
  rfl

theorem advance_missing (h : t.get? here = some .directory) (hname : Path.IsOrdinary name)
    (hget : t.get? (here ++ [name]) = none) (hrest : rest ≠ []) :
    t.advance last here (name :: rest) = .error .noEntry := by
  rw [advance_cons h hname, hget]
  simp [hrest]

theorem advance_enter (h : t.get? here = some .directory) (hname : Path.IsOrdinary name)
    (hget : t.get? (here ++ [name]) = some entry) (hlink : entry.isSymlink = false) (rest : List Bytes) :
    t.advance last here (name :: rest) = t.advance last (here ++ [name]) rest := by
  rw [advance_cons h hname, hget]
  cases entry with
  | symlink link => cases hlink
  | _ => rfl

theorem advance_link {link : Path} (h : t.get? here = some .directory) (hname : Path.IsOrdinary name)
    (hget : t.get? (here ++ [name]) = some (.symlink link)) (hfollow : rest ≠ [] ∨ last = true) :
    t.advance last here (name :: rest) = .ok (.link here link rest) := by
  rw [advance_cons h hname, hget]
  rcases hfollow with hrest | hlast
  · simp [hrest]
  · simp [hlast]

theorem advance_last_link {link : Path} (h : t.get? here = some .directory) (hname : Path.IsOrdinary name)
    (hget : t.get? (here ++ [name]) = some (.symlink link)) :
    t.advance false here [name] = .ok (.arrived (.present (here ++ [name]) (.symlink link))) := by
  rw [advance_cons h hname, hget]
  rfl

theorem advance_tooLong (h : t.get? here = some .directory) (hdot : name ≠ Path.dot)
    (hdotDot : name ≠ Path.dotDot) (hlength : Path.nameLimit < name.length) (rest : List Bytes) :
    t.advance last here (name :: rest) = .error .nameTooLong := by
  simp [advance, h, hdot, hdotDot, hlength]

theorem advance_notDirectory (h : t.get? here = some entry) (hnot : entry ≠ .directory)
    (rest : List Bytes) : t.advance last here (name :: rest) = .error .notDirectory := by
  rw [advance, h]
  cases entry with
  | directory => exact absurd rfl hnot
  | _ => rfl

/-- What is known of an end of a path in a tree. -/
def Fits (t : FileTree) : Target → Prop
  | .present location entry => t.get? location = some entry
  | .absent dir name =>
    t.get? dir = some .directory ∧ t.get? (dir ++ [name]) = none ∧ Path.IsOrdinary name

theorem advance_fits (h : t.advance last here names = .ok (.arrived target)) : t.Fits target := by
  fun_induction FileTree.advance t last here names with
  | case1 here found hfound =>
    cases h
    exact hfound
  | case4 here rest hdir ih => exact ih h
  | case5 here rest hdir _ ih => exact ih h
  | case7 here name rest hdir hdot hdotDot hlength hnone hend =>
    cases h
    exact ⟨hdir, hnone, hdot, hdotDot, Nat.not_lt.mp hlength⟩
  | case9 here name rest hdir hdot hdotDot hlength link hfound hend =>
    cases h
    exact hfound
  | case11 here name rest hdir hdot hdotDot hlength found hnot hfound ih => exact ih h
  | _ => cases h

theorem follow_fits (h : t.follow last links here names = .ok target) : t.Fits target := by
  fun_induction FileTree.follow t last links here names with
  | case2 links here names found hfound =>
    cases h
    exact advance_fits hfound
  | case4 here names dir link rest hlink links ih => exact ih h
  | _ => cases h

/-- A tree that has the directories and the links of another. -/
structure Keeps (t t' : FileTree) : Prop where
  directory : ∀ {location : Location},
    t.get? location = some .directory → t'.get? location = some .directory
  link : ∀ {location : Location} {target : Path},
    t.get? location = some (.symlink target) → t'.get? location = some (.symlink target)

/-- How the end of a path looks in a tree that has the directories and links of the one the path was
    followed in. -/
inductive Seen (t' : FileTree) : Target → Target → Prop where
  /-- What is there may be another entry, but no new link. -/
  | present {location : Location} {entry entry' : Entry} (hget : t'.get? location = some entry')
      (hlink : entry.isSymlink = false → entry'.isSymlink = false) :
      Seen t' (.present location entry) (.present location entry')
  /-- Something that is no link may have been put there. -/
  | put {dir : Location} {name : Bytes} {entry : Entry} (hget : t'.get? (dir ++ [name]) = some entry)
      (hlink : entry.isSymlink = false) : Seen t' (.absent dir name) (.present (dir ++ [name]) entry)
  | absent {dir : Location} {name : Bytes} (hget : t'.get? (dir ++ [name]) = none) :
      Seen t' (.absent dir name) (.absent dir name)

namespace Keeps

theorem refl (t : FileTree) : t.Keeps t :=
  ⟨id, id⟩

theorem trans {t'' : FileTree} (h : t.Keeps t') (h' : t'.Keeps t'') : t.Keeps t'' :=
  ⟨fun hget => h'.directory (h.directory hget), fun hget => h'.link (h.link hget)⟩

theorem advance_arrived {target' : Target} (hkeeps : t.Keeps t')
    (h : t.advance last here names = .ok (.arrived target)) (hseen : t'.Seen target target') :
    t'.advance last here names = .ok (.arrived target') := by
  fun_induction FileTree.advance t last here names with
  | case1 here found hfound =>
    cases h
    cases hseen with
    | present hget hlink => exact advance_nil hget
  | case4 here rest hdir ih =>
    rw [advance_dot (hkeeps.directory hdir)]
    exact ih h
  | case5 here rest hdir _ ih =>
    rw [advance_dotDot (hkeeps.directory hdir)]
    exact ih h
  | case7 here name rest hdir hdot hdotDot hlength hnone hend =>
    cases h
    have hname : Path.IsOrdinary name := ⟨hdot, hdotDot, Nat.not_lt.mp hlength⟩
    rw [List.isEmpty_iff.mp hend]
    cases hseen with
    | put hget hlink =>
      rw [advance_enter (hkeeps.directory hdir) hname hget hlink]
      exact advance_nil hget
    | absent hget => exact FileTree.advance_absent (hkeeps.directory hdir) hname hget
  | case9 here name rest hdir hdot hdotDot hlength link hfound hend =>
    cases h
    simp only [Bool.and_eq_true, List.isEmpty_iff, Bool.not_eq_true'] at hend
    obtain ⟨rfl, rfl⟩ := hend
    cases hseen with
    | present hget hlink =>
      rw [hkeeps.link hfound] at hget
      cases hget
      exact advance_last_link (hkeeps.directory hdir) ⟨hdot, hdotDot, Nat.not_lt.mp hlength⟩
        (hkeeps.link hfound)
  | case11 here name rest hdir hdot hdotDot hlength found hnot hfound ih =>
    have hname : Path.IsOrdinary name := ⟨hdot, hdotDot, Nat.not_lt.mp hlength⟩
    cases found with
    | symlink link => exact absurd rfl (hnot link)
    | directory =>
      rw [advance_enter (hkeeps.directory hdir) hname (hkeeps.directory hfound) rfl]
      exact ih h
    | file content executable =>
      cases rest with
      | cons next rest =>
        rw [advance_notDirectory hfound (by simp)] at h
        cases h
      | nil =>
        rw [advance_nil hfound] at h
        cases h
        cases hseen with
        | present hget hlink =>
          rw [advance_enter (hkeeps.directory hdir) hname hget (hlink rfl)]
          exact advance_nil hget
  | _ => cases h

theorem advance_link (hkeeps : t.Keeps t') {link : Path}
    (h : t.advance last here names = .ok (.link dir link rest)) :
    t'.advance last here names = .ok (.link dir link rest) := by
  fun_induction FileTree.advance t last here names with
  | case4 here rest hdir ih =>
    rw [advance_dot (hkeeps.directory hdir)]
    exact ih h
  | case5 here rest hdir _ ih =>
    rw [advance_dotDot (hkeeps.directory hdir)]
    exact ih h
  | case10 here name rest hdir hdot hdotDot hlength link hfound hend =>
    cases h
    refine FileTree.advance_link (hkeeps.directory hdir) ⟨hdot, hdotDot, Nat.not_lt.mp hlength⟩
      (hkeeps.link hfound) ?_
    simp only [Bool.and_eq_true, List.isEmpty_iff, Bool.not_eq_true', not_and, Bool.not_eq_false] at hend
    by_cases hrest : rest = []
    · exact .inr (hend hrest)
    · exact .inl hrest
  | case11 here name rest hdir hdot hdotDot hlength found hnot hfound ih =>
    cases found with
    | symlink link => exact absurd rfl (hnot link)
    | directory =>
      rw [advance_enter (hkeeps.directory hdir) ⟨hdot, hdotDot, Nat.not_lt.mp hlength⟩
        (hkeeps.directory hfound) rfl]
      exact ih h
    | file content executable =>
      cases rest with
      | cons next rest =>
        rw [advance_notDirectory hfound (by simp)] at h
        cases h
      | nil =>
        rw [advance_nil hfound] at h
        cases h
  | _ => cases h

/-- A path leads to the same place in a tree that has the directories and links of another. -/
theorem follow {target' : Target} (hkeeps : t.Keeps t') (h : t.follow last links here names = .ok target)
    (hseen : t'.Seen target target') : t'.follow last links here names = .ok target' := by
  fun_induction FileTree.follow t last links here names with
  | case2 links here names found hfound =>
    cases h
    rw [FileTree.follow, hkeeps.advance_arrived hfound hseen]
  | case4 here names dir link rest hlink links ih =>
    rw [FileTree.follow, hkeeps.advance_link hlink]
    exact ih h
  | _ => cases h

end Keeps

theorem resolve_eq_ok_iff :
    t.resolve cwd last p = .ok target ↔ checkPath p = .ok () ∧ ∃ start, startOf cwd p = .ok start ∧
      t.follow last Path.linkLimit start p.steps = .ok target := by
  rw [resolve]
  cases hcheck : checkPath p with
  | error e => simp [bind, Except.bind]
  | ok =>
    cases hstart : startOf cwd p with
    | error e => simp [bind, Except.bind]
    | ok start =>
      cases hfollow : t.follow last Path.linkLimit start p.steps with
      | error e => simp [bind, Except.bind, hfollow, Except.mapError]
      | ok found => simp [bind, Except.bind, hfollow, Except.mapError]

theorem resolve_fits (h : t.resolve cwd last p = .ok target) : t.Fits target := by
  obtain ⟨-, start, -, hfollow⟩ := resolve_eq_ok_iff.mp h
  exact follow_fits hfollow

/-- A path names the same place in a tree that has the directories and links of another. -/
theorem Keeps.resolve {target' : Target} (hkeeps : t.Keeps t') (h : t.resolve cwd last p = .ok target)
    (hseen : t'.Seen target target') : t'.resolve cwd last p = .ok target' := by
  obtain ⟨hcheck, start, hstart, hfollow⟩ := resolve_eq_ok_iff.mp h
  exact resolve_eq_ok_iff.mpr ⟨hcheck, start, hstart, hkeeps.follow hfollow hseen⟩

/-- The last name is looked up in the directory that the names before it lead to. -/
theorem advance_concat (t : FileTree) (last : Bool) (here : Location) (init : List Bytes) (name : Bytes) :
    t.advance last here (init ++ [name]) =
      match t.advance true here init with
      | .error e => .error e
      | .ok (.arrived (.present dir _)) => t.advance last dir [name]
      | .ok (.arrived (.absent ..)) => .error .noEntry
      | .ok (.link dir link rest) => .ok (.link dir link (rest ++ [name])) := by
  fun_induction FileTree.advance t true here init with
  | case1 here found hfound => rfl
  | case2 here hnone => simp [advance, hnone]
  | case3 here next rest hnone => simp [advance, hnone]
  | case4 here rest hdir ih =>
    rw [List.cons_append, advance_dot hdir]
    exact ih
  | case5 here rest hdir _ ih =>
    rw [List.cons_append, advance_dotDot hdir]
    exact ih
  | case6 here next rest hdir hdot hdotDot hlength =>
    rw [List.cons_append, advance_tooLong hdir hdot hdotDot hlength]
  | case7 here next rest hdir hdot hdotDot hlength hnone hend =>
    exact advance_missing hdir ⟨hdot, hdotDot, Nat.not_lt.mp hlength⟩ hnone (by simp)
  | case8 here next rest hdir hdot hdotDot hlength hnone hend =>
    exact advance_missing hdir ⟨hdot, hdotDot, Nat.not_lt.mp hlength⟩ hnone (by simp)
  | case9 here next rest hdir hdot hdotDot hlength link hfound hend => simp at hend
  | case10 here next rest hdir hdot hdotDot hlength link hfound hend =>
    exact advance_link hdir ⟨hdot, hdotDot, Nat.not_lt.mp hlength⟩ hfound (.inl (by simp))
  | case11 here next rest hdir hdot hdotDot hlength found hnot hfound ih =>
    rw [List.cons_append, advance_enter hdir ⟨hdot, hdotDot, Nat.not_lt.mp hlength⟩ hfound (Entry.isSymlink_of_ne hnot)]
    exact ih
  | case12 here next rest found hnot hfound =>
    exact advance_notDirectory hfound hnot _

/-- Where the names before the last one lead, the last one is followed from there. -/
theorem follow_concat (h : t.follow true links here init = .ok (.present dir entry)) (last : Bool)
    (name : Bytes) : ∃ left ≤ links, t.follow last links here (init ++ [name]) = t.follow last left dir [name] := by
  fun_induction FileTree.follow t true links here init with
  | case2 links here init found hfound =>
    cases h
    refine ⟨links, Nat.le_refl _, ?_⟩
    conv_lhs => rw [FileTree.follow, advance_concat, hfound]
    conv_rhs => rw [FileTree.follow]
  | case4 here init linkDir link rest hlink links ih =>
    obtain ⟨left, hleft, heq⟩ := ih h
    refine ⟨left, Nat.le_succ_of_le hleft, ?_⟩
    rw [FileTree.follow, advance_concat, hlink, ← heq, List.append_assoc]
  | _ => cases h

/-- What can be followed at all stands in a directory that the names before the last one lead to. -/
theorem follow_init (h : t.follow last links here (init ++ [name]) = .ok target) :
    ∃ dir, t.follow true links here init = .ok (.present dir .directory) := by
  fun_induction FileTree.follow t true links here init with
  | case1 links here init e hfound =>
    rw [FileTree.follow, advance_concat, hfound] at h
    cases h
  | case2 links here init found hfound =>
    rw [FileTree.follow, advance_concat, hfound] at h
    cases found with
    | absent => cases h
    | present dir above =>
      by_cases habove : above = .directory
      · exact ⟨dir, by rw [habove]⟩
      · dsimp only at h
        rw [advance_notDirectory (advance_fits hfound) habove] at h
        cases h
  | case3 here init dir link rest hfound =>
    rw [FileTree.follow, advance_concat, hfound] at h
    cases h
  | case4 here init dir link rest hfound links ih =>
    rw [FileTree.follow, advance_concat, hfound] at h
    dsimp only at h
    rw [← List.append_assoc] at h
    exact ih h

/-- Where the names before the last one lead nowhere, nothing is found. -/
theorem follow_concat_missing (h : t.follow true links here init = .error .noEntry ∨
      ∃ dir free, t.follow true links here init = .ok (.absent dir free)) (last : Bool) (name : Bytes) :
    t.follow last links here (init ++ [name]) = .error .noEntry := by
  fun_induction FileTree.follow t true links here init with
  | case1 links here init e hfound =>
    obtain rfl : e = .noEntry := by simpa using h
    rw [FileTree.follow, advance_concat, hfound]
  | case2 links here init found hfound =>
    obtain ⟨dir, free, rfl⟩ : ∃ dir free, found = .absent dir free := by simpa using h
    rw [FileTree.follow, advance_concat, hfound]
  | case3 here init dir link rest hfound => rcases h with h | ⟨_, _, h⟩ <;> cases h
  | case4 here init dir link rest hfound links ih =>
    rw [FileTree.follow, advance_concat, hfound]
    dsimp only
    rw [← List.append_assoc]
    exact ih h

theorem resolveParent_eq_ok_iff {found : Location × LastName} :
    t.resolveParent cwd p = .ok found ↔ checkPath p = .ok () ∧ found.2 = lastName p ∧
      ∃ start, startOf cwd p = .ok start ∧
        t.follow true Path.linkLimit start p.names.dropLast = .ok (.present found.1 .directory) := by
  rw [resolveParent]
  cases hcheck : checkPath p with
  | error e => simp [bind, Except.bind]
  | ok =>
    cases hstart : startOf cwd p with
    | error e => simp [bind, Except.bind]
    | ok start =>
      cases hfollow : t.follow true Path.linkLimit start p.names.dropLast with
      | error e => simp [bind, Except.bind, hfollow, Except.mapError]
      | ok target =>
        obtain ⟨dir, lastName⟩ := found
        cases target with
        | absent => simp [bind, Except.bind, hfollow, Except.mapError, throw, throwThe, MonadExceptOf.throw]
        | present location entry =>
          cases entry with
          | directory =>
            simp [bind, Except.bind, hfollow, Except.mapError, pure, Except.pure, and_comm, eq_comm]
          | _ => simp [bind, Except.bind, hfollow, Except.mapError, throw, throwThe, MonadExceptOf.throw]

/-- The directory that a path stands in is the same in a tree that has the directories and links of
    another. -/
theorem Keeps.resolveParent {found : Location × LastName} (hkeeps : t.Keeps t')
    (h : t.resolveParent cwd p = .ok found) : t'.resolveParent cwd p = .ok found := by
  obtain ⟨hcheck, hlast, start, hstart, hfollow⟩ := resolveParent_eq_ok_iff.mp h
  have hdir := hkeeps.directory (follow_fits hfollow)
  refine resolveParent_eq_ok_iff.mpr ⟨hcheck, hlast, start, hstart, ?_⟩
  exact hkeeps.follow hfollow (.present hdir fun _ => rfl)

theorem resolveParent_directory {found : Location × LastName} (h : t.resolveParent cwd p = .ok found) :
    t.get? found.1 = some .directory := by
  obtain ⟨-, -, start, -, hfollow⟩ := resolveParent_eq_ok_iff.mp h
  exact follow_fits hfollow

theorem lastName_eq_name_iff {slash : Bool} :
    lastName p = .name name slash ↔ p.names = p.names.dropLast ++ [name] ∧ name ≠ Path.dot ∧
      name ≠ Path.dotDot ∧ p.endsInSlash = slash := by
  rw [lastName]
  rcases List.eq_nil_or_concat p.names with hnil | ⟨front, last, hconcat⟩
  · simp [hnil]
  · rw [List.concat_eq_append] at hconcat
    rw [hconcat, List.getLast?_concat, List.dropLast_concat]
    dsimp only
    split
    · rename_i hdot
      simpa using fun heq hne => absurd (heq.symm.trans hdot) hne
    · split
      · rename_i hdotDot
        simpa using fun heq _ hne => absurd (heq.symm.trans hdotDot) hne
      · rename_i hdot hdotDot
        constructor
        · intro h
          cases h
          exact ⟨rfl, hdot, hdotDot, rfl⟩
        · rintro ⟨heq, -, -, rfl⟩
          rw [List.append_cancel_left_eq, List.singleton_inj] at heq
          rw [heq]

/-- A path leads where its last name leads from the directory that it stands in. -/
theorem resolve_of_parent (h : t.resolveParent cwd p = .ok (dir, .name name false)) (last : Bool) :
    ∃ left, t.resolve cwd last p = (t.follow last left dir [name]).mapError .os := by
  obtain ⟨hcheck, hlast, start, hstart, hfollow⟩ := resolveParent_eq_ok_iff.mp h
  obtain ⟨hnames, -, -, hslash⟩ := lastName_eq_name_iff.mp hlast.symm
  obtain ⟨left, -, heq⟩ := follow_concat hfollow last name
  rw [← hnames] at heq
  refine ⟨left, ?_⟩
  rw [resolve, hcheck, hstart, Path.steps, hslash]
  exact congrArg (Except.mapError SystemError.os) heq

theorem isOrdinary_of_parent {slash : Bool} (h : t.resolveParent cwd p = .ok (dir, .name name slash))
    (hlength : name.length ≤ Path.nameLimit) : Path.IsOrdinary name := by
  obtain ⟨-, hlast, -⟩ := resolveParent_eq_ok_iff.mp h
  obtain ⟨-, hdot, hdotDot, -⟩ := lastName_eq_name_iff.mp hlast.symm
  exact ⟨hdot, hdotDot, hlength⟩

/-- The last name of a path that may be handed to the system is a name that an entry can have. -/
theorem isEntryName_of_parent {slash : Bool} (h : t.resolveParent cwd p = .ok (dir, .name name slash))
    (hlength : name.length ≤ Path.nameLimit) : Path.IsEntryName name := by
  obtain ⟨hcheck, hlast, -⟩ := resolveParent_eq_ok_iff.mp h
  obtain ⟨hnames, hdot, hdotDot, -⟩ := lastName_eq_name_iff.mp hlast.symm
  have hmem : name ∈ p.names := by
    rw [hnames]
    simp
  obtain ⟨hsegment, hne⟩ := Path.mem_names_iff.mp hmem
  refine ⟨Path.isName_iff.mpr ⟨hne, hdot, hdotDot, Path.slash_not_mem_segment hsegment⟩, fun hzero => ?_, hlength⟩
  have hbytes : 0 ∈ p.bytes := Path.mem_of_mem_segment hsegment hzero
  rw [checkPath, if_pos (by simpa using hbytes)] at hcheck
  cases hcheck

/-- A path names the entry of its directory, unless that is a link to be followed. -/
theorem resolve_of_parent_present (h : t.resolveParent cwd p = .ok (dir, .name name false))
    (hlength : name.length ≤ Path.nameLimit) (hget : t.get? (dir ++ [name]) = some entry)
    (hlink : last = true → entry.isSymlink = false) :
    t.resolve cwd last p = .ok (.present (dir ++ [name]) entry) := by
  obtain ⟨left, heq⟩ := resolve_of_parent h last
  have hname := isOrdinary_of_parent h hlength
  have hdir := resolveParent_directory h
  have hadvance : t.advance last dir [name] = .ok (.arrived (.present (dir ++ [name]) entry)) := by
    cases hentry : entry.isSymlink with
    | false =>
      rw [advance_enter hdir hname hget hentry]
      exact advance_nil hget
    | true =>
      cases last with
      | true => rw [hlink rfl] at hentry; cases hentry
      | false =>
        cases entry with
        | symlink link => exact advance_last_link hdir hname hget
        | _ => cases hentry
  rw [heq, FileTree.follow, hadvance]
  rfl

theorem resolve_of_parent_absent (h : t.resolveParent cwd p = .ok (dir, .name name false))
    (hlength : name.length ≤ Path.nameLimit) (hget : t.get? (dir ++ [name]) = none) (last : Bool) :
    t.resolve cwd last p = .ok (.absent dir name) := by
  obtain ⟨left, heq⟩ := resolve_of_parent h last
  rw [heq, FileTree.follow,
    advance_absent (resolveParent_directory h) (isOrdinary_of_parent h hlength) hget]
  rfl

theorem length_le_of_resolve (h : t.resolveParent cwd p = .ok (dir, .name name false))
    (hresolve : t.resolve cwd last p = .ok target) : name.length ≤ Path.nameLimit := by
  obtain ⟨-, hlast, -⟩ := resolveParent_eq_ok_iff.mp h
  obtain ⟨-, hdot, hdotDot, -⟩ := lastName_eq_name_iff.mp hlast.symm
  by_contra hlong
  obtain ⟨left, heq⟩ := resolve_of_parent h last
  rw [heq, FileTree.follow,
    advance_tooLong (resolveParent_directory h) hdot hdotDot (Nat.not_le.mp hlong)] at hresolve
  cases hresolve

theorem lstat_eq_ok_iff : t.lstat cwd p = .ok (location, entry) ↔
    t.resolve cwd false p = .ok (.present location entry) := by
  rw [lstat]
  cases t.resolve cwd false p with
  | error e => simp [bind, Except.bind]
  | ok target =>
    cases target with
    | present => simp [bind, Except.bind, pure, Except.pure]
    | absent => simp [bind, Except.bind, throw, throwThe, MonadExceptOf.throw]

theorem stat_eq_ok_iff : t.stat cwd p = .ok (location, entry) ↔
    t.resolve cwd true p = .ok (.present location entry) := by
  rw [stat]
  cases t.resolve cwd true p with
  | error e => simp [bind, Except.bind]
  | ok target =>
    cases target with
    | present => simp [bind, Except.bind, pure, Except.pure]
    | absent => simp [bind, Except.bind, throw, throwThe, MonadExceptOf.throw]

private theorem advance_follow (hlink : entry.isSymlink = false)
    (h : t.advance false here names = .ok (.arrived (.present location entry))) :
    t.advance true here names = .ok (.arrived (.present location entry)) := by
  fun_induction FileTree.advance t false here names with
  | case1 here found hfound =>
    cases h
    exact advance_nil hfound
  | case4 here rest hdir ih =>
    rw [advance_dot hdir]
    exact ih h
  | case5 here rest hdir _ ih =>
    rw [advance_dotDot hdir]
    exact ih h
  | case9 here name rest hdir hdot hdotDot hlength link hfound hend =>
    cases h
    cases hlink
  | case11 here name rest hdir hdot hdotDot hlength found hnot hfound ih =>
    rw [advance_enter hdir ⟨hdot, hdotDot, Nat.not_lt.mp hlength⟩ hfound (Entry.isSymlink_of_ne hnot)]
    exact ih h
  | _ => cases h

private theorem advance_link_follow {link : Path} (h : t.advance false here names = .ok (.link dir link rest)) :
    t.advance true here names = .ok (.link dir link rest) := by
  fun_induction FileTree.advance t false here names with
  | case4 here rest hdir ih =>
    rw [advance_dot hdir]
    exact ih h
  | case5 here rest hdir _ ih =>
    rw [advance_dotDot hdir]
    exact ih h
  | case10 here name rest hdir hdot hdotDot hlength link hfound hend =>
    cases h
    exact advance_link hdir ⟨hdot, hdotDot, Nat.not_lt.mp hlength⟩ hfound (.inr rfl)
  | case11 here name rest hdir hdot hdotDot hlength found hnot hfound ih =>
    rw [advance_enter hdir ⟨hdot, hdotDot, Nat.not_lt.mp hlength⟩ hfound (Entry.isSymlink_of_ne hnot)]
    exact ih h
  | _ => cases h

private theorem follow_follow (hlink : entry.isSymlink = false)
    (h : t.follow false links here names = .ok (.present location entry)) :
    t.follow true links here names = .ok (.present location entry) := by
  fun_induction FileTree.follow t false links here names with
  | case2 links here names found hfound =>
    cases h
    rw [FileTree.follow, advance_follow hlink hfound]
  | case4 here names dir link rest hfound links ih =>
    rw [FileTree.follow, advance_link_follow hfound]
    exact ih h
  | _ => cases h

/-- What is no link is found alike whether or not a last link is followed. -/
theorem stat_of_lstat (hlink : entry.isSymlink = false) (h : t.lstat cwd p = .ok (location, entry)) :
    t.stat cwd p = .ok (location, entry) := by
  obtain ⟨hcheck, start, hstart, hfollow⟩ := resolve_eq_ok_iff.mp (lstat_eq_ok_iff.mp h)
  exact stat_eq_ok_iff.mpr (resolve_eq_ok_iff.mpr ⟨hcheck, start, hstart, follow_follow hlink hfollow⟩)

theorem Keeps.lstat (hkeeps : t.Keeps t') (h : t.lstat cwd p = .ok (location, entry))
    (hget : t'.get? location = some entry') (hlink : entry.isSymlink = false → entry'.isSymlink = false) :
    t'.lstat cwd p = .ok (location, entry') :=
  lstat_eq_ok_iff.mpr (hkeeps.resolve (lstat_eq_ok_iff.mp h) (.present hget hlink))

theorem Keeps.stat (hkeeps : t.Keeps t') (h : t.stat cwd p = .ok (location, entry))
    (hget : t'.get? location = some entry') (hlink : entry.isSymlink = false → entry'.isSymlink = false) :
    t'.stat cwd p = .ok (location, entry') :=
  stat_eq_ok_iff.mpr (hkeeps.resolve (stat_eq_ok_iff.mp h) (.present hget hlink))

/-- An edit of a place that holds neither a directory nor a link keeps all of both. -/
theorem keeps_set (hne : location ≠ []) (hdir : t.get? location ≠ some .directory)
    (hlink : ∀ link, t.get? location ≠ some (.symlink link)) (entry : Entry) :
    t.Keeps (t.set location entry) where
  directory := by
    intro other hget
    rw [get?_set_of_ne t entry hne fun heq => hdir (heq ▸ hget)]
    exact hget
  link := by
    intro other link hget
    rw [get?_set_of_ne t entry hne fun heq => hlink link (heq ▸ hget)]
    exact hget

theorem get?_of_erase (hne : location ≠ []) {other : Location} (hget : (t.erase location).get? other = some entry) :
    t.get? other = some entry := by
  rw [get?_erase t hne] at hget
  split at hget
  · cases hget
  · exact hget

/-- What is there once something has been removed was there before. -/
theorem keeps_of_erase (hne : location ≠ []) : (t.erase location).Keeps t :=
  ⟨get?_of_erase hne, get?_of_erase hne⟩

theorem keeps_erase (hne : location ≠ []) (hdir : t.get? location ≠ some .directory)
    (hlink : ∀ link, t.get? location ≠ some (.symlink link)) : t.Keeps (t.erase location) where
  directory := by
    intro other hget
    have hother : other ≠ location := by
      rintro rfl
      exact hdir hget
    rw [get?_erase t hne, if_neg hother]
    exact hget
  link := by
    intro other link hget
    have hother : other ≠ location := by
      rintro rfl
      exact hlink link hget
    rw [get?_erase t hne, if_neg hother]
    exact hget

end FileTree

end DebRelease
