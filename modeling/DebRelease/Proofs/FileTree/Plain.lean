import DebRelease.Proofs.FileTree.Changes
import DebRelease.Proofs.Path.Place
import Mathlib.Data.List.Infix

namespace DebRelease.FileTree

/-- No symbolic link lies at or above a place. -/
def IsPlain (t : FileTree) (location : Location) : Prop :=
  ∀ above, above <+: location → ∀ link, t.get? above ≠ some (.symlink link)

variable {t t' : FileTree} {last : Bool} {here dir location : Location} {name : Bytes} {names : List Bytes}
    {entry : Entry} {links : Nat} {cwd : WorkingDir} {p : Path} {target : Target}

instance (t : FileTree) (location : Location) : Decidable (t.IsPlain location) :=
  decidable_of_iff (∀ above ∈ location.inits, ∀ entry ∈ t.get? above, entry.isSymlink = false) <| by
    constructor
    · intro h above hpre link hget
      cases h above ((List.mem_inits above location).mpr hpre) _ hget
    · intro h above hmem entry hget
      cases entry with
      | symlink link => exact absurd hget (h above ((List.mem_inits above location).mp hmem) link)
      | _ => rfl

theorem IsPlain.of_prefix (h : t.IsPlain location) (hpre : dir <+: location) : t.IsPlain dir :=
  fun above habove => h above (habove.trans hpre)

/-- Changes that make no link leave none in the way. -/
theorem IsPlain.of_links {t' : FileTree} (h : t.IsPlain location)
    (hlinks : ∀ place link, t'.get? place = some (.symlink link) → t.get? place = some (.symlink link)) :
    t'.IsPlain location :=
  fun above hpre link hget => h above hpre link (hlinks above link hget)

/-- What lies at or above an entry that is no link is no link. -/
theorem WellFormed.isPlain (h : t.WellFormed) (hget : t.get? location = some entry)
    (hlink : entry.isSymlink = false) : t.IsPlain location := by
  intro above hpre link habove
  by_cases heq : above = location
  · rw [heq, hget] at habove
    cases habove
    cases hlink
  · rw [h.directory_of_prefix hpre heq hget] at habove
    cases habove

theorem WellFormed.isPlain_of_directory (h : t.WellFormed) (hget : t.get? dir = some .directory) :
    t.IsPlain dir :=
  h.isPlain hget rfl

/-- The place that names without `..` spell from a place. -/
private def spelled (here : Location) (names : List Bytes) : Location :=
  here ++ names.filter (· != Path.dot)

private theorem spelled_dot (here : Location) (names : List Bytes) :
    spelled here (Path.dot :: names) = spelled here names := by
  simp [spelled]

private theorem spelled_cons (here : Location) (names : List Bytes) (h : name ≠ Path.dot) :
    spelled here (name :: names) = spelled (here ++ [name]) names := by
  simp [spelled, h]

private theorem prefix_spelled (here : Location) (names : List Bytes) : here <+: spelled here names :=
  List.prefix_append _ _

private theorem advance_place (hplain : t.IsPlain (spelled here names)) (hup : Path.dotDot ∉ names)
    (h : t.advance last here names = .ok (.arrived target)) : target.location = spelled here names := by
  fun_induction FileTree.advance t last here names with
  | case1 here found hfound =>
    cases h
    simp [Target.location, spelled]
  | case4 here rest hdir ih =>
    rw [spelled_dot] at hplain ⊢
    exact ih hplain (fun hmem => hup (List.mem_cons_of_mem _ hmem)) h
  | case5 here rest hdir _ ih => exact absurd List.mem_cons_self hup
  | case7 here name rest hdir hdot hdotDot hlength hnone hend =>
    cases h
    simp [Target.location, spelled, List.isEmpty_iff.mp hend, hdot]
  | case9 here name rest hdir hdot hdotDot hlength link hfound hend =>
    rw [spelled_cons here rest hdot] at hplain
    exact absurd hfound (hplain _ (prefix_spelled _ _) link)
  | case11 here name rest hdir hdot hdotDot hlength found hnot hfound ih =>
    rw [spelled_cons here rest hdot] at hplain ⊢
    exact ih hplain (fun hmem => hup (List.mem_cons_of_mem _ hmem)) h
  | _ => cases h

private theorem advance_ne_link (hplain : t.IsPlain (spelled here names)) (hup : Path.dotDot ∉ names)
    (link : Path) (rest : List Bytes) : t.advance last here names ≠ .ok (.link dir link rest) := by
  intro h
  fun_induction FileTree.advance t last here names with
  | case4 here rest hdir ih =>
    rw [spelled_dot] at hplain
    exact ih hplain (fun hmem => hup (List.mem_cons_of_mem _ hmem)) h
  | case5 here rest hdir _ ih => exact absurd List.mem_cons_self hup
  | case10 here name rest hdir hdot hdotDot hlength link hfound hend =>
    rw [spelled_cons here rest hdot] at hplain
    exact hplain _ (prefix_spelled _ _) link hfound
  | case11 here name rest hdir hdot hdotDot hlength found hnot hfound ih =>
    rw [spelled_cons here rest hdot] at hplain
    exact ih hplain (fun hmem => hup (List.mem_cons_of_mem _ hmem)) h
  | _ => cases h

/-- Where a directory on the way is missing, nothing is at the end. -/
private theorem advance_noEntry (hwf : t.WellFormed) (hup : Path.dotDot ∉ names)
    (h : t.advance last here names = .error .noEntry) : t.get? (spelled here names) = none := by
  fun_induction FileTree.advance t last here names with
  | case2 here hnone => simpa [spelled] using hnone
  | case3 here name rest hnone => exact hwf.none_of_prefix hnone (prefix_spelled _ _)
  | case4 here rest hdir ih =>
    rw [spelled_dot]
    exact ih (fun hmem => hup (List.mem_cons_of_mem _ hmem)) h
  | case5 here rest hdir _ ih => exact absurd List.mem_cons_self hup
  | case8 here name rest hdir hdot hdotDot hlength hnone hend =>
    rw [spelled_cons here rest hdot]
    exact hwf.none_of_prefix hnone (prefix_spelled _ _)
  | case11 here name rest hdir hdot hdotDot hlength found hnot hfound ih =>
    rw [spelled_cons here rest hdot]
    exact ih (fun hmem => hup (List.mem_cons_of_mem _ hmem)) h
  | _ => cases h

private theorem follow_eq (hplain : t.IsPlain (spelled here names)) (hup : Path.dotDot ∉ names) :
    t.follow last links here names =
      match t.advance last here names with
      | .error e => .error e
      | .ok (.arrived target) => .ok target
      | .ok (.link ..) => .error .tooManyLinks := by
  rw [FileTree.follow]
  cases h : t.advance last here names with
  | error e => rfl
  | ok progress =>
    cases progress with
    | arrived target => rfl
    | link dir link rest => exact absurd h (advance_ne_link hplain hup link rest)

/-- A direct path leads to the place that it spells. -/
theorem follow_place (hplain : t.IsPlain (spelled here names)) (hup : Path.dotDot ∉ names)
    (h : t.follow last links here names = .ok target) : target.location = spelled here names := by
  rw [follow_eq hplain hup] at h
  cases hadvance : t.advance last here names with
  | error e =>
    rw [hadvance] at h
    cases h
  | ok progress =>
    rw [hadvance] at h
    cases progress with
    | link => cases h
    | arrived found =>
      cases h
      exact advance_place hplain hup hadvance

private theorem startOf_eq (hdirect : p.IsDirect) : startOf cwd p = .ok [] := by
  simp [startOf, hdirect.absolute]

private theorem dotDot_not_mem_steps (hdirect : p.IsDirect) : Path.dotDot ∉ p.steps := by
  rw [Path.steps]
  split
  · simpa using ⟨hdirect.noDotDot, by decide⟩
  · exact hdirect.noDotDot

private theorem spelled_steps (p : Path) : spelled [] p.steps = p.place := by
  rw [Path.steps]
  split
  · simp [spelled, Path.place]
  · rfl

private theorem spelled_dropLast_names (p : Path) : spelled [] p.names.dropLast <+: p.place := by
  rw [spelled, List.nil_append]
  exact (List.dropLast_prefix p.names).filter _

/-- A direct path names its place, if it names anything and no link is in the way. -/
theorem resolve_place (hdirect : p.IsDirect) (hplain : t.IsPlain p.place)
    (h : t.resolve cwd last p = .ok target) : target.location = p.place := by
  obtain ⟨-, start, hstart, hfollow⟩ := resolve_eq_ok_iff.mp h
  rw [startOf_eq hdirect] at hstart
  cases hstart
  rw [← spelled_steps p] at hplain ⊢
  exact follow_place hplain (dotDot_not_mem_steps hdirect) hfollow

/-- The last name of a direct path stands in the directory above its place. -/
theorem resolveParent_place {slash : Bool} (hdirect : p.IsDirect) (hplain : t.IsPlain p.place)
    (h : t.resolveParent cwd p = .ok (dir, .name name slash)) : dir ++ [name] = p.place := by
  obtain ⟨-, hlast, start, hstart, hfollow⟩ := resolveParent_eq_ok_iff.mp h
  rw [startOf_eq hdirect] at hstart
  cases hstart
  obtain ⟨hnames, hdot, -, -⟩ := lastName_eq_name_iff.mp hlast.symm
  have hup : Path.dotDot ∉ p.names.dropLast := fun hmem => hdirect.noDotDot (List.mem_of_mem_dropLast hmem)
  have hdir : dir = spelled [] p.names.dropLast :=
    follow_place (hplain.of_prefix (spelled_dropLast_names p)) hup hfollow
  rw [hdir, Path.place, hnames, List.dropLast_concat]
  simp [spelled, hdot]

private theorem follow_noEntry (hwf : t.WellFormed) (hplain : t.IsPlain (spelled here names))
    (hup : Path.dotDot ∉ names) (h : t.follow last links here names = .error .noEntry) :
    t.get? (spelled here names) = none := by
  rw [follow_eq hplain hup] at h
  cases hadvance : t.advance last here names with
  | error e =>
    rw [hadvance] at h
    cases h
    exact advance_noEntry hwf hup hadvance
  | ok progress =>
    rw [hadvance] at h
    cases progress <;> cases h

theorem checkPath_ne_noEntry (hdirect : p.IsDirect) : checkPath p ≠ .error (.os .noEntry) := by
  obtain ⟨rest, hrest⟩ := Path.isAbsolute_iff.mp hdirect.absolute
  simp only [checkPath, hrest, List.isEmpty_cons]
  split
  · simp
  · split
    · contradiction
    · split <;> simp [show Errno.nameTooLong ≠ Errno.noEntry by decide]

private theorem follow_of_resolve {e : Errno} (hdirect : p.IsDirect) (hcheck : checkPath p = .ok ())
    (h : t.resolve cwd last p = .error (.os e)) : t.follow last Path.linkLimit [] p.steps = .error e := by
  rw [resolve, hcheck, startOf_eq hdirect] at h
  cases hfollow : t.follow last Path.linkLimit [] p.steps with
  | ok target => simp [bind, Except.bind, hfollow, Except.mapError] at h
  | error e' => simpa [bind, Except.bind, hfollow, Except.mapError] using h

/-- Where a direct path names nothing because something is missing, nothing is at its place. -/
theorem lstat_noEntry (hwf : t.WellFormed) (hdirect : p.IsDirect) (hplain : t.IsPlain p.place)
    (h : t.lstat cwd p = .error (.os .noEntry)) : t.get? p.place = none := by
  rw [lstat] at h
  cases hresolve : t.resolve cwd false p with
  | ok target =>
    have hplace := resolve_place hdirect hplain hresolve
    rw [hresolve] at h
    cases target with
    | present => cases h
    | absent dir name =>
      rw [← hplace]
      exact (resolve_fits hresolve).2.1
  | error e =>
    rw [hresolve] at h
    cases h
    cases hcheck : checkPath p with
    | error e =>
      rw [resolve, hcheck] at hresolve
      cases hresolve
      exact absurd hcheck (checkPath_ne_noEntry hdirect)
    | ok =>
      have hfollow := follow_of_resolve hdirect hcheck hresolve
      rw [← spelled_steps p] at hplain ⊢
      exact follow_noEntry hwf hplain (dotDot_not_mem_steps hdirect) hfollow

/-- Where the directory of a direct path is missing, nothing is at its place. -/
theorem resolveParent_noEntry (hwf : t.WellFormed) (hdirect : p.IsDirect) (hplain : t.IsPlain p.place)
    (h : t.resolveParent cwd p = .error (.os .noEntry)) : t.get? p.place = none := by
  have hup : Path.dotDot ∉ p.names.dropLast := fun hmem => hdirect.noDotDot (List.mem_of_mem_dropLast hmem)
  have habove := spelled_dropLast_names p
  have hinit := hplain.of_prefix habove
  refine hwf.none_of_prefix ?_ habove
  rw [resolveParent, startOf_eq hdirect] at h
  cases hcheck : checkPath p with
  | error e =>
    rw [hcheck] at h
    cases h
    exact absurd hcheck (checkPath_ne_noEntry hdirect)
  | ok =>
    rw [hcheck] at h
    cases hfollow : t.follow true Path.linkLimit [] p.names.dropLast with
    | error e =>
      simp [bind, Except.bind, hfollow, Except.mapError] at h
      exact follow_noEntry hwf hinit hup (h ▸ hfollow)
    | ok target =>
      have hplace := follow_place hinit hup hfollow
      cases target with
      | absent dir name =>
        rw [← hplace]
        exact (follow_fits hfollow).2.1
      | present dir entry =>
        simp only [bind, Except.bind, hfollow, Except.mapError] at h
        cases entry <;> cases h

/-- On the way to a place only what is at and above it counts. -/
private theorem advance_congr (hplain : t.IsPlain (spelled here names)) (hup : Path.dotDot ∉ names)
    (hsame : ∀ above, above <+: spelled here names → t'.get? above = t.get? above) :
    t'.advance last here names = t.advance last here names := by
  fun_induction FileTree.advance t last here names with
  | case1 here found hfound => exact advance_nil ((hsame here (prefix_spelled _ _)).trans hfound)
  | case2 here hnone => rw [FileTree.advance, hsame here (prefix_spelled _ _), hnone]
  | case3 here name rest hnone => rw [FileTree.advance, hsame here (prefix_spelled _ _), hnone]
  | case4 here rest hdir ih =>
    rw [advance_dot ((hsame here (prefix_spelled _ _)).trans hdir)]
    rw [spelled_dot] at hplain hsame
    exact ih hplain (fun hmem => hup (List.mem_cons_of_mem _ hmem)) hsame
  | case5 here rest hdir _ ih => exact absurd List.mem_cons_self hup
  | case6 here name rest hdir hdot hdotDot hlength =>
    exact advance_tooLong ((hsame here (prefix_spelled _ _)).trans hdir) hdot hdotDot hlength rest
  | case7 here name rest hdir hdot hdotDot hlength hnone hend =>
    have hdir' := (hsame here (prefix_spelled _ _)).trans hdir
    rw [spelled_cons here rest hdot] at hsame
    rw [List.isEmpty_iff.mp hend]
    exact advance_absent hdir' ⟨hdot, hdotDot, Nat.not_lt.mp hlength⟩ ((hsame _ (prefix_spelled _ _)).trans hnone)
  | case8 here name rest hdir hdot hdotDot hlength hnone hend =>
    have hdir' := (hsame here (prefix_spelled _ _)).trans hdir
    rw [spelled_cons here rest hdot] at hsame
    exact advance_missing hdir' ⟨hdot, hdotDot, Nat.not_lt.mp hlength⟩ ((hsame _ (prefix_spelled _ _)).trans hnone)
      (by simpa using hend)
  | case9 here name rest hdir hdot hdotDot hlength link hfound hend =>
    rw [spelled_cons here rest hdot] at hplain
    exact absurd hfound (hplain _ (prefix_spelled _ _) link)
  | case10 here name rest hdir hdot hdotDot hlength link hfound hend =>
    rw [spelled_cons here rest hdot] at hplain
    exact absurd hfound (hplain _ (prefix_spelled _ _) link)
  | case11 here name rest hdir hdot hdotDot hlength found hnot hfound ih =>
    have hdir' := (hsame here (prefix_spelled _ _)).trans hdir
    rw [spelled_cons here rest hdot] at hplain hsame
    rw [advance_enter hdir' ⟨hdot, hdotDot, Nat.not_lt.mp hlength⟩ ((hsame _ (prefix_spelled _ _)).trans hfound)
      (Entry.isSymlink_of_ne hnot)]
    exact ih hplain (fun hmem => hup (List.mem_cons_of_mem _ hmem)) hsame
  | case12 here name rest found hnot hfound =>
    exact advance_notDirectory ((hsame here (prefix_spelled _ _)).trans hfound) (fun heq => hnot (heq ▸ rfl)) rest

theorem IsPlain.congr (h : t.IsPlain location)
    (hsame : ∀ above, above <+: location → t'.get? above = t.get? above) : t'.IsPlain location :=
  fun above hpre link => hsame above hpre ▸ h above hpre link

private theorem follow_congr (hplain : t.IsPlain (spelled here names)) (hup : Path.dotDot ∉ names)
    (hsame : ∀ above, above <+: spelled here names → t'.get? above = t.get? above) :
    t'.follow last links here names = t.follow last links here names := by
  rw [follow_eq hplain hup, follow_eq (hplain.congr hsame) hup, advance_congr hplain hup hsame]

/-- Two trees that have the same at and above the place of a direct path agree on what the path names. -/
theorem resolve_congr (hdirect : p.IsDirect) (hplain : t.IsPlain p.place)
    (hsame : ∀ above, above <+: p.place → t'.get? above = t.get? above) :
    t'.resolve cwd last p = t.resolve cwd last p := by
  rw [← spelled_steps p] at hplain hsame
  rw [resolve, resolve, startOf_eq hdirect]
  simp only [bind, Except.bind, follow_congr hplain (dotDot_not_mem_steps hdirect) hsame]

theorem resolveParent_congr (hdirect : p.IsDirect) (hplain : t.IsPlain p.place)
    (hsame : ∀ above, above <+: p.place → t'.get? above = t.get? above) :
    t'.resolveParent cwd p = t.resolveParent cwd p := by
  have hup : Path.dotDot ∉ p.names.dropLast := fun hmem => hdirect.noDotDot (List.mem_of_mem_dropLast hmem)
  have habove := spelled_dropLast_names p
  rw [resolveParent, resolveParent, startOf_eq hdirect]
  simp only [bind, Except.bind,
    follow_congr (hplain.of_prefix habove) hup fun above hpre => hsame above (hpre.trans habove)]

/-- A last name that is not followed ends the way. -/
private theorem advance_last (hdot : name ≠ Path.dot) (hdotDot : name ≠ Path.dotDot) :
    t.advance false dir [name] =
      match t.get? dir with
      | none => .error .noEntry
      | some .directory =>
        if Path.nameLimit < name.length then .error .nameTooLong
        else
          match t.get? (dir ++ [name]) with
          | none => .ok (.arrived (.absent dir name))
          | some entry => .ok (.arrived (.present (dir ++ [name]) entry))
      | some _ => .error .notDirectory := by
  rw [advance]
  cases hdir : t.get? dir with
  | none => rfl
  | some entry =>
    cases entry with
    | directory =>
      simp only [hdot, hdotDot, if_false]
      split
      · rfl
      · cases hget : t.get? (dir ++ [name]) with
        | none => rfl
        | some found =>
          cases found with
          | symlink link => rfl
          | _ => exact advance_nil hget
    | _ => rfl

/-- So a link may be what such a path names. -/
theorem lstat_congr {init : List Bytes} (hdirect : p.IsDirect) (hnames : p.names = init ++ [name])
    (hdot : name ≠ Path.dot) (hslash : p.endsInSlash = false) (hplain : t.IsPlain p.place.dropLast)
    (hsame : ∀ above, above <+: p.place → t'.get? above = t.get? above) : t'.lstat cwd p = t.lstat cwd p := by
  have hup := hdirect.noDotDot
  rw [hnames, List.mem_append, not_or] at hup
  have hdotDot : name ≠ Path.dotDot := fun heq => hup.2 (heq ▸ List.mem_singleton_self _)
  have hplace : p.place = spelled [] init ++ [name] := by simp [Path.place, hnames, spelled, hdot]
  rw [hplace] at hplain hsame
  rw [List.dropLast_concat] at hplain
  have habove : ∀ above, above <+: spelled [] init → t'.get? above = t.get? above :=
    fun above hpre => hsame above (hpre.trans (List.prefix_append _ _))
  have hfollow : t'.follow false Path.linkLimit [] p.steps = t.follow false Path.linkLimit [] p.steps := by
    rw [Path.steps, hslash, if_neg (by simp), hnames, follow, follow, advance_concat, advance_concat,
      advance_congr hplain hup.1 habove]
    cases hinit : t.advance true [] init with
    | error e => rfl
    | ok progress =>
      cases progress with
      | link dir link rest => exact absurd hinit (advance_ne_link hplain hup.1 link rest)
      | arrived target =>
        cases target with
        | absent => rfl
        | present here entry =>
          have hhere : here = spelled [] init := advance_place hplain hup.1 hinit
          dsimp only
          rw [advance_last hdot hdotDot, advance_last hdot hdotDot, hhere, habove _ List.prefix_rfl,
            hsame _ List.prefix_rfl]
          cases hdir : t.get? (spelled [] init) with
          | none => rfl
          | some found =>
            cases found with
            | directory =>
              dsimp only
              by_cases hlength : Path.nameLimit < name.length
              · rw [if_pos hlength]
              · rw [if_neg hlength]
                cases t.get? (spelled [] init ++ [name]) <;> rfl
            | _ => rfl
  rw [lstat, lstat, resolve, resolve, startOf_eq hdirect]
  simp only [bind, Except.bind, hfollow]

end DebRelease.FileTree
