import DebRelease.Proofs.FileTree.Standing
import DebRelease.Proofs.Path.Normal

namespace DebRelease

open FileTree

theorem FileTree.checkPath_eq_ok_iff {p : Path} :
    checkPath p = .ok () ↔ 0 ∉ p.bytes ∧ p.bytes ≠ [] ∧ p.bytes.length < Path.lengthLimit := by
  rw [checkPath]
  split
  · rename_i hzero
    simp only [List.contains_iff_mem] at hzero
    simp [hzero]
  · rename_i hzero
    simp only [List.contains_iff_mem] at hzero
    split
    · rename_i hnil
      simp [List.isEmpty_iff.mp hnil]
    · rename_i hne
      simp only [List.isEmpty_iff] at hne
      split
      · rename_i hlong
        simp [Nat.not_lt.mpr hlong]
      · rename_i hlong
        simp [hzero, hne, Nat.not_le.mp hlong]

/-- The system accepts what a path begins with, if it accepts the path. -/
theorem FileTree.checkPath_of_isPrefix {p q : Path} (h : checkPath p = .ok ()) (hpre : q.bytes <+: p.bytes)
    (hne : q.bytes ≠ []) : checkPath q = .ok () := by
  obtain ⟨hzero, -, hlength⟩ := checkPath_eq_ok_iff.mp h
  exact checkPath_eq_ok_iff.mpr ⟨fun hmem => hzero (hpre.subset hmem), hne, hpre.length_le.trans_lt hlength⟩

namespace Path

/-- A path in normal form that may be handed to the system, with the place it is written from. -/
structure Spells (p : Path) (location : Location) : Prop where
  eq : p = ofLocation location
  entryName : ∀ name ∈ location, IsEntryName name
  check : checkPath p = .ok ()

namespace Spells

variable {p q : Path} {location dir : Location} {name : Bytes}

theorem isName (h : p.Spells location) : ∀ name ∈ location, Path.isName name = true :=
  fun name hmem => (h.entryName name hmem).isName

theorem isDirect (h : p.Spells location) : p.IsDirect := by
  rw [h.eq]
  exact (isDirect_ofLocation h.isName).1

theorem names (h : p.Spells location) : p.names = location := by
  rw [h.eq]
  exact names_ofLocation h.isName

/-- The paths of the directories above spell their places. -/
theorem of_prefix (h : p.Spells location) (hpre : dir <+: location) : (ofLocation dir).Spells dir :=
  ⟨rfl, fun name hmem => h.entryName name (hpre.subset hmem),
    checkPath_of_isPrefix (h.eq ▸ h.check) (ofLocation_isPrefix hpre) (by simp [ofLocation, ofSegments])⟩

end Spells

end Path

namespace FileTree

variable {t : FileTree} {last : Bool} {p : Path} {here dir location : Location} {name : Bytes}
    {names : List Bytes} {entry : Entry} {links : Nat} {cwd : WorkingDir}

/-- All names of an entry's place are such as entries can have. -/
theorem WellFormed.isEntryName (h : t.WellFormed) (hget : t.get? location = some entry) :
    ∀ name ∈ location, Path.IsEntryName name := by
  intro name hmem
  obtain ⟨front, back, rfl⟩ := List.append_of_mem hmem
  by_cases hback : back = []
  · subst hback
    exact h.name hget
  · rw [List.append_cons] at hget
    exact h.name (h.directory_above hback hget)

theorem WellFormed.spells (h : t.WellFormed) (hget : t.get? location = some entry)
    (hcheck : checkPath (.ofLocation location) = .ok ()) : (Path.ofLocation location).Spells location :=
  ⟨rfl, h.isEntryName hget, hcheck⟩

theorem advance_append (hwf : t.WellFormed) (hnames : ∀ name ∈ names, Path.IsEntryName name)
    (hdir : t.get? (here ++ names) = some .directory) (rest : List Bytes) :
    t.advance last here (names ++ rest) = t.advance last (here ++ names) rest := by
  induction names generalizing here with
  | nil => simp
  | cons name names ih =>
    have hname := (hnames name List.mem_cons_self).isOrdinary
    rw [List.append_cons] at hdir ⊢
    have hhere : t.get? here = some .directory :=
      hwf.directory_above (List.cons_ne_nil name names) (by simpa using hdir)
    have hnext : t.get? (here ++ [name]) = some .directory := by
      by_cases hnil : names = []
      · simpa [hnil] using hdir
      · exact hwf.directory_above hnil hdir
    rw [List.cons_append, advance_enter hhere hname hnext rfl]
    exact ih (fun other hmem => hnames other (List.mem_cons_of_mem _ hmem)) hdir

end FileTree

/-- A path in normal form stands for a name in the directory of its place, if that is there. -/
theorem Path.Spells.standsFor {t : FileTree} {p : Path} {dir : Location} {name : Bytes} (cwd : WorkingDir)
    (h : p.Spells (dir ++ [name])) (hwf : t.WellFormed) (hdir : t.get? dir = some .directory) :
    t.StandsFor cwd p dir name := by
  have hslash : p.endsInSlash = false := by
    rw [h.eq]
    exact Path.endsInSlash_ofLocation dir (h.isName name (by simp))
  have hstart : startOf cwd p = .ok [] := by
    simp [startOf, h.isDirect.absolute]
  have hadvance : t.advance true [] (dir ++ []) = t.advance true ([] ++ dir) [] :=
    advance_append hwf (fun other hmem => h.entryName other (by simp [hmem])) (by simpa using hdir) []
  rw [List.append_nil, List.nil_append, advance_nil hdir] at hadvance
  refine standsFor_of_names h.check hstart h.names (h.entryName name (by simp)).isOrdinary hslash ?_
  rw [FileTree.follow, hadvance]

namespace FileTree

variable {t : FileTree} {last : Bool} {p : Path} {dir location : Location} {name content : Bytes}
    {entry : Entry} {cwd : WorkingDir} {is : Bool}

/-- A path that stands for a name spells its place, if its names are such as entries can have. -/
theorem StandsFor.spells {above : Location} {found : Bytes}
    (h : t.StandsFor cwd (.ofLocation (dir ++ [name])) above found) (hdir : ∀ other ∈ dir, Path.IsEntryName other)
    (hname : Path.isName name = true) : (Path.ofLocation (dir ++ [name])).Spells (dir ++ [name]) := by
  have hnames : ∀ other ∈ dir ++ [name], Path.isName other = true := by
    intro other hmem
    rcases List.mem_append.mp hmem with hmem | hmem
    · exact (hdir other hmem).isName
    · exact List.mem_singleton.mp hmem ▸ hname
  obtain ⟨-, hlast, -⟩ := resolveParent_eq_ok_iff.mp h.parent
  obtain ⟨hfound, -⟩ := lastName_eq_name_iff.mp hlast.symm
  rw [Path.names_ofLocation hnames, List.dropLast_concat, List.append_cancel_left_eq, List.cons.injEq] at hfound
  refine ⟨rfl, fun other hmem => ?_, h.check⟩
  rcases List.mem_append.mp hmem with hmem | hmem
  · exact hdir other hmem
  · rw [List.mem_singleton.mp hmem, hfound.1]
    exact h.isEntryName

theorem resolve_root (h : p.Spells []) : t.resolve cwd last p = .ok (.present [] .directory) := by
  refine resolve_eq_ok_iff.mpr ⟨h.check, [], by simp [startOf, h.isDirect.absolute], ?_⟩
  have hsteps : p.steps = [Path.dot] := by
    rw [h.eq]
    decide
  rw [hsteps, FileTree.follow, advance_dot rfl, advance_nil rfl]

/-- A path in normal form leads to what is at its place, if that is no link. -/
theorem stat_spells (h : p.Spells location) (hwf : t.WellFormed) (hget : t.get? location = some entry)
    (hlink : entry.isSymlink = false) : t.stat cwd p = .ok (location, entry) := by
  rcases List.eq_nil_or_concat location with rfl | ⟨dir, name, rfl⟩
  · cases hget
    exact stat_eq_ok_iff.mpr (resolve_root h)
  · rw [List.concat_eq_append] at h hget ⊢
    exact (h.standsFor cwd hwf (hwf.parent hget)).stat hget hlink

theorem read_spells (h : p.Spells location) (hwf : t.WellFormed)
    (hget : t.get? location = some (.file content is)) : t.read cwd p = .ok content :=
  read_of_stat (stat_spells h hwf hget rfl)

end FileTree

end DebRelease
