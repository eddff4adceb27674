import DebRelease.Proofs.Path.Tidy
import Mathlib.Data.List.TakeWhile

namespace DebRelease

namespace Bytes

variable {separator : UInt8}

theorem head?_splitOn (bytes : Bytes) : (splitOn separator bytes).head? = some (bytes.takeWhile (· != separator)) := by
  induction bytes with
  | nil => rfl
  | cons b rest ih =>
    rw [splitOn]
    split
    · rename_i heq
      simp [eq_of_beq heq]
    · rename_i hne
      have hb : (b != separator) = true := by simpa using hne
      rw [List.takeWhile_cons_of_pos (p := (· != separator)) hb]
      cases hsplit : splitOn separator rest with
      | nil => exact absurd hsplit (splitOn_ne_nil separator rest)
      | cons part parts =>
        rw [hsplit, List.head?_cons, Option.some.injEq] at ih
        rw [List.head?_cons, ih]

end Bytes

namespace Path

variable {p : Path} {name : Bytes} {rest rest' : Location}

/-- Apart from a leading `.`, which a relative path keeps, the components are the names that are not `.`. -/
theorem components_eq (p : Path) : p.components =
    (if p.isAbsolute = false ∧ p.segments.head? = some dot then [dot] else []) ++ p.place := by
  have hdot : isTrivial dot = true := by decide
  rw [place_eq_filter_segments, components]
  cases p.isAbsolute with
  | true => simp
  | false =>
    cases p.segments with
    | nil => rfl
    | cons first rest =>
      by_cases hfirst : first = dot
      · subst hfirst
        simp [hdot]
      · simp [hfirst]

/-- The first segment of an entry's path is `.` just if that of the directory is. -/
private theorem head?_segments_join (hrelative : p.isAbsolute = false) (h : isName name = true) :
    (p.join ⟨name⟩).segments.head? = some dot ↔ p.segments.head? = some dot := by
  obtain ⟨-, hdot, -, hslash⟩ := isName_iff.mp h
  have habsolute := (join_name p h).1.trans hrelative
  rw [segments, segments, habsolute, hrelative, if_neg (by simp), if_neg (by simp), Bytes.head?_splitOn,
    Bytes.head?_splitOn, Option.some.injEq, Option.some.injEq]
  have hname : name.takeWhile (· != slash) = name := by
    rw [List.takeWhile_eq_self_iff]
    rintro b hb
    simpa using fun heq : b = slash => hslash (heq ▸ hb)
  by_cases hempty : p.bytes = []
  · rw [join, (names_of_isName h).1, if_neg (by simp), if_pos (by simp [hempty]), hempty]
    change name.takeWhile (· != slash) = dot ↔ [] = dot
    rw [hname]
    exact iff_of_false hdot (by decide)
  · rw [join, (names_of_isName h).1, if_neg (by simp)]
    split
    · rename_i hend
      -- the slash at the end of the directory ends its first segment at the latest
      have hmem : slash ∈ p.bytes := List.mem_of_getLast? (by simpa [hempty, endsInSlash] using hend)
      have hshort : (p.bytes.takeWhile (· != slash)).length ≠ p.bytes.length := by
        intro heq
        have hall := List.takeWhile_eq_self_iff.mp ((List.takeWhile_prefix _).eq_of_length heq) slash hmem
        simp at hall
      rw [List.takeWhile_append, if_neg hshort]
    · rw [List.takeWhile_append]
      split
      · rename_i heq
        rw [List.takeWhile_cons_of_neg (by simp), List.append_nil, (List.takeWhile_prefix _).eq_of_length heq]
      · rfl

/-- The path of an entry has the components of its directory and one more. -/
theorem components_join (p : Path) (h : isName name = true) : (p.join ⟨name⟩).components = p.components ++ [name] := by
  obtain ⟨habsolute, hnames, -⟩ := join_name p h
  have hplace : (p.join ⟨name⟩).place = p.place ++ [name] := by
    rw [place, hnames, List.filter_append, List.filter_cons_of_pos (by simpa using (isName_iff.mp h).2.1)]
    rfl
  rw [components_eq, components_eq, hplace, habsolute, List.append_assoc]
  congr 1
  cases hrelative : p.isAbsolute with
  | true => simp
  | false => simp only [head?_segments_join hrelative h]

theorem components_descend (p : Path) (h : ∀ name ∈ rest, isName name = true) :
    (p.descend rest).components = p.components ++ rest := by
  induction rest generalizing p with
  | nil => simp
  | cons name rest ih =>
    rw [List.forall_mem_cons] at h
    rw [descend_cons, ih _ h.2, components_join p h.1, List.append_assoc, List.singleton_append]

theorem isAbsolute_descend (p : Path) (h : ∀ name ∈ rest, isName name = true) :
    (p.descend rest).isAbsolute = p.isAbsolute := by
  induction rest generalizing p with
  | nil => rfl
  | cons name rest ih =>
    rw [List.forall_mem_cons] at h
    rw [descend_cons, ih _ h.2, (join_name p h.1).1]

/-- Different names on the way make different paths. -/
theorem descend_injective (p : Path) (h : ∀ name ∈ rest, isName name = true)
    (h' : ∀ name ∈ rest', isName name = true) (heq : p.descend rest = p.descend rest') : rest = rest' := by
  have hcomponents := congrArg components heq
  rwa [components_descend p h, components_descend p h', List.append_right_inj] at hcomponents

/-- What follows a directory in the path of something below it are the names on the way. -/
theorem relativeTo?_descend (p : Path) (h : ∀ name ∈ rest, isName name = true) :
    (p.descend rest).relativeTo? p = some (ofSegments false rest) := by
  rw [relativeTo?, isAbsolute_descend p h, components_descend p h, if_pos (by simp), List.drop_left]

theorem isPrefix_join (p : Path) (h : isName name = true) : p.bytes <+: (p.join ⟨name⟩).bytes := by
  rw [join, (names_of_isName h).1, if_neg (by simp)]
  split
  all_goals exact List.prefix_append _ _

/-- The path of a directory begins the paths of what lies below it. -/
theorem isPrefix_descend (p : Path) (h : ∀ name ∈ rest, isName name = true) : p.bytes <+: (p.descend rest).bytes := by
  induction rest generalizing p with
  | nil => exact List.prefix_rfl
  | cons name rest ih =>
    rw [List.forall_mem_cons] at h
    exact (isPrefix_join p h.1).trans (ih _ h.2)

end Path

end DebRelease
