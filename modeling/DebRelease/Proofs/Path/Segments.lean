import DebRelease.FileTree.Resolve
import Mathlib.Data.List.Infix

namespace DebRelease

namespace Bytes

variable {separator : UInt8}

theorem splitOn_of_not_mem {bytes : Bytes} (h : separator ∉ bytes) :
    splitOn separator bytes = [bytes] := by
  induction bytes with
  | nil => rfl
  | cons b rest ih =>
    simp only [List.mem_cons, not_or] at h
    rw [splitOn, if_neg (by simpa using Ne.symm h.1), ih h.2]

theorem splitOn_append (front rest : Bytes) :
    splitOn separator (front ++ separator :: rest) =
      splitOn separator front ++ splitOn separator rest := by
  induction front with
  | nil => simp [splitOn]
  | cons b front ih =>
    rw [List.cons_append, splitOn, splitOn, ih]
    split
    · simp
    · cases h : splitOn separator front with
      | nil => exact absurd h (splitOn_ne_nil separator front)
      | cons part parts => simp

theorem not_mem_of_mem_splitOn {bytes part : Bytes} (h : part ∈ splitOn separator bytes) :
    separator ∉ part := by
  induction bytes generalizing part with
  | nil =>
    simp only [splitOn, List.mem_singleton] at h
    simp [h]
  | cons b rest ih =>
    rw [splitOn] at h
    split at h
    · rcases List.mem_cons.mp h with rfl | hrest
      · simp
      · exact ih hrest
    · rename_i hb
      cases hsplit : splitOn separator rest with
      | nil => exact absurd hsplit (splitOn_ne_nil separator rest)
      | cons first parts =>
        rw [hsplit] at h
        rcases List.mem_cons.mp h with rfl | hparts
        · have hfirst : separator ∉ first := ih (by simp [hsplit])
          simpa using ⟨fun heq => hb (by simp [heq]), hfirst⟩
        · exact ih (by simp [hsplit, hparts])

theorem mem_of_mem_splitOn {bytes part : Bytes} {b : UInt8} (h : part ∈ splitOn separator bytes)
    (hb : b ∈ part) : b ∈ bytes := by
  induction bytes generalizing part with
  | nil =>
    simp only [splitOn, List.mem_singleton] at h
    simp [h] at hb
  | cons first rest ih =>
    rw [splitOn] at h
    split at h
    · rcases List.mem_cons.mp h with rfl | hrest
      · simp at hb
      · exact List.mem_cons_of_mem _ (ih hrest hb)
    · cases hsplit : splitOn separator rest with
      | nil => exact absurd hsplit (splitOn_ne_nil separator rest)
      | cons part' parts =>
        rw [hsplit] at h
        rcases List.mem_cons.mp h with rfl | hparts
        · rcases List.mem_cons.mp hb with rfl | hb
          · simp
          · exact List.mem_cons_of_mem _ (ih (by simp [hsplit]) hb)
        · exact List.mem_cons_of_mem _ (ih (by simp [hsplit, hparts]) hb)

/-- Splitting undoes joining of parts that hold no separator. -/
theorem splitOn_joinWith {parts : List Bytes} (hne : parts ≠ []) (h : ∀ part ∈ parts, separator ∉ part) :
    splitOn separator (joinWith separator parts) = parts := by
  induction parts with
  | nil => exact absurd rfl hne
  | cons part parts ih =>
    have hpart := h part (by simp)
    cases parts with
    | nil => simpa [joinWith] using splitOn_of_not_mem hpart
    | cons next parts =>
      have hparts := ih (by simp) fun other hother => h other (by simp [hother])
      rw [joinWith, splitOn_append, splitOn_of_not_mem hpart, hparts]
      rfl

theorem joinWith_concat {parts : List Bytes} (hne : parts ≠ []) (last : Bytes) :
    joinWith separator (parts ++ [last]) = joinWith separator parts ++ separator :: last := by
  induction parts with
  | nil => exact absurd rfl hne
  | cons part parts ih =>
    cases parts with
    | nil => simp [joinWith]
    | cons next parts =>
      rw [List.cons_append, List.cons_append, joinWith, joinWith, ← List.cons_append, ih (by simp)]
      simp

/-- What is put after bytes is put after their last part, if it holds no separator. -/
theorem splitOn_append_last (bytes : Bytes) : ∃ init last, splitOn separator bytes = init ++ [last] ∧
    ∀ more, separator ∉ more → splitOn separator (bytes ++ more) = init ++ [last ++ more] := by
  induction bytes with
  | nil => exact ⟨[], [], rfl, fun more hmore => splitOn_of_not_mem hmore⟩
  | cons b rest ih =>
    obtain ⟨init, last, hsplit, happend⟩ := ih
    by_cases hb : (b == separator) = true
    · refine ⟨[] :: init, last, ?_, fun more hmore => ?_⟩
      · rw [splitOn, if_pos hb, hsplit, List.cons_append]
      · rw [List.cons_append, splitOn, if_pos hb, happend more hmore, List.cons_append]
    · cases init with
      | nil =>
        refine ⟨[], b :: last, ?_, fun more hmore => ?_⟩
        · rw [splitOn, if_neg hb, hsplit]
          rfl
        · rw [List.cons_append, splitOn, if_neg hb, happend more hmore]
          rfl
      | cons first init =>
        refine ⟨(b :: first) :: init, last, ?_, fun more hmore => ?_⟩
        · rw [splitOn, if_neg hb, hsplit]
          rfl
        · rw [List.cons_append, splitOn, if_neg hb, happend more hmore]
          rfl

end Bytes

namespace Path

variable {p q : Path} {name : Bytes}

theorem isAbsolute_iff : p.isAbsolute = true ↔ ∃ rest, p.bytes = slash :: rest := by
  rw [isAbsolute, decide_eq_true_eq]
  constructor
  · intro h
    obtain ⟨rest, hrest⟩ := List.head?_eq_some_iff.mp h
    exact ⟨rest, hrest⟩
  · rintro ⟨rest, hrest⟩
    simp [hrest]

theorem segments_of_bytes (p : Path) {rest : Bytes} (h : p.bytes = slash :: rest) :
    p.segments = Bytes.splitOn slash rest := by
  have habs : p.isAbsolute = true := isAbsolute_iff.mpr ⟨rest, h⟩
  simp [segments, habs, h]

theorem slash_not_mem_segment {segment : Bytes} (h : segment ∈ p.segments) : slash ∉ segment :=
  Bytes.not_mem_of_mem_splitOn h

theorem mem_of_mem_segment {segment : Bytes} {b : UInt8} (h : segment ∈ p.segments) (hb : b ∈ segment) :
    b ∈ p.bytes := by
  have hin := Bytes.mem_of_mem_splitOn h hb
  split at hin
  · exact List.mem_of_mem_tail hin
  · exact hin

theorem mem_names_iff : name ∈ p.names ↔ name ∈ p.segments ∧ name ≠ [] := by
  simp [names]

@[simp] theorem isAbsolute_ofSegments (segments : List Bytes) :
    (ofSegments true segments).isAbsolute = true :=
  isAbsolute_iff.mpr ⟨Bytes.joinWith slash segments, rfl⟩

theorem segments_ofSegments {segments : List Bytes} (h : ∀ segment ∈ segments, slash ∉ segment) :
    (ofSegments true segments).segments = if segments = [] then [[]] else segments := by
  rw [segments_of_bytes (ofSegments true segments) rfl]
  split
  · rename_i hnil
    simp [hnil, Bytes.joinWith, Bytes.splitOn]
  · rename_i hne
    exact Bytes.splitOn_joinWith hne h

theorem names_ofSegments {segments : List Bytes} (h : ∀ segment ∈ segments, slash ∉ segment) :
    (ofSegments true segments).names = segments.filter (! ·.isEmpty) := by
  rw [names, segments_ofSegments h]
  split
  · rename_i hnil
    simp [hnil]
  · rfl

/-- The names of a path are what is not empty between its slashes, whether or not it begins with one. -/
theorem names_eq (p : Path) : p.names = (Bytes.splitOn slash p.bytes).filter (! ·.isEmpty) := by
  rw [names, segments]
  split
  · rename_i habsolute
    obtain ⟨rest, hrest⟩ := isAbsolute_iff.mp habsolute
    rw [hrest, List.tail_cons, ← List.nil_append (slash :: rest), Bytes.splitOn_append, List.filter_append]
    rfl
  · rfl

/-- Reading a relative path from another appends its names. -/
theorem names_join (p : Path) (hq : q.isAbsolute = false) :
    (p.join q).isAbsolute = p.isAbsolute ∧ (p.join q).names = p.names ++ q.names := by
  rw [join, hq, if_neg (by simp)]
  by_cases hempty : p.bytes = []
  · have hp : p = ⟨[]⟩ := by cases p; simpa using hempty
    subst hp
    exact ⟨hq, rfl⟩
  have hhead (more : Bytes) : (⟨p.bytes ++ more⟩ : Path).isAbsolute = p.isAbsolute := by
    rw [isAbsolute, isAbsolute, List.head?_append_of_ne_nil _ hempty]
  split
  · rename_i hslash
    refine ⟨hhead _, ?_⟩
    obtain ⟨front, last, hbytes⟩ := (List.eq_nil_or_concat p.bytes).resolve_left hempty
    have hlast : last = slash := by
      simpa [endsInSlash, hbytes, hempty] using hslash
    rw [names_eq, names_eq, names_eq, hbytes, hlast, List.concat_eq_append, List.append_assoc, List.singleton_append,
      Bytes.splitOn_append, Bytes.splitOn_append]
    simp [Bytes.splitOn]
  · exact ⟨hhead _, by rw [names_eq, names_eq, names_eq, Bytes.splitOn_append, List.filter_append]⟩

/-- A text without slashes that is put after a path is put after its last name. -/
theorem names_append (hne : p.bytes ≠ []) (hend : p.endsInSlash = false) {suffix : String}
    (hsuffix : slash ∉ Bytes.ofText suffix) : ∃ init name, p.names = init ++ [name] ∧
      (p.append suffix).names = init ++ [name ++ Bytes.ofText suffix] ∧
      (p.append suffix).isAbsolute = p.isAbsolute ∧ (p.append suffix).endsInSlash = false := by
  obtain ⟨front, b, hbytes⟩ := (List.eq_nil_or_concat p.bytes).resolve_left hne
  rw [List.concat_eq_append] at hbytes
  have hb : b ≠ slash := by
    rintro rfl
    simp [endsInSlash, hbytes] at hend
  obtain ⟨init, last, -, happend⟩ := @Bytes.splitOn_append_last slash front
  refine ⟨init.filter (! ·.isEmpty), last ++ [b], ?_, ?_, ?_, ?_⟩
  · rw [names_eq, hbytes, happend [b] (by simpa using hb.symm), List.filter_append]
    simp
  · rw [names_eq, append, hbytes, List.append_assoc, happend _ (by simpa using ⟨hb.symm, hsuffix⟩), List.filter_append]
    simp
  · rw [isAbsolute, isAbsolute, append, List.head?_append_of_ne_nil _ hne]
  · rw [endsInSlash, append, hbytes]
    rcases List.eq_nil_or_concat (Bytes.ofText suffix) with hnil | ⟨more, last, hconcat⟩
    · simp [hnil, hb]
    · rw [List.concat_eq_append] at hconcat
      have hlast : last ≠ slash := by
        rintro rfl
        simp [hconcat] at hsuffix
      simp [hconcat, ← List.append_assoc, hlast]

end Path

end DebRelease
