import DebRelease.Proofs.Path.Place
import DebRelease.Proofs.Text.Encoding

namespace DebRelease

namespace Bytes

variable {separator : UInt8}

theorem joinWith_append_last (parts : List Bytes) (last suffix : Bytes) :
    joinWith separator (parts ++ [last]) ++ suffix = joinWith separator (parts ++ [last ++ suffix]) := by
  by_cases hnil : parts = []
  · simp [hnil, joinWith]
  · rw [joinWith_concat hnil, joinWith_concat hnil, List.append_assoc, List.cons_append]

theorem joinWith_prefix (parts more : List Bytes) :
    joinWith separator parts <+: joinWith separator (parts ++ more) := by
  induction more using List.reverseRecOn with
  | nil => simp
  | append_singleton more last ih =>
    refine ih.trans ?_
    rw [← List.append_assoc]
    by_cases hnil : parts ++ more = []
    · simp [hnil, joinWith]
    · rw [joinWith_concat hnil]
      exact List.prefix_append _ _

end Bytes

namespace Path

variable {p q : Path} {name : Bytes} {location dir : Location}

theorem slash_not_mem_of_isName (h : ∀ name ∈ location, isName name = true) :
    ∀ name ∈ location, slash ∉ name :=
  fun name hmem => (isName_iff.mp (h name hmem)).2.2.2

@[simp] theorem names_ofLocation (h : ∀ name ∈ location, isName name = true) :
    (ofLocation location).names = location := by
  rw [names_ofSegments (slash_not_mem_of_isName h), List.filter_eq_self]
  intro name hmem
  simpa using (isName_iff.mp (h name hmem)).1

theorem isDirect_ofLocation (h : ∀ name ∈ location, isName name = true) :
    (ofLocation location).IsDirect ∧ (ofLocation location).place = location := by
  refine ⟨⟨isAbsolute_ofSegments location, ?_⟩, ?_⟩
  · rw [names_ofLocation h]
    exact not_mem_dotDot_of_isName h
  · rw [place, names_ofLocation h, List.filter_eq_self]
    intro name hmem
    simpa using (isName_iff.mp (h name hmem)).2.1

theorem endsInSlash_ofLocation (dir : Location) (hname : isName name = true) :
    (ofLocation (dir ++ [name])).endsInSlash = false := by
  obtain ⟨hne, -, -, hslash⟩ := isName_iff.mp hname
  obtain ⟨front, last, rfl⟩ := (List.eq_nil_or_concat name).resolve_left hne
  rw [List.concat_eq_append] at hslash ⊢
  have hlast : last ≠ slash := by
    rintro rfl
    simp at hslash
  rw [endsInSlash, ofLocation, ofSegments, ← Bytes.joinWith_append_last, ← List.append_assoc, List.getLast?_concat]
  simpa using hlast

/-- An entry of a directory in normal form is in normal form. -/
theorem ofLocation_join (h : ∀ name ∈ location, isName name = true) (hname : isName name = true) :
    (ofLocation location).join ⟨name⟩ = ofLocation (location ++ [name]) := by
  have hrelative := (names_of_isName hname).1
  rcases List.eq_nil_or_concat location with rfl | ⟨front, last, rfl⟩
  · rw [join, hrelative, if_neg (by simp)]
    rfl
  · rw [List.concat_eq_append] at h ⊢
    have hslash := endsInSlash_ofLocation front (h last (by simp))
    rw [join, hrelative, if_neg (by simp), hslash, if_neg (by simp [ofLocation, ofSegments])]
    rw [ofLocation, ofLocation, ofSegments, ofSegments, Bytes.joinWith_concat (List.concat_ne_nil _ _)]
    simp

theorem ofLocation_append (dir : Location) (name : Bytes) (suffix : String) :
    (ofLocation (dir ++ [name])).append suffix = ofLocation (dir ++ [name ++ Bytes.ofText suffix]) := by
  simp [append, ofLocation, ofSegments, ← Bytes.joinWith_append_last]

theorem ofLocation_isPrefix (h : dir <+: location) : (ofLocation dir).bytes <+: (ofLocation location).bytes := by
  obtain ⟨rest, rfl⟩ := h
  exact (List.prefix_append_right_inj _).mpr (Bytes.joinWith_prefix dir rest)

theorem foldNames_isName {names segments : List Bytes} (h : ∀ name ∈ names, isName name = true)
    (hslash : ∀ segment ∈ segments, slash ∉ segment) :
    ∀ name ∈ segments.foldl foldNames names, isName name = true := by
  induction segments generalizing names with
  | nil => exact h
  | cons segment segments ih =>
    refine ih (fun name hmem => ?_) fun other hmem => hslash other (List.mem_cons_of_mem _ hmem)
    rw [foldNames] at hmem
    split at hmem
    · exact h name (List.mem_of_mem_tail hmem)
    · rename_i hdotDot
      split at hmem
      · exact h name hmem
      · rename_i htrivial
        rcases List.mem_cons.mp hmem with rfl | hmem
        · simp only [isTrivial, Bool.or_eq_true, List.isEmpty_iff, beq_iff_eq, not_or] at htrivial
          simp only [beq_iff_eq] at hdotDot
          exact isName_iff.mpr ⟨htrivial.1, htrivial.2, hdotDot, hslash _ List.mem_cons_self⟩
        · exact h name hmem

/-- A path read from a directory is in normal form. -/
theorem absoluteFrom_eq (base p : Path) :
    ∃ location, (∀ name ∈ location, isName name = true) ∧ base.absoluteFrom p = ofLocation location := by
  refine ⟨_, fun name hmem => ?_, rfl⟩
  rw [List.mem_reverse] at hmem
  refine foldNames_isName (by simp) (fun segment hmem => ?_) name hmem
  rcases List.mem_append.mp hmem with hmem | hmem
  · split at hmem
    · cases hmem
    · exact slash_not_mem_segment hmem
  · exact slash_not_mem_segment hmem

end Path

end DebRelease
