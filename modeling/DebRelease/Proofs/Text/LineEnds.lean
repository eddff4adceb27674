import DebRelease.Text.Lines
import Mathlib.Data.List.DropRight

namespace DebRelease

/-- A text is another without the longest run of carriage returns and line feeds at its end. -/
structure StripsLineEnds (printed text : String) : Prop where
  run : ∃ ends, printed.toList = text.toList ++ ends ∧ ∀ c ∈ ends, c = '\r' ∨ c = '\n'
  maximal : ∀ c ∈ text.toList.getLast?, c ≠ '\r' ∧ c ≠ '\n'

namespace Bytes

theorem isLineEnd_iff {c : Char} : isLineEnd c = true ↔ c = '\r' ∨ c = '\n' := by
  simp [isLineEnd]

theorem toList_dropLineEnds (s : String) : (dropLineEnds s).toList = s.toList.rdropWhile isLineEnd := by
  rw [dropLineEnds, String.toList_ofList, List.rdropWhile]

end Bytes

open Bytes

/-- Dropping the line ends of a text strips them, and nothing else does. -/
theorem stripsLineEnds_iff {printed text : String} : StripsLineEnds printed text ↔ dropLineEnds printed = text := by
  constructor
  · rintro ⟨⟨ends, hprinted, hends⟩, hmaximal⟩
    have hgone : ∀ c ∈ ends.reverse, isLineEnd c = true := fun c hc =>
      isLineEnd_iff.mpr (hends c (List.mem_reverse.mp hc))
    rw [← String.toList_inj, toList_dropLineEnds, hprinted, List.rdropWhile, List.reverse_append,
      List.dropWhile_append_of_pos hgone, ← List.rdropWhile, List.rdropWhile_eq_self_iff]
    intro hne hlast
    obtain ⟨hreturn, hfeed⟩ := hmaximal _ (List.getLast?_eq_some_getLast hne)
    exact (isLineEnd_iff.mp hlast).elim hreturn hfeed
  · rintro rfl
    refine ⟨⟨printed.toList.rtakeWhile isLineEnd, ?_, fun c hc => ?_⟩, fun c hc => ?_⟩
    · rw [toList_dropLineEnds, List.rdropWhile_append_rtakeWhile]
    · exact isLineEnd_iff.mp (List.mem_rtakeWhile_imp hc)
    · obtain ⟨hne, rfl⟩ := List.mem_getLast?_eq_getLast hc
      simp only [toList_dropLineEnds] at hne ⊢
      exact not_or.mp fun h => List.rdropWhile_last_not isLineEnd _ hne (isLineEnd_iff.mpr h)

end DebRelease
