import DebRelease.Proofs.Text.Decoding
import DebRelease.Text.Lines

namespace DebRelease

variable {α : Type} [DecidableEq α] {feed : α} {line rest : List α}

/-- A list cut after each occurrence of an element; what comes after the last of them is a piece unless it is empty. -/
def cutAfter (feed : α) : List α → List (List α)
  | [] => []
  | a :: rest =>
    if a = feed then [a] :: cutAfter feed rest
    else
      match cutAfter feed rest with
      | [] => [[a]]
      | piece :: pieces => (a :: piece) :: pieces

@[simp] theorem cutAfter_nil : cutAfter feed [] = [] := rfl

/-- The first piece ends with the first occurrence. -/
theorem cutAfter_append (hline : feed ∉ line) (rest : List α) :
    cutAfter feed (line ++ feed :: rest) = (line ++ [feed]) :: cutAfter feed rest := by
  induction line with
  | nil => rw [List.nil_append, cutAfter, if_pos rfl, List.nil_append]
  | cons a line ih =>
    rw [List.cons_append, cutAfter, if_neg (List.ne_of_not_mem_cons hline).symm,
      ih (List.not_mem_of_not_mem_cons hline)]
    rfl

/-- Where there is no occurrence, there is one piece. -/
theorem cutAfter_of_not_mem (hline : feed ∉ line) (hne : line ≠ []) : cutAfter feed line = [line] := by
  induction line with
  | nil => exact absurd rfl hne
  | cons a line ih =>
    rw [cutAfter, if_neg (List.ne_of_not_mem_cons hline).symm]
    cases line with
    | nil => rfl
    | cons b line => rw [ih (List.not_mem_of_not_mem_cons hline) (List.cons_ne_nil b line)]

/-- Induction along lines. -/
theorem line_induction (feed : α) {motive : List α → Prop} (last : ∀ line, feed ∉ line → motive line)
    (line : ∀ line rest, feed ∉ line → motive rest → motive (line ++ feed :: rest)) (items : List α) :
    motive items := by
  suffices hfront : ∀ front, feed ∉ front → motive (front ++ items) from hfront [] List.not_mem_nil
  induction items with
  | nil =>
    intro front hnone
    rw [List.append_nil]
    exact last front hnone
  | cons a items ih =>
    intro front hnone
    by_cases ha : a = feed
    · subst ha
      exact line front items hnone (ih [] List.not_mem_nil)
    · rw [List.append_cons]
      apply ih
      rw [List.mem_append, List.mem_singleton]
      exact not_or.mpr ⟨hnone, Ne.symm ha⟩

namespace Bytes

variable {bytes front line rest : Bytes}

theorem cutLine?_append (hnone : cutLine? front = none) (bytes : Bytes) :
    cutLine? (front ++ bytes) = (cutLine? bytes).map fun (line, rest) => (front ++ line, rest) := by
  induction front with
  | nil => simp
  | cons b front ih =>
    rw [cutLine?] at hnone
    split at hnone
    · cases hnone
    · rename_i hb
      rw [List.cons_append, cutLine?, if_neg hb, ih (Option.map_eq_none_iff.mp hnone), Option.map_map]
      rfl

theorem cutLine?_append_right (hcut : cutLine? front = some (line, rest)) (bytes : Bytes) :
    cutLine? (front ++ bytes) = some (line, rest ++ bytes) := by
  induction front generalizing line with
  | nil => cases hcut
  | cons b front ih =>
    rw [cutLine?] at hcut
    rw [List.cons_append, cutLine?]
    split at hcut
    · rename_i hb
      cases hcut
      rw [if_pos hb]
    · rename_i hb
      obtain ⟨⟨line', rest'⟩, hcut', heq⟩ := Option.map_eq_some_iff.mp hcut
      cases heq
      rw [if_neg hb, ih hcut', Option.map_some]

theorem cutLine?_eq_none_iff : cutLine? bytes = none ↔ lineFeed ∉ bytes := by
  induction bytes with
  | nil => simp [cutLine?]
  | cons b bytes ih =>
    rw [cutLine?, List.mem_cons, not_or, ← ih]
    by_cases hb : b = lineFeed
    · simp [hb]
    · simp [hb, Ne.symm hb]

/-- The lines of a text, each with its line feed; the last may lack one. -/
def linesOf (text : String) : List String :=
  (cutAfter '\n' text.toList).map String.ofList

/-- Lines decoded one by one are the lines of the whole that is decoded at once. -/
theorem map_lossy_cutAfter (bytes : Bytes) : (cutAfter lineFeed bytes).map lossy = linesOf bytes.lossy := by
  have hread (bytes : Bytes) :
      (cutAfter lineFeed bytes).map (Utf8.lossyFrom .start) = cutAfter '\n' (Utf8.lossyFrom .start bytes) := by
    induction bytes using line_induction lineFeed with
    | last line hline =>
      by_cases hne : line = []
      · rw [hne]
        rfl
      · rw [cutAfter_of_not_mem hline hne, List.map_singleton]
        have hnewLine := Utf8.newLine_not_mem Utf8.sound_start hline
        exact (cutAfter_of_not_mem hnewLine (Utf8.lossyFrom_ne_nil (.inr hne))).symm
    | line line rest hline ih =>
      have hfeed := Utf8.lossyFrom_lineFeed Utf8.sound_start line
      rw [cutAfter_append hline, List.map_cons, ih, hfeed, hfeed,
        cutAfter_append (Utf8.newLine_not_mem Utf8.sound_start hline)]
      rfl
  rw [linesOf, lossy, String.toList_ofList, ← hread, List.map_map]
  rfl

end Bytes

end DebRelease
