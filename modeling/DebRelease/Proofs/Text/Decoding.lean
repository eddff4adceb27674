import DebRelease.Text.Utf8
import Mathlib.Algebra.Group.Nat.Defs
import Mathlib.Data.List.Basic

namespace DebRelease.Utf8

variable {state next : State} {owed value : Nat} {low high b : UInt8} {c : Char} {bytes : Bytes}

theorem lossyFrom_character (h : state.move b = .character c) (rest : Bytes) :
    lossyFrom state (b :: rest) = c :: lossyFrom .start rest := by
  cases state with
  | start => rw [lossyFrom, show Move.first b = .character c from h]
  | inside => rw [lossyFrom, h]

theorem lossyFrom_more (h : state.move b = .more next) (rest : Bytes) :
    lossyFrom state (b :: rest) = lossyFrom next rest := by
  cases state with
  | start => rw [lossyFrom, show Move.first b = .more next from h]
  | inside => rw [lossyFrom, h]

theorem lossyFrom_invalid (h : State.start.move b = .refuse) (rest : Bytes) :
    lossyFrom .start (b :: rest) = replacement :: lossyFrom .start rest := by
  rw [lossyFrom, show Move.first b = .refuse from h]

/-- A byte that may not go on a character is read anew after what stands for that character. -/
theorem lossyFrom_refused (h : (State.inside owed low high value).move b = .refuse) (rest : Bytes) :
    lossyFrom (.inside owed low high value) (b :: rest) = replacement :: lossyFrom .start (b :: rest) := by
  rw [lossyFrom.eq_def (.inside owed low high value), lossyFrom]
  simp only [h]

/-- Induction along what a decoder reads. -/
theorem reading_induction {motive : State → Bytes → Prop} (start : motive .start [])
    (inside : ∀ owed low high value, motive (.inside owed low high value) [])
    (character : ∀ state b c rest, state.move b = .character c → motive .start rest → motive state (b :: rest))
    (more : ∀ state b next rest, state.move b = .more next → motive next rest → motive state (b :: rest))
    (invalid : ∀ b rest, State.start.move b = .refuse → motive .start rest → motive .start (b :: rest))
    (refused : ∀ owed low high value b rest, (State.inside owed low high value).move b = .refuse →
      motive .start (b :: rest) → motive (.inside owed low high value) (b :: rest))
    (state : State) (bytes : Bytes) : motive state bytes := by
  induction bytes generalizing state with
  | nil =>
    cases state with
    | start => exact start
    | inside => exact inside _ _ _ _
  | cons b rest ih =>
    have hstart : motive .start (b :: rest) := by
      cases hmove : State.start.move b with
      | character c => exact character _ _ _ _ hmove (ih _)
      | more next => exact more _ _ _ _ hmove (ih _)
      | refuse => exact invalid _ _ hmove (ih _)
    cases state with
    | start => exact hstart
    | inside owed low high value =>
      cases hmove : (State.inside owed low high value).move b with
      | character c => exact character _ _ _ _ hmove (ih _)
      | more next => exact more _ _ _ _ hmove (ih _)
      | refuse => exact refused _ _ _ _ _ _ hmove hstart

/-- What is inside a character becomes none of ASCII: no byte below `0x80` may follow, and even with the least that may,
    the number of the character is at least `0x80`. -/
def State.Sound : State → Prop
  | .start => True
  | .inside owed low _ value => 0x80 ≤ low.toNat ∧ 0x80 ≤ (value * 64 + (low.toNat - 0x80)) * 64 ^ owed

theorem sound_start : State.start.Sound := trivial

/-- What the first byte of a character may do: it is the character, or it begins one soundly. -/
private def Begins (b : UInt8) : Move → Prop
  | .character c => c = Char.ofNat b.toNat
  | .more next => next ≠ .start ∧ next.Sound
  | .refuse => True

private theorem begins_inside (hlow : 0x80 ≤ low.toNat)
    (hleast : 0x80 ≤ (value * 64 + (low.toNat - 0x80)) * 64 ^ owed) : Begins b (.more (.inside owed low high value)) :=
  ⟨nofun, hlow, hleast⟩

private theorem begins_first (b : UInt8) : Begins b (Move.first b) := by
  have hzero : (0x80 : UInt8).toNat = 0x80 := rfl
  unfold Move.first
  refine iteInduction (fun _ => rfl) fun _ => ?_
  refine iteInduction (fun hb => ?_) fun _ => ?_
  · have hfirst : 0xC2 ≤ b.toNat := UInt8.le_iff_toNat_le.mp hb.1
    exact begins_inside (by decide) (by omega)
  refine iteInduction (fun _ => begins_inside (by decide) (by decide)) fun _ => ?_
  refine iteInduction (fun _ => begins_inside (by decide) (by decide)) fun _ => ?_
  refine iteInduction (fun hb => ?_) fun _ => ?_
  · have hfirst : 0xE1 ≤ b.toNat := UInt8.le_iff_toNat_le.mp hb.1
    exact begins_inside (by decide) (by omega)
  refine iteInduction (fun _ => begins_inside (by decide) (by decide)) fun _ => ?_
  refine iteInduction (fun hb => ?_) fun _ => ?_
  · have hfirst : 0xF1 ≤ b.toNat := UInt8.le_iff_toNat_le.mp hb.1
    exact begins_inside (by decide) (by omega)
  exact iteInduction (fun _ => begins_inside (by decide) (by decide)) fun _ => trivial

/-- A byte that does not end a character leaves the decoder inside one. -/
theorem move_ne_start (h : state.move b = .more next) : next ≠ .start := by
  cases state with
  | start =>
    have hfirst := begins_first b
    rw [show Move.first b = .more next from h] at hfirst
    exact hfirst.1
  | inside owed low high value =>
    rintro rfl
    cases owed
    all_goals
      simp only [State.move] at h
      split at h <;> cases h

/-- What a decoder reads is nothing only where there is nothing to read. -/
theorem lossyFrom_ne_nil (h : state ≠ .start ∨ bytes ≠ []) : lossyFrom state bytes ≠ [] := by
  induction state, bytes using reading_induction with
  | start => simp at h
  | inside => simp [lossyFrom]
  | character state b c rest hmove ih => simp [lossyFrom_character hmove]
  | more state b next rest hmove ih =>
    rw [lossyFrom_more hmove]
    exact ih (.inl (move_ne_start hmove))
  | invalid b rest hmove ih => simp [lossyFrom_invalid hmove]
  | refused owed low high value b rest hmove ih => simp [lossyFrom_refused hmove]

/-- After a byte the state is sound again. -/
theorem sound_of_move (hsound : state.Sound) (h : state.move b = .more next) : next.Sound := by
  cases state with
  | start =>
    have hfirst := begins_first b
    rw [show Move.first b = .more next from h] at hfirst
    exact hfirst.2
  | inside owed low high value =>
    obtain ⟨hlow, hleast⟩ := hsound
    cases owed with
    | zero =>
      simp only [State.move] at h
      split at h <;> cases h
    | succ owed =>
      simp only [State.move] at h
      split at h
      · rename_i hb
        cases h
        have hb := UInt8.le_iff_toNat_le.mp hb.1
        refine ⟨by decide, ?_⟩
        calc 0x80 ≤ (value * 64 + (low.toNat - 0x80)) * 64 ^ (owed + 1) := hleast
          _ = (value * 64 + (low.toNat - 0x80)) * 64 * 64 ^ owed := by rw [Nat.pow_succ', Nat.mul_assoc]
          _ ≤ ((value * 64 + (b.toNat - 0x80)) * 64 + ((0x80 : UInt8).toNat - 0x80)) * 64 ^ owed := by
            apply Nat.mul_le_mul_right
            have hzero : (0x80 : UInt8).toNat = 0x80 := rfl
            omega
      · cases h

private theorem ofNat_ne_newLine {n : Nat} (h : n ≠ 10) : Char.ofNat n ≠ '\n' := by
  unfold Char.ofNat
  by_cases hvalid : n.isValidChar
  · rw [dif_pos hvalid]
    intro heq
    apply h
    exact congrArg Char.toNat heq
  · rw [dif_neg hvalid]
    decide

/-- A byte below those that may follow is refused inside a character. -/
theorem move_lineFeed (hsound : (State.inside owed low high value).Sound) :
    (State.inside owed low high value).move Bytes.lineFeed = .refuse := by
  have hlow : ¬ low ≤ Bytes.lineFeed := by
    rw [UInt8.le_iff_toNat_le, Nat.not_le]
    exact Nat.lt_of_lt_of_le (by decide) hsound.1
  rw [State.move, if_neg fun h => hlow h.1]

/-- Nothing but a line feed is read as one. -/
theorem ne_newLine_of_move (hsound : state.Sound) (hb : b ≠ Bytes.lineFeed) (h : state.move b = .character c) :
    c ≠ '\n' := by
  cases state with
  | start =>
    have hfirst := begins_first b
    rw [show Move.first b = .character c from h] at hfirst
    rw [hfirst]
    apply ofNat_ne_newLine
    intro heq
    exact hb (UInt8.toNat_inj.mp heq)
  | inside owed low high value =>
    simp only [State.move] at h
    split at h
    · rename_i hbetween
      cases owed with
      | zero =>
        rw [← Move.character.inj h]
        apply ofNat_ne_newLine
        have hleast : 0x80 ≤ (value * 64 + (low.toNat - 0x80)) * 64 ^ 0 := hsound.2
        have hlow := UInt8.le_iff_toNat_le.mp hbetween.1
        omega
      | succ owed => cases h
    · cases h

/-- A line feed is read as itself, and what follows it is decoded anew. -/
theorem lossyFrom_lineFeed (hsound : state.Sound) (bytes rest : Bytes) :
    lossyFrom state (bytes ++ Bytes.lineFeed :: rest) = lossyFrom state bytes ++ '\n' :: lossyFrom .start rest := by
  have hfeed : State.start.move Bytes.lineFeed = .character '\n' := by decide
  induction state, bytes using reading_induction with
  | start => exact lossyFrom_character hfeed rest
  | inside =>
    rw [List.nil_append, lossyFrom_refused (move_lineFeed hsound), lossyFrom_character hfeed]
    rfl
  | character state b c more hmove ih =>
    rw [List.cons_append, lossyFrom_character hmove, lossyFrom_character hmove, ih sound_start, List.cons_append]
  | more state b next more hmove ih =>
    rw [List.cons_append, lossyFrom_more hmove, lossyFrom_more hmove, ih (sound_of_move hsound hmove)]
  | invalid b more hmove ih =>
    rw [List.cons_append, lossyFrom_invalid hmove, lossyFrom_invalid hmove, ih sound_start, List.cons_append]
  | refused owed low high value b more hmove ih =>
    rw [List.cons_append, lossyFrom_refused hmove, lossyFrom_refused hmove, ← List.cons_append, ih sound_start,
      List.cons_append]

/-- Where there is no line feed, none is read. -/
theorem newLine_not_mem (hsound : state.Sound) (hnone : Bytes.lineFeed ∉ bytes) : '\n' ∉ lossyFrom state bytes := by
  have hreplacement : '\n' ≠ replacement := by decide
  induction state, bytes using reading_induction with
  | start => exact List.not_mem_nil
  | inside => simpa [lossyFrom] using hreplacement
  | character state b c rest hmove ih =>
    have hb := (List.ne_of_not_mem_cons hnone).symm
    rw [lossyFrom_character hmove]
    apply List.not_mem_cons_of_ne_of_not_mem (ne_newLine_of_move hsound hb hmove).symm
    exact ih sound_start (List.not_mem_of_not_mem_cons hnone)
  | more state b next rest hmove ih =>
    rw [lossyFrom_more hmove]
    exact ih (sound_of_move hsound hmove) (List.not_mem_of_not_mem_cons hnone)
  | invalid b rest hmove ih =>
    rw [lossyFrom_invalid hmove]
    apply List.not_mem_cons_of_ne_of_not_mem hreplacement
    exact ih sound_start (List.not_mem_of_not_mem_cons hnone)
  | refused owed low high value b rest hmove ih =>
    rw [lossyFrom_refused hmove]
    exact List.not_mem_cons_of_ne_of_not_mem hreplacement (ih sound_start hnone)

end DebRelease.Utf8
