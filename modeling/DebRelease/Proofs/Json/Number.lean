import DebRelease.Json.Parser
import DebRelease.Json.Printer
import DebRelease.Proofs.Text.Encoding

namespace DebRelease.Json

variable {c : Char} {digits : List Char} {rest tail : Bytes} {n limit value count : Nat} {negative : Bool}

/-- Nothing that a whole number could go on with comes next. -/
def EndsNumber (rest : Bytes) : Prop :=
  ∀ b ∈ rest.head?, isDigit b = false ∧ b ≠ Bytes.ascii '.' ∧ b ≠ Bytes.ascii 'e' ∧ b ≠ Bytes.ascii 'E'

theorem EndsNumber.digitNext (h : EndsNumber rest) : digitNext rest = false := by
  cases rest with
  | nil => rfl
  | cons b rest => simpa [Json.digitNext] using (h b rfl).1

/-- The byte of a digit. -/
private theorem digit_ascii (h : c.isDigit = true) :
    c.toNat < 0x80 ∧ isDigit (Bytes.ascii c) = true ∧ digitValue (Bytes.ascii c) = c.toNat - '0'.toNat := by
  obtain ⟨hlow, hhigh⟩ := Char.isDigit_iff_toNat.mp h
  have hascii : c.toNat < 0x80 := Nat.lt_of_le_of_lt hhigh (by decide)
  have hbyte := Bytes.toNat_ascii hascii
  refine ⟨hascii, ?_, by rw [digitValue, hbyte]; rfl⟩
  simp only [isDigit, Bool.and_eq_true, decide_eq_true_eq, UInt8.le_iff_toNat_le, hbyte]
  exact ⟨hlow, hhigh⟩

private theorem le_ofDigitChars (digits : List Char) (value : Nat) : value ≤ Nat.ofDigitChars 10 digits value := by
  induction digits generalizing value with
  | nil => exact Nat.le_refl value
  | cons c digits ih =>
    rw [Nat.ofDigitChars_cons]
    have hle := ih (10 * value + (c.toNat - '0'.toNat))
    omega

/-- Digits that stay within the limit are gathered to the last. -/
private theorem gather_digits (hdigits : ∀ c ∈ digits, c.isDigit = true)
    (hlimit : Nat.ofDigitChars 10 digits value ≤ limit) (hrest : digitNext rest = false) :
    gather limit value count (Bytes.ofChars digits ++ rest) =
      (Nat.ofDigitChars 10 digits value, count + digits.length, rest) := by
  induction digits generalizing value count with
  | nil =>
    cases rest with
    | nil => rfl
    | cons b rest =>
      have hb : isDigit b = false := by simpa [digitNext] using hrest
      simp [gather, hb]
  | cons c digits ih =>
    obtain ⟨hascii, hdigit, hvalue⟩ := digit_ascii (hdigits c List.mem_cons_self)
    rw [Nat.ofDigitChars_cons, Nat.mul_comm] at hlimit ⊢
    have hstep := Nat.le_trans (le_ofDigitChars digits _) hlimit
    rw [Bytes.ofChars_cons_ascii hascii, List.cons_append, gather, hdigit, hvalue, decide_eq_true hstep,
      Bool.and_true, if_pos rfl, ih (fun c hmem => hdigits c (List.mem_cons_of_mem _ hmem)) hlimit, List.length_cons,
      Nat.add_right_comm, Nat.add_assoc]

/-- No zero leads the digits of a positive number. -/
private theorem head_toDigits (hn : 0 < n) : (Nat.toDigits 10 n).head? ≠ some '0' := by
  induction n using Nat.strongRecOn with
  | ind n ih =>
    by_cases hlt : n < 10
    · rw [Nat.toDigits_of_lt_base hlt]
      have hdigit : ∀ m < 10, 0 < m → [Nat.digitChar m].head? ≠ some '0' := by decide
      exact hdigit n hlt hn
    · have hinit := ih (n / 10) (by omega) (by omega)
      obtain ⟨c, digits, heq⟩ := List.exists_cons_of_ne_nil (Nat.toDigits_ne_nil (n := n / 10) (b := 10))
      rw [heq] at hinit
      rw [Nat.toDigits_of_base_le (by decide) (by omega), heq]
      exact hinit

/-- The digits of a number begin with a digit. -/
theorem ofChars_toDigits (n : Nat) : ∃ b more, Bytes.ofChars (Nat.toDigits 10 n) = b :: more ∧ isDigit b = true := by
  obtain ⟨c, digits, heq⟩ := List.exists_cons_of_ne_nil (Nat.toDigits_ne_nil (n := n) (b := 10))
  have hmem : c ∈ Nat.toDigits 10 n := heq ▸ List.mem_cons_self
  obtain ⟨hascii, hdigit, -⟩ := digit_ascii (Nat.isDigit_of_mem_toDigits (by decide) (by decide) hmem)
  exact ⟨Bytes.ascii c, Bytes.ofChars digits, by rw [heq, Bytes.ofChars_cons_ascii hascii], hdigit⟩

private theorem afterWhole_of_ends (hrest : EndsNumber rest) :
    afterWhole negative n rest = .ok (whole negative n, rest) := by
  cases rest with
  | nil => rfl
  | cons b rest =>
    obtain ⟨-, hdot, he, hE⟩ := hrest b rfl
    have hexponent : exponentNext (b :: rest) = false := by simp [exponentNext, he, hE]
    rw [afterWhole, hexponent, if_neg (by simpa using hdot), if_neg (by simp)]

/-- The digits of a whole number that can be gathered read back as the number. -/
theorem number_toDigits (negative : Bool) (hn : n ≤ gatherLimit) (hrest : EndsNumber rest) :
    number negative (Bytes.ofChars (Nat.toDigits 10 n) ++ rest) = .ok (whole negative n, rest) := by
  have hdigits : ∀ c ∈ Nat.toDigits 10 n, c.isDigit = true := fun c hmem =>
    Nat.isDigit_of_mem_toDigits (by decide) (by decide) hmem
  have hvalue : Nat.ofDigitChars 10 (Nat.toDigits 10 n) 0 = n := Nat.ofDigitChars_toDigits (by decide) (by decide)
  rcases Nat.eq_zero_or_pos n with rfl | hpos
  · change number negative (Bytes.ascii '0' :: rest) = _
    rw [number, beq_self_eq_true, if_pos rfl, hrest.digitNext, if_neg (by simp), afterWhole_of_ends hrest]
  · obtain ⟨c, digits, heq⟩ := List.exists_cons_of_ne_nil (Nat.toDigits_ne_nil (n := n) (b := 10))
    rw [heq] at hdigits hvalue ⊢
    obtain ⟨hascii, hdigit, hfirst⟩ := digit_ascii (hdigits c List.mem_cons_self)
    have hzero : Bytes.ascii c ≠ Bytes.ascii '0' := by
      intro hsame
      have hhead := head_toDigits hpos
      rw [heq] at hhead
      have hcode := congrArg UInt8.toNat hsame
      rw [Bytes.toNat_ascii hascii, Bytes.toNat_ascii (by decide)] at hcode
      exact hhead (congrArg some (Char.toNat_inj.mp hcode))
    rw [Nat.ofDigitChars_cons, Nat.mul_zero, Nat.zero_add, ← hfirst] at hvalue
    rw [Bytes.ofChars_cons_ascii hascii, List.cons_append, number, if_neg (by simpa using hzero), if_pos hdigit,
      gather_digits (fun c hmem => hdigits c (List.mem_cons_of_mem _ hmem)) (by rw [hvalue]; exact hn) hrest.digitNext,
      hvalue]
    dsimp only
    rw [hrest.digitNext, if_neg (by simp), afterWhole_of_ends hrest]

/-- A whole number that is read has at most 64 bits, with its sign if it has one. -/
def Number.IsReadable : Number → Prop
  | .integer n => -0x8000000000000000 ≤ n ∧ n < 0x10000000000000000
  | .double _ => True

/-- What a reader gives is no whole number. -/
private def GivesDouble (outcome : Except Fault (Number × Bytes)) : Prop :=
  ∀ number rest, outcome = .ok (number, rest) → ∃ x, number = .double x

private theorem givesDouble_ok (x : Float) (rest : Bytes) : GivesDouble (.ok (.double x, rest)) := by
  rintro _ _ ⟨⟩
  exact ⟨x, rfl⟩

private theorem givesDouble_error (fault : Fault) : GivesDouble (.error fault) := by
  rintro _ _ ⟨⟩

private theorem givesDouble_double (negative : Bool) (significand : Nat) (exponent : Int) (rest : Bytes) :
    GivesDouble (double negative significand exponent rest) := by
  rw [double]
  split
  · exact givesDouble_ok _ rest
  · exact givesDouble_error _

private theorem givesDouble_exponentPart (negative : Bool) (significand : Nat) (exponent : Int) (rest : Bytes) :
    GivesDouble (exponentPart negative significand exponent rest) := by
  rw [exponentPart.eq_def]
  split
  rename_i raised after _
  cases after with
  | nil => exact givesDouble_error _
  | cons b tail =>
    dsimp only
    split
    · exact givesDouble_error _
    obtain ⟨value, count, tail⟩ := gather greatestExponent.toNat (digitValue b) 1 tail
    cases tail with
    | nil => exact givesDouble_double _ _ _ _
    | cons next beyond =>
      dsimp only
      split
      · split
        · exact givesDouble_error _
        · exact givesDouble_ok _ _
      · exact givesDouble_double _ _ _ _

private theorem givesDouble_afterDigits (negative : Bool) (significand : Nat) (exponent : Int) (rest : Bytes) :
    GivesDouble (afterDigits negative significand exponent rest) := by
  rw [afterDigits]
  split
  · exact givesDouble_exponentPart _ _ _ _
  · exact givesDouble_double _ _ _ _

private theorem givesDouble_fractionPart (negative : Bool) (significand : Nat) (exponent : Int) (rest : Bytes) :
    GivesDouble (fractionPart negative significand exponent rest) := by
  rw [fractionPart]
  obtain ⟨value, count, tail⟩ := gather gatherLimit significand 0 rest
  dsimp only
  split
  · exact givesDouble_afterDigits _ _ _ _
  · split
    · cases tail <;> exact givesDouble_error _
    · exact givesDouble_afterDigits _ _ _ _

private theorem GivesDouble.isReadable {outcome : Except Fault (Number × Bytes)} {number : Number}
    (h : GivesDouble outcome) (hok : outcome = .ok (number, rest)) : number.IsReadable := by
  obtain ⟨x, rfl⟩ := h _ _ hok
  trivial

private theorem isReadable_whole (negative : Bool) (hn : n ≤ gatherLimit) : (whole negative n).IsReadable := by
  have hlimit : n < 2 ^ 64 := Nat.lt_of_le_of_lt hn (by decide)
  rw [whole]
  split
  · exact ⟨by omega, by omega⟩
  · split
    · trivial
    · rename_i hfits
      simp only [Bool.or_eq_true, decide_eq_true_eq, not_or, Nat.not_lt] at hfits
      exact ⟨by omega, by omega⟩

private theorem isReadable_afterWhole {number : Number} (hn : n ≤ gatherLimit)
    (h : afterWhole negative n rest = .ok (number, tail)) : number.IsReadable := by
  rw [afterWhole.eq_def] at h
  split at h
  · split at h
    · exact (givesDouble_fractionPart _ _ _ _).isReadable h
    · split at h
      · exact (givesDouble_exponentPart _ _ _ _).isReadable h
      · cases h
        exact isReadable_whole negative hn
  · cases h
    exact isReadable_whole negative hn

private theorem gather_le (count : Nat) (rest : Bytes) (hvalue : value ≤ limit) :
    (gather limit value count rest).1 ≤ limit := by
  induction rest generalizing value count with
  | nil => exact hvalue
  | cons b rest ih =>
    rw [gather]
    split
    · rename_i hstep
      simp only [Bool.and_eq_true, decide_eq_true_eq] at hstep
      exact ih _ hstep.2
    · exact hvalue

/-- What is read as a whole number fits. -/
theorem isReadable_number {number : Number} (h : Json.number negative rest = .ok (number, tail)) :
    number.IsReadable := by
  rw [Json.number.eq_def] at h
  split at h
  · cases h
  · rename_i b after
    split at h
    · split at h
      · cases h
      · exact isReadable_afterWhole (Nat.zero_le _) h
    · split at h
      · have hfirst : digitValue b ≤ gatherLimit := by
          have hbyte := b.toNat_lt
          rw [digitValue, gatherLimit]
          omega
        have hle := gather_le 1 after hfirst
        obtain ⟨value, count, left⟩ := gather gatherLimit (digitValue b) 1 after
        dsimp only at h hle
        split at h
        · rw [afterLongWhole] at h
          split at h
          · exact (givesDouble_fractionPart _ _ _ _).isReadable h
          · exact (givesDouble_afterDigits _ _ _ _).isReadable h
        · exact isReadable_afterWhole hle h
      · cases h

end DebRelease.Json
