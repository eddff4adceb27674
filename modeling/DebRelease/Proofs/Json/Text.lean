import DebRelease.Json.Parser
import DebRelease.Json.Printer
import DebRelease.Proofs.Text.Encoding

namespace DebRelease.Json

variable {c : Char} {chars : List Char} {rest : Bytes}

/-- A character that stands for itself in a text. -/
private def StandsForItself (c : Char) : Prop :=
  0x20 ≤ c.toNat ∧ c ≠ '"' ∧ c ≠ '\\'

private theorem isPlain_of_high {n : Nat} (hlow : 0x80 ≤ n) (hhigh : n < 0x100) :
    isPlain (UInt8.ofNat n) = true := by
  have hbyte : (UInt8.ofNat n).toNat = n := by rw [UInt8.toNat_ofNat', Nat.mod_eq_of_lt hhigh]
  have hne (b : UInt8) (hb : b.toNat < 0x80) : UInt8.ofNat n ≠ b := by
    rintro rfl
    omega
  simp only [isPlain, Bool.and_eq_true, decide_eq_true_eq, bne_iff_ne, UInt8.le_iff_toNat_le, hbyte]
  exact ⟨⟨by simp; omega, hne _ (by decide)⟩, hne _ (by decide)⟩

/-- The bytes of a character that stands for itself do so too. -/
private theorem isPlain_encodeChar (h : StandsForItself c) : ∀ b ∈ String.utf8EncodeChar c, isPlain b = true := by
  obtain ⟨hlow, hquote, hslash⟩ := h
  by_cases hascii : c.toNat < 0x80
  · have hbyte := Bytes.toNat_ascii hascii
    have hne {c' : Char} (hascii' : c'.toNat < 0x80) (hne : c ≠ c') : Bytes.ascii c ≠ Bytes.ascii c' := by
      intro heq
      have hcode := congrArg UInt8.toNat heq
      rw [hbyte, Bytes.toNat_ascii hascii'] at hcode
      exact hne (Char.toNat_inj.mp hcode)
    rw [Bytes.encodeChar_ascii hascii]
    simp only [List.mem_singleton, forall_eq, isPlain, Bool.and_eq_true, decide_eq_true_eq, bne_iff_ne,
      UInt8.le_iff_toNat_le, hbyte]
    exact ⟨⟨hlow, hne (by decide) hquote⟩, hne (by decide) hslash⟩
  · have hhigh : ¬ c.val.toNat ≤ 127 := fun hle => hascii (Nat.lt_succ_of_le hle)
    simp only [String.utf8EncodeChar, if_neg hhigh]
    intro b hmem
    split at hmem
    · simp only [List.mem_cons, List.not_mem_nil, or_false] at hmem
      rcases hmem with rfl | rfl <;> exact isPlain_of_high (by omega) (by omega)
    split at hmem
    · simp only [List.mem_cons, List.not_mem_nil, or_false] at hmem
      rcases hmem with rfl | rfl | rfl <;> exact isPlain_of_high (by omega) (by omega)
    · simp only [List.mem_cons, List.not_mem_nil, or_false] at hmem
      rcases hmem with rfl | rfl | rfl | rfl <;> exact isPlain_of_high (by omega) (by omega)

private theorem hexUnit_control : ∀ n < 0x20, ∀ rest, hexUnit
    (Bytes.ascii '0' :: Bytes.ascii '0' :: Bytes.ascii (Nat.digitChar (n / 16)) ::
      Bytes.ascii (Nat.digitChar (n % 16)) :: rest) = .ok (n, rest) := by
  intro n hn rest
  have hdigit : ∀ d < 16, hexValue? (Bytes.ascii (Nat.digitChar d)) = some d := by decide
  have hzero : hexValue? (Bytes.ascii '0') = some 0 := by decide
  rw [hexUnit, hzero, hdigit _ (by omega), hdigit _ (by omega)]
  simp only [Except.ok.injEq, Prod.mk.injEq, and_true]
  omega

/-- What is printed of a character is the character, or an escape that stands for it. -/
private theorem escapeChar_cases (c : Char) : StandsForItself c ∧ escapeChar c = [c] ∨
    ∃ tail, escapeChar c = '\\' :: tail ∧ ∀ rest, escape (Bytes.ofChars tail ++ rest) = .ok (c, rest) := by
  rw [escapeChar.eq_def]
  split
  · exact .inr ⟨_, rfl, fun _ => rfl⟩
  · exact .inr ⟨_, rfl, fun _ => rfl⟩
  · exact .inr ⟨_, rfl, fun _ => rfl⟩
  · exact .inr ⟨_, rfl, fun _ => rfl⟩
  · exact .inr ⟨_, rfl, fun _ => rfl⟩
  · exact .inr ⟨_, rfl, fun _ => rfl⟩
  · exact .inr ⟨_, rfl, fun _ => rfl⟩
  · rename_i hquote hslash _ _ _ _ _
    split
    · rename_i hcontrol
      refine .inr ⟨_, rfl, fun rest => ?_⟩
      have hdigit : ∀ d < 16, (Nat.digitChar d).toNat < 0x80 := by decide
      have hbytes : Bytes.ofChars ['u', '0', '0', Nat.digitChar (c.toNat / 16), Nat.digitChar (c.toNat % 16)] =
          [Bytes.ascii 'u', Bytes.ascii '0', Bytes.ascii '0', Bytes.ascii (Nat.digitChar (c.toNat / 16)),
            Bytes.ascii (Nat.digitChar (c.toNat % 16))] := by
        rw [Bytes.ofChars_cons_ascii (by decide), Bytes.ofChars_cons_ascii (by decide),
          Bytes.ofChars_cons_ascii (by decide), Bytes.ofChars_cons_ascii (hdigit _ (by omega)),
          Bytes.ofChars_cons_ascii (hdigit _ (by omega)), Bytes.ofChars_nil]
      change escape (Bytes.ofChars ['u', '0', '0', Nat.digitChar (c.toNat / 16), Nat.digitChar (c.toNat % 16)] ++
        rest) = _
      rw [hbytes]
      change hexEscape (Bytes.ascii '0' :: Bytes.ascii '0' :: Bytes.ascii (Nat.digitChar (c.toNat / 16)) ::
        Bytes.ascii (Nat.digitChar (c.toNat % 16)) :: rest) = _
      rw [hexEscape, hexUnit_control c.toNat hcontrol]
      dsimp only [bind, Except.bind]
      rw [if_neg (by omega), if_neg (by omega), Char.ofNat_toNat]
      rfl
    · rename_i hcontrol
      exact .inl ⟨⟨Nat.not_lt.mp hcontrol, hquote, hslash⟩, rfl⟩

private theorem isPlain_ofChars (h : ∀ c ∈ chars, StandsForItself c) :
    ∀ b ∈ Bytes.ofChars chars, isPlain b = true := by
  intro b hmem
  obtain ⟨c, hc, hb⟩ := List.mem_flatMap.mp hmem
  exact isPlain_encodeChar (h c hc) b hb

/-- Characters that stand for themselves are read up to the first byte that does not. -/
private theorem run_ofChars {front : List Char} {b : UInt8} (hfront : ∀ c ∈ front, StandsForItself c)
    (hb : isPlain b = false) (tail : Bytes) :
    (Bytes.ofChars front ++ b :: tail).takeWhile isPlain = Bytes.ofChars front ∧
      (Bytes.ofChars front ++ b :: tail).dropWhile isPlain = b :: tail := by
  have hplain := isPlain_ofChars hfront
  rw [List.takeWhile_append_of_pos hplain, List.dropWhile_append_of_pos hplain,
    List.takeWhile_cons_of_neg (by simp [hb]), List.dropWhile_cons_of_neg (by simp [hb]), List.append_nil]
  exact ⟨rfl, rfl⟩

private theorem plainText_ofChars (front : List Char) (rest : Bytes) :
    plainText (Bytes.ofChars front) rest = .ok front := by
  rw [plainText, Utf8.decodeFrom_ofChars]

/-- The induction is on the characters that are left; `front` is the run of characters read so far that stand for
    themselves, which the reader takes all at once. -/
private theorem text_printed (front : List Char) (fuel : Nat) (hfuel : chars.length < fuel)
    (hfront : ∀ c ∈ front, StandsForItself c) (rest : Bytes) :
    text fuel (Bytes.ofChars (front ++ (chars.flatMap escapeChar ++ ['"'])) ++ rest) = .ok (front ++ chars, rest) := by
  induction chars generalizing front fuel with
  | nil =>
    obtain ⟨fuel, rfl⟩ := Nat.exists_eq_add_of_lt hfuel
    obtain ⟨htake, hdrop⟩ := run_ofChars (b := Bytes.ascii '"') hfront (by decide) rest
    rw [List.flatMap_nil, List.nil_append, Bytes.ofChars_append, Bytes.ofChars_cons_ascii (by decide),
      Bytes.ofChars_nil, List.append_assoc, List.singleton_append, text, htake, hdrop, List.append_nil]
    dsimp only
    rw [beq_self_eq_true, if_pos rfl, plainText_ofChars]
    rfl
  | cons c chars ih =>
    rw [List.length_cons] at hfuel
    obtain ⟨hself, hshape⟩ | ⟨escaped, hshape, hescape⟩ := escapeChar_cases c
    · have hmore : ∀ c' ∈ front ++ [c], StandsForItself c' := by
        simpa only [List.mem_append, List.mem_singleton, or_imp, forall_and, forall_eq] using ⟨hfront, hself⟩
      rw [List.flatMap_cons, hshape, List.append_assoc, ← List.append_assoc front,
        ih (front ++ [c]) fuel (by omega) hmore, List.append_assoc, List.singleton_append]
    · obtain ⟨fuel, rfl⟩ := Nat.exists_eq_add_of_lt hfuel
      have hleft := ih [] (chars.length + 1 + fuel) (by omega) (by simp)
      obtain ⟨htake, hdrop⟩ := run_ofChars (b := Bytes.ascii '\\') hfront (by decide)
        (Bytes.ofChars escaped ++ (Bytes.ofChars (chars.flatMap escapeChar ++ ['"']) ++ rest))
      rw [List.flatMap_cons, hshape, List.append_assoc, Bytes.ofChars_append, List.cons_append,
        Bytes.ofChars_cons_ascii (by decide), Bytes.ofChars_append escaped, List.append_assoc, List.cons_append,
        List.append_assoc, text, htake, hdrop]
      dsimp only
      rw [if_neg (by decide), beq_self_eq_true, if_pos rfl, plainText_ofChars, hescape]
      dsimp only [bind, Except.bind]
      rw [List.nil_append] at hleft
      rw [hleft]
      rfl

private theorem length_le_flatMap {α β : Type} {f : α → List β} (hf : ∀ x, f x ≠ []) (xs : List α) :
    xs.length ≤ (xs.flatMap f).length := by
  induction xs with
  | nil => exact Nat.le_refl 0
  | cons x xs ih =>
    have hpos := List.length_pos_iff.mpr (hf x)
    rw [List.flatMap_cons, List.length_append, List.length_cons]
    omega

private theorem escapeChar_ne_nil (c : Char) : escapeChar c ≠ [] := by
  obtain ⟨-, hshape⟩ | ⟨escaped, hshape, -⟩ := escapeChar_cases c <;> rw [hshape] <;> exact List.cons_ne_nil _ _

/-- A printed text reads back as the text; its opening quote has been read. -/
theorem string_quote (s : String) (rest : Bytes) :
    string (Bytes.ofChars (s.toList.flatMap escapeChar ++ ['"']) ++ rest) = .ok (s, rest) := by
  have hfuel : s.toList.length < (Bytes.ofChars (s.toList.flatMap escapeChar ++ ['"']) ++ rest).length + 1 := by
    have hescaped := length_le_flatMap escapeChar_ne_nil s.toList
    have hencoded := length_le_flatMap (f := String.utf8EncodeChar) (fun _ => String.utf8EncodeChar_ne_nil)
      (s.toList.flatMap escapeChar)
    rw [Bytes.ofChars_append, List.length_append, List.length_append, Bytes.ofChars]
    omega
  have hread := text_printed [] _ hfuel (by simp) rest
  rw [List.nil_append] at hread
  rw [string, hread, Except.map, List.nil_append]
  dsimp only
  rw [String.ofList_toList]

end DebRelease.Json
