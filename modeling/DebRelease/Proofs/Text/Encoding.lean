import DebRelease.Text.Utf8

namespace DebRelease

namespace Bytes

/-- The UTF-8 encoding of characters. -/
def ofChars (chars : List Char) : Bytes :=
  chars.flatMap String.utf8EncodeChar

private theorem toList_loop (bytes : ByteArray) (i : Nat) (front : List UInt8) :
    ByteArray.toList.loop bytes i front = front.reverse ++ bytes.data.toList.drop i := by
  induction h : bytes.size - i generalizing i front with
  | zero =>
    have hend : bytes.data.toList.length ≤ i := Nat.le_of_sub_eq_zero h
    rw [ByteArray.toList.loop, if_neg (by omega), List.drop_of_length_le hend, List.append_nil]
  | succ left ih =>
    have hlt : i < bytes.data.toList.length := Nat.lt_of_sub_eq_succ h
    have hget : bytes.get! i = bytes.data.toList[i] := by
      change bytes.data[i]! = _
      rw [getElem!_pos bytes.data i hlt, Array.getElem_toList]
    rw [ByteArray.toList.loop, if_pos (by omega), ih (i + 1) _ (by omega), List.drop_eq_getElem_cons hlt, hget]
    simp

theorem ofText_ofList (chars : List Char) : ofText (String.ofList chars) = ofChars chars := by
  rw [ofText, ByteArray.toList, toList_loop, String.toUTF8_eq_toByteArray, String.toByteArray_ofList, List.utf8Encode]
  simp [ofChars]

theorem ofText_eq (s : String) : ofText s = ofChars s.toList := by
  rw [← ofText_ofList, String.ofList_toList]

@[simp] theorem ofChars_nil : ofChars [] = [] := rfl

@[simp] theorem ofChars_append (chars more : List Char) : ofChars (chars ++ more) = ofChars chars ++ ofChars more :=
  List.flatMap_append

theorem ofChars_cons (c : Char) (chars : List Char) : ofChars (c :: chars) = String.utf8EncodeChar c ++ ofChars chars :=
  rfl

/-- An ASCII character is encoded as one byte. -/
theorem encodeChar_ascii {c : Char} (h : c.toNat < 0x80) : String.utf8EncodeChar c = [ascii c] := by
  have hle : c.val.toNat ≤ 127 := Nat.le_of_lt_succ h
  simp only [String.utf8EncodeChar, if_pos hle]
  rfl

theorem ofChars_cons_ascii {c : Char} (h : c.toNat < 0x80) (chars : List Char) :
    ofChars (c :: chars) = ascii c :: ofChars chars := by
  rw [ofChars_cons, encodeChar_ascii h, List.singleton_append]

theorem toNat_ascii {c : Char} (h : c.toNat < 0x80) : (ascii c).toNat = c.toNat := by
  rw [ascii, Nat.toUInt8_eq, UInt8.toNat_ofNat', Nat.mod_eq_of_lt (by omega)]

@[simp] theorem ofText_append (s s' : String) : ofText (s ++ s') = ofText s ++ ofText s' := by
  rw [ofText_eq, ofText_eq, ofText_eq, String.toList_append, ofChars_append]

end Bytes

namespace Utf8

/-- A byte below `0x80` is a character. -/
private theorem first_ascii : ∀ n < 0x80, State.start.move (UInt8.ofNat n) = .character (Char.ofNat n) := by
  decide

/-- What the first of two, three or four bytes leaves to be read. -/
private theorem first_two : ∀ n < 32, 2 ≤ n →
    State.start.move (UInt8.ofNat (n + 192)) = .more (.inside 0 0x80 0xBF n) := by
  decide

private theorem first_three : ∀ n < 16, State.start.move (UInt8.ofNat (n + 224)) =
    .more (.inside 1 (if n = 0 then 0xA0 else 0x80) (if n = 13 then 0x9F else 0xBF) n) := by
  decide

private theorem first_four : ∀ n < 5, State.start.move (UInt8.ofNat (n + 240)) =
    .more (.inside 2 (if n = 0 then 0x90 else 0x80) (if n = 4 then 0x8F else 0xBF) n) := by
  decide

/-- A later byte adds six bits. -/
private theorem move_inside {owed value n : Nat} {low high : UInt8} (hn : n < 64) (hlow : low.toNat ≤ n + 128)
    (hhigh : n + 128 ≤ high.toNat) :
    (State.inside owed low high value).move (UInt8.ofNat (n + 128)) =
      match owed with
      | 0 => .character (Char.ofNat (value * 64 + n))
      | owed + 1 => .more (.inside owed 0x80 0xBF (value * 64 + n)) := by
  have hbyte : (UInt8.ofNat (n + 128)).toNat = n + 128 := by
    rw [UInt8.toNat_ofNat', Nat.mod_eq_of_lt (by omega)]
  have hbits : (UInt8.ofNat (n + 128)).toNat - 0x80 = n := by
    rw [hbyte, Nat.add_sub_cancel]
  have hfits : low ≤ UInt8.ofNat (n + 128) ∧ UInt8.ofNat (n + 128) ≤ high := by
    rw [UInt8.le_iff_toNat_le, UInt8.le_iff_toNat_le, hbyte]
    exact ⟨hlow, hhigh⟩
  cases owed with
  | zero => simp only [State.move, if_pos hfits, hbits]
  | succ owed => simp only [State.move, if_pos hfits, hbits]

private theorem decodeFrom_character {state : State} {b : UInt8} {c : Char} (h : state.move b = .character c)
    (rest : Bytes) : decodeFrom state (b :: rest) = (decodeFrom .start rest).map (c :: ·) := by
  rw [decodeFrom, h]

private theorem decodeFrom_more {state next : State} {b : UInt8} (h : state.move b = .more next) (rest : Bytes) :
    decodeFrom state (b :: rest) = decodeFrom next rest := by
  rw [decodeFrom, h]

/-- The encoding of a character is read as that character. -/
theorem decodeFrom_encodeChar (c : Char) (rest : Bytes) :
    decodeFrom .start (String.utf8EncodeChar c ++ rest) = (decodeFrom .start rest).map (c :: ·) := by
  have hvalid : c.val.toNat < 0xD800 ∨ 0xDFFF < c.val.toNat ∧ c.val.toNat < 0x110000 := c.valid
  have hc : Char.ofNat c.val.toNat = c := Char.ofNat_toNat c
  simp only [String.utf8EncodeChar]
  generalize c.val.toNat = v at hvalid hc
  subst hc
  split
  · exact decodeFrom_character (first_ascii v (by omega)) rest
  split
  · have hvalue : v / 64 % 32 * 64 + v % 64 = v := by omega
    rw [List.cons_append, decodeFrom_more (first_two (v / 64 % 32) (by omega) (by omega)),
      List.singleton_append, decodeFrom_character (move_inside (by omega) (by simp) (by simp; omega)), hvalue]
  split
  · have hvalue : (v / 4096 % 16 * 64 + v / 64 % 64) * 64 + v % 64 = v := by omega
    rw [List.cons_append, decodeFrom_more (first_three (v / 4096 % 16) (by omega)), List.cons_append,
      decodeFrom_more (move_inside (by omega) (by split <;> simp; omega) (by split <;> (simp; omega))),
      List.singleton_append, decodeFrom_character (move_inside (by omega) (by simp) (by simp; omega)), hvalue]
  · have hvalue : ((v / 262144 % 8 * 64 + v / 4096 % 64) * 64 + v / 64 % 64) * 64 + v % 64 = v := by omega
    rw [List.cons_append, decodeFrom_more (first_four (v / 262144 % 8) (by omega)), List.cons_append,
      decodeFrom_more (move_inside (by omega) (by split <;> simp; omega) (by split <;> (simp; omega))),
      List.cons_append, decodeFrom_more (move_inside (by omega) (by simp) (by simp; omega)),
      List.singleton_append, decodeFrom_character (move_inside (by omega) (by simp) (by simp; omega)), hvalue]

/-- The encoding of a text is read as that text. -/
theorem decodeFrom_ofChars (chars : List Char) : decodeFrom .start (Bytes.ofChars chars) = some chars := by
  induction chars with
  | nil => rfl
  | cons c chars ih => rw [Bytes.ofChars_cons, decodeFrom_encodeChar, ih, Option.map_some]

end Utf8

end DebRelease
