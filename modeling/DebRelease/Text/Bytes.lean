namespace DebRelease

/-- A byte string. -/
abbrev Bytes := List UInt8

namespace Bytes

/-- The UTF-8 encoding of a text. -/
def ofText (s : String) : Bytes :=
  s.toUTF8.toList

/-- The line feed. -/
def lineFeed : UInt8 := 10

/-- The carriage return. -/
def carriageReturn : UInt8 := 13

/-- The byte of an ASCII character. -/
def ascii (c : Char) : UInt8 :=
  c.toNat.toUInt8

/-- `a` sorts before `b` or equals it, comparing byte by byte, a proper beginning first. -/
def le : Bytes → Bytes → Bool
  | [], _ => true
  | _ :: _, [] => false
  | x :: xs, y :: ys => x < y || (x == y && le xs ys)

/-- The parts of a byte string between the occurrences of a separator; the empty string has one
    empty part. -/
def splitOn (separator : UInt8) : Bytes → List Bytes
  | [] => [[]]
  | b :: rest =>
    if b == separator then
      [] :: splitOn separator rest
    else
      match splitOn separator rest with
      | [] => [[b]]
      | part :: parts => (b :: part) :: parts

/-- Byte strings joined by a separator. -/
def joinWith (separator : UInt8) : List Bytes → Bytes
  | [] => []
  | [part] => part
  | part :: next :: parts => part ++ separator :: joinWith separator (next :: parts)

theorem splitOn_ne_nil (separator : UInt8) (bytes : Bytes) : splitOn separator bytes ≠ [] := by
  cases bytes with
  | nil => simp [splitOn]
  | cons b rest =>
    rw [splitOn]
    split
    · simp
    · split <;> simp

/-- Joining undoes splitting. -/
theorem joinWith_splitOn (separator : UInt8) (bytes : Bytes) :
    joinWith separator (splitOn separator bytes) = bytes := by
  induction bytes with
  | nil => rfl
  | cons b rest ih =>
    rw [splitOn]
    cases h : splitOn separator rest with
    | nil => exact absurd h (splitOn_ne_nil separator rest)
    | cons part parts =>
      rw [h] at ih
      split
      · rename_i heq
        simp only [joinWith, ih, List.nil_append, eq_of_beq heq]
      · cases parts with
        | nil => simpa [joinWith] using ih
        | cons next parts => simpa [joinWith] using ih

end Bytes

end DebRelease
