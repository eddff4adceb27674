import DebRelease.Text.Bytes

namespace DebRelease.Utf8

/-- Where a decoder stands between two bytes. -/
inductive State where
  | start
  /-- Inside a character: `owed + 1` more bytes, of which the next lies in `low` to `high`;
      `value` holds the bits read so far. -/
  | inside (owed : Nat) (low high : UInt8) (value : Nat)
  deriving DecidableEq, Repr

/-- What one byte does to a decoder. -/
inductive Move where
  | character (c : Char)
  | more (state : State)
  | refuse
  deriving DecidableEq, Repr

/-- The effect of a byte between characters. -/
def Move.first (b : UInt8) : Move :=
  if b < 0x80 then .character (Char.ofNat b.toNat)
  else if 0xC2 ≤ b ∧ b ≤ 0xDF then .more (.inside 0 0x80 0xBF (b.toNat - 0xC0))
  else if b = 0xE0 then .more (.inside 1 0xA0 0xBF 0)
  else if b = 0xED then .more (.inside 1 0x80 0x9F 0xD)
  else if 0xE1 ≤ b ∧ b ≤ 0xEF then .more (.inside 1 0x80 0xBF (b.toNat - 0xE0))
  else if b = 0xF0 then .more (.inside 2 0x90 0xBF 0)
  else if 0xF1 ≤ b ∧ b ≤ 0xF3 then .more (.inside 2 0x80 0xBF (b.toNat - 0xF0))
  else if b = 0xF4 then .more (.inside 2 0x80 0x8F 4)
  else .refuse

/-- The effect of a byte in any state. -/
def State.move : State → UInt8 → Move
  | .start, b => Move.first b
  | .inside owed low high value, b =>
    if low ≤ b ∧ b ≤ high then
      let value := value * 64 + (b.toNat - 0x80)
      match owed with
      | 0 => .character (Char.ofNat value)
      | owed + 1 => .more (.inside owed 0x80 0xBF value)
    else
      .refuse

/-- U+FFFD, which stands for what is not text. -/
def replacement : Char := '\uFFFD'

/-- The characters a decoder in the given state reads, with a replacement for each maximal invalid
    beginning of a character. -/
def lossyFrom : State → Bytes → List Char
  | .start, [] => []
  | .inside .., [] => [replacement]
  | .start, b :: rest =>
    match Move.first b with
    | .character c => c :: lossyFrom .start rest
    | .more state => lossyFrom state rest
    | .refuse => replacement :: lossyFrom .start rest
  | .inside owed low high value, b :: rest =>
    match (State.inside owed low high value).move b with
    | .character c => c :: lossyFrom .start rest
    | .more state => lossyFrom state rest
    | .refuse =>
      replacement ::
        match Move.first b with
        | .character c => c :: lossyFrom .start rest
        | .more state => lossyFrom state rest
        | .refuse => replacement :: lossyFrom .start rest

/-- The characters a decoder in the given state reads, if all of the bytes are text. -/
def decodeFrom : State → Bytes → Option (List Char)
  | .start, [] => some []
  | .inside .., [] => none
  | state, b :: rest =>
    match state.move b with
    | .character c => (decodeFrom .start rest).map (c :: ·)
    | .more state => decodeFrom state rest
    | .refuse => none

/-- The first character a decoder in the given state reads, if its bytes are whole. -/
def firstFrom : State → Bytes → Option Char
  | _, [] => none
  | state, b :: rest =>
    match state.move b with
    | .character c => some c
    | .more state => firstFrom state rest
    | .refuse => none

end DebRelease.Utf8

namespace DebRelease.Bytes

/-- The text of a byte string, U+FFFD standing for what is not UTF-8. -/
def lossy (bytes : Bytes) : String :=
  String.ofList (Utf8.lossyFrom .start bytes)

/-- The text of a byte string, if it is UTF-8. -/
def text? (bytes : Bytes) : Option String :=
  (Utf8.decodeFrom .start bytes).map String.ofList

/-- The position of the first byte that rules out UTF-8: the start of the first character that is
    not whole. -/
def invalidAt? (bytes : Bytes) : Option Nat :=
  go .start 0 0 bytes
where
  go : Utf8.State → Nat → Nat → Bytes → Option Nat
    | .start, _, _, [] => none
    | .inside .., begun, _, [] => some begun
    | state, begun, position, b :: rest =>
      match state.move b with
      | .character _ => go .start (position + 1) (position + 1) rest
      | .more state => go state begun (position + 1) rest
      | .refuse => some begun

end DebRelease.Bytes
