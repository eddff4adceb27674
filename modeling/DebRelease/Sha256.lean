import DebRelease.Text.Bytes

namespace DebRelease.Sha256

/-- The round constants: the first 32 bits of the fractional parts of the cube roots of the first
    64 primes. -/
def constants : List UInt32 :=
  [0x428A2F98, 0x71374491, 0xB5C0FBCF, 0xE9B5DBA5, 0x3956C25B, 0x59F111F1, 0x923F82A4, 0xAB1C5ED5,
    0xD807AA98, 0x12835B01, 0x243185BE, 0x550C7DC3, 0x72BE5D74, 0x80DEB1FE, 0x9BDC06A7, 0xC19BF174,
    0xE49B69C1, 0xEFBE4786, 0x0FC19DC6, 0x240CA1CC, 0x2DE92C6F, 0x4A7484AA, 0x5CB0A9DC, 0x76F988DA,
    0x983E5152, 0xA831C66D, 0xB00327C8, 0xBF597FC7, 0xC6E00BF3, 0xD5A79147, 0x06CA6351, 0x14292967,
    0x27B70A85, 0x2E1B2138, 0x4D2C6DFC, 0x53380D13, 0x650A7354, 0x766A0ABB, 0x81C2C92E, 0x92722C85,
    0xA2BFE8A1, 0xA81A664B, 0xC24B8B70, 0xC76C51A3, 0xD192E819, 0xD6990624, 0xF40E3585, 0x106AA070,
    0x19A4C116, 0x1E376C08, 0x2748774C, 0x34B0BCB5, 0x391C0CB3, 0x4ED8AA4A, 0x5B9CCA4F, 0x682E6FF3,
    0x748F82EE, 0x78A5636F, 0x84C87814, 0x8CC70208, 0x90BEFFFA, 0xA4506CEB, 0xBEF9A3F7, 0xC67178F2]

/-- The eight words that a block changes. -/
structure State where
  a : UInt32
  b : UInt32
  c : UInt32
  d : UInt32
  e : UInt32
  f : UInt32
  g : UInt32
  h : UInt32
  deriving DecidableEq, Repr

/-- The state before the first block: the first 32 bits of the fractional parts of the square roots
    of the first eight primes. -/
def initial : State :=
  ⟨0x6A09E667, 0xBB67AE85, 0x3C6EF372, 0xA54FF53A, 0x510E527F, 0x9B05688C, 0x1F83D9AB, 0x5BE0CD19⟩

/-- A word turned to the right. -/
def rotate (x : UInt32) (n : UInt32) : UInt32 :=
  (x >>> n) ||| (x <<< (32 - n))

/-- What follows a message of the given length to make whole blocks: a one bit, then zeros, then the length in
    bits. -/
def padding (length : Nat) : Bytes :=
  let zeros := (119 - length % 64) % 64
  let bits := 8 * length
  (0x80 : UInt8) :: List.replicate zeros 0 ++
    (List.range 8).map fun i => (bits >>> (8 * (7 - i))).toUInt8

/-- The message with its padding: whole blocks. -/
def pad (message : Bytes) : Bytes :=
  message ++ padding message.length

/-- The words of a block, four bytes each. -/
def words : Bytes → List UInt32
  | a :: b :: c :: d :: rest =>
    let word := (a.toUInt32 <<< 24) ||| (b.toUInt32 <<< 16) ||| (c.toUInt32 <<< 8) ||| d.toUInt32
    word :: words rest
  | _ => []

/-- The message schedule: each word after the sixteenth mixes four earlier ones. -/
def schedule (block : List UInt32) : Array UInt32 :=
  (List.range 48).foldl (fun w i =>
    let x := w.getD (i + 1) 0
    let y := w.getD (i + 14) 0
    let s0 := rotate x 7 ^^^ rotate x 18 ^^^ (x >>> 3)
    let s1 := rotate y 17 ^^^ rotate y 19 ^^^ (y >>> 10)
    w.push (w.getD i 0 + s0 + w.getD (i + 9) 0 + s1)) block.toArray

/-- One round with its constant and its word of the schedule. -/
def round (s : State) (step : UInt32 × UInt32) : State :=
  let s1 := rotate s.e 6 ^^^ rotate s.e 11 ^^^ rotate s.e 25
  let choice := (s.e &&& s.f) ^^^ (~~~s.e &&& s.g)
  let t1 := s.h + s1 + choice + step.1 + step.2
  let s0 := rotate s.a 2 ^^^ rotate s.a 13 ^^^ rotate s.a 22
  let majority := (s.a &&& s.b) ^^^ (s.a &&& s.c) ^^^ (s.b &&& s.c)
  ⟨t1 + s0 + majority, s.a, s.b, s.c, s.d + t1, s.e, s.f, s.g⟩

/-- The state after a block. -/
def compress (s : State) (block : Bytes) : State :=
  let r := (constants.zip (schedule (words block)).toList).foldl round s
  ⟨s.a + r.a, s.b + r.b, s.c + r.c, s.d + r.d, s.e + r.e, s.f + r.f, s.g + r.g, s.h + r.h⟩

/-- The state after the first `count` blocks of a padded message. -/
def digestBlocks : Nat → State → Bytes → State
  | 0, s, _ => s
  | count + 1, s, bytes => digestBlocks count (compress s (bytes.take 64)) (bytes.drop 64)

/-- The bytes of a word. -/
def wordBytes (x : UInt32) : Bytes :=
  [(x >>> 24).toUInt8, (x >>> 16).toUInt8, (x >>> 8).toUInt8, x.toUInt8]

/-- The bytes of a state. -/
def State.bytes (s : State) : Bytes :=
  [s.a, s.b, s.c, s.d, s.e, s.f, s.g, s.h].flatMap wordBytes

/-- The hash of a message. -/
def hash (message : Bytes) : Bytes :=
  let padded := pad message
  (digestBlocks (padded.length / 64) initial padded).bytes

/-- The hash of a message that arrives in parts: what is not yet a whole block waits for more. -/
structure Hasher where
  /-- The state after the whole blocks that have arrived. -/
  state : State
  pending : Bytes
  length : Nat
  pending_lt : pending.length < 64

namespace Hasher

/-- Nothing has arrived. -/
def start : Hasher :=
  ⟨initial, [], 0, by decide⟩

/-- The next part arrives. -/
def update (h : Hasher) (part : Bytes) : Hasher :=
  let waiting := h.pending ++ part
  let blocks := waiting.length / 64
  ⟨digestBlocks blocks h.state waiting, waiting.drop (64 * blocks), h.length + part.length, by
    rw [List.length_drop]
    omega⟩

/-- The hash of all that has arrived. -/
def finish (h : Hasher) : Bytes :=
  let last := h.pending ++ padding h.length
  (digestBlocks (last.length / 64) h.state last).bytes

end Hasher

end DebRelease.Sha256
