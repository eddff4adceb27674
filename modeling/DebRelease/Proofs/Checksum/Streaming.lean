import DebRelease.Sha256
import Mathlib.Data.List.Basic

namespace DebRelease.Sha256

variable {h : Hasher} {message : Bytes}

theorem digestBlocks_add (count more : Nat) (s : State) (bytes : Bytes) :
    digestBlocks (count + more) s bytes = digestBlocks more (digestBlocks count s bytes) (bytes.drop (64 * count)) := by
  induction count generalizing s bytes with
  | zero => simp [digestBlocks]
  | succ count ih =>
    rw [Nat.succ_add, digestBlocks, ih, digestBlocks, List.drop_drop]
    congr 2
    omega

/-- What comes after the blocks plays no part. -/
theorem digestBlocks_append {count : Nat} (s : State) {bytes : Bytes} (more : Bytes)
    (hlength : 64 * count ≤ bytes.length) : digestBlocks count s (bytes ++ more) = digestBlocks count s bytes := by
  induction count generalizing s bytes with
  | zero => rfl
  | succ count ih =>
    have hblock : 64 ≤ bytes.length := by omega
    have hrest : 64 * count ≤ (bytes.drop 64).length := by
      rw [List.length_drop]
      omega
    rw [digestBlocks, digestBlocks, List.take_append_of_le_length hblock,
      List.drop_append_of_le_length hblock, ih _ hrest]

namespace Hasher

/-- What has arrived at a hasher is a message. -/
structure Holds (h : Hasher) (message : Bytes) : Prop where
  state : h.state = digestBlocks (message.length / 64) initial message
  pending : h.pending = message.drop (64 * (message.length / 64))
  length : h.length = message.length

theorem holds_start : start.Holds [] :=
  ⟨rfl, rfl, rfl⟩

namespace Holds

/-- Going on from the blocks digested so far is digesting the whole message. -/
private theorem digest_append (hholds : h.Holds message) (more : Bytes) :
    digestBlocks ((h.pending ++ more).length / 64) h.state (h.pending ++ more) =
      digestBlocks ((message ++ more).length / 64) initial (message ++ more) := by
  have hwhole : 64 * (message.length / 64) ≤ message.length := by omega
  have hcount : (message ++ more).length / 64 = message.length / 64 + (h.pending ++ more).length / 64 := by
    rw [hholds.pending, List.length_append, List.length_append, List.length_drop]
    omega
  have hpending : h.pending ++ more = (message ++ more).drop (64 * (message.length / 64)) := by
    rw [hholds.pending, List.drop_append_of_le_length hwhole]
  rw [hcount, digestBlocks_add, digestBlocks_append initial more hwhole, ← hpending, ← hholds.state]

/-- One more part makes the message longer by it. -/
theorem update (hholds : h.Holds message) (part : Bytes) : (h.update part).Holds (message ++ part) where
  state := hholds.digest_append part
  pending := by
    have hwhole : 64 * (message.length / 64) ≤ message.length := by omega
    change (h.pending ++ part).drop (64 * ((h.pending ++ part).length / 64)) = _
    rw [hholds.pending, ← List.drop_append_of_le_length hwhole, List.drop_drop, List.length_drop]
    congr 1
    simp only [List.length_append]
    omega
  length := by
    change h.length + part.length = _
    rw [hholds.length, List.length_append]

theorem foldl (hholds : h.Holds message) (parts : List Bytes) :
    (parts.foldl Hasher.update h).Holds (message ++ parts.flatten) := by
  induction parts generalizing h message with
  | nil => simpa using hholds
  | cons part parts ih => simpa using ih (hholds.update part)

/-- What is returned at the end is the hash of the message. -/
theorem finish (hholds : h.Holds message) : h.finish = hash message := by
  rw [Hasher.finish, hash, pad, hholds.length, hholds.digest_append]

end Holds

/-- The hash of a message does not depend on the parts in which it arrives. -/
theorem finish_foldl (parts : List Bytes) : (parts.foldl update start).finish = hash parts.flatten :=
  (holds_start.foldl parts).finish

end Hasher

end DebRelease.Sha256
