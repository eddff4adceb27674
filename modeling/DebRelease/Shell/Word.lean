import DebRelease.Text.Bytes

namespace DebRelease.Shell

/-- A sign of a pattern. -/
inductive Sign where
  | exactly (b : UInt8)
  | any
  /-- Any number of bytes. -/
  | many
  deriving DecidableEq, Repr

/-- Whether a pattern matches a whole byte string. -/
def fits : List Sign → Bytes → Bool
  | [], value => value.isEmpty
  | .exactly c :: signs, b :: rest => c == b && fits signs rest
  | .any :: signs, _ :: rest => fits signs rest
  | .many :: signs, [] => fits signs []
  | .many :: signs, b :: rest => fits signs (b :: rest) || fits (.many :: signs) rest
  | _ :: _, [] => false
termination_by signs value => signs.length + value.length

/-- The signs of a byte in a pattern; a quoted byte stands for itself. -/
def Sign.ofByte (isQuoted : Bool) (b : UInt8) : Sign :=
  if isQuoted then .exactly b
  else if b == Bytes.ascii '*' then .many
  else if b == Bytes.ascii '?' then .any
  else .exactly b

/-- The lengths up to a bound, the least first or the greatest first. -/
def lengthsUpTo (bound : Nat) (greatestFirst : Bool) : List Nat :=
  if greatestFirst then (List.range (bound + 1)).reverse else List.range (bound + 1)

/-- A byte string without its shortest or longest beginning that a pattern matches, if one does. -/
def cutBeginning (longest : Bool) (signs : List Sign) (value : Bytes) : Bytes :=
  match (lengthsUpTo value.length longest).find? fun n => fits signs (value.take n) with
  | some n => value.drop n
  | none => value

/-- A byte string without its shortest or longest end that a pattern matches, if one does. -/
def cutEnd (longest : Bool) (signs : List Sign) (value : Bytes) : Bytes :=
  match (lengthsUpTo value.length (! longest)).find? fun n => fits signs (value.drop n) with
  | some n => value.take n
  | none => value

/-- The empty pattern cuts nothing. -/
theorem cutBeginning_nil (value : Bytes) : cutBeginning false [] value = value := by
  have : (lengthsUpTo value.length false).find? (fun n => fits [] (value.take n)) = some 0 := by
    rw [lengthsUpTo, if_neg Bool.false_ne_true, List.range_succ_eq_map]
    simp [fits]
  simp [cutBeginning, this]

/-- What becomes of the value of a parameter before it is used. -/
inductive Change where
  | none
  | length
  /-- Its shortest or longest beginning that the operand matches is cut off. -/
  | cutBeginning (longest : Bool)
  /-- Its shortest or longest end that the operand matches is cut off. -/
  | cutEnd (longest : Bool)
  /-- The operand stands for it where it is missing, or also where it is empty. -/
  | otherwise (emptyToo : Bool)
  /-- The operand becomes the value where that is missing, or also where it is empty. -/
  | assigned (emptyToo : Bool)
  /-- The operand stands for it where it is there, or only where it is not empty. -/
  | instead (emptyToo : Bool)
  deriving DecidableEq, Repr

/-- What a fragment of a word stands for. The bytes inside an expansion are read when its value is
    needed. -/
inductive Meaning where
  | text (bytes : Bytes)
  | parameter (name : Bytes) (change : Change) (operand : Bytes)
  | arithmetic (expression : Bytes)
  /-- What a script prints. -/
  | output (script : Bytes)
  deriving DecidableEq, Repr

/-- A fragment of a word. -/
structure Fragment where
  isQuoted : Bool
  meaning : Meaning
  deriving DecidableEq, Repr

/-- A word of a script. -/
abbrev Word := List Fragment

namespace Word

/-- The bytes of a word if nothing in it is quoted or expanded. -/
def plain? : Word → Option Bytes
  | [] => some []
  | ⟨false, .text bytes⟩ :: rest => (plain? rest).map (bytes ++ ·)
  | _ :: _ => none

/-- Whether a script inside a word runs when its value is needed. -/
def runsScript (w : Word) : Bool :=
  w.any fun f => match f.meaning with
    | .output _ => true
    | _ => false

end Word

/-- The space. -/
def space : UInt8 := Bytes.ascii ' '

/-- Whether a byte is a digit. -/
def isDigit (b : UInt8) : Bool :=
  Bytes.ascii '0' ≤ b && b ≤ Bytes.ascii '9'

/-- Whether a byte can begin a name. -/
def beginsName (b : UInt8) : Bool :=
  (Bytes.ascii 'a' ≤ b && b ≤ Bytes.ascii 'z') || (Bytes.ascii 'A' ≤ b && b ≤ Bytes.ascii 'Z') ||
    b == Bytes.ascii '_'

/-- Whether a byte can stand in a name. -/
def inName (b : UInt8) : Bool :=
  beginsName b || isDigit b

/-- The number a run of digits writes. -/
def numberOf (digits : Bytes) : Nat :=
  digits.foldl (fun n d => n * 10 + (d.toNat - 48)) 0

end DebRelease.Shell
