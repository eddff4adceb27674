import DebRelease.Shell.Print

namespace DebRelease.Shell.Filter

/-- The lines of a byte string, each with its line feed. -/
def linesOf (content : Bytes) : List Bytes :=
  let lines := Bytes.splitOn Bytes.lineFeed content
  lines.dropLast.map (· ++ [Bytes.lineFeed]) ++ (lines.getLast?.toList.filter (! ·.isEmpty))

/-- The beginning or the end of a list. -/
def outermost (isEnd : Bool) (count : Nat) (xs : List α) : List α :=
  if isEnd then xs.drop (xs.length - count) else xs.take count

/-- The words of a byte string. -/
def wordsOf (content : Bytes) : List Bytes :=
  let blanked := content.map fun b => if partsFields b then space else b
  (Bytes.splitOn space blanked).filter (! ·.isEmpty)

/-- A number in a column of the given width. -/
def column (width n : Nat) : Bytes :=
  let digits := Bytes.ofText (toString n)
  List.replicate (width - digits.length) space ++ digits

/-- The bytes that a set names: escapes and ranges stand for the bytes they mean. -/
def setBytes : Nat → Bytes → Bytes
  | fuel + 1, b :: rest =>
    if b == Bytes.ascii '\\' then
      match Print.escape false rest with
      | (.byte c, left) => c :: setBytes fuel left
      | (_, left) => setBytes fuel left
    else
      match rest with
      | hyphen :: last :: left =>
        if hyphen == Bytes.ascii '-' then
          (List.range (last.toNat + 1 - b.toNat)).map (b + ·.toUInt8) ++ setBytes fuel left
        else b :: setBytes fuel rest
      | _ => b :: setBytes fuel rest
  | _, _ => []

/-- The bytes that a set names. -/
def namedBytes (bytes : Bytes) : List UInt8 :=
  setBytes bytes.length bytes

/-- A byte after replacement: its place in one set gives its place in another, whose last byte is
    repeated. -/
def replaced (source target : Bytes) (b : UInt8) : UInt8 :=
  match source.idxOf? b with
  | some i => (target[i]?).getD (target.getLastD b)
  | none => b

/-- The numbers from the first to the last by a step. -/
def numbers (first step last : Int) : List Int :=
  if step = 0 then []
  else (List.range ((last - first) / step + 1).toNat).map fun (i : Nat) => first + step * i

end DebRelease.Shell.Filter
