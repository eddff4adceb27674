import DebRelease.Shell.Expansion

namespace DebRelease.Shell.Print

/-- What a backslash and the bytes after it stand for. -/
inductive Escape where
  | byte (b : UInt8)
  | stop
  | backslash
  deriving DecidableEq, Repr

/-- Whether a byte is an octal digit. -/
def isOctal (b : UInt8) : Bool :=
  Bytes.ascii '0' ≤ b && b ≤ Bytes.ascii '7'

/-- The byte that octal digits write. -/
def ofOctal (digits : Bytes) : UInt8 :=
  (digits.foldl (fun (n : Nat) d => n * 8 + (d.toNat - 48)) 0).toUInt8

/-- The escapes of one letter. -/
def ofLetter? (b : UInt8) : Option UInt8 :=
  match "abfnrtv\\".toList.findIdx? (Bytes.ascii · == b) with
  | some i => [7, 8, 12, 10, 13, 9, 11, 0x5C][i]?
  | none => none

/-- Reads what follows a backslash and returns the bytes after it. Up to three octal digits give a
    byte; in an argument a further zero may stand before them. -/
def escape (inArgument : Bool) : Bytes → Escape × Bytes
  | [] => (.backslash, [])
  | b :: rest =>
    if inArgument && b == Bytes.ascii 'c' then (.stop, [])
    else if isOctal b then
      let octal := if inArgument && b == Bytes.ascii '0' then rest else b :: rest
      let digits := (octal.take 3).takeWhile isOctal
      (.byte (ofOctal digits), octal.drop digits.length)
    else
      match ofLetter? b with
      | some c => (.byte c, rest)
      | none => (.backslash, b :: rest)

/-- An argument with its escapes replaced, and whether it ends all output. -/
def unescape : Nat → Bytes → Bytes × Bool
  | fuel + 1, b :: rest =>
    if b == Bytes.ascii '\\' then
      match escape true rest with
      | (.stop, _) => ([], true)
      | (.byte c, left) =>
        let (out, stopped) := unescape fuel left
        (c :: out, stopped)
      | (.backslash, left) =>
        let (out, stopped) := unescape fuel left
        (b :: out, stopped)
    else
      let (out, stopped) := unescape fuel rest
      (b :: out, stopped)
  | _, _ => ([], false)

/-- What arguments print: separated by spaces, escapes replaced, and a line feed at the end unless
    an escape or a first argument `-n` forbids it. -/
def arguments (args : List Bytes) : Bytes :=
  let isOpen := args.head? == some (Bytes.ofText "-n")
  let joined := Bytes.joinWith space (if isOpen then args.tail else args)
  let (out, stopped) := unescape (joined.length + 1) joined
  if stopped || isOpen then out else out ++ [Bytes.lineFeed]

/-- How an argument of a format is placed. -/
structure Placement where
  /-- Whether blanks come after it and not before it. -/
  isLeft : Bool
  isZeroFilled : Bool
  width : Nat
  limit : Option Nat

namespace Placement

/-- The placement that a conversion begins with, and the bytes after it. -/
def read (format : Bytes) : Placement × Bytes :=
  let isFlag (b : UInt8) := "-0+ #".toList.any (Bytes.ascii · == b)
  let flags := format.takeWhile isFlag
  let width := (format.drop flags.length).takeWhile isDigit
  let rest := format.drop (flags.length + width.length)
  let digits := rest.tail.takeWhile isDigit
  let isLimited := rest.head? == some (Bytes.ascii '.')
  let placement : Placement :=
    { isLeft := flags.contains (Bytes.ascii '-')
      isZeroFilled := flags.contains (Bytes.ascii '0')
      width := numberOf width
      limit := if isLimited then some (numberOf digits) else none }
  (placement, if isLimited then rest.drop (digits.length + 1) else rest)

/-- The bytes at their place. -/
def place (p : Placement) (bytes : Bytes) : Bytes :=
  let room := List.replicate (p.width - bytes.length) space
  if p.isLeft then bytes ++ room else room ++ bytes

/-- A text at its place. -/
def text (p : Placement) (bytes : Bytes) : Bytes :=
  p.place (match p.limit with
    | some limit => bytes.take limit
    | none => bytes)

/-- A number at its place, written to a base. -/
def number (p : Placement) (base : Nat) (n : Int) : Bytes :=
  let sign := if n < 0 then [Bytes.ascii '-'] else []
  let digits := (Nat.toDigits base n.natAbs).map Bytes.ascii
  let zeros :=
    if p.isZeroFilled && !p.isLeft then p.width - sign.length - digits.length else 0
  p.place (sign ++ List.replicate zeros (Bytes.ascii '0') ++ digits)

end Placement

/-- An argument at its place, as the letter of a conversion shows it. -/
def converted (letter : UInt8) (p : Placement) (argument : Bytes) : Bytes :=
  let n := Arithmetic.value argument
  match (Char.ofNat letter.toNat) with
  | 'b' => p.text (unescape (argument.length + 1) argument).1
  | 'c' => p.text (argument.take 1)
  | 'd' | 'i' | 'u' => p.number 10 n
  | 'o' => p.number 8 n
  | 'x' => p.number 16 n
  | 'X' => (p.number 16 n).map fun b => if b ≥ 97 then b - 32 else b
  | _ => p.text argument

/-- One pass over a format. Returns what it prints and the arguments it leaves. -/
def pass : Nat → Bytes → List Bytes → Bytes × List Bytes
  | fuel + 1, b :: rest, args =>
    if b == Bytes.ascii '\\' then
      match escape false rest with
      | (.byte c, left) =>
        let (out, args) := pass fuel left args
        (c :: out, args)
      | (_, left) =>
        let (out, args) := pass fuel left args
        (b :: out, args)
    else if b == Bytes.ascii '%' then
      match Placement.read rest with
      | (_, []) => ([b], args)
      | (placement, c :: left) =>
        if c == Bytes.ascii '%' then
          let (out, args) := pass fuel left args
          (c :: out, args)
        else
          let (out, left) := pass fuel left args.tail
          (converted c placement (args.headD []) ++ out, left)
    else
      let (out, args) := pass fuel rest args
      (b :: out, args)
  | _, _, args => ([], args)

/-- What a format prints. It is used again while it consumes arguments and some are left. -/
def formatted : Nat → Bytes → List Bytes → Bytes
  | 0, _, _ => []
  | fuel + 1, format, args =>
    let (out, left) := pass (format.length + 1) format args
    if left.isEmpty || args.length ≤ left.length then out
    else out ++ formatted fuel format left

end DebRelease.Shell.Print
