import DebRelease.Decimal.Shortest
import DebRelease.Json.Value

namespace DebRelease.Json

/-- The digit of a number below sixteen. -/
private def hexDigit (n : Nat) : Char :=
  Nat.digitChar n

/-- The written form of one character of a text. -/
def escapeChar (c : Char) : List Char :=
  match c with
  | '"' => ['\\', '"']
  | '\\' => ['\\', '\\']
  | '\x08' => ['\\', 'b']
  | '\x0C' => ['\\', 'f']
  | '\n' => ['\\', 'n']
  | '\r' => ['\\', 'r']
  | '\t' => ['\\', 't']
  | c =>
    if c.toNat < 0x20 then
      ['\\', 'u', '0', '0', hexDigit (c.toNat / 16), hexDigit (c.toNat % 16)]
    else
      [c]

/-- The written form of a text, with its quotes. -/
def quote (s : String) : List Char :=
  '"' :: (s.toList.flatMap escapeChar ++ ['"'])

/-- The written form of a positive decimal. Magnitudes from `10 ^ -5` up to `10 ^ 16` are written
    positionally and with a fraction, all others with an exponent that has its sign. -/
def decimalText (d : Decimal.Numeral) : List Char :=
  let digits := Nat.toDigits 10 d.digits
  let magnitude : Int := d.exponent + digits.length - 1
  if -5 ≤ magnitude ∧ magnitude < 0 then
    '0' :: '.' :: List.replicate (-magnitude - 1).toNat '0' ++ digits
  else if 0 ≤ magnitude ∧ magnitude < 16 then
    let whole := (magnitude + 1).toNat
    if digits.length ≤ whole then
      digits ++ List.replicate (whole - digits.length) '0' ++ ['.', '0']
    else
      digits.take whole ++ '.' :: digits.drop whole
  else
    let sign := if magnitude < 0 then '-' else '+'
    digits.take 1 ++ (if digits.length ≤ 1 then [] else '.' :: digits.drop 1) ++
      'e' :: sign :: Nat.toDigits 10 magnitude.natAbs

/-- The written form of a number. A floating-point number has the fewest digits that read back. -/
def Number.text : Number → List Char
  | .integer n => (if n < 0 then ['-'] else []) ++ Nat.toDigits 10 n.natAbs
  | .double x =>
    let (negative, magnitude) := Decimal.ofFloat x
    (if negative then ['-'] else []) ++
      match magnitude with
      | none => ['0', '.', '0']
      | some b => decimalText (Decimal.shortest b)

/-- The start of a line at a level. -/
def newLine (level : Nat) : List Char :=
  '\n' :: List.replicate (2 * level) ' '

mutual

/-- The written form of a value whose first line begins at a level. -/
def Value.text (level : Nat) : Value → List Char
  | .null => "null".toList
  | .bool true => "true".toList
  | .bool false => "false".toList
  | .number n => n.text
  | .string s => quote s
  | .array [] => ['[', ']']
  | .array (item :: items) =>
    '[' :: newLine (level + 1) ++ item.text (level + 1) ++ itemsText (level + 1) items ++
      newLine level ++ [']']
  | .object [] => ['{', '}']
  | .object (member :: members) =>
    '{' :: newLine (level + 1) ++ memberText (level + 1) member ++
      membersText (level + 1) members ++ newLine level ++ ['}']

/-- The written form of the items of an array after the first. -/
def itemsText (level : Nat) : List Value → List Char
  | [] => []
  | item :: items => ',' :: newLine level ++ item.text level ++ itemsText level items

/-- The written form of a member. -/
def memberText (level : Nat) : String × Value → List Char
  | (key, value) => quote key ++ ':' :: ' ' :: value.text level

/-- The written form of the members of an object after the first. -/
def membersText (level : Nat) : List (String × Value) → List Char
  | [] => []
  | member :: members =>
    ',' :: newLine level ++ memberText level member ++ membersText level members

end

/-- The document with the given value. -/
def print (v : Value) : String :=
  String.ofList (v.text 0)

end DebRelease.Json
