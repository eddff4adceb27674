import DebRelease.Json.Value
import DebRelease.Text.Utf8

namespace DebRelease.Json

/-- What is wrong with a document. -/
inductive Problem where
  | endInArray
  | endInObject
  | endInText
  | endInValue
  | noColon
  | noCommaInArray
  | noCommaInObject
  | badWord
  | noValue
  | badEscape
  | badNumber
  | numberRange
  | badUnicode
  | controlCharacter
  | keyNotText
  | loneSurrogate
  | noSecondSurrogate
  | trailingComma
  | trailingCharacters
  | nesting
  deriving DecidableEq, Repr

/-- The text of a problem. -/
def Problem.text : Problem → String
  | .endInArray => "EOF while parsing a list"
  | .endInObject => "EOF while parsing an object"
  | .endInText => "EOF while parsing a string"
  | .endInValue => "EOF while parsing a value"
  | .noColon => "expected `:`"
  | .noCommaInArray => "expected `,` or `]`"
  | .noCommaInObject => "expected `,` or `\x7d`"
  | .badWord => "expected ident"
  | .noValue => "expected value"
  | .badEscape => "invalid escape"
  | .badNumber => "invalid number"
  | .numberRange => "number out of range"
  | .badUnicode => "invalid unicode code point"
  | .controlCharacter => "control character (\\u0000-\\u001F) found while parsing a string"
  | .keyNotText => "key must be a string"
  | .loneSurrogate => "lone leading surrogate in hex escape"
  | .noSecondSurrogate => "unexpected end of hex escape"
  | .trailingComma => "trailing comma"
  | .trailingCharacters => "trailing characters"
  | .nesting => "recursion limit exceeded"

/-- A problem and the number of bytes that follow the place where it shows. -/
structure Fault where
  problem : Problem
  /-- The number of bytes after the place. -/
  after : Nat
  deriving DecidableEq, Repr

/-- A problem that shows before `rest`. -/
def Fault.before (problem : Problem) (rest : Bytes) : Fault :=
  ⟨problem, rest.length⟩

/-- A problem that shows at the first byte of `rest`. -/
def Fault.at (problem : Problem) (rest : Bytes) : Fault :=
  ⟨problem, rest.length - 1⟩

/-- Whether a byte is blank. -/
def isBlank (b : UInt8) : Bool :=
  b == 0x20 || b == 0x0A || b == 0x09 || b == 0x0D

/-- The bytes after leading blanks. -/
def skipBlanks (rest : Bytes) : Bytes :=
  rest.dropWhile isBlank

/-- Whether a byte is a digit. -/
def isDigit (b : UInt8) : Bool :=
  0x30 ≤ b && b ≤ 0x39

/-- The value of a digit. -/
def digitValue (b : UInt8) : Nat :=
  b.toNat - 0x30

/-- The remainder of a word. -/
def word (value : Value) : Bytes → Bytes → Except Fault (Value × Bytes)
  | [], rest => .ok (value, rest)
  | _ :: _, [] => .error ⟨.endInValue, 0⟩
  | w :: ws, b :: rest =>
    if w == b then word value ws rest else .error (.before .badWord rest)

/-- The largest number that digits are gathered into. -/
def gatherLimit : Nat := 0xFFFFFFFFFFFFFFFF

/-- Gathers leading digits into a number as long as it stays within a limit: the number, how many
    digits it took, and the bytes after them. -/
def gather (limit : Nat) : Nat → Nat → Bytes → Nat × Nat × Bytes
  | value, count, [] => (value, count, [])
  | value, count, b :: rest =>
    if isDigit b && value * 10 + digitValue b ≤ limit then
      gather limit (value * 10 + digitValue b) (count + 1) rest
    else
      (value, count, b :: rest)

/-- Whether the next byte is a digit. -/
def digitNext (rest : Bytes) : Bool :=
  rest.head?.any isDigit

/-- Whether the next byte begins an exponent. -/
def exponentNext (rest : Bytes) : Bool :=
  rest.head?.any fun b => b == Bytes.ascii 'e' || b == Bytes.ascii 'E'

/-- Divides or multiplies by powers of ten, each at most `10 ^ 308`, until the exponent is used up.
    Nothing stands for a number that is too large. -/
def scale10 : Nat → Float → Int → Option Float
  | 0, x, _ => some x
  | fuel + 1, x, exponent =>
    if exponent.natAbs ≤ 308 then
      let power := Float.ofScientific 1 false exponent.natAbs
      if 0 ≤ exponent then
        let y := x * power
        if y.isInf then none else some y
      else
        some (x / power)
    else if x == 0.0 then some x
    else if 0 ≤ exponent then none
    else scale10 fuel (x / Float.ofScientific 1 false 308) (exponent + 308)

/-- The floating-point number `significand * 10 ^ exponent`, computed in floating point. Three
    divisions by `10 ^ 308` take every significand to zero. -/
def double (negative : Bool) (significand : Nat) (exponent : Int) (rest : Bytes) :
    Except Fault (Number × Bytes) :=
  match scale10 4 significand.toUInt64.toFloat exponent with
  | some x => .ok (.double (if negative then -x else x), rest)
  | none => .error (.before .numberRange rest)

/-- The least exponent. -/
def leastExponent : Int := -0x80000000

/-- The largest exponent. -/
def greatestExponent : Int := 0x7FFFFFFF

/-- An exponent and the end of a number; `rest` begins after the letter. -/
def exponentPart (negative : Bool) (significand : Nat) (exponent : Int) (rest : Bytes) :
    Except Fault (Number × Bytes) :=
  let (raised, rest) : Bool × Bytes := match rest with
    | b :: tail =>
      if b == Bytes.ascii '+' then (true, tail)
      else if b == Bytes.ascii '-' then (false, tail)
      else (true, rest)
    | [] => (true, [])
  match rest with
  | [] => .error ⟨.endInValue, 0⟩
  | b :: tail =>
    if !isDigit b then .error (.before .badNumber tail)
    else
      let (value, _, tail) := gather greatestExponent.toNat (digitValue b) 1 tail
      match tail with
      | next :: beyond =>
        if isDigit next then
          if significand ≠ 0 && raised then .error (.before .numberRange beyond)
          else .ok (.double (if negative then -0.0 else 0.0), beyond.dropWhile isDigit)
        else
          finish raised value tail
      | [] => finish raised value tail
where
  /-- The number, once its exponent is known. -/
  finish (raised : Bool) (value : Nat) (tail : Bytes) : Except Fault (Number × Bytes) :=
    let total := if raised then exponent + value else exponent - value
    double negative significand (max leastExponent (min greatestExponent total)) tail

/-- The end of a number whose digits are known: an exponent or nothing. -/
def afterDigits (negative : Bool) (significand : Nat) (exponent : Int) (rest : Bytes) :
    Except Fault (Number × Bytes) :=
  if exponentNext rest then exponentPart negative significand exponent rest.tail
  else double negative significand exponent rest

/-- A fraction and the end of a number; `rest` begins after the point. -/
def fractionPart (negative : Bool) (significand : Nat) (exponent : Int) (rest : Bytes) :
    Except Fault (Number × Bytes) :=
  let (value, count, tail) := gather gatherLimit significand 0 rest
  if digitNext tail then
    afterDigits negative value (exponent - count) (tail.dropWhile isDigit)
  else if count = 0 then
    match tail with
    | [] => .error ⟨.endInValue, 0⟩
    | _ => .error (.at .badNumber tail)
  else
    afterDigits negative value (exponent - count) tail

/-- The number with the given whole part, if nothing else belongs to it. -/
def whole (negative : Bool) (significand : Nat) : Number :=
  if !negative then .integer significand
  else if significand = 0 || 0x8000000000000000 < significand then
    .double (-significand.toUInt64.toFloat)
  else
    .integer (-significand)

/-- What follows the whole part of a number. -/
def afterWhole (negative : Bool) (significand : Nat) (rest : Bytes) :
    Except Fault (Number × Bytes) :=
  match rest with
  | b :: tail =>
    if b == Bytes.ascii '.' then fractionPart negative significand 0 tail
    else if exponentNext rest then exponentPart negative significand 0 tail
    else .ok (whole negative significand, rest)
  | [] => .ok (whole negative significand, rest)

/-- What follows a whole part of more digits than can be gathered. -/
def afterLongWhole (negative : Bool) (significand : Nat) (rest : Bytes) :
    Except Fault (Number × Bytes) :=
  let exponent : Int := (rest.takeWhile isDigit).length
  let rest := rest.dropWhile isDigit
  if rest.head? = some (Bytes.ascii '.') then fractionPart negative significand exponent rest.tail
  else afterDigits negative significand exponent rest

/-- A number; its sign has been read. -/
def number (negative : Bool) (rest : Bytes) : Except Fault (Number × Bytes) :=
  match rest with
  | [] => .error ⟨.endInValue, 0⟩
  | b :: tail =>
    if b == Bytes.ascii '0' then
      if digitNext tail then .error (.at .badNumber tail) else afterWhole negative 0 tail
    else if isDigit b then
      let (value, _, tail) := gather gatherLimit (digitValue b) 1 tail
      if digitNext tail then afterLongWhole negative value tail
      else afterWhole negative value tail
    else
      .error (.before .badNumber tail)

/-- The value of a hexadecimal digit. -/
def hexValue? (b : UInt8) : Option Nat :=
  if isDigit b then some (digitValue b)
  else if 0x61 ≤ b && b ≤ 0x66 then some (b.toNat - 0x61 + 10)
  else if 0x41 ≤ b && b ≤ 0x46 then some (b.toNat - 0x41 + 10)
  else none

/-- The number that four hexadecimal digits write. -/
def hexUnit : Bytes → Except Fault (Nat × Bytes)
  | a :: b :: c :: d :: rest =>
    match hexValue? a, hexValue? b, hexValue? c, hexValue? d with
    | some a, some b, some c, some d => .ok (((a * 16 + b) * 16 + c) * 16 + d, rest)
    | _, _, _, _ => .error (.before .badEscape rest)
  | _ => .error ⟨.endInText, 0⟩

/-- A byte that must follow the first half of a surrogate pair. -/
def expectAfterSurrogate (expected : UInt8) : Bytes → Except Fault Bytes
  | [] => .error ⟨.endInText, 0⟩
  | b :: rest => if b == expected then .ok rest else .error (.before .noSecondSurrogate rest)

/-- The character of a hexadecimal escape; a character beyond the first plane takes two. -/
def hexEscape (rest : Bytes) : Except Fault (Char × Bytes) := do
  let (unit, rest) ← hexUnit rest
  if 0xDC00 ≤ unit ∧ unit ≤ 0xDFFF then
    throw (.before .loneSurrogate rest)
  else if 0xD800 ≤ unit ∧ unit ≤ 0xDBFF then
    let rest ← expectAfterSurrogate (Bytes.ascii '\\') rest
    let rest ← expectAfterSurrogate (Bytes.ascii 'u') rest
    let (second, rest) ← hexUnit rest
    if second < 0xDC00 ∨ 0xDFFF < second then
      throw (.before .loneSurrogate rest)
    else
      pure (Char.ofNat ((unit - 0xD800) * 0x400 + (second - 0xDC00) + 0x10000), rest)
  else
    pure (Char.ofNat unit, rest)

/-- The character an escape stands for; `rest` begins after the backslash. -/
def escape : Bytes → Except Fault (Char × Bytes)
  | [] => .error ⟨.endInText, 0⟩
  | b :: rest =>
    match Char.ofNat b.toNat with
    | '"' => .ok ('"', rest)
    | '\\' => .ok ('\\', rest)
    | '/' => .ok ('/', rest)
    | 'b' => .ok ('\x08', rest)
    | 'f' => .ok ('\x0C', rest)
    | 'n' => .ok ('\n', rest)
    | 'r' => .ok ('\r', rest)
    | 't' => .ok ('\t', rest)
    | 'u' => hexEscape rest
    | _ => .error (.before .badEscape rest)

/-- Whether a byte stands for itself in a text. -/
def isPlain (b : UInt8) : Bool :=
  0x20 ≤ b && b != Bytes.ascii '"' && b != Bytes.ascii '\\'

/-- The characters of the `count` bytes before `rest`. -/
def plainText (bytes : Bytes) (rest : Bytes) : Except Fault (List Char) :=
  match Utf8.decodeFrom .start bytes with
  | some chars => .ok chars
  | none =>
    let begun := (Bytes.invalidAt? bytes).getD 0
    .error ⟨.badUnicode, bytes.length + rest.length - (begun + 1)⟩

/-- The characters of a text; `rest` begins after the opening quote. Each round but the last
    consumes an escape, so the number of bytes bounds the number of rounds. -/
def text : Nat → Bytes → Except Fault (List Char × Bytes)
  | 0, _ => .error ⟨.endInText, 0⟩
  | fuel + 1, rest =>
    let run := rest.takeWhile isPlain
    match rest.dropWhile isPlain with
    | [] => .error ⟨.endInText, 0⟩
    | b :: tail => do
      if b == Bytes.ascii '"' then
        let chars ← plainText run (b :: tail)
        pure (chars, tail)
      else if b == Bytes.ascii '\\' then
        let chars ← plainText run (b :: tail)
        let (c, tail) ← escape tail
        let (more, tail) ← text fuel tail
        pure (chars ++ c :: more, tail)
      else
        throw (.before .controlCharacter tail)

/-- A text; `rest` begins after the opening quote. -/
def string (rest : Bytes) : Except Fault (String × Bytes) :=
  (text (rest.length + 1) rest).map fun (chars, rest) => (String.ofList chars, rest)

/-- The items of an array after the first; `item` reads one. Each round consumes a comma, so the
    number of bytes bounds the number of rounds. -/
def items (item : Bytes → Except Fault (Value × Bytes)) :
    Nat → Bytes → Except Fault (List Value × Bytes)
  | 0, _ => .error ⟨.endInArray, 0⟩
  | fuel + 1, rest =>
    match skipBlanks rest with
    | [] => .error ⟨.endInArray, 0⟩
    | b :: tail => do
      if b == Bytes.ascii ']' then
        pure ([], tail)
      else if b == Bytes.ascii ',' then
        match skipBlanks tail with
        | [] => throw ⟨.endInValue, 0⟩
        | c :: more =>
          if c == Bytes.ascii ']' then throw (.at .trailingComma (c :: more))
          else
            let (first, rest) ← item (c :: more)
            let (others, rest) ← items item fuel rest
            pure (first :: others, rest)
      else
        throw (.at .noCommaInArray (b :: tail))

/-- An array; `rest` begins after the opening bracket. -/
def array (item : Bytes → Except Fault (Value × Bytes)) (rest : Bytes) :
    Except Fault (List Value × Bytes) :=
  match skipBlanks rest with
  | [] => .error ⟨.endInArray, 0⟩
  | b :: tail => do
    if b == Bytes.ascii ']' then
      pure ([], tail)
    else
      let (first, rest) ← item (b :: tail)
      let (others, rest) ← items item (rest.length + 1) rest
      pure (first :: others, rest)

/-- A member of an object; `rest` begins after the opening quote of the key. -/
def member (item : Bytes → Except Fault (Value × Bytes)) (rest : Bytes) :
    Except Fault ((String × Value) × Bytes) := do
  let (key, rest) ← string rest
  match skipBlanks rest with
  | [] => throw ⟨.endInObject, 0⟩
  | b :: tail =>
    if b == Bytes.ascii ':' then
      let (value, rest) ← item tail
      pure ((key, value), rest)
    else
      throw (.at .noColon (b :: tail))

/-- The members of an object after those in `known`; `item` reads a value. A repeated key takes
    the later value and keeps its first place. -/
def members (item : Bytes → Except Fault (Value × Bytes)) (known : Members) :
    Nat → Bytes → Except Fault (Members × Bytes)
  | 0, _ => .error ⟨.endInObject, 0⟩
  | fuel + 1, rest =>
    match skipBlanks rest with
    | [] => .error ⟨.endInObject, 0⟩
    | b :: tail => do
      if b == Bytes.ascii '\x7d' then
        pure (known, tail)
      else if b == Bytes.ascii ',' then
        match skipBlanks tail with
        | [] => throw ⟨.endInValue, 0⟩
        | c :: more =>
          if c == Bytes.ascii '"' then
            let ((key, value), rest) ← member item more
            members item (known.set key value) fuel rest
          else if c == Bytes.ascii '\x7d' then
            throw (.at .trailingComma (c :: more))
          else
            throw (.at .keyNotText (c :: more))
      else
        throw (.at .noCommaInObject (b :: tail))

/-- An object; `rest` begins after the opening brace. -/
def object (item : Bytes → Except Fault (Value × Bytes)) (rest : Bytes) :
    Except Fault (Members × Bytes) :=
  match skipBlanks rest with
  | [] => .error ⟨.endInObject, 0⟩
  | b :: tail => do
    if b == Bytes.ascii '\x7d' then
      pure ([], tail)
    else if b == Bytes.ascii '"' then
      let ((key, value), rest) ← member item tail
      members item [(key, value)] (rest.length + 1) rest
    else
      throw (.at .keyNotText (b :: tail))

/-- A value inside at most `depth` further arrays and objects. -/
def value : Nat → Bytes → Except Fault (Value × Bytes)
  | depth, rest =>
    match skipBlanks rest with
    | [] => .error ⟨.endInValue, 0⟩
    | b :: tail =>
      match Char.ofNat b.toNat, depth with
      | 'n', _ => word .null (Bytes.ofText "ull") tail
      | 't', _ => word (.bool true) (Bytes.ofText "rue") tail
      | 'f', _ => word (.bool false) (Bytes.ofText "alse") tail
      | '-', _ => (number true tail).map fun (n, rest) => (.number n, rest)
      | '"', _ => (string tail).map fun (s, rest) => (.string s, rest)
      | '[', 0 | '\x7b', 0 => .error (.at .nesting (b :: tail))
      | '[', depth + 1 => (array (value depth) tail).map fun (xs, rest) => (.array xs, rest)
      | '\x7b', depth + 1 => (object (value depth) tail).map fun (ms, rest) => (.object ms, rest)
      | _, _ =>
        if isDigit b then (number false (b :: tail)).map fun (n, rest) => (.number n, rest)
        else .error (.at .noValue (b :: tail))

/-- How many arrays and objects may stand inside one another. -/
def nestingLimit : Nat := 127

/-- The value of a document. -/
def document (bytes : Bytes) : Except Fault Value := do
  let (v, rest) ← value nestingLimit bytes
  match skipBlanks rest with
  | [] => pure v
  | rest => throw (.at .trailingCharacters rest)

/-- A problem with its line and its column, which counts bytes. -/
structure ParseError where
  problem : Problem
  /-- The line, from one. -/
  line : Nat
  /-- The number of bytes between the start of the line and the place. -/
  column : Nat
  deriving DecidableEq, Repr

/-- The message of an error. -/
def ParseError.message (e : ParseError) : String :=
  s!"{e.problem.text} at line {e.line} column {e.column}"

/-- The line and column of a fault. -/
def Fault.locate (bytes : Bytes) (f : Fault) : ParseError :=
  let before := bytes.take (bytes.length - f.after)
  let current := before.reverse.takeWhile (· != Bytes.lineFeed)
  ⟨f.problem, 1 + before.count Bytes.lineFeed, current.length⟩

/-- Reads a document. -/
def parse (bytes : Bytes) : Except ParseError Value :=
  (document bytes).mapError (Fault.locate bytes)

end DebRelease.Json
