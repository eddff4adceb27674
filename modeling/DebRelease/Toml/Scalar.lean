import DebRelease.Toml.Text

namespace DebRelease.Toml

/-- Whether a byte is a digit. -/
def isDigit (b : UInt8) : Bool :=
  0x30 ≤ b && b ≤ 0x39

/-- A number from its digits in a base. -/
def ofDigits (base : Nat) (digits : Bytes) : Nat :=
  digits.foldl (fun n b => n * base + (hexValue? b).getD 0) 0

/-- The digits of a group in which single underscores may stand between digits. -/
def groupDigits? (isDigit : UInt8 → Bool) : Bytes → Option Bytes
  | [] => none
  | [b] => if isDigit b then some [b] else none
  | b :: c :: rest =>
    if !isDigit b then none
    else if c == 0x5F then (groupDigits? isDigit rest).map (b :: ·)
    else (groupDigits? isDigit (c :: rest)).map (b :: ·)

/-- The digits of a whole part: a group without a zero in front of other digits. -/
def wholeDigits? (bytes : Bytes) : Option Bytes := do
  let digits ← groupDigits? isDigit bytes
  if digits.head? = some 0x30 && digits != [0x30] then none else some digits

/-- The sign of a number, whether it is negative, and what follows it. -/
def signOf (bytes : Bytes) : Bool × Bytes :=
  match bytes with
  | 0x2B :: rest => (false, rest)
  | 0x2D :: rest => (true, rest)
  | _ => (false, bytes)

/-- A whole number in a base that its beginning names. -/
def based? (bytes : Bytes) : Option Nat :=
  let inBase (base : Nat) (rest : Bytes) : Option Nat :=
    (groupDigits? (fun b => (hexValue? b).any (· < base)) rest).map (ofDigits base)
  match bytes with
  | 0x30 :: 0x78 :: rest => inBase 16 rest
  | 0x30 :: 0x6F :: rest => inBase 8 rest
  | 0x30 :: 0x62 :: rest => inBase 2 rest
  | _ => none

/-- A whole number. -/
def integer? (bytes : Bytes) : Option Int :=
  match based? bytes with
  | some n => some n
  | none => do
    let (negative, rest) := signOf bytes
    let digits ← wholeDigits? rest
    let n := ofDigits 10 digits
    some (if negative then -n else n)

/-- The exponent of a floating-point number, after its letter. -/
def exponent? (bytes : Bytes) : Option Int := do
  let (negative, rest) := signOf bytes
  let digits ← groupDigits? isDigit rest
  let n := ofDigits 10 digits
  some (if negative then -n else n)

/-- The floating-point number nearest to `digits * 10 ^ exponent`, unless it is too large. -/
def nearest (digits : Nat) (exponent : Int) : Option Float :=
  let size := (Nat.toDigits 10 digits).length + exponent
  if digits = 0 || size < -400 then some 0.0
  else if 400 < size then none
  else
    let x := Float.ofScientific digits (exponent < 0) exponent.natAbs
    if x.isInf then none else some x

/-- A floating-point number; nothing inside stands for one that is too large. -/
def float? (bytes : Bytes) : Option (Option Float) := do
  let (negative, rest) := signOf bytes
  let signed (x : Float) : Float := if negative then -x else x
  if rest == Bytes.ofText "inf" then return some (signed (1.0 / 0.0))
  if rest == Bytes.ofText "nan" then return some (signed (0.0 / 0.0))
  let isExponent (b : UInt8) : Bool := b == 0x65 || b == 0x45
  let mantissa := rest.takeWhile (! isExponent ·)
  let afterMantissa := rest.dropWhile (! isExponent ·)
  let exponent ← match afterMantissa with
    | [] => some 0
    | _ :: exponent => exponent? exponent
  let whole := mantissa.takeWhile (· != 0x2E)
  let fraction ← match mantissa.dropWhile (· != 0x2E) with
    | [] => if afterMantissa.isEmpty then none else some []
    | _ :: fraction => groupDigits? isDigit fraction
  let digits ← wholeDigits? whole
  let value := nearest (ofDigits 10 (digits ++ fraction)) (exponent - fraction.length)
  return value.map signed

/-- The number that exactly the given count of digits write. -/
def fixedDigits? (count : Nat) (bytes : Bytes) : Option Nat :=
  if bytes.length = count && bytes.all isDigit then some (ofDigits 10 bytes) else none

/-- The days of a month. -/
def daysIn (year month : Nat) : Nat :=
  if month = 2 then
    if year % 4 = 0 && (year % 100 != 0 || year % 400 = 0) then 29 else 28
  else if month = 4 || month = 6 || month = 9 || month = 11 then 30
  else 31

/-- Whether bytes are a date. -/
def isDate (bytes : Bytes) : Bool :=
  match Bytes.splitOn 0x2D bytes with
  | [year, month, day] =>
    match fixedDigits? 4 year, fixedDigits? 2 month, fixedDigits? 2 day with
    | some year, some month, some day =>
      1 ≤ month && month ≤ 12 && 1 ≤ day && day ≤ daysIn year month
    | _, _, _ => false
  | _ => false

/-- Whether bytes are hours and minutes. -/
def isHourMinute (hour minute : Bytes) : Bool :=
  (fixedDigits? 2 hour).any (· ≤ 23) && (fixedDigits? 2 minute).any (· ≤ 59)

/-- Whether bytes are seconds, possibly with a fraction. -/
def isSecond (bytes : Bytes) : Bool :=
  (fixedDigits? 2 (bytes.take 2)).any (· ≤ 60) &&
    match bytes.drop 2 with
    | [] => true
    | dot :: fraction => dot == 0x2E && !fraction.isEmpty && fraction.all isDigit

/-- Whether bytes are a time of day; the seconds may be left out. -/
def isTime (bytes : Bytes) : Bool :=
  match Bytes.splitOn 0x3A bytes with
  | [hour, minute] => isHourMinute hour minute
  | [hour, minute, second] => isHourMinute hour minute && isSecond second
  | _ => false

/-- Whether bytes are a time of day with the distance from universal time, if one is given. -/
def isZonedTime (bytes : Bytes) : Bool :=
  let isSign (b : UInt8) : Bool := b == 0x2B || b == 0x2D
  match bytes.getLast? with
  | none => false
  | some last =>
    if last == 0x5A || last == 0x7A then isTime bytes.dropLast
    else
      match bytes.dropWhile (! isSign ·) with
      | [] => isTime bytes
      | _ :: zone =>
        isTime (bytes.takeWhile (! isSign ·)) &&
          match Bytes.splitOn 0x3A zone with
          | [hour, minute] => isHourMinute hour minute
          | _ => false

/-- Whether bytes are a date, a time or both. -/
def isDatetime (bytes : Bytes) : Bool :=
  isTime bytes || isDate bytes ||
    match bytes.drop 10 with
    | delimiter :: time =>
      (delimiter == 0x54 || delimiter == 0x74 || delimiter == 0x20) && isDate (bytes.take 10) &&
        isZonedTime time
    | [] => false

/-- Whether a byte may stand in a word. -/
def isWordByte (b : UInt8) : Bool :=
  isBare b || b == 0x2B || b == 0x2E || b == 0x3A

/-- A word; a date and a time with a space between them are one. -/
def wordBytes : Reader Bytes := do
  let first ← Reader.takeWhile isWordByte
  match ← Reader.rest with
  | 0x20 :: next :: _ =>
    if isDate first && isDigit next then
      Reader.skip 1
      return first ++ 0x20 :: (← Reader.takeWhile isWordByte)
    else
      pure first
  | _ => pure first

/-- A value that is one word. -/
def word : Reader Value := do
  let (bytes, span) ← Reader.spanned wordBytes
  if bytes == Bytes.ofText "true" then pure (.boolean span true)
  else if bytes == Bytes.ofText "false" then pure (.boolean span false)
  else
    match integer? bytes with
    | some n => pure (.integer span n)
    | none =>
      match float? bytes with
      | some x => pure (.float span x)
      | none => if isDatetime bytes then pure (.datetime span) else failure

end DebRelease.Toml
