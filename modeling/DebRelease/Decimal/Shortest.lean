namespace DebRelease.Decimal

/-- A positive binary number `significand * 2 ^ exponent`, whose neighbour below is half as far
    away as the one above when `narrow`. -/
structure Binary where
  significand : Nat
  exponent : Int
  /-- Whether the gap below is half the gap above. -/
  narrow : Bool
  deriving Repr, DecidableEq

/-- A decimal `digits * 10 ^ exponent`. -/
structure Numeral where
  digits : Nat
  exponent : Int
  deriving Repr, DecidableEq

/-- A nonnegative fraction. -/
structure Fraction where
  num : Nat
  den : Nat

/-- `num * 2 ^ exponent`. -/
def Fraction.scale2 (num : Nat) (exponent : Int) : Fraction :=
  if 0 ≤ exponent then ⟨num * Nat.pow 2 exponent.toNat, 1⟩ else ⟨num, Nat.pow 2 (-exponent).toNat⟩

/-- `fraction / 10 ^ exponent`. -/
def Fraction.unscale10 (f : Fraction) (exponent : Int) : Fraction :=
  if 0 ≤ exponent then ⟨f.num, f.den * Nat.pow 10 exponent.toNat⟩
  else ⟨f.num * Nat.pow 10 (-exponent).toNat, f.den⟩

/-- The number of decimal digits of a positive number. -/
def digitCount (n : Nat) : Nat :=
  (Nat.toDigits 10 n).length

/-- The `x` with `10 ^ x ≤ fraction < 10 ^ (x + 1)`. -/
def Fraction.magnitude (f : Fraction) : Int :=
  if f.den ≤ f.num then (digitCount (f.num / f.den) : Int) - 1
  else
    let places := digitCount (f.den / f.num)
    if f.den ≤ f.num * Nat.pow 10 (places - 1) then -((places : Int) - 1) else -(places : Int)

/-- A decimal without trailing zeros among its digits. -/
def Numeral.trim (d : Numeral) : Numeral :=
  go (digitCount d.digits) d
where
  go : Nat → Numeral → Numeral
    | 0, d => d
    | fuel + 1, d =>
      if d.digits % 10 = 0 ∧ d.digits ≠ 0 then go fuel ⟨d.digits / 10, d.exponent + 1⟩ else d

/-- The decimal on the grid of step `10 ^ step` that reads back as `b` and lies nearest to it. -/
def onGrid? (b : Binary) (step : Int) : Option Numeral :=
  let value := (Fraction.scale2 (4 * b.significand) (b.exponent - 2)).unscale10 step
  let low := (Fraction.scale2 (4 * b.significand - if b.narrow then 1 else 2)
    (b.exponent - 2)).unscale10 step
  let high := (Fraction.scale2 (4 * b.significand + 2) (b.exponent - 2)).unscale10 step
  let closed := b.significand % 2 == 0
  let below := value.num / value.den
  let above := below + 1
  let belowFits := low.num < below * low.den || (closed && low.num == below * low.den)
  let aboveFits := above * high.den < high.num || (closed && above * high.den == high.num)
  let twice := 2 * (value.num % value.den)
  if belowFits && (!aboveFits || twice < value.den || (twice == value.den && below % 2 == 0)) then
    some ⟨below, step⟩
  else if aboveFits then
    some ⟨above, step⟩
  else
    none

/-- The shortest decimal that reads back as `b`. Seventeen digits are always enough. -/
def shortest (b : Binary) : Numeral :=
  let magnitude := (Fraction.scale2 b.significand b.exponent).magnitude
  let candidates := (List.range 17).filterMap fun (n : Nat) => onGrid? b (magnitude - n)
  (candidates.headD ⟨0, 0⟩).trim

/-- The sign and the magnitude of a floating-point number; zero has no magnitude. -/
def ofFloat (x : Float) : Bool × Option Binary :=
  let bits : Nat := x.toBits.toNat
  let negative := 0x8000000000000000 ≤ bits
  let biased : Nat := bits / 0x10000000000000 % 0x800
  let field : Nat := bits % 0x10000000000000
  if biased = 0 then
    (negative, if field = 0 then none else some ⟨field, -1074, false⟩)
  else
    (negative, some ⟨0x10000000000000 + field, (biased : Int) - 1075, field = 0 && 1 < biased⟩)

end DebRelease.Decimal
