import ReplyCapture.Number.Binary64

namespace ReplyCapture

/-- The positive decimal `digits * 10 ^ exponent`. -/
structure Decimal where
  digits : Nat
  exponent : Int
deriving DecidableEq, Repr

namespace Decimal

/-- Which of two equally near decimals is taken. -/
inductive Tie
  | up
  | even
deriving DecidableEq, Repr

/-- The number of decimal digits of a natural number. -/
def digitCount (value : Nat) : Nat :=
  (Nat.toDigits 10 value).length

/-- The exponent of the first significant digit of `numerator / denominator`: the `e` with
    `10 ^ e ≤ numerator / denominator < 10 ^ (e + 1)`. -/
def leadingExponent (numerator denominator : Nat) : Int :=
  if denominator ≤ numerator then
    (digitCount (numerator / denominator) : Int) - 1
  else
    -(digitCount ((denominator - 1) / numerator) : Int)

/-- A positive rational interval around a rational value, all over one denominator. -/
structure Interval where
  value : Nat
  low : Nat
  high : Nat
  denominator : Nat
  /-- Whether the two ends belong to it. -/
  closed : Bool

/-- The reals that round to `significand * 2 ^ exponent`. Below a power of two the numbers lie
    twice as close, so the lower half of its interval is half as wide. -/
def Interval.rounding (significand : Nat) (exponent : Int) : Interval :=
  let narrow := significand = Binary64.hiddenBit ∧ Binary64.leastExponent < exponent
  let scale := Nat.pow 2 (exponent - 2).toNat
  { value := 4 * significand * scale
    low := (4 * significand - if narrow then 1 else 2) * scale
    high := (4 * significand + 2) * scale
    denominator := Nat.pow 2 (2 - exponent).toNat
    closed := significand % 2 = 0 }

/-- Whether `numerator / denominator` of the interval's own denominator lies inside. -/
def Interval.holds (interval : Interval) (numerator scale : Nat) : Bool :=
  if interval.closed then
    interval.low * scale ≤ numerator ∧ numerator ≤ interval.high * scale
  else
    interval.low * scale < numerator ∧ numerator < interval.high * scale

/-- The better of the two neighbours of the value on the grid of multiples of `10 ^ exponent`
    among those inside the interval. -/
def Interval.onGrid (interval : Interval) (tie : Tie) (exponent : Int) : Option Decimal :=
  let unit := interval.denominator * Nat.pow 10 exponent.toNat
  let scale := Nat.pow 10 (-exponent).toNat
  let value := interval.value * scale
  let below := value / unit
  let lowIn := 0 < below && interval.holds (below * unit) scale
  let highIn := interval.holds ((below + 1) * unit) scale
  let belowGap := value - below * unit
  let aboveGap := (below + 1) * unit - value
  let takesBelow :=
    belowGap < aboveGap ||
      (belowGap == aboveGap && (match tie with | .up => false | .even => below % 2 == 0))
  if lowIn && highIn then some ⟨if takesBelow then below else below + 1, exponent⟩
  else if lowIn then some ⟨below, exponent⟩
  else if highIn then some ⟨below + 1, exponent⟩
  else none

/-- The first grid with a point inside the interval, from `exponent` down to `steps` finer ones. -/
def Interval.firstGrid (interval : Interval) (tie : Tie) : (steps : Nat) → (exponent : Int) → Decimal
  | 0, exponent =>
    ⟨interval.value * Nat.pow 10 (-exponent).toNat / (interval.denominator * Nat.pow 10 exponent.toNat), exponent⟩
  | steps + 1, exponent =>
    match interval.onGrid tie exponent with
    | some decimal => decimal
    | none => interval.firstGrid tie steps (exponent - 1)

/-- Drops trailing zeros, at most `bound` of them. -/
def stripWithin : (bound : Nat) → Decimal → Decimal
  | 0, decimal => decimal
  | bound + 1, decimal =>
    if decimal.digits % 10 = 0 then stripWithin bound ⟨decimal.digits / 10, decimal.exponent + 1⟩
    else decimal

/-- The decimal with the fewest digits among those that round to `significand * 2 ^ exponent`, and
    the nearest of these. Seventeen digits tell any two numbers apart. -/
def shortest (tie : Tie) (significand : Nat) (exponent : Int) : Decimal :=
  let interval := Interval.rounding significand exponent
  let leading := leadingExponent interval.value interval.denominator
  stripWithin 17 (interval.firstGrid tie 17 leading)

/-- The exponent of the first digit. -/
def leading (decimal : Decimal) : Int :=
  decimal.exponent + (digitCount decimal.digits - 1 : Nat)

end Decimal

end ReplyCapture
