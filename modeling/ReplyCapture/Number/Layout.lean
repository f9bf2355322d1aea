import ReplyCapture.Number.Shortest

namespace ReplyCapture

/-- How a finite number is written in its shortest digits. -/
structure NumberLayout where
  tie : Decimal.Tie
  /-- The first-digit exponents written without an exponent part, both ends included; all of them
      where absent. -/
  positional : Option (Int × Int)
  /-- Whether a whole number written positionally still shows a zero fraction. -/
  showsFraction : Bool

namespace NumberLayout

/-- Digits with a point after the `whole`-th, filled up with zeros on either side of it. -/
def positionalText (layout : NumberLayout) (digits : List Char) (leading : Int) : List Char :=
  if leading < 0 then
    ['0', '.'] ++ List.replicate ((-leading).toNat - 1) '0' ++ digits
  else
    let whole := leading.toNat + 1
    let padded := digits ++ List.replicate (whole - digits.length) '0'
    let fraction := digits.drop whole
    padded.take whole ++
      if fraction.isEmpty then (if layout.showsFraction then ['.', '0'] else []) else '.' :: fraction

/-- One digit, a point and the others if there are any, and a signed exponent. -/
def scientificText (digits : List Char) (leading : Int) : List Char :=
  let fraction := digits.drop 1
  digits.take 1 ++ (if fraction.isEmpty then [] else '.' :: fraction) ++
    ['e', if leading < 0 then '-' else '+'] ++ Nat.toDigits 10 leading.natAbs

/-- The text of `significand * 2 ^ exponent`, without a sign. -/
def magnitude (layout : NumberLayout) (significand : Nat) (exponent : Int) : List Char :=
  if significand = 0 then layout.positionalText ['0'] 0
  else
    let decimal := Decimal.shortest layout.tie significand exponent
    let digits := Nat.toDigits 10 decimal.digits
    let isPositional := match layout.positional with
      | none => true
      | some (low, high) => low ≤ decimal.leading ∧ decimal.leading ≤ high
    if isPositional then layout.positionalText digits decimal.leading
    else scientificText digits decimal.leading

/-- The text of a finite number; a zero keeps its sign. -/
def finite (layout : NumberLayout) (negative : Bool) (significand : Nat) (exponent : Int) : String :=
  String.ofList ((if negative then ['-'] else []) ++ layout.magnitude significand exponent)

end NumberLayout

end ReplyCapture
