namespace ReplyCapture

/-- A 64-bit binary floating point number, told apart by its bits alone. -/
structure Binary64 where
  bits : UInt64
deriving DecidableEq, Repr

namespace Binary64

/-- What a pattern of bits stands for. -/
inductive Meaning
  /-- The number `significand * 2 ^ exponent`, negated where `negative`. -/
  | finite (negative : Bool) (significand : Nat) (exponent : Int)
  | infinite (negative : Bool)
  | notANumber
deriving DecidableEq, Repr

/-- The significand of the least normal number. -/
def hiddenBit : Nat := 4503599627370496

/-- The value of the topmost bit. -/
def signBit : Nat := 9223372036854775808

/-- The exponent of every subnormal number. -/
def leastExponent : Int := -1074

/-- The bits taken apart: sign, eleven bits of exponent, fifty-two of fraction. -/
def meaning (number : Binary64) : Meaning :=
  let word := number.bits.toNat
  let negative := decide (signBit ≤ word)
  let exponentField := word / hiddenBit % 2048
  let fraction := word % hiddenBit
  if exponentField = 2047 then
    if fraction = 0 then .infinite negative else .notANumber
  else if exponentField = 0 then .finite negative fraction leastExponent
  else .finite negative (hiddenBit + fraction) (leastExponent + (exponentField - 1 : Nat))

/-- The integer a number equals, if it is one. -/
def toInt? (number : Binary64) : Option Int :=
  match number.meaning with
  | .finite negative significand exponent =>
    let scaled := significand * Nat.pow 2 exponent.toNat
    let divisor := Nat.pow 2 (-exponent).toNat
    if scaled % divisor = 0 then
      let magnitude : Int := (scaled / divisor : Nat)
      some (if negative then -magnitude else magnitude)
    else none
  | .infinite _ => none
  | .notANumber => none

end Binary64

end ReplyCapture
