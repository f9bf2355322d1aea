import Mathlib.Data.Int.Cast.Lemmas
import Mathlib.Algebra.Order.Field.Rat
import ReplyCapture.Number.Binary64

namespace ReplyCapture

namespace Binary64

/-- The number that a meaning comes to, if it is one. Both zeros come to the same. -/
def Meaning.value? : Meaning → Option Rat
  | .finite negative significand exponent => some ((if negative then -1 else 1) * significand * 2 ^ exponent)
  | .infinite _ | .notANumber => none

/-- The number that the bits stand for, if they stand for one. -/
def value? (number : Binary64) : Option Rat :=
  number.meaning.value?

/-- A power of two is one of two whole powers of two over the other. -/
theorem two_zpow_mul_cast (exponent : Int) :
    (2 : Rat) ^ exponent * ((Nat.pow 2 (-exponent).toNat : Nat) : Rat) = ((Nat.pow 2 exponent.toNat : Nat) : Rat) := by
  obtain ⟨size, rfl | rfl⟩ := exponent.eq_nat_or_neg
  · simp
  · simp

/-- A finite number is whole where its scaled significand is so many times the power of two below the line. -/
theorem value?_finite_eq_intCast_iff {negative : Bool} {significand : Nat} {exponent whole : Int} :
    (Meaning.finite negative significand exponent).value? = some (whole : Rat) ↔
      (if negative then -1 else 1) * ((significand * Nat.pow 2 exponent.toNat : Nat) : Int) =
        whole * ((Nat.pow 2 (-exponent).toNat : Nat) : Int) := by
  have hpower := two_zpow_mul_cast exponent
  have hpositive : ((Nat.pow 2 (-exponent).toNat : Nat) : Rat) ≠ 0 := Nat.cast_ne_zero.mpr (Nat.pow_pos (by decide)).ne'
  -- Of the two powers, only what they make of `2 ^ exponent` matters from here on.
  generalize Nat.pow 2 (-exponent).toNat = divisor at hpower hpositive ⊢
  generalize Nat.pow 2 exponent.toNat = factor at hpower ⊢
  rw [Meaning.value?, Option.some.injEq, ← mul_left_inj' hpositive, mul_assoc, hpower, ← Int.cast_inj (α := Rat)]
  push_cast
  rw [mul_assoc]

/-- Dividing without a remainder gives the quotient, with the sign. -/
theorem signed_quotient_eq_some_iff {negative : Bool} {scaled divisor : Nat} {whole : Int} (hpositive : 0 < divisor) :
    (if scaled % divisor = 0 then
        some (if negative then -((scaled / divisor : Nat) : Int) else ((scaled / divisor : Nat) : Int))
      else none) = some whole ↔
      (if negative then -1 else 1) * (scaled : Int) = whole * (divisor : Int) := by
  have hnonzero : (divisor : Int) ≠ 0 := Int.natCast_ne_zero.mpr hpositive.ne'
  split
  · next hdivides =>
    obtain ⟨quotient, rfl⟩ := Nat.dvd_of_mod_eq_zero hdivides
    rw [Nat.mul_div_cancel_left _ hpositive, Option.some.injEq, ← mul_left_inj' hnonzero]
    cases negative <;> simp [mul_comm]
  · next hremainder =>
    constructor
    · intro hnever
      cases hnever
    · intro hwhole
      have hdivides : (divisor : Int) ∣ (scaled : Int) := by
        cases negative with
        | false => exact ⟨whole, by simpa [mul_comm] using hwhole⟩
        | true => exact ⟨-whole, by simpa [mul_comm, neg_eq_iff_eq_neg] using hwhole⟩
      exact absurd (Nat.mod_eq_zero_of_dvd (Int.natCast_dvd_natCast.mp hdivides)) hremainder

/-- The integer that the bits are found to stand for is the number that they stand for. -/
theorem toInt?_eq_some_iff {number : Binary64} {whole : Int} :
    number.toInt? = some whole ↔ number.value? = some (whole : Rat) := by
  unfold toInt? value?
  cases number.meaning with
  | finite negative significand exponent =>
    rw [value?_finite_eq_intCast_iff]
    exact signed_quotient_eq_some_iff (Nat.pow_pos (by decide))
  | infinite negative => exact ⟨nofun, nofun⟩
  | notANumber => exact ⟨nofun, nofun⟩

/-- Sign, exponent and fraction put together. -/
def ofParts (negative : Bool) (exponentField fraction : Nat) : Binary64 :=
  ⟨UInt64.ofNat ((if negative then signBit else 0) + exponentField * hiddenBit + fraction)⟩

/-- What is put together as a normal number is taken apart as one. -/
theorem meaning_ofParts {negative : Bool} {exponentField fraction : Nat} (hnormal : 0 < exponentField)
    (hfinite : exponentField < 2047) (hfraction : fraction < hiddenBit) :
    (ofParts negative exponentField fraction).meaning =
      .finite negative (hiddenBit + fraction) (leastExponent + (exponentField - 1 : Nat)) := by
  rw [hiddenBit] at hfraction
  -- Each part is a quotient or a remainder of the word by a constant, so the constants are unfolded for `omega`.
  have hword : (ofParts negative exponentField fraction).bits.toNat =
      (if negative then signBit else 0) + exponentField * hiddenBit + fraction := by
    rw [ofParts, UInt64.toNat_ofNat', Nat.mod_eq_of_lt]
    rw [hiddenBit, signBit]
    split <;> omega
  have hsign : decide (signBit ≤ (if negative then signBit else 0) + exponentField * hiddenBit + fraction) = negative := by
    rw [hiddenBit, signBit]
    cases negative <;> simp <;> omega
  have hexponent : ((if negative then signBit else 0) + exponentField * hiddenBit + fraction) / hiddenBit % 2048 =
      exponentField := by
    rw [hiddenBit, signBit]
    split <;> omega
  have hrest : ((if negative then signBit else 0) + exponentField * hiddenBit + fraction) % hiddenBit = fraction := by
    rw [hiddenBit, signBit]
    split <;> omega
  rw [meaning, hword]
  simp only [hsign, hexponent, hrest, if_neg hfinite.ne, if_neg hnormal.ne']

/-- A magnitude of 53 bits or less is shifted until its highest bit is the hidden one. -/
theorem exists_shift {magnitude : Nat} (hnonzero : magnitude ≠ 0) (hsize : magnitude < 2 ^ 53) :
    ∃ shift ≤ 52, hiddenBit ≤ magnitude * 2 ^ shift ∧ magnitude * 2 ^ shift < 2 * hiddenBit := by
  have hbits : magnitude.log2 < 53 := (Nat.log2_lt hnonzero).mpr hsize
  obtain ⟨shift, hshift⟩ := Nat.exists_eq_add_of_le (Nat.le_of_lt_succ hbits)
  refine ⟨shift, by omega, ?_, ?_⟩
  · calc hiddenBit = 2 ^ magnitude.log2 * 2 ^ shift := by rw [← pow_add, ← hshift]; rfl
      _ ≤ magnitude * 2 ^ shift := Nat.mul_le_mul_right _ (Nat.log2_self_le hnonzero)
  · calc magnitude * 2 ^ shift < 2 ^ (magnitude.log2 + 1) * 2 ^ shift :=
          Nat.mul_lt_mul_of_pos_right Nat.lt_log2_self (Nat.pow_pos (by decide))
      _ = 2 * hiddenBit := by rw [pow_succ', mul_assoc, ← pow_add, ← hshift]; rfl

/-- A magnitude shifted so far is stored without loss, with either sign. -/
theorem value?_ofParts_shifted (negative : Bool) {magnitude shift : Nat} (hshift : shift ≤ 52)
    (hleast : hiddenBit ≤ magnitude * 2 ^ shift) (hgreatest : magnitude * 2 ^ shift < 2 * hiddenBit) :
    (ofParts negative (1075 - shift) (magnitude * 2 ^ shift - hiddenBit)).value? =
      some (((if negative then -1 else 1) * (magnitude : Int) : Int) : Rat) := by
  have hmeaning : (ofParts negative (1075 - shift) (magnitude * 2 ^ shift - hiddenBit)).meaning =
      .finite negative (magnitude * 2 ^ shift) (-(shift : Int)) := by
    rw [meaning_ofParts (by omega) (by omega) (by omega), Nat.add_sub_cancel' hleast, leastExponent]
    congr 1
    omega
  have hup : (-(shift : Int)).toNat = 0 := by omega
  have hdown : (-(-(shift : Int))).toNat = shift := by omega
  rw [value?, hmeaning, value?_finite_eq_intCast_iff, hup, hdown]
  simp only [Nat.pow_eq, pow_zero, mul_one, Nat.cast_mul, mul_assoc]

/-- Each integer of 53 bits or less is stored as a double without loss. -/
theorem exists_value?_eq_intCast {whole : Int} (hsize : whole.natAbs < 2 ^ 53) :
    ∃ number : Binary64, number.value? = some (whole : Rat) := by
  obtain rfl | hnonzero := eq_or_ne whole 0
  · have hzero : (⟨0⟩ : Binary64).meaning = .finite false 0 leastExponent := rfl
    exact ⟨⟨0⟩, by simp [value?, hzero, Meaning.value?]⟩
  · obtain ⟨shift, hshift, hleast, hgreatest⟩ := exists_shift (Int.natAbs_ne_zero.mpr hnonzero) hsize
    have hvalue := value?_ofParts_shifted (decide (whole < 0)) hshift hleast hgreatest
    have hsigned : (if decide (whole < 0) then -1 else 1) * (whole.natAbs : Int) = whole := by
      simp only [decide_eq_true_eq]
      split <;> omega
    rw [hsigned] at hvalue
    exact ⟨_, hvalue⟩

end Binary64

end ReplyCapture
