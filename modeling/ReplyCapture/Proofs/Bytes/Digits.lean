import Mathlib.Algebra.Group.Nat.Defs
import Mathlib.Data.List.Basic
import ReplyCapture.Bytes.Hex

namespace ReplyCapture.Hex

/-- The digits, each at the place that is its number. -/
def alphabet : List Char :=
  ['0', '1', '2', '3', '4', '5', '6', '7', '8', '9', 'a', 'b', 'c', 'd', 'e', 'f']

/-- The number of a digit. -/
def digit? (char : Char) : Option Nat :=
  alphabet.idxOf? char

/-- A number with one more digit behind its own. -/
def extend? (number : Nat) (char : Char) : Option Nat :=
  (digit? char).map (16 * number + ·)

/-- The number that digits spell, the first of which counts most. -/
def number? (digits : List Char) : Option Nat :=
  digits.foldlM extend? 0

/-- Digits that spell a number: as many as it takes, or as the width asks for. -/
structure Spells (width : Nat) (digits : List Char) (number : Nat) : Prop where
  number : number? digits = some number
  enough : width ≤ digits.length
  sparing : width < digits.length → digits.head? ≠ some '0'

variable {char : Char} {digits others : List Char} {number start other value width : Nat}

theorem digit?_digitChar (hvalue : value < 16) : digit? (Nat.digitChar value) = some value := by
  revert value
  decide

theorem lt_of_digit? (hdigit : digit? char = some value) : value < 16 := by
  obtain ⟨hvalue, _⟩ := List.idxOf?_eq_some_iff.mp hdigit
  exact hvalue

/-- No two digits have the same number. -/
theorem digit?_inj {same : Char} (hdigit : digit? char = some value) (hsame : digit? same = some value) :
    char = same := by
  obtain ⟨_, hchar, _⟩ := List.idxOf?_eq_some_iff.mp hdigit
  obtain ⟨_, hother, _⟩ := List.idxOf?_eq_some_iff.mp hsame
  exact hchar.symm.trans hother

/-- Digits are read from the first on. -/
theorem foldlM_extend?_cons :
    (char :: digits).foldlM extend? start = some number ↔
      ∃ value, digit? char = some value ∧ digits.foldlM extend? (16 * start + value) = some number := by
  rw [List.foldlM_cons, extend?]
  cases digit? char <;> simp

theorem number?_nil : number? [] = some 0 := rfl

/-- A digit behind others stands for itself, and these for sixteen times as much as before. -/
theorem number?_append_singleton (hnumber : number? digits = some number) (hvalue : value < 16) :
    number? (digits ++ [Nat.digitChar value]) = some (16 * number + value) := by
  rw [number?] at hnumber
  rw [number?, List.foldlM_append, hnumber]
  simp [extend?, digit?_digitChar hvalue]

/-- A number is spelled by its digits. -/
theorem number?_toDigits (number : Nat) : number? (Nat.toDigits 16 number) = some number := by
  induction number using Nat.strongRecOn with
  | ind number ih =>
    rw [Nat.toDigits_eq_if (by decide)]
    split
    · next hsmall =>
      simpa using number?_append_singleton number?_nil hsmall
    · next hlarge =>
      rw [number?_append_singleton (ih _ (by omega)) (Nat.mod_lt number (by decide)), Nat.div_add_mod]

/-- Noughts in front of digits make no difference. -/
theorem number?_replicate_append (count : Nat) (digits : List Char) :
    number? (List.replicate count '0' ++ digits) = number? digits := by
  induction count with
  | zero => rfl
  | succ count ih =>
    rw [List.replicate_succ, List.cons_append]
    exact ih

/-- What digits behind a number make of it lies between that number and the next one, each with as many noughts behind
    it. -/
theorem foldlM_extend?_range (hread : digits.foldlM extend? start = some number) :
    start * 16 ^ digits.length ≤ number ∧ number < (start + 1) * 16 ^ digits.length := by
  induction digits generalizing start with
  | nil =>
    obtain rfl := Option.some.inj hread
    simp
  | cons char digits ih =>
    obtain ⟨value, hdigit, hread⟩ := foldlM_extend?_cons.mp hread
    have hvalue := lt_of_digit? hdigit
    obtain ⟨hlow, hhigh⟩ := ih hread
    rw [List.length_cons, Nat.pow_succ', ← Nat.mul_assoc, ← Nat.mul_assoc]
    constructor
    · exact Nat.le_trans (Nat.mul_le_mul_right _ (by omega)) hlow
    · exact Nat.lt_of_lt_of_le hhigh (Nat.mul_le_mul_right _ (by omega))

/-- As many digits spell the same number only if they are the same digits. -/
theorem foldlM_extend?_inj (hlength : digits.length = others.length) (hread : digits.foldlM extend? start = some number)
    (hother : others.foldlM extend? other = some number) : start = other ∧ digits = others := by
  induction digits generalizing start other others with
  | nil =>
    obtain rfl := List.eq_nil_of_length_eq_zero hlength.symm
    obtain rfl := Option.some.inj hread
    obtain rfl := Option.some.inj hother
    exact ⟨rfl, rfl⟩
  | cons char digits ih =>
    obtain ⟨same, others, rfl⟩ := List.exists_cons_of_length_eq_add_one hlength.symm
    obtain ⟨value, hdigit, hread⟩ := foldlM_extend?_cons.mp hread
    obtain ⟨second, hsecond, hother⟩ := foldlM_extend?_cons.mp hother
    obtain ⟨hsum, rfl⟩ := ih (Nat.succ.inj hlength) hread hother
    -- A digit is less than sixteen, so the sums are equal only part by part.
    have hvalue := lt_of_digit? hdigit
    have hbound := lt_of_digit? hsecond
    obtain rfl : value = second := by omega
    exact ⟨by omega, by rw [digit?_inj hdigit hsecond]⟩

theorem exists_digit?_of_mem (hread : digits.foldlM extend? start = some number) (hmem : char ∈ digits) :
    ∃ value, digit? char = some value := by
  induction digits generalizing start with
  | nil => cases hmem
  | cons first digits ih =>
    obtain ⟨value, hdigit, hread⟩ := foldlM_extend?_cons.mp hread
    cases hmem with
    | head => exact ⟨value, hdigit⟩
    | tail _ hmem => exact ih hread hmem

/-- A character that is no digit is not among digits that spell a number. -/
theorem notMem_of_number? (hnumber : number? digits = some number) (hchar : digit? char = none) : char ∉ digits := by
  intro hmem
  obtain ⟨value, hdigit⟩ := exists_digit?_of_mem hnumber hmem
  rw [hchar] at hdigit
  cases hdigit

namespace Spells

/-- Digits without a nought to spare are no more than others that spell the same. -/
theorem length_le (hspells : Spells width digits number) (hothers : Spells width others number) :
    digits.length ≤ others.length := by
  by_contra hmore
  have hmore := Nat.lt_of_not_le hmore
  have hfirst := hspells.sparing (Nat.lt_of_le_of_lt hothers.enough hmore)
  cases digits with
  | nil => exact absurd hmore (Nat.not_lt_zero _)
  | cons char rest =>
    obtain ⟨value, hdigit, hread⟩ := foldlM_extend?_cons.mp hspells.number
    have hvalue : value ≠ 0 := by
      rintro rfl
      exact hfirst (congrArg some (digit?_inj hdigit rfl))
    obtain ⟨hlow, _⟩ := foldlM_extend?_range hread
    obtain ⟨_, hhigh⟩ := foldlM_extend?_range hothers.number
    have hpower : 16 ^ others.length ≤ 16 ^ rest.length :=
      Nat.pow_le_pow_right (by decide) (Nat.le_of_lt_succ hmore)
    have hfactor : 16 ^ rest.length ≤ (16 * 0 + value) * 16 ^ rest.length := Nat.le_mul_of_pos_left _ (by omega)
    omega

/-- A number is spelled in one way only. -/
theorem unique (hspells : Spells width digits number) (hothers : Spells width others number) : digits = others := by
  have hlength := Nat.le_antisymm (hspells.length_le hothers) (hothers.length_le hspells)
  exact (foldlM_extend?_inj hlength hspells.number hothers.number).2

/-- Once a way to spell a number is known, it is the only one. -/
theorem iff_eq (hspells : Spells width digits number) : Spells width others number ↔ others = digits := by
  constructor
  · exact fun hothers => hothers.unique hspells
  · rintro rfl
    exact hspells

end Spells

/-- Only nought has a nought in front. -/
theorem head?_toDigits (hnumber : number ≠ 0) : (Nat.toDigits 16 number).head? ≠ some '0' := by
  induction number using Nat.strongRecOn with
  | ind number ih =>
    rw [Nat.toDigits_eq_if (by decide)]
    split
    · next hsmall =>
      intro hzero
      have hdigit := digit?_digitChar hsmall
      rw [Option.some.inj hzero] at hdigit
      exact hnumber (Option.some.inj hdigit).symm
    · next hlarge =>
      rw [List.head?_append_of_ne_nil _ Nat.toDigits_ne_nil]
      exact ih _ (by omega) (by omega)

/-- The place of a row is spelled with four digits or more. -/
theorem spells_offsetDigits (place : Nat) : Spells 4 (offsetDigits place) place where
  number := by rw [offsetDigits, number?_replicate_append, number?_toDigits]
  enough := by
    simp only [offsetDigits, List.length_append, List.length_replicate]
    omega
  sparing := by
    intro hlong
    simp only [offsetDigits, List.length_append, List.length_replicate] at hlong
    have hmany : 4 < (Nat.toDigits 16 place).length := by omega
    have hplace : place ≠ 0 := by
      rintro rfl
      exact absurd hmany (by decide)
    have hnone : 4 - (Nat.toDigits 16 place).length = 0 := by omega
    simp only [offsetDigits, hnone, List.replicate_zero, List.nil_append]
    exact head?_toDigits hplace

/-- The two digits of a byte spell it. -/
theorem number?_byteDigits (byte : UInt8) : number? (byteDigits byte) = some byte.toNat := by
  have hbyte := byte.toNat_lt
  have hhigh := number?_append_singleton number?_nil (Nat.mod_lt (byte.toNat / 16) (by decide : 0 < 16))
  have hboth := number?_append_singleton hhigh (Nat.mod_lt byte.toNat (by decide : 0 < 16))
  have hvalue : 16 * (16 * 0 + byte.toNat / 16 % 16) + byte.toNat % 16 = byte.toNat := by omega
  rwa [hvalue] at hboth

/-- A byte is spelled with two digits. -/
theorem spells_byteDigits (byte : UInt8) : Spells 2 (byteDigits byte) byte.toNat where
  number := number?_byteDigits byte
  enough := Nat.le_refl 2
  sparing := fun hlong => absurd hlong (Nat.lt_irrefl 2)

end ReplyCapture.Hex
