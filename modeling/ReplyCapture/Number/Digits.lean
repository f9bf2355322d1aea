namespace ReplyCapture.Digits

/-- The number that a digit continues. -/
def extend (number : Nat) (digit : Char) : Nat :=
  number * 10 + (digit.toNat - '0'.toNat)

/-- The number that a digit continues, as long as it is below `2 ^ 64`. -/
def extendWord? (number : Nat) (digit : Char) : Option Nat :=
  if digit.isDigit ∧ extend number digit < UInt64.size then some (extend number digit) else none

/-- The number below `2 ^ 64` that decimal digits spell. -/
def toWord? (digits : List Char) : Option Nat :=
  if digits.isEmpty then none else digits.foldlM extendWord? 0

theorem le_foldl_extend (number : Nat) (digits : List Char) :
    number ≤ digits.foldl extend number := by
  induction digits generalizing number with
  | nil => exact Nat.le_refl number
  | cons digit digits ih =>
    have hextend : number ≤ extend number digit := by
      unfold extend
      omega
    exact Nat.le_trans hextend (ih (extend number digit))

/-- A number that is too great stays so, whatever digits follow. -/
theorem foldlM_extendWord? {number : Nat} {digits : List Char} (hnumber : number < UInt64.size)
    (hdigits : ∀ digit ∈ digits, digit.isDigit) :
    digits.foldlM extendWord? number =
      if digits.foldl extend number < UInt64.size then some (digits.foldl extend number) else none := by
  induction digits generalizing number with
  | nil => simp [hnumber]
  | cons digit digits ih =>
    have hdigit : digit.isDigit := hdigits digit List.mem_cons_self
    rw [List.foldlM_cons, List.foldl_cons]
    by_cases hextend : extend number digit < UInt64.size
    · have hstep : extendWord? number digit = some (extend number digit) := by
        simp [extendWord?, hdigit, hextend]
      rw [hstep]
      exact ih hextend fun other hmem => hdigits other (List.mem_cons_of_mem _ hmem)
    · have hstep : extendWord? number digit = none := by
        simp [extendWord?, hextend]
      have hle := le_foldl_extend (extend number digit) digits
      rw [hstep, if_neg (by omega)]
      rfl

end ReplyCapture.Digits
