import Mathlib.Algebra.Group.Nat.Defs
import ReplyCapture.Document.Decode
import ReplyCapture.Document.Encode

namespace ReplyCapture

namespace Digits

theorem foldl_extend_eq (digits : List Char) (number : Nat) :
    digits.foldl extend number = Nat.ofDigitChars 10 digits number := by
  have hextend : extend = fun number digit => 10 * number + (digit.toNat - '0'.toNat) := by
    funext number digit
    rw [extend, Nat.mul_comm]
  rw [Nat.ofDigitChars_eq_foldl, hextend]

theorem isDigit_of_mem {number : Nat} {digit : Char} (hmem : digit ∈ Nat.toDigits 10 number) : digit.isDigit :=
  Nat.isDigit_of_mem_toDigits (by decide) (by decide) hmem

/-- A number is read back from its own digits. -/
theorem toWord?_toDigits {number : Nat} (hnumber : number < UInt64.size) :
    toWord? (Nat.toDigits 10 number) = some number := by
  have hdigits : ∀ digit ∈ Nat.toDigits 10 number, digit.isDigit := fun digit hmem => isDigit_of_mem hmem
  have hsome : ¬ (Nat.toDigits 10 number).isEmpty := by
    rw [List.isEmpty_iff]
    exact Nat.toDigits_ne_nil
  rw [toWord?, if_neg hsome, foldlM_extendWord? (by decide) hdigits, foldl_extend_eq, Nat.ofDigitChars_ten_toDigits,
    if_pos hnumber]

/-- Digits behind a number multiply it by no more than their count says, so that a number has at least as many digits as
    its size asks for. -/
theorem lt_of_foldlM_extendWord? {start number : Nat} {digits : List Char}
    (hread : digits.foldlM extendWord? start = some number) : number < (start + 1) * 10 ^ digits.length := by
  induction digits generalizing start with
  | nil =>
    obtain rfl := Option.some.inj hread
    simp
  | cons digit digits ih =>
    rw [List.foldlM_cons] at hread
    obtain ⟨next, hnext, hread⟩ := Option.bind_eq_some_iff.mp hread
    rw [extendWord?] at hnext
    split at hnext
    · next hdigit =>
      obtain rfl := Option.some.inj hnext
      have hnine : digit.toNat ≤ '9'.toNat := by
        have hrange := Char.isDigit_iff_toNat.mp hdigit.1
        exact hrange.2
      have hextend : extend start digit + 1 ≤ (start + 1) * 10 := by
        rw [extend]
        have hzero : '0'.toNat = 48 := rfl
        have hlast : '9'.toNat = 57 := rfl
        omega
      calc number < (extend start digit + 1) * 10 ^ digits.length := ih hread
        _ ≤ (start + 1) * 10 * 10 ^ digits.length := Nat.mul_le_mul_right _ hextend
        _ = (start + 1) * 10 ^ (digit :: digits).length := by
          rw [List.length_cons, Nat.pow_succ', Nat.mul_assoc]
    · cases hnext

/-- No spelling of a number is shorter than its own digits. -/
theorem length_toDigits_le {digits : List Char} {number : Nat} (hread : toWord? digits = some number) :
    (Nat.toDigits 10 number).length ≤ digits.length := by
  rw [toWord?] at hread
  split at hread
  · cases hread
  · next hsome =>
    have hpositive : 0 < digits.length := by
      rw [List.isEmpty_iff_length_eq_zero] at hsome
      omega
    have hless := lt_of_foldlM_extendWord? hread
    rw [Nat.zero_add, Nat.one_mul] at hless
    exact (Nat.length_toDigits_le_iff (by decide) hpositive).mpr hless

end Digits

namespace Utf8

/-- A text takes at least one byte a character. -/
theorem length_toList_le (text : String) : text.toList.length ≤ (encode text).length := by
  rw [encode]
  induction text.toList with
  | nil => exact Nat.le_refl 0
  | cons char chars ih =>
    have hpositive := char.utf8Size_pos
    rw [List.flatMap_cons, List.length_append, List.length_cons, String.length_utf8EncodeChar]
    omega

/-- A text of digits takes one byte a character. -/
theorem length_encode_of_isDigit {text : String} (hdigits : ∀ char ∈ text.toList, char.isDigit) :
    (encode text).length = text.toList.length := by
  rw [encode]
  generalize text.toList = chars at hdigits
  induction chars with
  | nil => rfl
  | cons char chars ih =>
    have hrange := Char.isDigit_iff_toNat.mp (hdigits char List.mem_cons_self)
    have hone : char.utf8Size = 1 := by
      rw [Char.utf8Size_eq_one_iff]
      exact Nat.le_trans hrange.2 (by decide)
    have hrest := ih fun other hmem => hdigits other (List.mem_cons_of_mem _ hmem)
    rw [List.flatMap_cons, List.length_append, List.length_cons, String.length_utf8EncodeChar]
    omega

/-- Only the character numbered zero has a zero byte. -/
theorem zero_mem_utf8EncodeChar_iff {char : Char} : 0 ∈ String.utf8EncodeChar char ↔ char = Char.ofNat 0 := by
  have hbyte (number : Nat) : (0 : UInt8) = UInt8.ofNat number ↔ number % 256 = 0 := by
    rw [← UInt8.toNat_inj, UInt8.toNat_ofNat', eq_comm]
    rfl
  have hzero : char = Char.ofNat 0 ↔ char.val.toNat = 0 := by
    rw [← Char.toNat_inj]
    rfl
  rw [hzero]
  unfold String.utf8EncodeChar
  generalize char.val.toNat = code
  dsimp only
  split
  · simp only [List.mem_singleton, hbyte]
    omega
  split
  · simp only [List.mem_cons, List.not_mem_nil, or_false, hbyte]
    omega
  split
  · simp only [List.mem_cons, List.not_mem_nil, or_false, hbyte]
    omega
  · simp only [List.mem_cons, List.not_mem_nil, or_false, hbyte]
    omega

/-- A text that a zero can end: no character of it is the one numbered zero. -/
def NulFree (text : String) : Prop :=
  Char.ofNat 0 ∉ text.toList

theorem zero_notMem_encode_iff {text : String} : 0 ∉ encode text ↔ NulFree text := by
  rw [encode, NulFree, List.mem_flatMap]
  simp only [zero_mem_utf8EncodeChar_iff, exists_eq_right]

end Utf8

/-- An index is read back from its own digits. -/
theorem arrayIndex?_toString {index : Nat} (hindex : index < UInt64.size) :
    arrayIndex? (toString index) = some index := by
  rw [Nat.toString_eq_ofList_toDigits, arrayIndex?, String.toList_ofList]
  split
  · next digits hplus =>
    have hsign : '+' ∈ Nat.toDigits 10 index := hplus ▸ List.mem_cons_self
    have hdigit := Digits.isDigit_of_mem hsign
    cases hdigit
  · exact Digits.toWord?_toDigits hindex

/-- A key that counts its item is no shorter than the digits of the item's index. -/
theorem length_encode_toString_le {key : String} {index : Nat} (hkey : arrayIndex? key = some index) :
    (Utf8.encode (toString index)).length ≤ (Utf8.encode key).length := by
  have hdigits : ∀ digit ∈ (toString index).toList, digit.isDigit := by
    rw [Nat.toString_eq_ofList_toDigits, String.toList_ofList]
    intro digit hmem
    exact Digits.isDigit_of_mem hmem
  have hspelled : (Nat.toDigits 10 index).length ≤ key.toList.length := by
    rw [arrayIndex?] at hkey
    split at hkey
    · next digits hplus =>
      rw [hplus, List.length_cons]
      exact Nat.le_succ_of_le (Digits.length_toDigits_le hkey)
    · exact Digits.length_toDigits_le hkey
  calc (Utf8.encode (toString index)).length = (toString index).toList.length := Utf8.length_encode_of_isDigit hdigits
    _ = (Nat.toDigits 10 index).length := by rw [Nat.toString_eq_ofList_toDigits, String.toList_ofList]
    _ ≤ key.toList.length := hspelled
    _ ≤ (Utf8.encode key).length := Utf8.length_toList_le key

namespace Document

theorem any_key_iff {fields : List (String × Value)} {key : String} :
    fields.any (fun field => field.1 == key) ↔ key ∈ fields.map Prod.fst := by
  simp

/-- Fields are dropped and none is moved. -/
theorem ofFields_sublist (fields : List (String × Value)) : (ofFields fields).Sublist fields := by
  induction fields with
  | nil => exact List.Sublist.refl []
  | cons field rest ih =>
    rw [ofFields_cons]
    split
    · exact ih.cons field
    · exact ih.cons_cons field

/-- Of each key one field stays. -/
theorem nodup_ofFields (fields : List (String × Value)) : ((ofFields fields).map Prod.fst).Nodup := by
  induction fields with
  | nil => exact List.nodup_nil
  | cons field rest ih =>
    rw [ofFields_cons]
    split
    · exact ih
    · next hnew =>
      rw [List.map_cons, List.nodup_cons]
      exact ⟨fun hmem => hnew (any_key_iff.mpr hmem), ih⟩

/-- Where no key is repeated, every field stays. -/
theorem ofFields_of_nodup {fields : List (String × Value)} (hkeys : (fields.map Prod.fst).Nodup) :
    ofFields fields = fields := by
  induction fields with
  | nil => rfl
  | cons field rest ih =>
    rw [List.map_cons, List.nodup_cons] at hkeys
    have hnew : ¬ rest.any fun later => later.1 == field.1 := fun hold => hkeys.1 (any_key_iff.mp hold)
    rw [ofFields_cons, ih hkeys.2, if_neg hnew]

/-- One more field goes to the end, and an earlier field of its key goes. -/
theorem ofFields_append_singleton (fields : List (String × Value)) (key : String) (value : Value) :
    ofFields (fields ++ [(key, value)]) = insert (ofFields fields) key value := by
  induction fields with
  | nil => simp [ofFields_cons, insert]
  | cons field rest ih =>
    rw [List.cons_append, ofFields_cons, ofFields_cons, ih]
    by_cases hkey : field.1 = key
    · have hfound : (insert (ofFields rest) key value).any fun later => later.1 == field.1 := by simp [insert, hkey]
      rw [if_pos hfound]
      split
      · rfl
      · simp [insert, hkey]
    · have hsame : (insert (ofFields rest) key value).any (fun later => later.1 == field.1) =
          (ofFields rest).any fun later => later.1 == field.1 := by
        rw [Bool.eq_iff_iff, any_key_iff, any_key_iff]
        simp only [insert, List.map_append, List.mem_append, List.map_cons, List.map_nil, List.mem_singleton, hkey,
          or_false, List.mem_map, List.mem_filter, bne_iff_ne]
        constructor
        · intro hmem
          obtain ⟨later, ⟨hlater, _⟩, hname⟩ := hmem
          exact ⟨later, hlater, hname⟩
        · intro hmem
          obtain ⟨later, hlater, hname⟩ := hmem
          exact ⟨later, ⟨hlater, hname ▸ hkey⟩, hname⟩
      rw [hsame]
      split
      · rfl
      · simp [insert, hkey]

/-- Fields are put together as if each were inserted in turn. -/
theorem ofFields_eq_foldl (fields : List (String × Value)) :
    ofFields fields = fields.foldl (fun document field => insert document field.1 field.2) [] := by
  have hfrom (done : List (String × Value)) :
      ofFields (done ++ fields) =
        fields.foldl (fun document field => insert document field.1 field.2) (ofFields done) := by
    induction fields generalizing done with
    | nil => rw [List.append_nil, List.foldl_nil]
    | cons field rest ih => rw [List.append_cons, ih, ofFields_append_singleton, List.foldl_cons]
  exact hfrom []

end Document

end ReplyCapture
