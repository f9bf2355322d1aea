import ReplyCapture.Proofs.Steps
import ReplyCapture.Text.Utf8

namespace ReplyCapture.Utf8

theorem toNat_val_ofNat {code : Nat} (hvalid : code < 0xD800 ∨ 0xDFFF < code ∧ code < 0x110000) :
    (Char.ofNat code).val.toNat = code := by
  have hcode : code.isValidChar := hvalid
  rw [Char.ofNat, dif_pos hcode]
  rfl

/-- A byte that continues a character lies in its range, and its low bits are given back. -/
theorem continuation_eq_ok {low high taken bits : Nat} {bytes rest : Bytes} (hlow : 0x80 ≤ low)
    (hread : continuation low high taken bytes = .ok (bits, rest)) :
    bytes = UInt8.ofNat (bits + 0x80) :: rest ∧ low ≤ bits + 0x80 ∧ bits + 0x80 ≤ high := by
  cases bytes with
  | nil => cases hread
  | cons byte tail =>
    rw [continuation] at hread
    split at hread
    · next hrange =>
      simp only [Except.ok.injEq, Prod.mk.injEq] at hread
      obtain ⟨rfl, rfl⟩ := hread
      have hbits : byte.toNat - 0x80 + 0x80 = byte.toNat := by omega
      rw [hbits, UInt8.ofNat_toNat]
      exact ⟨rfl, hrange⟩
    · cases hread

/-- A character is read off nothing but its own bytes. -/
theorem eq_encode_of_character {bytes rest : Bytes} {char : Char} (hread : character bytes = .ok (char, rest)) :
    bytes = String.utf8EncodeChar char ++ rest := by
  cases bytes with
  | nil => cases hread
  | cons byte tail =>
    have hbyte := byte.toNat_lt
    unfold character at hread
    simp only at hread
    split at hread
    · next hone =>
      simp only [Except.ok.injEq, Prod.mk.injEq] at hread
      obtain ⟨rfl, rfl⟩ := hread
      rw [String.utf8EncodeChar, toNat_val_ofNat (by omega), if_pos (by omega), UInt8.ofNat_toNat]
      rfl
    split at hread
    · next htwo =>
      simp only [bind_eq_ok_iff, Prod.exists, pure_eq_ok_iff, Prod.mk.injEq] at hread
      obtain ⟨second, back, hsecond, rfl, rfl⟩ := hread
      obtain ⟨rfl, _, hbits⟩ := continuation_eq_ok (Nat.le_refl _) hsecond
      generalize hcode : (byte.toNat - 0xC0) * 0x40 + second = code
      have hfirst : code / 64 % 0x20 + 0xC0 = byte.toNat := by omega
      have hlast : code % 0x40 = second := by omega
      rw [String.utf8EncodeChar, toNat_val_ofNat (by omega), if_neg (by omega), if_pos (by omega), hfirst, hlast,
        UInt8.ofNat_toNat]
      rfl
    split at hread
    · next hthree =>
      simp only [bind_eq_ok_iff, Prod.exists, pure_eq_ok_iff, Prod.mk.injEq] at hread
      obtain ⟨second, middle, hsecond, third, back, hthird, rfl, rfl⟩ := hread
      obtain ⟨rfl, hlow, hhigh⟩ := continuation_eq_ok (by split <;> omega) hsecond
      obtain ⟨rfl, _, hbits⟩ := continuation_eq_ok (Nat.le_refl _) hthird
      have hsurrogate : byte.toNat = 0xED → second ≤ 0x1F := by
        intro hlead
        rw [if_pos hlead] at hhigh
        omega
      have hoverlong : byte.toNat = 0xE0 → 0x20 ≤ second := by
        intro hlead
        rw [if_pos hlead] at hlow
        omega
      have hsix : second < 64 := by
        split at hhigh <;> omega
      clear hlow hhigh hsecond hthird
      generalize hcode : (byte.toNat - 0xE0) * 0x1000 + second * 0x40 + third = code
      have hfirst : code / 4096 % 0x10 + 0xE0 = byte.toNat := by omega
      have hnext : code / 64 % 0x40 = second := by omega
      have hlast : code % 0x40 = third := by omega
      rw [String.utf8EncodeChar, toNat_val_ofNat (by omega), if_neg (by omega), if_neg (by omega),
        if_pos (by omega), hfirst, hnext, hlast, UInt8.ofNat_toNat]
      rfl
    split at hread
    · next hfour =>
      simp only [bind_eq_ok_iff, Prod.exists, pure_eq_ok_iff, Prod.mk.injEq] at hread
      obtain ⟨second, front, hsecond, third, middle, hthird, fourth, back, hfourth, rfl, rfl⟩ := hread
      obtain ⟨rfl, hlow, hhigh⟩ := continuation_eq_ok (by split <;> omega) hsecond
      obtain ⟨rfl, _, hbits⟩ := continuation_eq_ok (Nat.le_refl _) hthird
      obtain ⟨rfl, _, hfourthBits⟩ := continuation_eq_ok (Nat.le_refl _) hfourth
      have hbeyond : byte.toNat = 0xF4 → second ≤ 0xF := by
        intro hlead
        rw [if_pos hlead] at hhigh
        omega
      have hoverlong : byte.toNat = 0xF0 → 0x10 ≤ second := by
        intro hlead
        rw [if_pos hlead] at hlow
        omega
      have hsix : second < 64 := by
        split at hhigh <;> omega
      clear hlow hhigh hsecond hthird hfourth
      generalize hcode : (byte.toNat - 0xF0) * 0x40000 + second * 0x1000 + third * 0x40 + fourth = code
      have hfirst : code / 262144 % 0x08 + 0xF0 = byte.toNat := by omega
      have hnext : code / 4096 % 0x40 = second := by omega
      have hthen : code / 64 % 0x40 = third := by omega
      have hlast : code % 0x40 = fourth := by omega
      rw [String.utf8EncodeChar, toNat_val_ofNat (by omega), if_neg (by omega), if_neg (by omega),
        if_neg (by omega), hfirst, hnext, hthen, hlast, UInt8.ofNat_toNat]
      rfl
    · cases hread

/-- What is read off bytes is written as these bytes, so that no character has a second spelling. -/
theorem eq_append_of_decodeOnto {done chars : List Char} {position bound : Nat} {bytes : Bytes}
    (hbound : bytes.length ≤ bound) (hread : decodeOnto done position bound bytes = .ok chars) :
    ∃ later, chars = done.reverse ++ later ∧ bytes = later.flatMap String.utf8EncodeChar := by
  induction bound generalizing done position bytes with
  | zero =>
    cases hread
    exact ⟨[], by simp, List.eq_nil_of_length_eq_zero (by omega)⟩
  | succ bound ih =>
    cases bytes with
    | nil =>
      cases hread
      exact ⟨[], by simp, rfl⟩
    | cons byte tail =>
      rw [decodeOnto] at hread
      split at hread
      · cases hread
      · next char rest hchar =>
        have hbytes := eq_encode_of_character hchar
        have hlength := congrArg List.length hbytes
        have hpositive := char.utf8Size_pos
        rw [List.length_append, String.length_utf8EncodeChar, List.length_cons] at hlength
        rw [List.length_cons] at hbound
        obtain ⟨later, rfl, rfl⟩ := ih (by omega) hread
        exact ⟨char :: later, by simp, by rw [hbytes, List.flatMap_cons]⟩

/-- Bytes spell a text exactly when they are its encoding. -/
theorem decode_eq_ok_iff {bytes : Bytes} {text : String} : decode bytes = .ok text ↔ encode text = bytes := by
  constructor
  · intro hread
    rw [decode] at hread
    cases hchars : decodeOnto [] 0 bytes.length bytes with
    | error fault => simp [hchars, Except.map] at hread
    | ok chars =>
      obtain ⟨later, hlater, hbytes⟩ := eq_append_of_decodeOnto (Nat.le_refl _) hchars
      simp only [hchars, Except.map, Except.ok.injEq] at hread
      subst hread
      rw [encode, String.toList_ofList, hlater, hbytes]
      rfl
  · rintro rfl
    exact decode_encode text

end ReplyCapture.Utf8
