import ReplyCapture.Bytes.Basic

namespace ReplyCapture.Utf8

/-- Where bytes stop being UTF-8. -/
structure Fault where
  /-- Length of the longest front that is whole characters. -/
  validUpTo : Nat
  /-- How many bytes no character starts with, or none where the input ends inside one. -/
  length : Option Nat
deriving DecidableEq, Repr

/-- What is wrong, and how many bytes into the text. -/
def Fault.message (fault : Fault) : String :=
  match fault.length with
  | some length =>
    "invalid utf-8 sequence of " ++ toString length ++ " bytes from index " ++ toString fault.validUpTo
  | none => "incomplete utf-8 byte sequence from index " ++ toString fault.validUpTo

/-- The bytes of a text. -/
def encode (text : String) : Bytes :=
  text.toList.flatMap String.utf8EncodeChar

/-- The low six bits of a byte that continues a character after `taken` good bytes of it.
    The byte must lie between `low` and `high`. -/
def continuation (low high taken : Nat) : Bytes → Except (Option Nat) (Nat × Bytes)
  | [] => .error none
  | byte :: rest =>
    if low ≤ byte.toNat ∧ byte.toNat ≤ high then .ok (byte.toNat - 0x80, rest)
    else .error (some taken)

/-- The character at the front. The bounds on the byte after the first leave out overlong forms,
    surrogates and everything above `U+10FFFF`. -/
def character : Bytes → Except (Option Nat) (Char × Bytes)
  | [] => .error none
  | byte :: rest =>
    let lead := byte.toNat
    if lead < 0x80 then .ok (Char.ofNat lead, rest)
    else if 0xC2 ≤ lead ∧ lead ≤ 0xDF then do
      let (second, rest) ← continuation 0x80 0xBF 1 rest
      return (Char.ofNat ((lead - 0xC0) * 0x40 + second), rest)
    else if 0xE0 ≤ lead ∧ lead ≤ 0xEF then do
      let low := if lead = 0xE0 then 0xA0 else 0x80
      let high := if lead = 0xED then 0x9F else 0xBF
      let (second, rest) ← continuation low high 1 rest
      let (third, rest) ← continuation 0x80 0xBF 2 rest
      return (Char.ofNat ((lead - 0xE0) * 0x1000 + second * 0x40 + third), rest)
    else if 0xF0 ≤ lead ∧ lead ≤ 0xF4 then do
      let low := if lead = 0xF0 then 0x90 else 0x80
      let high := if lead = 0xF4 then 0x8F else 0xBF
      let (second, rest) ← continuation low high 1 rest
      let (third, rest) ← continuation 0x80 0xBF 2 rest
      let (fourth, rest) ← continuation 0x80 0xBF 3 rest
      return (Char.ofNat ((lead - 0xF0) * 0x40000 + second * 0x1000 + third * 0x40 + fourth), rest)
    else .error (some 1)

/-- Reads at most `bound` characters, `position` bytes into the text and after those in `done`. -/
def decodeOnto (done : List Char) (position : Nat) : (bound : Nat) → Bytes → Except Fault (List Char)
  | 0, _ => .ok done.reverse
  | _ + 1, [] => .ok done.reverse
  | bound + 1, byte :: rest =>
    match character (byte :: rest) with
    | .error length => .error ⟨position, length⟩
    | .ok (char, rest) => decodeOnto (char :: done) (position + char.utf8Size) bound rest

/-- The text that bytes spell. A character takes at least one byte, so their number bounds the
    characters. -/
def decode (bytes : Bytes) : Except Fault String :=
  (decodeOnto [] 0 bytes.length bytes).map String.ofList

/-- A continuation byte in range gives its six bits back. -/
theorem continuation_ofNat {low high taken bits : Nat} (rest : Bytes) (hbits : bits < 64)
    (hlow : low ≤ bits + 128) (hhigh : bits + 128 ≤ high) :
    continuation low high taken (UInt8.ofNat (bits + 128) :: rest) = .ok (bits, rest) := by
  have hbyte : (UInt8.ofNat (bits + 128)).toNat = bits + 128 := by
    rw [UInt8.toNat_ofNat']
    omega
  rw [continuation, hbyte, if_pos ⟨hlow, hhigh⟩]
  rw [Nat.add_sub_cancel]

/-- A character's own bytes are read back as that character, whatever follows. -/
theorem character_encode (char : Char) (rest : Bytes) :
    character (String.utf8EncodeChar char ++ rest) = .ok (char, rest) := by
  have hvalid : char.val.toNat < 0xD800 ∨ 0xDFFF < char.val.toNat ∧ char.val.toNat < 0x110000 := char.valid
  have hback : Char.ofNat char.val.toNat = char := Char.ofNat_toNat char
  have hlead (n : Nat) (hn : n < 256) : (UInt8.ofNat n).toNat = n := by
    rw [UInt8.toNat_ofNat']
    omega
  unfold String.utf8EncodeChar
  generalize char.val.toNat = v at hvalid hback ⊢
  dsimp only
  split
  · next hone =>
    simp only [List.cons_append, List.nil_append, character, hlead v (by omega)]
    rw [if_pos (by omega), hback]
  split
  · next htwo =>
    have hfirst : v / 64 % 32 = v / 64 := by omega
    simp only [List.cons_append, List.nil_append, character, hfirst, hlead (v / 64 + 192) (by omega)]
    rw [if_neg (by omega), if_pos (by omega),
      continuation_ofNat rest (Nat.mod_lt v (by decide)) (by omega) (by omega)]
    simp only [bind, Except.bind, pure, Except.pure]
    rw [show (v / 64 + 192 - 192) * 64 + v % 64 = v by omega, hback]
  split
  · next hthree =>
    have hfirst : v / 4096 % 16 = v / 4096 := by omega
    have hsurrogate : v / 4096 = 13 → v / 64 % 64 < 32 := by omega
    have hoverlong : v / 4096 = 0 → 32 ≤ v / 64 % 64 := by omega
    simp only [List.cons_append, List.nil_append, character, hfirst, hlead (v / 4096 + 224) (by omega)]
    rw [if_neg (by omega), if_neg (by omega), if_pos (by omega),
      continuation_ofNat _ (Nat.mod_lt _ (by decide)) (by split <;> omega) (by split <;> omega)]
    simp only [bind, Except.bind]
    rw [continuation_ofNat _ (Nat.mod_lt _ (by decide)) (by omega) (by omega)]
    simp only [pure, Except.pure]
    rw [show (v / 4096 + 224 - 224) * 4096 + v / 64 % 64 * 64 + v % 64 = v by omega, hback]
  · next hfour =>
    have hfirst : v / 262144 % 8 = v / 262144 := by omega
    have hoverlong : v / 262144 = 0 → 16 ≤ v / 4096 % 64 := by omega
    have hbeyond : v / 262144 = 4 → v / 4096 % 64 < 16 := by omega
    simp only [List.cons_append, List.nil_append, character, hfirst, hlead (v / 262144 + 240) (by omega)]
    rw [if_neg (by omega), if_neg (by omega), if_neg (by omega), if_pos (by omega),
      continuation_ofNat _ (Nat.mod_lt _ (by decide)) (by split <;> omega) (by split <;> omega)]
    simp only [bind, Except.bind]
    rw [continuation_ofNat _ (Nat.mod_lt _ (by decide)) (by omega) (by omega)]
    simp only
    rw [continuation_ofNat _ (Nat.mod_lt _ (by decide)) (by omega) (by omega)]
    simp only [pure, Except.pure]
    rw [show (v / 262144 + 240 - 240) * 262144 + v / 4096 % 64 * 4096 + v / 64 % 64 * 64 + v % 64 = v
      by omega, hback]

/-- Characters are read back from their own bytes, behind those that are done. The place only serves to tell of
    faults. -/
theorem decodeOnto_encode (done chars : List Char) (position : Nat) {bound : Nat}
    (hbound : (chars.flatMap String.utf8EncodeChar).length ≤ bound) :
    decodeOnto done position bound (chars.flatMap String.utf8EncodeChar) =
      .ok (done.reverse ++ chars) := by
  induction chars generalizing done position bound with
  | nil => cases bound <;> simp [decodeOnto]
  | cons char chars ih =>
    have hpositive : 0 < (String.utf8EncodeChar char).length := by
      rw [String.length_utf8EncodeChar]
      exact Char.utf8Size_pos char
    have hsplit : (char :: chars).flatMap String.utf8EncodeChar =
        String.utf8EncodeChar char ++ chars.flatMap String.utf8EncodeChar := rfl
    rw [hsplit, List.length_append] at hbound
    obtain ⟨bound, rfl⟩ : ∃ fewer, bound = fewer + 1 := ⟨bound - 1, by omega⟩
    have hread := character_encode char (chars.flatMap String.utf8EncodeChar)
    rw [hsplit]
    obtain ⟨byte, tail, hcons⟩ : ∃ byte tail,
        String.utf8EncodeChar char ++ chars.flatMap String.utf8EncodeChar = byte :: tail := by
      cases hencoded : String.utf8EncodeChar char with
      | nil => simp [hencoded] at hpositive
      | cons byte tail => exact ⟨byte, _, rfl⟩
    rw [hcons] at hread ⊢
    rw [decodeOnto, hread]
    simp only
    rw [ih (char :: done) _ (by omega)]
    simp

/-- A text is read back from its bytes. -/
theorem decode_encode (text : String) : decode (encode text) = .ok text := by
  rw [decode, encode, decodeOnto_encode [] text.toList 0 (Nat.le_refl _)]
  simp [Except.map]

end ReplyCapture.Utf8
