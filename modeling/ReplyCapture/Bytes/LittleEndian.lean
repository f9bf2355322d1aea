import ReplyCapture.Bytes.Basic

namespace ReplyCapture.LittleEndian

/-- The low `width` bytes of `value`, least significant first. -/
def encode : (width value : Nat) → Bytes
  | 0, _ => []
  | width + 1, value => UInt8.ofNat value :: encode width (value / 256)

/-- The number a run of bytes stands for, least significant byte first. -/
def decode : Bytes → Nat
  | [] => 0
  | byte :: rest => byte.toNat + 256 * decode rest

/-- How many numbers `width` bytes can spell. -/
def capacity : (width : Nat) → Nat
  | 0 => 1
  | width + 1 => 256 * capacity width

@[simp]
theorem length_encode (width value : Nat) : (encode width value).length = width := by
  induction width generalizing value with
  | zero => rfl
  | succ width ih => simp [encode, ih]

/-- A value that fits is read back from its bytes. -/
theorem decode_encode {width value : Nat} (hfits : value < capacity width) :
    decode (encode width value) = value := by
  induction width generalizing value with
  | zero => simp [capacity] at hfits; simp [encode, decode, hfits]
  | succ width ih =>
    have hquotient : value / 256 < capacity width := by
      rw [capacity] at hfits
      omega
    have hlow : (UInt8.ofNat value).toNat = value % 256 := by simp
    rw [encode, decode, ih hquotient, hlow]
    omega

theorem decode_lt (bytes : Bytes) : decode bytes < capacity bytes.length := by
  induction bytes with
  | nil => simp [decode, capacity]
  | cons byte rest ih =>
    have hbyte := byte.toNat_lt
    simp only [decode, List.length_cons, capacity]
    omega

/-- Any bytes are those of the value that is read off them. -/
theorem encode_decode (bytes : Bytes) : encode bytes.length (decode bytes) = bytes := by
  induction bytes with
  | nil => rfl
  | cons byte rest ih =>
    have hbyte := byte.toNat_lt
    have hquotient : (byte.toNat + 256 * decode rest) / 256 = decode rest := by omega
    have hhead : UInt8.ofNat (byte.toNat + 256 * decode rest) = byte := by
      apply UInt8.toNat_inj.mp
      simp
    simp [encode, decode, hquotient, hhead, ih]

/-- The four bytes of a 32-bit word. -/
def encodeWord (word : UInt32) : Bytes :=
  encode 4 word.toNat

/-- The eight bytes of a 64-bit word. -/
def encodeLong (word : UInt64) : Bytes :=
  encode 8 word.toNat

/-- The 32-bit word that four bytes spell. -/
def decodeWord (bytes : Bytes) : UInt32 :=
  UInt32.ofNat (decode bytes)

/-- The 64-bit word that eight bytes spell. -/
def decodeLong (bytes : Bytes) : UInt64 :=
  UInt64.ofNat (decode bytes)

/-- A word as it reads with a sign. -/
def signed (word : UInt32) : Int :=
  word.toInt32.toInt

theorem signed_eq (word : UInt32) :
    signed word = if word.toNat < 2147483648 then (word.toNat : Int) else word.toNat - 4294967296 := by
  have hbound := word.toNat_lt
  change word.toBitVec.toInt = _
  rw [BitVec.toInt_eq_toNat_cond, UInt32.toNat_toBitVec]
  split <;> split <;> omega

@[simp]
theorem length_encodeWord (word : UInt32) : (encodeWord word).length = 4 :=
  length_encode 4 _

@[simp]
theorem length_encodeLong (word : UInt64) : (encodeLong word).length = 8 :=
  length_encode 8 _

@[simp]
theorem decodeWord_encodeWord (word : UInt32) : decodeWord (encodeWord word) = word := by
  rw [decodeWord, encodeWord, decode_encode word.toNat_lt, UInt32.ofNat_toNat]

@[simp]
theorem decodeLong_encodeLong (word : UInt64) : decodeLong (encodeLong word) = word := by
  rw [decodeLong, encodeLong, decode_encode word.toNat_lt, UInt64.ofNat_toNat]

theorem encodeWord_decodeWord {bytes : Bytes} (hlength : bytes.length = 4) :
    encodeWord (decodeWord bytes) = bytes := by
  have hlt := decode_lt bytes
  rw [hlength] at hlt
  have hnat : (decodeWord bytes).toNat = decode bytes := UInt32.toNat_ofNat_of_lt' hlt
  rw [encodeWord, hnat, ← hlength, encode_decode]

theorem encodeLong_decodeLong {bytes : Bytes} (hlength : bytes.length = 8) :
    encodeLong (decodeLong bytes) = bytes := by
  have hlt := decode_lt bytes
  rw [hlength] at hlt
  have hnat : (decodeLong bytes).toNat = decode bytes := UInt64.toNat_ofNat_of_lt' hlt
  rw [encodeLong, hnat, ← hlength, encode_decode]

/-- The 32-bit word at the front of a buffer and what follows it. -/
def word? (buffer : Bytes) : Option (UInt32 × Bytes) :=
  (buffer.split? 4).map fun (front, rest) => (decodeWord front, rest)

theorem word?_encodeWord_append (word : UInt32) (rest : Bytes) :
    word? (encodeWord word ++ rest) = some (word, rest) := by
  have hsplit := Bytes.split?_append (encodeWord word) rest
  rw [length_encodeWord] at hsplit
  simp [word?, hsplit]

theorem word?_eq_some_iff {buffer rest : Bytes} {word : UInt32} :
    word? buffer = some (word, rest) ↔ buffer = encodeWord word ++ rest := by
  constructor
  · intro hword
    simp only [word?, Bytes.split?_eq, Option.map_eq_some_iff, Prod.mk.injEq] at hword
    obtain ⟨⟨front, tail⟩, hfront, rfl, rfl⟩ := hword
    split at hfront
    · next hlength =>
      simp only [Option.some.injEq, Prod.mk.injEq] at hfront
      obtain ⟨rfl, rfl⟩ := hfront
      rw [encodeWord_decodeWord (by simp; omega), List.take_append_drop]
    · cases hfront
  · rintro rfl
    exact word?_encodeWord_append word rest

end ReplyCapture.LittleEndian
