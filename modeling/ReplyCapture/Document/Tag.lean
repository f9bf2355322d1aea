namespace ReplyCapture

/-- The type of a field's value, written as one byte before its key. -/
inductive Tag
  | double
  | string
  | document
  | array
  | binary
  | objectId
  | boolean
  | date
  | null
  | regex
  | code
  | symbol
  | codeWithScope
  | int32
  | timestamp
  | int64
deriving DecidableEq, Repr

namespace Tag

/-- The byte of a tag, never zero. -/
def toByte : Tag → UInt8
  | .double => 0x01
  | .string => 0x02
  | .document => 0x03
  | .array => 0x04
  | .binary => 0x05
  | .objectId => 0x07
  | .boolean => 0x08
  | .date => 0x09
  | .null => 0x0A
  | .regex => 0x0B
  | .code => 0x0D
  | .symbol => 0x0E
  | .codeWithScope => 0x0F
  | .int32 => 0x10
  | .timestamp => 0x11
  | .int64 => 0x12

/-- The tag a byte stands for. Zero is none: it ends a document. -/
def ofByte? : UInt8 → Option Tag
  | 0x01 => some .double
  | 0x02 => some .string
  | 0x03 => some .document
  | 0x04 => some .array
  | 0x05 => some .binary
  | 0x07 => some .objectId
  | 0x08 => some .boolean
  | 0x09 => some .date
  | 0x0A => some .null
  | 0x0B => some .regex
  | 0x0D => some .code
  | 0x0E => some .symbol
  | 0x0F => some .codeWithScope
  | 0x10 => some .int32
  | 0x11 => some .timestamp
  | 0x12 => some .int64
  | _ => none

@[simp]
theorem ofByte?_toByte (tag : Tag) : ofByte? tag.toByte = some tag := by
  cases tag <;> rfl

theorem toByte_ne_zero (tag : Tag) : tag.toByte ≠ 0 := by
  cases tag <;> decide

theorem ofByte?_eq_some_iff {byte : UInt8} {tag : Tag} : ofByte? byte = some tag ↔ byte = tag.toByte := by
  constructor
  · intro hbyte
    unfold ofByte? at hbyte
    split at hbyte <;> first | (cases hbyte; rfl) | cases hbyte
  · rintro rfl
    exact ofByte?_toByte tag

end Tag

end ReplyCapture
