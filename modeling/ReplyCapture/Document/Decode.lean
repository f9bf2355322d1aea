import ReplyCapture.Document.Error
import ReplyCapture.Document.Tag
import ReplyCapture.Document.Value
import ReplyCapture.Number.Digits

namespace ReplyCapture

/-- Reads from the front of the bytes and leaves the rest. -/
abbrev Reader := StateT Bytes (Except DecodeError)

namespace Reader

/-- The next `count` bytes. -/
def take (count : Nat) : Reader Bytes := do
  match (← get).split? count with
  | some (front, rest) => set rest; return front
  | none => throw .endOfInput

/-- The next byte. -/
def byte : Reader UInt8 := do
  match ← get with
  | [] => throw .endOfInput
  | byte :: rest => set rest; return byte

/-- The next four bytes as a word. -/
def word : Reader UInt32 := do
  return LittleEndian.decodeWord (← take 4)

/-- The next eight bytes as a word. -/
def long : Reader UInt64 := do
  return LittleEndian.decodeLong (← take 8)

/-- A length as it is declared. A negative one asks for more than any input holds. -/
def length : Reader Nat := do
  let length := LittleEndian.signed (← word)
  if length < 0 then throw .endOfInput
  return length.toNat

/-- A text up to the next zero, which goes too. -/
def name : Reader String := do
  match (← get).splitZero? with
  | none => throw .endOfInput
  | some (front, rest) =>
    set rest
    match Utf8.decode front with
    | .ok text => return text
    | .error fault => throw (.invalidName fault)

/-- A text of the declared length. Its last byte is dropped unseen. -/
def text : Reader String := do
  let length ← length
  let front ← take (length - 1)
  match Utf8.decode front with
  | .error _ => throw .invalidText
  | .ok text =>
    let _ ← byte
    return text

/-- The next twelve bytes. -/
def objectId : Reader ObjectId := do
  let front ← take 12
  if hlength : front.length = 12 then return ⟨front, hlength⟩
  else throw .endOfInput

/-- A stored date, when it names an instant. -/
def date : Reader Instant := do
  let milliseconds := (← long).toInt64.toInt
  match Instant.ofStored? milliseconds with
  | some instant => return instant
  | none => throw (.noSuchInstant milliseconds)

/-- A length, a subtype and as many bytes as the length says. -/
def binary : Reader Value := do
  let length ← length
  let subtype ← byte
  let data ← take length
  return .binary subtype data

end Reader

/-- The number a key spells: digits, with or without a plus sign, below `2 ^ 64`. -/
def arrayIndex? (key : String) : Option Nat :=
  match key.toList with
  | '+' :: digits => Digits.toWord? digits
  | digits => Digits.toWord? digits

namespace Reader

/-- Reads at most `bound` fields up to the zero that ends them, onto those in `read`. -/
def fieldsOnto (value : UInt8 → Reader Value) :
    (bound : Nat) → (read : List (String × Value)) → Reader (List (String × Value))
  | 0, _ => throw .endOfInput
  | bound + 1, read => do
    let tag ← byte
    if tag = 0 then return read.reverse
    let key ← name
    let item ← value tag
    fieldsOnto value bound ((key, item) :: read)

/-- Reads at most `bound` items up to the zero that ends them, onto the `index` items in `read`.
    A key that does not count its item ends the reading before the item's value is read. -/
def itemsOnto (value : UInt8 → Reader Value) :
    (bound index : Nat) → (read : List Value) → Reader (List Value)
  | 0, _, _ => throw .endOfInput
  | bound + 1, index, read => do
    let tag ← byte
    if tag = 0 then return read.reverse
    let key ← name
    if arrayIndex? key ≠ some index then throw (.arrayKey index key)
    let item ← value tag
    itemsOnto value bound (index + 1) (item :: read)

/-- Reads the value of a field; `fields` and `items` read a nested document or array. -/
def value (fields : Reader Document) (items : Reader (List Value)) (byte : UInt8) : Reader Value :=
  match Tag.ofByte? byte with
  | none => throw (.unknownTag byte)
  | some .double => return .double ⟨← long⟩
  | some .string => return .string (← text)
  | some .document => return .document (← fields)
  | some .array => return .array (← items)
  | some .binary => binary
  | some .objectId => return .objectId (← objectId)
  | some .boolean => return .boolean ((← Reader.byte) != 0)
  | some .date => return .date (← date)
  | some .null => return .null
  | some .regex => return .regex (← name) (← name)
  | some .code => return .code (← text)
  | some .symbol => return .symbol (← text)
  | some .codeWithScope => do
    let _ ← word
    let source ← text
    let scope ← fields
    return .codeWithScope source scope
  | some .int32 => return .int32 (← word).toInt32
  | some .timestamp => do
    let increment ← word
    let time ← word
    return .timestamp ⟨time.toInt32, increment.toInt32⟩
  | some .int64 => return .int64 (← long).toInt64

mutual

/-- Reads a document nested less than `levels` deep, of at most `bound` fields. Its length is not
    used: the zero after its last field ends it. -/
def document (bound : Nat) : (levels : Nat) → Reader Document
  | 0 => throw .endOfInput
  | levels + 1 => do
    let _ ← word
    let fields ← fieldsOnto (value (document bound levels) (array bound levels)) bound []
    return Document.ofFields fields

/-- Reads an array as a document whose keys count its items. -/
def array (bound : Nat) : (levels : Nat) → Reader (List Value)
  | 0 => throw .endOfInput
  | levels + 1 => do
    let _ ← word
    itemsOnto (value (document bound levels) (array bound levels)) bound 0 []

end

end Reader

/-- Reads the document at the front of the bytes. Each level and each field takes at least one byte
    of them, so their number bounds both. -/
def Document.read (bytes : Bytes) : Except DecodeError (Document × Bytes) :=
  (Reader.document bytes.length bytes.length).run bytes

end ReplyCapture
