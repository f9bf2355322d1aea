import ReplyCapture.Bytes.LittleEndian
import ReplyCapture.Document.Error
import ReplyCapture.Document.Tag

namespace ReplyCapture.Structure

/-- A place in a document: how far it lies from the start of the outermost document, and the bytes
    from there to the end of the enclosing one, its ending zero left out. -/
structure Cursor where
  offset : Nat
  rest : Bytes
deriving DecidableEq, Repr

/-- What a walk over one part gives: the place behind it, or why it does not fit. -/
abbrev Walk := Except DecodeError Cursor

/-- Takes `size` bytes if the enclosing document has them. -/
def cut (part : Part) (size : Nat) (cursor : Cursor) : Except DecodeError (Bytes × Cursor) :=
  match cursor.rest.split? size with
  | some (bytes, rest) => .ok (bytes, ⟨cursor.offset + size, rest⟩)
  | none => .error (.misfit (.overrun part size cursor.offset))

/-- Skips `size` bytes. -/
def skip (part : Part) (size : Nat) (cursor : Cursor) : Walk := do
  let (_, after) ← cut part size cursor
  return after

/-- The length in front of a part, which stays where it is. -/
def declared (part : Part) (cursor : Cursor) : Except DecodeError Nat := do
  let (front, _) ← cut part 4 cursor
  let length := LittleEndian.signed (LittleEndian.decodeWord front)
  if length < 0 then throw (.misfit (.negativeLength part cursor.offset length))
  return length.toNat

/-- Skips a name and the zero that ends it. -/
def skipName (cursor : Cursor) : Walk :=
  match cursor.rest.splitZero? with
  | some (name, rest) => .ok ⟨cursor.offset + name.length + 1, rest⟩
  | none => .error (.misfit (.unendedName cursor.offset))

/-- Skips a text behind its length. The length counts a last byte, which must be zero. -/
def skipString (cursor : Cursor) : Walk := do
  let length ← declared .string cursor
  if length < 1 then throw (.misfit .emptyString)
  let (text, after) ← cut .string length ⟨cursor.offset + 4, cursor.rest.drop 4⟩
  if text.getLast? ≠ some 0 then throw (.misfit (.unendedString cursor.offset))
  return after

/-- Skips a length, a subtype and as many bytes as the length says. -/
def skipBinary (cursor : Cursor) : Walk := do
  let length ← declared .binary cursor
  let data ← skip .binarySubtype 5 cursor
  skip .binary length data

/-- The least room for code with scope: its length, an empty text and an empty document. -/
def leastCodeWithScope : Nat := 14

/-- The least room for a document: its length and the ending zero. -/
def leastDocument : Nat := 5

/-- Skips a length, a text and a document that fill that length exactly. -/
def skipCodeWithScope (nested : Cursor → Walk) (cursor : Cursor) : Walk := do
  let length ← declared .codeWithScope cursor
  if length < leastCodeWithScope then throw (.misfit (.shortCodeWithScope length))
  let (region, after) ← cut .codeWithScope length cursor
  let scope ← skipString ⟨cursor.offset + 4, region.drop 4⟩
  let stop ← nested scope
  if stop.offset ≠ after.offset then
    throw (.misfit (.codeWithScopeEnd cursor.offset stop.offset after.offset))
  return after

/-- Skips the value of a field; `nested` walks a document inside it. -/
def skipValue (nested : Cursor → Walk) (byte : UInt8) (cursor : Cursor) : Walk :=
  match Tag.ofByte? byte with
  | none => .error (.unknownTag byte)
  | some .double | some .date | some .timestamp | some .int64 => skip .long 8 cursor
  | some .int32 => skip .word 4 cursor
  | some .objectId => skip .objectId 12 cursor
  | some .boolean => skip .boolean 1 cursor
  | some .null => .ok cursor
  | some .string | some .code | some .symbol => skipString cursor
  | some .document | some .array => nested cursor
  | some .binary => skipBinary cursor
  | some .regex => do
    let options ← skipName cursor
    skipName options
  | some .codeWithScope => skipCodeWithScope nested cursor

/-- Skips at most `bound` fields and gives the offset behind the zero that ends them. Where no byte
    is left, that zero is the document's own. -/
def skipFields (value : UInt8 → Cursor → Walk) : (bound : Nat) → Cursor → Except DecodeError Nat
  | 0, cursor => .ok (cursor.offset + 1)
  | _ + 1, ⟨offset, []⟩ => .ok (offset + 1)
  | bound + 1, ⟨offset, byte :: rest⟩ =>
    if byte = 0 then .ok (offset + 1)
    else do
      let field ← skipName ⟨offset + 1, rest⟩
      let next ← value byte field
      skipFields value bound next

/-- Skips a document that may hold others `levels - 1` deep. Every part of it lies inside its
    declared length, and its fields end exactly there. A field takes at least two bytes, so the
    document's length bounds their number. -/
def skipDocument : (levels : Nat) → Cursor → Walk
  | 0, _ => .error (.misfit .tooDeep)
  | levels + 1, cursor => do
    let length ← declared .document cursor
    if length < leastDocument then throw (.misfit (.shortDocument length))
    let (region, after) ← cut .document length cursor
    if region.getLast? ≠ some 0 then throw (.misfit (.unendedDocument cursor.offset))
    let fields : Cursor := ⟨cursor.offset + 4, (region.drop 4).dropLast⟩
    let stop ← skipFields (skipValue (skipDocument levels)) length fields
    if stop ≠ after.offset then
      throw (.misfit (.documentEnd cursor.offset stop after.offset))
    return after

/-- Checks that bytes are one document in which every length stays inside its enclosing document,
    without reading any value. -/
def check (bytes : Bytes) : Except DecodeError Unit := do
  let after ← skipDocument (nestingLimit + 1) ⟨0, bytes⟩
  if after.offset ≠ bytes.length then
    throw (.misfit (.trailing (bytes.length - after.offset)))

end ReplyCapture.Structure
