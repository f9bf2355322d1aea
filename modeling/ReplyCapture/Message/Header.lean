import ReplyCapture.Bytes.LittleEndian
import ReplyCapture.Message.Error
import ReplyCapture.Message.Limits

namespace ReplyCapture

/-- What stands in front of every message. -/
structure Header where
  /-- Bytes of the whole message, the header's own included. -/
  messageLength : UInt32
  requestId : UInt32
  /-- The request this message answers. -/
  responseTo : UInt32
  opCode : OpCode
deriving DecidableEq, Repr

namespace Header

/-- Bytes of a header. -/
def size : Nat := 16

/-- The number of body bytes. The declared length must cover the header, keep within the limit and
    read as a positive number also with a sign. -/
def bodySize (header : Header) (limits : Limits) : Except MessageError Nat :=
  let length := header.messageLength.toNat
  if length < size ∨ limits.messageSize < length ∨ LittleEndian.signed header.messageLength ≤ 0 then
    .error (.lengthOutOfBounds (LittleEndian.signed header.messageLength))
  else .ok (length - size)

/-- The four words of a header. -/
def encode (header : Header) : Bytes :=
  LittleEndian.encodeWord header.messageLength ++ LittleEndian.encodeWord header.requestId ++
    LittleEndian.encodeWord header.responseTo ++ LittleEndian.encodeWord header.opCode.toWord

@[simp]
theorem length_encode (header : Header) : header.encode.length = size := by
  simp [encode, size]

/-- One word off a buffer. -/
def parseWord (buffer : Bytes) : Except MessageError (UInt32 × Bytes) :=
  match LittleEndian.word? buffer with
  | some found => .ok found
  | none => .error .shortBuffer

/-- The operation a header's last word names. -/
def parseOpCode (word : UInt32) : Except MessageError OpCode :=
  match OpCode.ofWord? word with
  | some code => .ok code
  | none => .error (.unknownOpCode word)

/-- The header at the front of a buffer and what follows it. -/
def parse (buffer : Bytes) : Except MessageError (Header × Bytes) := do
  let (messageLength, rest) ← parseWord buffer
  let (requestId, rest) ← parseWord rest
  let (responseTo, rest) ← parseWord rest
  let (opWord, rest) ← parseWord rest
  let opCode ← parseOpCode opWord
  return (⟨messageLength, requestId, responseTo, opCode⟩, rest)

end Header

end ReplyCapture
