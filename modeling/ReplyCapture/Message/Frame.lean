import ReplyCapture.Document.Raw
import ReplyCapture.Source.Reading

namespace ReplyCapture.Frame

/-- Bytes of the length in front of a document. -/
def lengthSize : Nat := 4

/-- The length a document declares, when a document of that length is allowed. -/
def allowedLength (limit : Nat) (front : Bytes) : Except MessageError Nat :=
  let declared := LittleEndian.signed (LittleEndian.decodeWord front)
  if declared < Structure.leastDocument ∨ (limit : Int) < declared then .error (.lengthOutOfBounds declared)
  else .ok declared.toNat

/-- A shortage behind the length, counted from the start of the document. -/
def wholeShortage (declared : Nat) : MessageError → MessageError
  | .truncated _ read => .truncated declared (read + lengthSize)
  | error => error

/-- The rest of a document whose length has been read. -/
def completed (front : Bytes) (declared : Nat) : Reading Bytes := do
  let rest ← (Reading.exactly (declared - lengthSize)).mapError (wholeShortage declared)
  Reading.record (.framed declared)
  return front ++ rest

/-- One document of at most `limit` bytes, whatever it holds. -/
def next (limit : Nat) : Reading Bytes := do
  let front ← Reading.exactly lengthSize
  let declared ← Reading.ofExcept (allowedLength limit front)
  completed front declared

/-- One document of a body of `expected` bytes of which `consumed` have been read. A document that
    would end beyond the body is left unread behind its length. -/
def nextWithin (limit consumed expected : Nat) : Reading Bytes := do
  let remaining := expected - consumed
  if remaining < lengthSize then
    Reading.fail (.crossesFrame (consumed + lengthSize) expected)
  else
    let front ← Reading.exactly lengthSize
    let declared ← Reading.ofExcept (allowedLength limit front)
    if remaining < declared then
      Reading.record (.overrun declared consumed expected)
      Reading.fail (.crossesFrame (consumed + declared) expected)
    else
      completed front declared

/-- Keeps framed bytes that can be read, and logs the others. -/
def keep (bytes : Bytes) : Reading RawDocument :=
  match RawDocument.ofBytes bytes with
  | .ok raw => return raw
  | .error cause => do
    Reading.record (.malformed bytes)
    Reading.fail (.malformed cause)

end ReplyCapture.Frame
