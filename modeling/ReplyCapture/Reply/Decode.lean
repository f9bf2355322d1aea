import ReplyCapture.Message.Frame
import ReplyCapture.Reply.Basic

namespace ReplyCapture

namespace Reply

/-- The next output document of a body of `expected` bytes of which `consumed` have been read, and
    how many have been read then. -/
def readOutput (limits : Limits) (expected consumed : Nat) : Reading (RawDocument × Nat) := do
  let bytes ← Frame.nextWithin limits.documentSize consumed expected
  let raw ← Frame.keep bytes
  return (raw, consumed + bytes.length)

/-- Output documents until `expected` bytes of the body have been read. A document takes five bytes
    at least, so those of the body bound their number. -/
def readOutputs (limits : Limits) (expected consumed : Nat) : Reading (List RawDocument) :=
  Reading.many
    (fun consumed => if consumed < expected then some (readOutput limits expected consumed) else none)
    expected consumed

/-- The body under a header that has been read. Its documents fill the declared length. -/
def readBody (header : Header) (limits : Limits) : Reading Reply := do
  if header.opCode ≠ .commandReply then Reading.fail (.unexpectedOpCode header.opCode)
  else
    let expected ← Reading.ofExcept (header.bodySize limits)
    let commandReply ← Frame.nextWithin limits.documentSize 0 expected >>= Frame.keep
    let metadata ←
      Frame.nextWithin limits.documentSize commandReply.size expected >>= Frame.keep
    let outputs ← readOutputs limits expected (commandReply.size + metadata.size)
    Reading.record (.decoded header outputs.length)
    return ofDocuments header commandReply metadata outputs

end Reply

namespace Reading

/-- Fails where bytes are left. -/
def atEnd : Reading Unit :=
  ⟨fun source =>
    if source.pending.isEmpty then ⟨.ok (), source, []⟩
    else ⟨.error (.trailingBytes source.pending.length), source, []⟩⟩

/-- Reads something off a source and fails where bytes are left behind it. -/
def whole {α : Type} (reading : Reading α) : Reading α := do
  let value ← reading
  atEnd
  return value

end Reading

/-- Passes over `rest` more bytes after a reading that failed for `cause`. -/
def Outcome.skipRest {α : Type} (outcome : Outcome α) (rest : Nat) (cause : MessageError) : Outcome α :=
  let delivery := outcome.source.collect rest
  match delivery.failure with
  | some text => ⟨.error (.io text), delivery.source, outcome.log⟩
  | none => ⟨.error cause, delivery.source, outcome.log ++ [.skipped delivery.bytes.length cause]⟩

/-- Reads something off the next `length` bytes. If these are framed well but of no use, the rest of
    them is passed over, so that the next message can be read. -/
def Reading.orSkip {α : Type} (length : Nat) (reading : Reading α) : Reading α :=
  ⟨fun source =>
    let outcome := reading.run source
    match outcome.result with
    | .ok _ => outcome
    | .error cause =>
      if cause.keepsFraming then
        outcome.skipRest (length - (outcome.source.position - source.position)) cause
      else outcome⟩

namespace Header

/-- The next header. -/
def read : Reading Header := do
  let bytes ← Reading.exactly size
  let (header, _) ← Reading.ofExcept (parse bytes)
  return header

end Header

namespace Reply

/-- The body under a header, in a buffer that ends with it. -/
def parseBody (header : Header) (buffer : Bytes) (limits : Limits) : Outcome Reply :=
  (readBody header limits).whole.run (Source.ofBytes buffer)

/-- The message in a buffer that ends with it. -/
def parse (buffer : Bytes) (limits : Limits) : Outcome Reply :=
  match Header.parse buffer with
  | .error error => ⟨.error error, Source.ofBytes buffer, []⟩
  | .ok (header, body) => parseBody header body limits

/-- The next message of a source. -/
def read (limits : Limits) : Reading Reply := do
  let header ← Header.read
  let length ← Reading.ofExcept (header.bodySize limits)
  (readBody header limits).orSkip length

end Reply

end ReplyCapture
