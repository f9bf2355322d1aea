import ReplyCapture.Document.Decode
import ReplyCapture.Document.Encode
import ReplyCapture.Document.Structure
import ReplyCapture.Document.Text

namespace ReplyCapture

/-- The wire bytes of one document, its length included. Fields are read anew for each question
    about them. -/
structure RawDocument where
  bytes : Bytes
deriving DecidableEq, Repr

namespace RawDocument

/-- The number of bytes, the length's own included. -/
def size (raw : RawDocument) : Nat :=
  raw.bytes.length

/-- Whether there are no bytes, not even those of a length. -/
def isEmpty (raw : RawDocument) : Bool :=
  raw.bytes.isEmpty

/-- Reads the fields. Reading trusts the lengths it finds, so they are checked before. -/
def toDocument (raw : RawDocument) : Except DecodeError Document := do
  Structure.check raw.bytes
  let (document, rest) ← Document.read raw.bytes
  if !rest.isEmpty then throw (.misfit (.trailing rest.length))
  return document

/-- Keeps bytes that can be read as one document. -/
def ofBytes (bytes : Bytes) : Except DecodeError RawDocument := do
  let _ ← toDocument ⟨bytes⟩
  return ⟨bytes⟩

/-- The bytes of a document, which need not be readable again. -/
def ofDocument (document : Document) : RawDocument :=
  ⟨document.encode⟩

/-- The fields, or the number of bytes where they cannot be read. -/
def debugText (raw : RawDocument) : String :=
  match raw.toDocument with
  | .ok document => "RawDocument(" ++ document.text ++ ")"
  | .error _ => "RawDocument(<" ++ toString raw.size ++ " unreadable bytes>)"

end RawDocument

end ReplyCapture
