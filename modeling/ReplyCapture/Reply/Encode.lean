import ReplyCapture.Reply.Basic

namespace ReplyCapture

/-- Why something cannot be written. -/
inductive EncodeError
  | document (text : String)
  | messageTooLarge (size : Nat)
deriving DecidableEq, Repr

/-- What the error says. -/
def EncodeError.message : EncodeError → String
  | .document text => "failed to encode bson document: " ++ text
  | .messageTooLarge size =>
    "serialized message of " ++ toString size ++ " bytes does not fit the length field"

namespace Reply

/-- The documents of a reply in wire order. -/
def encodeBody (reply : Reply) : Bytes :=
  reply.documents.flatMap RawDocument.bytes

/-- The largest length a header can declare. -/
def greatestLength : Nat := 2147483647

/-- The whole message. Its header declares the bytes that are there, whatever the kept header says. -/
def encode (reply : Reply) : Except EncodeError Bytes :=
  let body := reply.encodeBody
  let size := Header.size + body.length
  if greatestLength < size then .error (.messageTooLarge size)
  else .ok ({ reply.header with messageLength := UInt32.ofNat size }.encode ++ body)

end Reply

end ReplyCapture
