import ReplyCapture.Document.Error
import ReplyCapture.Message.OpCode

namespace ReplyCapture

/-- Why a message, or a part of one, was not read. -/
inductive MessageError
  /-- The input ended after `read` of `expected` bytes. -/
  | truncated (expected read : Nat)
  | lengthOutOfBounds (declared : Int)
  /-- A document would end `consumed` bytes into a body of `expected`. -/
  | crossesFrame (consumed expected : Nat)
  /-- A framed document cannot be read. -/
  | malformed (cause : DecodeError)
  /-- A kept document cannot be read, or has not the wanted shape. -/
  | unreadable (cause : DecodeError)
  | trailingBytes (count : Nat)
  | shortBuffer
  | unknownOpCode (word : UInt32)
  | unexpectedOpCode (code : OpCode)
  | io (text : String)
deriving DecidableEq, Repr

namespace MessageError

/-- What the error says. -/
def message : MessageError → String
  | .truncated expected read =>
    "stream ended after " ++ toString read ++ " of " ++ toString expected ++ " declared bytes"
  | .lengthOutOfBounds declared => "declared length " ++ toString declared ++ " is out of bounds"
  | .crossesFrame consumed expected =>
    "document crosses the message boundary: " ++ toString consumed ++ " of " ++ toString expected ++
      " bytes consumed"
  | .malformed cause => "document bytes do not parse as bson: " ++ cause.message
  | .unreadable cause => "failed to unmarshal bson document: " ++ cause.message
  | .trailingBytes count => toString count ++ " bytes left over after the declared message length"
  | .shortBuffer => "buffer is too short for the requested field"
  | .unknownOpCode word => "unknown op code " ++ toString word.toNat
  | .unexpectedOpCode code => "unexpected op code " ++ code.label
  | .io text => "underlying I/O error: " ++ text

/-- Whether the message was whole where its length said, and only its content is of no use. -/
def keepsFraming : MessageError → Bool
  | .malformed _ => true
  | .unexpectedOpCode _ => true
  | _ => false

end MessageError

end ReplyCapture
