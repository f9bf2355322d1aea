import ReplyCapture.Bytes.Hex
import ReplyCapture.Message.Header
import ReplyCapture.Text.Remark

namespace ReplyCapture

/-- Why kept documents were not shown. -/
inductive RenderError
  | document (cause : DecodeError)
  | json (cause : Remark)
deriving DecidableEq, Repr

/-- What the error says. -/
def RenderError.message : RenderError → String
  | .document cause => "document cannot be rendered: " ++ cause.message
  | .json cause => "json encoding failed: " ++ cause.message

/-- A line of the log. -/
inductive Event
  /-- A document of that many bytes was framed. -/
  | framed (size : Nat)
  /-- A document was framed that cannot be read. -/
  | malformed (bytes : Bytes)
  /-- A document declares more than is left of its message. -/
  | overrun (declared consumed expected : Nat)
  | decoded (header : Header) (outputs : Nat)
  /-- The rest of a message was passed over. -/
  | skipped (count : Nat) (cause : MessageError)
  | unrenderable (requestId : UInt32) (cause : RenderError)
deriving DecidableEq, Repr

/-- How much a line of the log matters. -/
inductive Level
  | trace
  | debug
  | warn
deriving DecidableEq, Repr

namespace Event

/-- Well-framed traffic is traced, decisions are for debugging, and odd input is warned of. -/
def level : Event → Level
  | .framed _ => .trace
  | .malformed _ => .trace
  | .overrun _ _ _ => .warn
  | .decoded _ _ => .debug
  | .skipped _ _ => .debug
  | .unrenderable _ _ => .warn

/-- What the line says. -/
def message : Event → String
  | .framed size => "read document of " ++ toString size ++ " bytes"
  | .malformed bytes => "malformed document:\n" ++ Hex.dump bytes
  | .overrun declared consumed expected =>
    "document of " ++ toString declared ++ " bytes overruns message boundary (" ++ toString consumed ++
      " of " ++ toString expected ++ " bytes consumed)"
  | .decoded header outputs =>
    "decoded OP_COMMANDREPLY " ++ toString header.requestId.toNat ++ " (response to " ++
      toString header.responseTo.toNat ++ "): " ++ toString header.messageLength.toNat ++ " bytes, " ++
      toString outputs ++ " output docs"
  | .skipped count cause =>
    "skipped " ++ toString count ++ " bytes of unusable message: " ++ cause.message
  | .unrenderable requestId cause =>
    "cannot render reply " ++ toString requestId.toNat ++ ": " ++ cause.message

end Event

end ReplyCapture
