import ReplyCapture.Message.Event
import ReplyCapture.Message.Limits
import ReplyCapture.Reply.Encode

namespace ReplyCapture

/-- Anything that goes wrong here. -/
inductive Error
  | limits (error : LimitError)
  | message (error : MessageError)
  | encode (error : EncodeError)
  | render (error : RenderError)
deriving DecidableEq, Repr

namespace Error

/-- What the error says. -/
def text : Error → String
  | .limits error => error.message
  | .message error => error.message
  | .encode error => error.message
  | .render error => error.message

/-- What kind of trouble it is, for a caller who has to drop the connection or go on behind the
    message. -/
def explanation : Error → String
  | .limits _ => "invalid decoder configuration"
  | .message (.truncated _ _) => "stream truncated"
  | .message (.lengthOutOfBounds _) | .message (.crossesFrame _ _) => "framing corrupted"
  | .message (.malformed _) | .message (.unreadable _) => "document unreadable"
  | .message (.io _) => "read error"
  | .message (.trailingBytes _) | .message .shortBuffer | .message (.unknownOpCode _)
  | .message (.unexpectedOpCode _) => "message rejected"
  | .encode _ => "serialization failed"
  | .render _ => "rendering failed"

end Error

end ReplyCapture
