namespace ReplyCapture

/-- How large a document and a message may declare themselves. -/
structure Limits where
  documentSize : Nat
  messageSize : Nat
deriving DecidableEq, Repr

/-- Why a pair of limits is refused. -/
inductive LimitError
  | zeroDocument
  | zeroMessage
  | documentAboveMessage (document message : Nat)
deriving DecidableEq, Repr

/-- What the error says. -/
def LimitError.message : LimitError → String
  | .zeroDocument => "limit `max_bson_object_size` must be greater than zero"
  | .zeroMessage => "limit `max_message_size_in_bytes` must be greater than zero"
  | .documentAboveMessage document message =>
    "max_bson_object_size (" ++ toString document ++ ") exceeds max_message_size_in_bytes (" ++
      toString message ++ ")"

namespace Limits

/-- The largest document and message that servers send. -/
def standard : Limits := ⟨16 * 1024 * 1024, 48000000⟩

/-- The chosen limits, standard where none is chosen. A document must fit into a message. -/
def choose (documentSize messageSize : Option Nat) : Except LimitError Limits :=
  let document := documentSize.getD standard.documentSize
  let message := messageSize.getD standard.messageSize
  if document = 0 then .error .zeroDocument
  else if message = 0 then .error .zeroMessage
  else if message < document then .error (.documentAboveMessage document message)
  else .ok ⟨document, message⟩

end Limits

end ReplyCapture
