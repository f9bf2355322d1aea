import ReplyCapture.Message.Error
import ReplyCapture.Reply.Basic

namespace ReplyCapture

namespace Cursor

/-- The number of a cursor that is not given. -/
def absent : Int64 := 0

/-- A cursor's number from the value it is stored in. -/
def ofNumber : Option Value → Except DecodeError Int64
  | none => .ok absent
  | some (.int32 number) => .ok number.toInt64
  | some (.int64 number) => .ok number
  | some _ => .error (.wrongType "i64")

/-- The number of a stored cursor. A document names it, an array has it first; the types that are
    shown as documents have none. -/
def ofValue : Value → Except DecodeError Int64
  | .document fields => ofNumber (Document.get? fields "id")
  | .array items => ofNumber items.head?
  | .regex _ _ | .code _ | .codeWithScope _ _ | .objectId _ | .timestamp _ | .date _ | .symbol _ =>
    .ok absent
  | .double _ | .string _ | .binary _ _ | .boolean _ | .null | .int32 _ | .int64 _ =>
    .error (.wrongType "struct CursorInfo")

/-- The number of the cursor a command reply opens. -/
def ofDocument (document : Document) : Except DecodeError Int64 :=
  match document.get? "cursor" with
  | none => .ok absent
  | some cursor => ofValue cursor

/-- The number of the cursor in the bytes of a command reply. -/
def ofRaw (raw : RawDocument) : Except DecodeError Int64 := do
  let document ← raw.toDocument
  ofDocument document

end Cursor

namespace Reply

/-- The cursor's number, and the reply that knows it from then on. A failure is not kept. -/
def cursorId (reply : Reply) : Except MessageError Int64 × Reply :=
  match reply.knownCursor with
  | some number => (.ok number, reply)
  | none =>
    match Cursor.ofRaw reply.commandReply with
    | .ok number => (.ok number, { reply with knownCursor := some number })
    | .error cause => (.error (.unreadable cause), reply)

end Reply

end ReplyCapture
