import ReplyCapture.Reply.Cursor
import ReplyCapture.Reply.Encode
import ReplyCapture.Reply.Render
import ReplyCapture.Reply.ReportedError

namespace ReplyCapture

/-- What can be asked of a reply. -/
inductive Query
  | header
  | documents
  | cursorId
  | returned
  | errors
  | opCode
  | setLatency (latency : Latency)
  | latency
  | latencyMicroseconds
  | line
  | clipped (limit : Nat)
  | rendered
  | summary
  | encode
deriving DecidableEq, Repr

/-- The answer to a query. -/
inductive Answer
  | header (header : Header)
  | documents (commandReply metadata : RawDocument) (outputs : List RawDocument)
  | cursorId (result : Except MessageError Int64)
  | returned (count : Nat)
  | errors (result : Except MessageError (List ReportedError))
  | opCode (code : OpCode)
  | done
  | latency (latency : Latency)
  | latencyMicroseconds (count : Nat)
  | text (text : String)
  | rendered (result : Except RenderError RenderedReply)
  | summary (result : Except MessageError Summary)
  | encode (result : Except EncodeError Bytes)

/-- An answer, the reply as it is afterwards, and what was logged. -/
structure Answered where
  answer : Answer
  reply : Reply
  log : List Event

namespace Reply

/-- Asks a reply. Only setting the latency and a first look at the cursor leave a trace in it. -/
def ask (reply : Reply) : Query → Answered
  | .header => ⟨.header reply.header, reply, []⟩
  | .documents => ⟨.documents reply.commandReply reply.metadata reply.outputs, reply, []⟩
  | .cursorId =>
    let (result, reply) := reply.cursorId
    ⟨.cursorId result, reply, []⟩
  | .returned => ⟨.returned reply.returned, reply, []⟩
  | .errors => ⟨.errors reply.errors, reply, []⟩
  | .opCode => ⟨.opCode .commandReply, reply, []⟩
  | .setLatency latency => ⟨.done, { reply with latency := latency }, []⟩
  | .latency => ⟨.latency reply.latency, reply, []⟩
  | .latencyMicroseconds => ⟨.latencyMicroseconds reply.latency.microseconds, reply, []⟩
  | .line =>
    let shown := reply.line
    ⟨.text shown.value, reply, shown.log⟩
  | .clipped limit =>
    let shown := reply.clipped limit
    ⟨.text shown.value, reply, shown.log⟩
  | .rendered => ⟨.rendered reply.rendered, reply, []⟩
  | .summary => ⟨.summary reply.summary, reply, []⟩
  | .encode => ⟨.encode reply.encode, reply, []⟩

/-- Asks one query after the other. -/
def askAll (reply : Reply) : List Query → List Answered
  | [] => []
  | query :: rest =>
    let answered := reply.ask query
    answered :: answered.reply.askAll rest

end Reply

end ReplyCapture
