import ReplyCapture.Document.Json
import ReplyCapture.Message.Event
import ReplyCapture.Reply.Basic

namespace ReplyCapture

namespace RawDocument

/-- A kept document as JSON. -/
def json (raw : RawDocument) : Except RenderError String :=
  match raw.toDocument with
  | .ok document => .ok document.json
  | .error cause => .error (.document cause)

/-- Kept documents as one JSON array. All of them are read before the array is shown. -/
def jsonAll (raws : List RawDocument) : Except RenderError String := do
  let documents ← raws.mapM fun raw => raw.toDocument.mapError RenderError.document
  return (Value.array (documents.map .document)).json

end RawDocument

/-- Cuts a text to `limit` characters and marks the cut; a text that fits stays as it is. -/
def clip (text : String) (limit : Nat) : String :=
  if text.toList.length ≤ limit then text
  else String.ofList (text.toList.take limit ++ ['.', '.', '.'])

/-- The three parts of a reply as JSON. -/
structure RenderedReply where
  commandReply : String
  metadata : String
  /-- Empty where there are no output documents. -/
  outputs : String
deriving DecidableEq, Repr

/-- A value and what was logged on the way to it. -/
structure Logged (α : Type) where
  value : α
  log : List Event

/-- What a reply says for traffic analysis. -/
structure Summary where
  operation : String
  space : String
  command : String
  data : Document

/-- The summary as compact JSON. -/
def Summary.json (summary : Summary) : String :=
  Json.object [
    Json.member "op" (Quoted.quote summary.operation),
    Json.member "ns" (Quoted.quote summary.space),
    Json.member "command" (Quoted.quote summary.command),
    Json.member "data" summary.data.json]

namespace Reply

/-- All parts as JSON, or why the first unreadable document in wire order cannot be shown. -/
def rendered (reply : Reply) : Except RenderError RenderedReply := do
  let commandReply ← reply.commandReply.json
  let metadata ← reply.metadata.json
  let outputs ← if reply.outputs.isEmpty then pure "" else RawDocument.jsonAll reply.outputs
  return ⟨commandReply, metadata, outputs⟩

/-- The reply on one line, each part shortened, or why it cannot be shown. -/
def lineWith (reply : Reply) (shorten : String → String) : Logged String :=
  match reply.rendered with
  | .error cause => ⟨cause.message, [.unrenderable reply.header.requestId cause]⟩
  | .ok body =>
    let outputs := if body.outputs.isEmpty then "" else " " ++ shorten body.outputs
    ⟨"CommandReply " ++ shorten body.commandReply ++ " " ++ shorten body.metadata ++ outputs, []⟩

/-- The reply on one line. -/
def line (reply : Reply) : Logged String :=
  reply.lineWith id

/-- The reply on one line, each part cut to so many characters. -/
def clipped (reply : Reply) (limit : Nat) : Logged String :=
  reply.lineWith fun part => clip part limit

/-- The fields of a document that is part of a summary. -/
def asValue (raw : RawDocument) : Except MessageError Value :=
  match raw.toDocument with
  | .ok document => .ok (.document document)
  | .error cause => .error (.unreadable cause)

/-- What the reply says for traffic analysis. Output documents are read first. -/
def summary (reply : Reply) : Except MessageError Summary := do
  let outputs ← reply.outputs.mapM asValue
  let metadata ← asValue reply.metadata
  let commandReply ← asValue reply.commandReply
  return {
    operation := OpCode.commandReply.name
    space := ""
    command := ""
    data := [("metadata", metadata), ("command_reply", commandReply), ("output_docs", .array outputs)] }

end Reply

end ReplyCapture
