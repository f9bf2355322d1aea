import ReplyCapture.Document.Raw
import ReplyCapture.Message.Header

namespace ReplyCapture

/-- The time between a request and its reply. -/
structure Latency where
  seconds : Nat
  /-- Nanoseconds into the next second. -/
  nanoseconds : Nat
  nanoseconds_lt : nanoseconds < 1000000000 := by decide
deriving DecidableEq, Repr

namespace Latency

/-- No time, as long as none has been measured. -/
def zero : Latency := { seconds := 0, nanoseconds := 0 }

/-- The greatest signed 64-bit number. -/
def greatestMicroseconds : Nat := 9223372036854775807

/-- Whole microseconds, no more than a signed 64-bit number holds. -/
def microseconds (latency : Latency) : Nat :=
  min (latency.seconds * 1000000 + latency.nanoseconds / 1000) greatestMicroseconds

end Latency

/-- A server's reply to a command. -/
structure Reply where
  header : Header
  commandReply : RawDocument
  metadata : RawDocument
  outputs : List RawDocument
  latency : Latency
  /-- The cursor's number once it has been asked for. -/
  knownCursor : Option Int64
deriving DecidableEq, Repr

namespace Reply

/-- A reply of which nothing has been asked yet. -/
def ofDocuments (header : Header) (commandReply metadata : RawDocument) (outputs : List RawDocument) :
    Reply :=
  ⟨header, commandReply, metadata, outputs, Latency.zero, none⟩

/-- All documents in wire order. -/
def documents (reply : Reply) : List RawDocument :=
  reply.commandReply :: reply.metadata :: reply.outputs

/-- The number of documents a command put out. -/
def returned (reply : Reply) : Nat :=
  reply.outputs.length

end Reply

end ReplyCapture
