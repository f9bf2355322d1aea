import ReplyCapture.Reply.Decode

namespace ReplyCapture

/-- What can be read off a source. -/
inductive Call
  | message
  | header
  /-- The body under the last header. -/
  | body
  | document (limit : Nat)
  | documentWithin (limit consumed expected : Nat)
  | exactly (count : Nat)
  /-- So many bytes to the end of a buffer. -/
  | exactlyInto (count : Nat) (buffer : Bytes)
deriving DecidableEq, Repr

/-- What a call gives. -/
inductive Reception
  | reply (result : Except MessageError Reply)
  | header (result : Except MessageError Header)
  /-- There was no header to read a body under. -/
  | noHeader
  | bytes (result : Except MessageError Bytes)
  | buffer (buffer : Bytes) (result : Except MessageError Unit)

/-- A source that is being read, and the last header read off it alone. -/
structure Session where
  source : Source
  lastHeader : Option Header
deriving DecidableEq, Repr

/-- What a call gives, the session as it is afterwards, and what was logged. -/
structure Received where
  reception : Reception
  session : Session
  log : List Event

namespace Session

/-- A session that has read no header yet. -/
def start (source : Source) : Session :=
  ⟨source, none⟩

/-- Runs a reading on the session's source. -/
def run {α : Type} (session : Session) (reading : Reading α) (receive : Except MessageError α → Reception) :
    Received :=
  let outcome := reading.run session.source
  ⟨receive outcome.result, { session with source := outcome.source }, outcome.log⟩

/-- Makes a call. A header that was read stays until the next one is. -/
def call (session : Session) (limits : Limits) : Call → Received
  | .message => session.run (Reply.read limits) .reply
  | .header =>
    let outcome := Header.read.run session.source
    let lastHeader := match outcome.result with
      | .ok header => some header
      | .error _ => session.lastHeader
    ⟨.header outcome.result, ⟨outcome.source, lastHeader⟩, outcome.log⟩
  | .body =>
    match session.lastHeader with
    | none => ⟨.noHeader, session, []⟩
    | some header => session.run (Reply.readBody header limits) .reply
  | .document limit => session.run (Frame.next limit) .bytes
  | .documentWithin limit consumed expected =>
    session.run (Frame.nextWithin limit consumed expected) .bytes
  | .exactly count => session.run (Reading.exactly count) .bytes
  | .exactlyInto count buffer =>
    let refill := session.source.refill buffer count
    ⟨.buffer refill.buffer refill.outcome.result, { session with source := refill.outcome.source },
      refill.outcome.log⟩

/-- Makes one call after the other. -/
def callAll (session : Session) (limits : Limits) : List Call → List Received
  | [] => []
  | call :: rest =>
    let received := session.call limits call
    received :: received.session.callAll limits rest

end Session

end ReplyCapture
