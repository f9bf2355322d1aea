import ReplyCapture.Message.Error
import ReplyCapture.Reply.Basic

namespace ReplyCapture

/-- Where a reply reports an error. -/
inductive ErrorPlace
  | queryFailure
  | errorMessage
  /-- An item of the list of write errors. -/
  | writeError
  | writeConcernError
deriving DecidableEq, Repr

/-- The key of the field. -/
def ErrorPlace.field : ErrorPlace → String
  | .queryFailure => "$err"
  | .errorMessage => "errmsg"
  | .writeError => "writeErrors"
  | .writeConcernError => "writeConcernError"

/-- An error that a reply reports. -/
structure ReportedError where
  place : ErrorPlace
  message : String
  code : Option Int32
deriving DecidableEq, Repr

/-- A value as an error message; a string is one as it is. -/
def Value.errorMessage : Value → String
  | .string text => text
  | value => value.text

/-- The whole number a value equals, if it is a number and whole. -/
def Value.whole? : Value → Option Int
  | .int32 number => some number.toInt
  | .int64 number => some number.toInt
  | .double number => number.toInt?
  | _ => none

/-- The least number that a value can give as a code. The least one of 32 bits is none when stored
    as a double. -/
def Value.leastCode : Value → Int
  | .double _ => -2147483647
  | _ => -2147483648

/-- The greatest code. -/
def greatestCode : Int := 2147483647

/-- The error code a value stands for. -/
def Value.errorCode? (value : Value) : Option Int32 :=
  match value.whole? with
  | some number =>
    if value.leastCode ≤ number ∧ number ≤ greatestCode then some (Int32.ofInt number) else none
  | none => none

namespace Document

/-- The document's own error code. -/
def errorCode? (document : Document) : Option Int32 :=
  (document.get? "code").bind Value.errorCode?

end Document

namespace ReportedError

/-- Field, message and code as one line. -/
def text (error : ReportedError) : String :=
  error.place.field ++ ": " ++ error.message ++
    match error.code with
    | some code => " (code " ++ toString code.toInt ++ ")"
    | none => ""

/-- An error in a value of its own. A document has a message and a code of its own, and is all
    shown where it has no message. -/
def ofNested (place : ErrorPlace) : Value → ReportedError
  | .document fields =>
    let document : Document := fields
    let message := match document.get? "errmsg" with
      | some value => value.errorMessage
      | none => document.text
    ⟨place, message, document.errorCode?⟩
  | value => ⟨place, value.errorMessage, none⟩

/-- The errors in a field of the document, if it is there, with the document's code. -/
def ofField (document : Document) (place : ErrorPlace) : List ReportedError :=
  match document.get? place.field with
  | some value => [⟨place, value.errorMessage, document.errorCode?⟩]
  | none => []

/-- The errors of single writes. -/
def ofWrites (document : Document) : List ReportedError :=
  match document.get? ErrorPlace.writeError.field with
  | some (.array items) => items.map (ofNested .writeError)
  | _ => []

/-- The error of the write concern, whatever its type. -/
def ofWriteConcern (document : Document) : List ReportedError :=
  match document.get? ErrorPlace.writeConcernError.field with
  | some value => [ofNested .writeConcernError value]
  | none => []

/-- All errors a document reports, place by place, whatever the order of its fields. -/
def ofDocument (document : Document) : List ReportedError :=
  ofField document .queryFailure ++ ofField document .errorMessage ++ ofWrites document ++
    ofWriteConcern document

end ReportedError

namespace Reply

/-- The errors the first output document reports. -/
def errors (reply : Reply) : Except MessageError (List ReportedError) :=
  match reply.outputs.head? with
  | none => .ok []
  | some first =>
    match first.toDocument with
    | .ok document => .ok (ReportedError.ofDocument document)
    | .error cause => .error (.unreadable cause)

end Reply

end ReplyCapture
