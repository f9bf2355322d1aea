import ReplyCapture.Text.Utf8

namespace ReplyCapture

/-- The parts of a document whose room is measured. -/
inductive Part
  | document
  | string
  | binary
  | binarySubtype
  | codeWithScope
  | long
  | word
  | objectId
  | boolean
deriving DecidableEq, Repr

/-- What messages call a part. -/
def Part.name : Part → String
  | .document => "document"
  | .string => "string"
  | .binary => "binary"
  | .binarySubtype => "binary subtype"
  | .codeWithScope => "code with scope"
  | .long => "int64 value"
  | .word => "int32 value"
  | .objectId => "object id"
  | .boolean => "boolean"

/-- The deepest chain of embedded documents, arrays and scopes below the outermost document. -/
def nestingLimit : Nat := 200

/-- A length or an ending that does not fit where it stands. Offsets count from the start of the
    outermost document. -/
inductive Misfit
  /-- A part of `size` bytes would leave its enclosing document. -/
  | overrun (part : Part) (size offset : Nat)
  | negativeLength (part : Part) (offset : Nat) (length : Int)
  | shortDocument (length : Nat)
  | shortCodeWithScope (length : Nat)
  | emptyString
  | unendedDocument (offset : Nat)
  | unendedString (offset : Nat)
  /-- No zero follows in the enclosing document. -/
  | unendedName (offset : Nat)
  /-- The fields stop elsewhere than the length says. -/
  | documentEnd (offset stop declared : Nat)
  | codeWithScopeEnd (offset stop declared : Nat)
  | tooDeep
  /-- Bytes follow the outermost document. -/
  | trailing (count : Nat)
deriving DecidableEq, Repr

/-- What does not fit, and where. -/
def Misfit.message : Misfit → String
  | .overrun part size offset =>
    part.name ++ " of " ++ toString size ++ " bytes at offset " ++ toString offset ++ " runs past its document"
  | .negativeLength part offset length =>
    part.name ++ " at offset " ++ toString offset ++ " declares negative length " ++ toString length
  | .shortDocument length => "document length " ++ toString length ++ " is too small"
  | .shortCodeWithScope length => "code with scope length " ++ toString length ++ " is too small"
  | .emptyString => "string length 0 leaves no terminator"
  | .unendedDocument offset => "document at offset " ++ toString offset ++ " is not terminated"
  | .unendedString offset => "string at offset " ++ toString offset ++ " is not terminated"
  | .unendedName offset => "cstring at offset " ++ toString offset ++ " runs past its document"
  | .documentEnd offset stop declared =>
    "document at offset " ++ toString offset ++ " ends at " ++ toString stop ++
      ", declared end is " ++ toString declared
  | .codeWithScopeEnd offset stop declared =>
    "code with scope at offset " ++ toString offset ++ " ends at " ++ toString stop ++
      ", declared end is " ++ toString declared
  | .tooDeep => "documents nested deeper than " ++ toString nestingLimit ++ " levels"
  | .trailing count => toString count ++ " bytes trail the document terminator"

/-- Why bytes are no document, or a document not of the wanted shape. -/
inductive DecodeError
  | misfit (problem : Misfit)
  /-- A key or a part of a regular expression is not text. -/
  | invalidName (fault : Utf8.Fault)
  /-- A string, code or symbol is not text. -/
  | invalidText
  | unknownTag (tag : UInt8)
  | arrayKey (expected : Nat) (found : String)
  | wrongType (wanted : String)
  /-- A stored date that names no instant. -/
  | noSuchInstant (milliseconds : Int)
  | endOfInput
  | io (text : String)
deriving DecidableEq, Repr

/-- What the error says. -/
def DecodeError.message : DecodeError → String
  | .misfit problem => problem.message
  | .invalidName fault => fault.message
  | .invalidText => "stream did not contain valid UTF-8"
  | .unknownTag tag => "unrecognized element type `" ++ toString tag.toNat ++ "`"
  | .arrayKey expected found =>
    "invalid array key: expected `" ++ toString expected ++ "`, got `" ++ found ++ "`"
  | .wrongType wanted => wanted
  | .noSuchInstant milliseconds => "no such local time " ++ toString milliseconds
  | .endOfInput => "end of stream"
  | .io text => text

end ReplyCapture
