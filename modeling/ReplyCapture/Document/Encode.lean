import ReplyCapture.Document.Tag
import ReplyCapture.Document.Value
import ReplyCapture.Text.Utf8

namespace ReplyCapture

/-- A text and the zero that ends it. -/
def encodeName (text : String) : Bytes :=
  Utf8.encode text ++ [0]

/-- A text behind the number of its bytes, the ending zero counted. -/
def encodeText (text : String) : Bytes :=
  let bytes := encodeName text
  LittleEndian.encode 4 bytes.length ++ bytes

/-- A field: the tag of its value, its key and the value's bytes. -/
def encodeField (tag : Tag) (key : String) (value : Bytes) : Bytes :=
  tag.toByte :: encodeName key ++ value

/-- Encoded fields as a document: behind the length of the whole and before the ending zero. -/
def frameFields (fields : Bytes) : Bytes :=
  LittleEndian.encode 4 (fields.length + 5) ++ fields ++ [0]

/-- The tag a value is written under. -/
def Value.tag : Value → Tag
  | .double _ => .double
  | .string _ => .string
  | .document _ => .document
  | .array _ => .array
  | .binary _ _ => .binary
  | .objectId _ => .objectId
  | .boolean _ => .boolean
  | .date _ => .date
  | .null => .null
  | .regex _ _ => .regex
  | .code _ => .code
  | .codeWithScope _ _ => .codeWithScope
  | .int32 _ => .int32
  | .timestamp _ => .timestamp
  | .int64 _ => .int64
  | .symbol _ => .symbol

mutual

/-- The bytes of a value, without tag and key. -/
def Value.encode : Value → Bytes
  | .double number => LittleEndian.encodeLong number.bits
  | .string text => encodeText text
  | .document fields => frameFields (fieldBytesOnto [] fields).flatten
  | .array items => frameFields (itemBytesOnto [] 0 items).flatten
  | .binary subtype data => LittleEndian.encode 4 data.length ++ subtype :: data
  | .objectId id => id.bytes
  | .boolean flag => [if flag then 1 else 0]
  | .date instant => LittleEndian.encodeLong (Int64.ofInt instant.toStored).toUInt64
  | .null => []
  | .regex pattern options => encodeName pattern ++ encodeName options
  | .code source => encodeText source
  | .codeWithScope source scope =>
    let body := encodeText source ++ frameFields (fieldBytesOnto [] scope).flatten
    LittleEndian.encode 4 (body.length + 4) ++ body
  | .int32 number => LittleEndian.encodeWord number.toUInt32
  | .timestamp stamp =>
    LittleEndian.encodeWord stamp.increment.toUInt32 ++ LittleEndian.encodeWord stamp.time.toUInt32
  | .int64 number => LittleEndian.encodeLong number.toUInt64
  | .symbol name => encodeText name

/-- The bytes of fields after those in `done`, whose last one comes first. -/
def fieldBytesOnto (done : List Bytes) : List (String × Value) → List Bytes
  | [] => done.reverse
  | (key, value) :: rest => fieldBytesOnto (encodeField value.tag key value.encode :: done) rest

/-- The bytes of items, as fields whose keys count from `index`, after those in `done`, whose last
    one comes first. -/
def itemBytesOnto (done : List Bytes) (index : Nat) : List Value → List Bytes
  | [] => done.reverse
  | item :: rest =>
    itemBytesOnto (encodeField item.tag (toString index) item.encode :: done) (index + 1) rest

end

/-- The wire bytes of a document. -/
def Document.encode (document : Document) : Bytes :=
  frameFields (document.flatMap fun field => encodeField field.2.tag field.1 field.2.encode)

/-- Items as fields whose keys count from `index`. -/
def numberedFields (index : Nat) : List Value → Document
  | [] => []
  | item :: rest => (toString index, item) :: numberedFields (index + 1) rest

theorem fieldBytesOnto_eq (done : List Bytes) (fields : List (String × Value)) :
    fieldBytesOnto done fields =
      done.reverse ++ fields.map fun field => encodeField field.2.tag field.1 field.2.encode := by
  induction fields generalizing done with
  | nil => simp [fieldBytesOnto]
  | cons field rest ih => simp [fieldBytesOnto, ih]

theorem itemBytesOnto_eq (done : List Bytes) (index : Nat) (items : List Value) :
    itemBytesOnto done index items = fieldBytesOnto done (numberedFields index items) := by
  induction items generalizing done index with
  | nil => simp [itemBytesOnto, fieldBytesOnto, numberedFields]
  | cons item rest ih => simp [itemBytesOnto, fieldBytesOnto, numberedFields, ih]

theorem Value.encode_document (fields : List (String × Value)) :
    (Value.document fields).encode = Document.encode fields := by
  simp [Value.encode, fieldBytesOnto_eq, Document.encode, List.flatMap_def]

/-- An array is written as the document whose keys count its items. -/
theorem Value.encode_array (items : List Value) :
    (Value.array items).encode = Document.encode (numberedFields 0 items) := by
  simp [Value.encode, itemBytesOnto_eq, fieldBytesOnto_eq, Document.encode, List.flatMap_def]

end ReplyCapture
