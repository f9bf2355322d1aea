import ReplyCapture.Bytes.Hex
import ReplyCapture.Document.Value
import ReplyCapture.Number.Layout

namespace ReplyCapture

/-- Numbers in JSON always show a fraction or an exponent, an exponent below `1e-5` and from `1e16`. -/
def jsonNumber : NumberLayout := ⟨.even, some (-5, 15), true⟩

/-- JSON has no infinities and no NaN. -/
def Binary64.json (number : Binary64) : String :=
  match number.meaning with
  | .finite negative significand exponent => jsonNumber.finite negative significand exponent
  | .infinite _ => "null"
  | .notANumber => "null"

namespace Quoted

/-- The two digits after `\u00` for a control character. -/
def controlDigits (code : Nat) : List Char :=
  [Nat.digitChar (code / 16), Nat.digitChar (code % 16)]

/-- A character between quotes. Only the quote, the backslash and control characters are escaped,
    these with a letter of their own where there is one. -/
def escape (char : Char) : List Char :=
  if char = '"' then ['\\', '"']
  else if char = '\\' then ['\\', '\\']
  else if char.toNat = 0x08 then ['\\', 'b']
  else if char.toNat = 0x09 then ['\\', 't']
  else if char.toNat = 0x0A then ['\\', 'n']
  else if char.toNat = 0x0C then ['\\', 'f']
  else if char.toNat = 0x0D then ['\\', 'r']
  else if char.toNat < 0x20 then ['\\', 'u', '0', '0'] ++ controlDigits char.toNat
  else [char]

/-- A text in quotes. -/
def quote (text : String) : String :=
  String.ofList ('"' :: text.toList.flatMap escape ++ ['"'])

end Quoted

namespace Json

/-- A member of an object from its key and the text of its value. -/
def member (key value : String) : String :=
  Quoted.quote key ++ ":" ++ value

/-- An object from the texts of its members. -/
def object (members : List String) : String :=
  "\x7b" ++ ",".intercalate members ++ "\x7d"

/-- An array from the texts of its items. -/
def array (items : List String) : String :=
  "[" ++ ",".intercalate items ++ "]"

end Json

mutual

/-- A value as compact JSON. Types that JSON lacks become objects with a telling key; binary data
    becomes an array of numbers. -/
def Value.json : Value → String
  | .double number => number.json
  | .string text => Quoted.quote text
  | .document fields => Json.object (jsonMembersOnto [] fields)
  | .array items => Json.array (jsonItemsOnto [] items)
  | .binary _ data => Json.array (data.map fun byte => toString byte.toNat)
  | .objectId id => Json.object [Json.member "$oid" (Quoted.quote (Hex.ofBytes id.bytes))]
  | .boolean flag => if flag then "true" else "false"
  | .date instant =>
    Json.object [Json.member "$date" (Json.object [Json.member "$numberLong" (toString instant.toStored)])]
  | .null => "null"
  | .regex pattern options =>
    Json.object [Json.member "$regex" (Quoted.quote pattern), Json.member "$options" (Quoted.quote options)]
  | .code source => Json.object [Json.member "$code" (Quoted.quote source)]
  | .codeWithScope source scope =>
    Json.object [Json.member "$code" (Quoted.quote source),
      Json.member "$scope" (Json.object (jsonMembersOnto [] scope))]
  | .int32 number => toString number.toInt
  | .timestamp stamp =>
    Json.object [Json.member "t" (toString stamp.time.toInt), Json.member "i" (toString stamp.increment.toInt)]
  | .int64 number => toString number.toInt
  | .symbol name => Json.object [Json.member "$symbol" (Quoted.quote name)]

/-- Fields as members of an object after those in `done`, whose last one comes first. -/
def jsonMembersOnto (done : List String) : List (String × Value) → List String
  | [] => done.reverse
  | (key, value) :: rest => jsonMembersOnto (Json.member key value.json :: done) rest

/-- Items of an array after those in `done`, whose last one comes first. -/
def jsonItemsOnto (done : List String) : List Value → List String
  | [] => done.reverse
  | item :: rest => jsonItemsOnto (item.json :: done) rest

end

/-- A document as compact JSON, fields in their order. -/
def Document.json (document : Document) : String :=
  Json.object (document.map fun field => Json.member field.1 field.2.json)

theorem jsonMembersOnto_eq (done : List String) (fields : List (String × Value)) :
    jsonMembersOnto done fields =
      done.reverse ++ fields.map fun field => Json.member field.1 field.2.json := by
  induction fields generalizing done with
  | nil => simp [jsonMembersOnto]
  | cons field rest ih => simp [jsonMembersOnto, ih]

theorem jsonItemsOnto_eq (done : List String) (items : List Value) :
    jsonItemsOnto done items = done.reverse ++ items.map Value.json := by
  induction items generalizing done with
  | nil => simp [jsonItemsOnto]
  | cons item rest ih => simp [jsonItemsOnto, ih]

theorem Value.json_document (fields : List (String × Value)) :
    (Value.document fields).json = Document.json fields := by
  simp [Value.json, jsonMembersOnto_eq, Document.json]

theorem Value.json_array (items : List Value) :
    (Value.array items).json = Json.array (items.map Value.json) := by
  simp [Value.json, jsonItemsOnto_eq]

/-- In an array, documents are shown as they are alone. -/
theorem Value.json_array_documents (documents : List Document) :
    (Value.array (documents.map .document)).json = Json.array (documents.map Document.json) := by
  rw [json_array, List.map_map]
  exact congrArg Json.array (List.map_congr_left fun document _ => json_document document)

end ReplyCapture
