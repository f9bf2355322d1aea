import ReplyCapture.Bytes.Hex
import ReplyCapture.Document.Value
import ReplyCapture.Number.Layout

namespace ReplyCapture

/-- Numbers in messages never carry an exponent, and whole ones no fraction. -/
def messageNumber : NumberLayout := ⟨.up, none, false⟩

/-- A number as messages show it. -/
def Binary64.text (number : Binary64) : String :=
  match number.meaning with
  | .finite negative significand exponent => messageNumber.finite negative significand exponent
  | .infinite negative => if negative then "-inf" else "inf"
  | .notANumber => "NaN"

/-- A field, key and value parted by a colon. -/
def fieldText (key value : String) : String :=
  key ++ ": " ++ value

/-- The texts of items in brackets. -/
def bracketed (items : List String) : String :=
  "[" ++ ", ".intercalate items ++ "]"

/-- The texts of fields in braces; an empty document has no blanks inside. -/
def braced (fields : List String) : String :=
  match fields with
  | [] => "\x7b\x7d"
  | fields => "\x7b " ++ ", ".intercalate fields ++ " \x7d"

mutual

/-- A value as messages show it. Strings stand in quotes but are not escaped. -/
def Value.text : Value → String
  | .double number => number.text
  | .string text => "\"" ++ text ++ "\""
  | .document fields => braced (fieldTextsOnto [] fields)
  | .array items => bracketed (itemTextsOnto [] items)
  | .binary subtype data => "BinData(" ++ toString subtype.toNat ++ ", 0x" ++ Hex.ofBytes data ++ ")"
  | .objectId id => "ObjectId(\"" ++ Hex.ofBytes id.bytes ++ "\")"
  | .boolean flag => if flag then "true" else "false"
  | .date instant => "Date(\"" ++ instant.text ++ "\")"
  | .null => "null"
  | .regex pattern options => "/" ++ pattern ++ "/" ++ options
  | .code source => source
  | .codeWithScope source _ => source
  | .int32 number => toString number.toInt
  | .timestamp stamp =>
    "Timestamp(" ++ toString stamp.time.toInt ++ ", " ++ toString stamp.increment.toInt ++ ")"
  | .int64 number => toString number.toInt
  | .symbol name => "Symbol(\"" ++ name ++ "\")"

/-- The texts of fields after those in `done`, whose last one comes first. -/
def fieldTextsOnto (done : List String) : List (String × Value) → List String
  | [] => done.reverse
  | (key, value) :: rest => fieldTextsOnto (fieldText key value.text :: done) rest

/-- The texts of items after those in `done`, whose last one comes first. -/
def itemTextsOnto (done : List String) : List Value → List String
  | [] => done.reverse
  | item :: rest => itemTextsOnto (item.text :: done) rest

end

/-- A document as messages show it. -/
def Document.text (document : Document) : String :=
  braced (document.map fun field => fieldText field.1 field.2.text)

theorem fieldTextsOnto_eq (done : List String) (fields : List (String × Value)) :
    fieldTextsOnto done fields =
      done.reverse ++ fields.map fun field => fieldText field.1 field.2.text := by
  induction fields generalizing done with
  | nil => simp [fieldTextsOnto]
  | cons field rest ih => simp [fieldTextsOnto, ih]

theorem itemTextsOnto_eq (done : List String) (items : List Value) :
    itemTextsOnto done items = done.reverse ++ items.map Value.text := by
  induction items generalizing done with
  | nil => simp [itemTextsOnto]
  | cons item rest ih => simp [itemTextsOnto, ih]

/-- A document inside another one is shown as it is alone. -/
theorem Value.text_document (fields : List (String × Value)) :
    (Value.document fields).text = Document.text fields := by
  simp [Value.text, fieldTextsOnto_eq, Document.text]

theorem Value.text_array (items : List Value) :
    (Value.array items).text = bracketed (items.map Value.text) := by
  simp [Value.text, itemTextsOnto_eq]

end ReplyCapture
