import ReplyCapture.Proofs.Calendar.Instant
import ReplyCapture.Proofs.Document.Alignment
import ReplyCapture.Proofs.Document.Keys

namespace ReplyCapture

/-- The bytes of fields, one after the other. -/
def Document.fieldBytes (fields : Document) : Bytes :=
  fields.flatMap fun field => encodeField field.2.tag field.1 field.2.encode

theorem Document.fieldBytes_cons (key : String) (value : Value) (rest : Document) :
    fieldBytes ((key, value) :: rest) = encodeField value.tag key value.encode ++ fieldBytes rest :=
  List.flatMap_cons

/-- A document is written as a tree is: its length, its fields and a zero. -/
theorem Document.encode_eq (document : Document) : document.encode = selfSized (document.fieldBytes ++ [0]) := by
  rw [encode, frameFields, selfSized, List.length_append, List.length_singleton, List.append_assoc]
  rfl

theorem Document.length_encode (document : Document) : document.encode.length = document.fieldBytes.length + 5 := by
  rw [encode_eq, length_selfSized, List.length_append, List.length_singleton]

/-- A scope is written behind its text as a document of its own. -/
theorem Value.encode_codeWithScope (source : String) (scope : Document) :
    (Value.codeWithScope source scope).encode = selfSized (wireText (Utf8.encode source) ++ scope.encode) := by
  rw [Value.encode, fieldBytesOnto_eq, List.reverse_nil, List.nil_append, Document.encode, List.flatMap_def]
  rfl

/-- A field takes two bytes beside its key and its value, the tag and the zero behind the key. -/
theorem length_encodeField (tag : Tag) (key : String) (value : Bytes) :
    (encodeField tag key value).length = (Utf8.encode key).length + 2 + value.length := by
  simp only [encodeField, encodeName, List.length_append, List.length_cons, List.length_nil]

mutual

/-- How deep documents, arrays and scopes are nested in a value, its own level counted. -/
def Value.depth : Value → Nat
  | .document fields => Document.depth fields + 1
  | .array items => Value.depthAll items + 1
  | .codeWithScope _ scope => Document.depth scope + 1
  | _ => 0

/-- How deep documents, arrays and scopes are nested below a document. -/
def Document.depth : Document → Nat
  | [] => 0
  | (_, value) :: rest => max value.depth (Document.depth rest)

/-- How deep documents, arrays and scopes are nested below an array. -/
def Value.depthAll : List Value → Nat
  | [] => 0
  | item :: rest => max item.depth (Value.depthAll rest)

end

mutual

/-- A value that is read back from its bytes: the keys of each document in it are distinct, no name in it holds the
    character that ends names, and each of its dates is stored without loss. -/
def Value.Storable : Value → Prop
  | .document fields => (fields.map Prod.fst).Nodup ∧ Document.FieldsStorable fields
  | .array items => Value.AllStorable items
  | .date instant => instant.Storable
  | .regex pattern options => Utf8.NulFree pattern ∧ Utf8.NulFree options
  | .codeWithScope _ scope => (scope.map Prod.fst).Nodup ∧ Document.FieldsStorable scope
  | _ => True

/-- Every key and value of a document is storable. -/
def Document.FieldsStorable : Document → Prop
  | [] => True
  | (key, value) :: rest => Utf8.NulFree key ∧ value.Storable ∧ Document.FieldsStorable rest

/-- Every item of an array is storable. -/
def Value.AllStorable : List Value → Prop
  | [] => True
  | item :: rest => item.Storable ∧ Value.AllStorable rest

end

/-- A document that is read back from its bytes. -/
def Document.Storable (document : Document) : Prop :=
  (document.map Prod.fst).Nodup ∧ document.FieldsStorable

/-- A tree with the bytes of a value, nested as deep, that is read as the value. -/
structure WireValue.LaysOut (wire : WireValue) (value : Value) : Prop where
  tag : wire.tag = value.tag
  encode : wire.encode = value.encode
  depth : wire.depth = value.depth
  read : wire.read = .ok value

/-- Fields of a tree with the bytes of fields of a document, nested as deep, that are read as these. -/
structure WireDocument.LaysOut (wire : WireDocument) (fields : Document) : Prop where
  fieldBytes : wire.fieldBytes = fields.fieldBytes
  depth : wire.depth = fields.depth
  read : wire.readFields = .ok fields

/-- Fields of a tree with the bytes of an array's items from this index on, nested as deep, that are read as these. -/
structure WireDocument.LaysOutItems (wire : WireDocument) (index : Nat) (items : List Value) : Prop where
  fieldBytes : wire.fieldBytes = (numberedFields index items).fieldBytes
  depth : wire.depth = Value.depthAll items
  read : wire.readItems index = .ok items

/-- The name that a text is written as. -/
def WireName.ofText (text : String) (hfree : Utf8.NulFree text) : WireName :=
  ⟨Utf8.encode text, Utf8.zero_notMem_encode_iff.mpr hfree⟩

/-- The name that a text is written as is read as that text. -/
theorem WireName.read_ofText {text : String} (hfree : Utf8.NulFree text) : (ofText text hfree).read = .ok text :=
  read_eq_ok_iff.mpr rfl

theorem LittleEndian.encodeWord_inj {word other : UInt32} (hbytes : encodeWord word = encodeWord other) :
    word = other := by
  have hsame : encodeWord word ++ [] = encodeWord other ++ [] := by rw [hbytes]
  exact (encodeWord_append_inj hsame).1

/-- Every timestamp is that of some long word, of which the increment is the lower half. -/
theorem Timestamp.exists_word (stamp : Timestamp) :
    ∃ word, LittleEndian.encodeLong word =
        LittleEndian.encodeWord stamp.increment.toUInt32 ++ LittleEndian.encodeWord stamp.time.toUInt32 ∧
      ofWord word = stamp := by
  have hlength : (LittleEndian.encodeWord stamp.increment.toUInt32 ++
      LittleEndian.encodeWord stamp.time.toUInt32).length = 8 := by simp
  have hlong := LittleEndian.encodeLong_decodeLong hlength
  refine ⟨_, hlong, ?_⟩
  have hhalves := hlong
  rw [LittleEndian.encodeLong_eq_append] at hhalves
  obtain ⟨hincrement, htime⟩ := LittleEndian.encodeWord_append_inj hhalves
  rw [ofWord, hincrement, LittleEndian.encodeWord_inj htime]
  rfl

/-- The digits of an index hold no zero. -/
theorem nulFree_toString (index : Nat) : Utf8.NulFree (toString index) := by
  intro hzero
  rw [Nat.toString_eq_ofList_toDigits, String.toList_ofList] at hzero
  have hdigit := Digits.isDigit_of_mem hzero
  cases hdigit

/-- A date that is stored without loss is read back from what is stored. -/
theorem readWireDate_toStored {instant : Instant} (hstorable : instant.Storable) :
    readWireDate (Int64.ofInt instant.toStored).toUInt64 = .ok instant := by
  obtain ⟨hleast, hgreatest⟩ := Instant.toStored_range hstorable
  rw [readWireDate_eq_ok_iff, Int64.toInt64_toUInt64, Int64.toInt_ofInt_of_le hleast hgreatest]
  exact Instant.ofStored?_toStored hstorable

theorem readWireText_encode (text : String) : readWireText (Utf8.encode text) = .ok text :=
  readWireText_eq_ok_iff.mpr rfl

mutual

/-- A storable value that is not too large is laid out by some tree. -/
theorem Value.exists_layout (value : Value) (hstorable : value.Storable) (hsize : value.encode.length < declarable) :
    ∃ wire : WireValue, wire.LaysOut value := by
  cases value with
  | double number => exact ⟨.double number.bits, rfl, rfl, rfl, rfl⟩
  | string text =>
    refine ⟨.string (Utf8.encode text), rfl, rfl, rfl, ?_⟩
    rw [WireValue.read, readWireText_encode]
    rfl
  | document fields =>
    rw [Value.encode_document, Document.length_encode] at hsize
    obtain ⟨wire, hbytes, hdepth, hread⟩ := Document.exists_layout fields hstorable.2 (by omega)
    refine ⟨.document wire, rfl, ?_, ?_, ?_⟩
    · rw [WireValue.encode, hbytes, Value.encode_document, Document.encode_eq]
    · rw [WireValue.depth, hdepth, Value.depth]
    · rw [WireValue.read, bind_eq_ok_iff]
      refine ⟨fields, hread, ?_⟩
      rw [Document.ofFields_of_nodup hstorable.1]
      rfl
  | array items =>
    rw [Value.encode_array, Document.length_encode] at hsize
    obtain ⟨wire, hbytes, hdepth, hread⟩ := Value.exists_layoutAll items 0 hstorable (by omega)
    refine ⟨.array wire, rfl, ?_, ?_, ?_⟩
    · rw [WireValue.encode, hbytes, Value.encode_array, Document.encode_eq]
    · rw [WireValue.depth, hdepth, Value.depth]
    · rw [WireValue.read, hread]
      rfl
  | binary subtype data => exact ⟨.binary subtype data, rfl, rfl, rfl, rfl⟩
  | objectId id => exact ⟨.objectId id, rfl, rfl, rfl, rfl⟩
  | boolean flag =>
    refine ⟨.boolean (if flag then 1 else 0), rfl, rfl, rfl, ?_⟩
    cases flag <;> rfl
  | date instant =>
    refine ⟨.date (Int64.ofInt instant.toStored).toUInt64, rfl, rfl, rfl, ?_⟩
    rw [WireValue.read, readWireDate_toStored hstorable]
    rfl
  | null => exact ⟨.null, rfl, rfl, rfl, rfl⟩
  | regex pattern options =>
    refine ⟨.regex (.ofText pattern hstorable.1) (.ofText options hstorable.2), rfl, rfl, rfl, ?_⟩
    rw [WireValue.read, WireName.read_ofText, WireName.read_ofText]
    rfl
  | code source =>
    refine ⟨.code (Utf8.encode source), rfl, rfl, rfl, ?_⟩
    rw [WireValue.read, readWireText_encode]
    rfl
  | codeWithScope source scope =>
    rw [Value.encode_codeWithScope, length_selfSized, List.length_append, Document.length_encode] at hsize
    obtain ⟨wire, hbytes, hdepth, hread⟩ := Document.exists_layout scope hstorable.2 (by omega)
    refine ⟨.codeWithScope (Utf8.encode source) wire, rfl, ?_, ?_, ?_⟩
    · rw [WireValue.encode, hbytes, Value.encode_codeWithScope, Document.encode_eq]
    · rw [WireValue.depth, hdepth, Value.depth]
    · simp only [WireValue.read, bind_eq_ok_iff]
      refine ⟨source, readWireText_encode source, scope, hread, ?_⟩
      rw [Document.ofFields_of_nodup hstorable.1]
      rfl
  | int32 number => exact ⟨.int32 number.toUInt32, rfl, rfl, rfl, rfl⟩
  | timestamp stamp =>
    obtain ⟨word, hbytes, hread⟩ := stamp.exists_word
    refine ⟨.timestamp word, rfl, hbytes, rfl, ?_⟩
    rw [WireValue.read, hread]
    rfl
  | int64 number => exact ⟨.int64 number.toUInt64, rfl, rfl, rfl, rfl⟩
  | symbol name =>
    refine ⟨.symbol (Utf8.encode name), rfl, rfl, rfl, ?_⟩
    rw [WireValue.read, readWireText_encode]
    rfl

/-- So are fields. Their keys need not be distinct for that: the tree has every field, and which of them a document
    keeps is another matter. -/
theorem Document.exists_layout (fields : Document) (hstorable : fields.FieldsStorable)
    (hsize : fields.fieldBytes.length < declarable) : ∃ wire : WireDocument, wire.LaysOut fields := by
  cases fields with
  | nil => exact ⟨[], rfl, rfl, rfl⟩
  | cons field rest =>
    obtain ⟨key, value⟩ := field
    obtain ⟨hkey, hvalue, hrest⟩ := hstorable
    rw [Document.fieldBytes_cons, List.length_append, length_encodeField] at hsize
    obtain ⟨first, htag, hbytes, hdepth, hread⟩ := Value.exists_layout value hvalue (by omega)
    obtain ⟨later, hlaterBytes, hlaterDepth, hlaterRead⟩ := Document.exists_layout rest hrest (by omega)
    refine ⟨(.ofText key hkey, first) :: later, ?_, ?_, ?_⟩
    · rw [WireDocument.fieldBytes, htag, hbytes, hlaterBytes, Document.fieldBytes_cons]
      rfl
    · rw [WireDocument.depth, hdepth, hlaterDepth, Document.depth]
    · rw [WireDocument.readFields, WireName.read_ofText, hread, hlaterRead]
      rfl

/-- And so are items, from any index on that leaves room to count them. -/
theorem Value.exists_layoutAll (items : List Value) (index : Nat) (hstorable : Value.AllStorable items)
    (hsize : (numberedFields index items).fieldBytes.length + index < declarable) :
    ∃ wire : WireDocument, wire.LaysOutItems index items := by
  cases items with
  | nil => exact ⟨[], rfl, rfl, rfl⟩
  | cons item rest =>
    obtain ⟨hitem, hrest⟩ := hstorable
    rw [numberedFields, Document.fieldBytes_cons, List.length_append, length_encodeField] at hsize
    obtain ⟨first, htag, hbytes, hdepth, hread⟩ := Value.exists_layout item hitem (by omega)
    obtain ⟨later, hlaterBytes, hlaterDepth, hlaterRead⟩ := Value.exists_layoutAll rest (index + 1) hrest (by omega)
    -- Each item takes two bytes at least, so the bytes also bound the index.
    have hindex : index < UInt64.size := Nat.lt_trans (by omega) (show declarable < UInt64.size by decide)
    refine ⟨(.ofText (toString index) (nulFree_toString index), first) :: later, ?_, ?_, ?_⟩
    · rw [WireDocument.fieldBytes, htag, hbytes, hlaterBytes, numberedFields, Document.fieldBytes_cons]
      rfl
    · rw [WireDocument.depth, hdepth, hlaterDepth, Value.depthAll]
    · simp only [WireDocument.readItems, bind_eq_ok_iff, guard_eq_ok_iff, pure_eq_ok_iff]
      exact ⟨_, WireName.read_ofText _, not_not_intro (arrayIndex?_toString hindex), item, hread, rest, hlaterRead, rfl⟩

end

/-- A storable document that is not too large is laid out by some tree. -/
theorem Document.exists_tree {document : Document} (hstorable : document.Storable)
    (hsize : document.encode.length < declarable) :
    ∃ wire : WireDocument, wire.encode = document.encode ∧ wire.depth = document.depth ∧ wire.read = .ok document := by
  rw [Document.length_encode] at hsize
  obtain ⟨wire, hbytes, hdepth, hread⟩ := document.exists_layout hstorable.2 (by omega)
  refine ⟨wire, ?_, hdepth, ?_⟩
  · rw [WireDocument.encode, hbytes, Document.encode_eq]
  · rw [WireDocument.read, bind_eq_ok_iff]
    exact ⟨document, hread, congrArg Except.ok (Document.ofFields_of_nodup hstorable.1)⟩

namespace RawDocument

/-- A storable document within the bounds is read back from the bytes it is kept as. -/
theorem toDocument_of_storable {document : Document} (hstorable : document.Storable)
    (hsize : document.encode.length < declarable) (hdepth : document.depth ≤ nestingLimit) :
    (ofDocument document).toDocument = .ok document := by
  obtain ⟨wire, hbytes, hnested, hread⟩ := Document.exists_tree hstorable hsize
  rw [ofDocument, ← hbytes, toDocument_encode (hnested ▸ hdepth) (hbytes ▸ hsize), hread]

/-- Bytes that can be read may be kept, and are kept as they are. -/
theorem ofBytes_of_toDocument {raw : RawDocument} {document : Document} (hread : raw.toDocument = .ok document) :
    ofBytes raw.bytes = .ok raw :=
  ofBytes_eq_ok_iff.mpr ⟨⟨document, hread⟩, rfl⟩

end RawDocument

end ReplyCapture
