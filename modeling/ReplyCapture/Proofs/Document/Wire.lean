import ReplyCapture.Document.Encode

namespace ReplyCapture

/-- The bytes of the sixteen tags. -/
def tagBytes : List UInt8 :=
  [1, 2, 3, 4, 5, 7, 8, 9, 10, 11, 13, 14, 15, 16, 17, 18]

/-- A byte that is not listed belongs to no tag. -/
theorem Tag.ofByte?_eq_none {byte : UInt8} (hbyte : byte ∉ tagBytes) : Tag.ofByte? byte = none := by
  cases htag : Tag.ofByte? byte with
  | none => rfl
  | some tag =>
    obtain rfl := Tag.ofByte?_eq_some_iff.mp htag
    exact absurd (by cases tag <;> decide) hbyte

/-- A name as bytes, which need not be text. The zero that ends it on the wire is not among them. -/
structure WireName where
  bytes : Bytes
  zero_notMem : 0 ∉ bytes

/-- The bytes of a name and the zero that ends them. -/
def WireName.encode (name : WireName) : Bytes :=
  name.bytes ++ [0]

/-- A field: the tag of its value, its key and the value's bytes. -/
def wireField (tag : Tag) (name : WireName) (value : Bytes) : Bytes :=
  tag.toByte :: (name.encode ++ value)

/-- The bytes of a text and an ending zero, behind the number of them all. -/
def wireText (text : Bytes) : Bytes :=
  let bytes := text ++ [0]
  LittleEndian.encode 4 bytes.length ++ bytes

/-- A body behind the number of its bytes, those of the number counted. -/
def selfSized (body : Bytes) : Bytes :=
  LittleEndian.encode 4 (body.length + 4) ++ body

/-- A field's value as it is laid out on the wire, before any text, date or number in it is read.
    Lengths are left out: they follow from what they count. -/
inductive WireValue
  | double (word : UInt64)
  | string (text : Bytes)
  | document (fields : List (WireName × WireValue))
  | array (fields : List (WireName × WireValue))
  | binary (subtype : UInt8) (data : Bytes)
  | objectId (id : ObjectId)
  | boolean (byte : UInt8)
  | date (word : UInt64)
  | null
  | regex (pattern options : WireName)
  | code (text : Bytes)
  | codeWithScope (text : Bytes) (scope : List (WireName × WireValue))
  | int32 (word : UInt32)
  | timestamp (word : UInt64)
  | int64 (word : UInt64)
  | symbol (text : Bytes)

/-- Fields in wire order. A key may come more than once. -/
abbrev WireDocument := List (WireName × WireValue)

/-- The tag in front of a value's key. -/
def WireValue.tag : WireValue → Tag
  | .double _ => .double
  | .string _ => .string
  | .document _ => .document
  | .array _ => .array
  | .binary _ _ => .binary
  | .objectId _ => .objectId
  | .boolean _ => .boolean
  | .date _ => .date
  | .null => .null
  | .regex _ _ => .regex
  | .code _ => .code
  | .codeWithScope _ _ => .codeWithScope
  | .int32 _ => .int32
  | .timestamp _ => .timestamp
  | .int64 _ => .int64
  | .symbol _ => .symbol

mutual

/-- The bytes of a value, every length in them the true one. -/
def WireValue.encode : WireValue → Bytes
  | .double word | .date word | .timestamp word | .int64 word => LittleEndian.encodeLong word
  | .int32 word => LittleEndian.encodeWord word
  | .objectId id => id.bytes
  | .boolean byte => [byte]
  | .null => []
  | .string text | .code text | .symbol text => wireText text
  | .document fields | .array fields => selfSized (WireDocument.fieldBytes fields ++ [0])
  | .binary subtype data => LittleEndian.encode 4 data.length ++ subtype :: data
  | .regex pattern options => pattern.encode ++ options.encode
  | .codeWithScope text scope => selfSized (wireText text ++ selfSized (WireDocument.fieldBytes scope ++ [0]))

/-- The bytes of fields, one after the other. -/
def WireDocument.fieldBytes : WireDocument → Bytes
  | [] => []
  | (name, value) :: rest => wireField value.tag name value.encode ++ WireDocument.fieldBytes rest

end

mutual

/-- How deep documents, arrays and scopes are nested in a value, its own level counted. -/
def WireValue.depth : WireValue → Nat
  | .document fields | .array fields => WireDocument.depth fields + 1
  | .codeWithScope _ scope => WireDocument.depth scope + 1
  | _ => 0

/-- How deep documents, arrays and scopes are nested below a document. -/
def WireDocument.depth : WireDocument → Nat
  | [] => 0
  | (_, value) :: rest => max value.depth (WireDocument.depth rest)

end

/-- The bytes of a document: its length, its fields and a zero. -/
def WireDocument.encode (document : WireDocument) : Bytes :=
  selfSized (document.fieldBytes ++ [0])

/-- The lengths that can be declared: those that do not read as negative with a sign. -/
def declarable : Nat := 2147483648

namespace LittleEndian

/-- A word always takes four bytes, so that it ends where what follows it starts. -/
theorem encodeWord_append_inj {word other : UInt32} {rest more : Bytes}
    (hbytes : encodeWord word ++ rest = encodeWord other ++ more) : word = other ∧ rest = more := by
  have hread := word?_encodeWord_append word rest
  rw [hbytes, word?_encodeWord_append] at hread
  simpa [eq_comm] using hread

theorem encodeLong_append_inj {word other : UInt64} {rest more : Bytes}
    (hbytes : encodeLong word ++ rest = encodeLong other ++ more) : word = other ∧ rest = more := by
  obtain ⟨hlong, hrest⟩ := List.append_inj hbytes (by simp)
  refine ⟨?_, hrest⟩
  rw [← decodeLong_encodeLong word, hlong, decodeLong_encodeLong]

/-- A declarable length is read back whatever follows. -/
theorem encode_append_inj {length other : Nat} {rest more : Bytes} (hlength : length < declarable)
    (hother : other < declarable) (hbytes : encode 4 length ++ rest = encode 4 other ++ more) :
    length = other ∧ rest = more := by
  obtain ⟨hfront, hrest⟩ := List.append_inj hbytes (by simp)
  refine ⟨?_, hrest⟩
  have hbound : declarable < capacity 4 := by decide
  rw [← decode_encode (Nat.lt_trans hlength hbound), hfront, decode_encode (Nat.lt_trans hother hbound)]

/-- The words that do not read as negative are the lengths that can be declared. -/
theorem signed_eq_natCast_iff {word : UInt32} {length : Nat} :
    signed word = length ↔ length < declarable ∧ encodeWord word = encode 4 length := by
  have hbound := word.toNat_lt
  have hword : word.toNat < capacity 4 := hbound
  rw [signed_eq, encodeWord]
  constructor
  · intro hsigned
    split at hsigned
    · next hsmall =>
      have hlength : word.toNat = length := by omega
      exact ⟨hlength ▸ hsmall, by rw [hlength]⟩
    · omega
  · intro hword
    obtain ⟨hlength, hencode⟩ := hword
    have hcapacity : declarable < capacity 4 := by decide
    have hword : word.toNat = length := by
      rw [← decode_encode hword, hencode, decode_encode (Nat.lt_trans hlength hcapacity)]
    rw [if_pos (by rw [hword]; exact hlength), hword]

end LittleEndian

/-- A name ends at its first zero, so that it is told apart from whatever follows it. -/
theorem WireName.encode_append_inj {name other : WireName} {rest more : Bytes}
    (hbytes : name.encode ++ rest = other.encode ++ more) : name = other ∧ rest = more := by
  have hname : Bytes.splitZero? (name.encode ++ rest) = some (name.bytes, rest) :=
    Bytes.splitZero?_eq_some_iff.mpr ⟨name.zero_notMem, by simp [encode]⟩
  have hother : Bytes.splitZero? (other.encode ++ more) = some (other.bytes, more) :=
    Bytes.splitZero?_eq_some_iff.mpr ⟨other.zero_notMem, by simp [encode]⟩
  rw [hbytes, hother] at hname
  cases name
  cases other
  simpa [eq_comm] using hname

theorem ObjectId.ext {id other : ObjectId} (hbytes : id.bytes = other.bytes) : id = other := by
  cases id
  cases other
  simpa using hbytes

/-- A text takes five bytes more than it has, for its length and the ending zero. -/
theorem length_wireText (text : Bytes) : (wireText text).length = text.length + 5 := by
  simp [wireText]
  omega

/-- Texts are told apart by the lengths in front of them. A zero inside one ends nothing. -/
theorem wireText_append_inj {text other rest more : Bytes} (htext : (wireText text).length < declarable)
    (hother : (wireText other).length < declarable)
    (hbytes : wireText text ++ rest = wireText other ++ more) : text = other ∧ rest = more := by
  rw [length_wireText] at htext hother
  simp only [wireText, List.append_assoc] at hbytes
  obtain ⟨hlength, hbody⟩ := LittleEndian.encode_append_inj (by simp; omega) (by simp; omega) hbytes
  obtain ⟨rfl, hrest⟩ := List.append_inj hbody (by simpa using hlength)
  exact ⟨rfl, by simpa using hrest⟩

@[simp]
theorem length_selfSized (body : Bytes) : (selfSized body).length = body.length + 4 := by
  rw [selfSized, List.length_append, LittleEndian.length_encode, Nat.add_comm]

@[simp]
theorem drop_selfSized (body : Bytes) : (selfSized body).drop 4 = body := by
  rw [selfSized, List.drop_left' (by simp)]

/-- Bodies are told apart by the lengths in front of them, whatever they hold. -/
theorem selfSized_append_inj {body other rest more : Bytes} (hbody : (selfSized body).length < declarable)
    (hother : (selfSized other).length < declarable)
    (hbytes : selfSized body ++ rest = selfSized other ++ more) : body = other ∧ rest = more := by
  rw [length_selfSized] at hbody hother
  simp only [selfSized, List.append_assoc] at hbytes
  obtain ⟨hlength, hbodies⟩ := LittleEndian.encode_append_inj hbody hother hbytes
  exact List.append_inj hbodies (by omega)

@[simp]
theorem WireDocument.length_encode (document : WireDocument) :
    document.encode.length = document.fieldBytes.length + 5 := by
  rw [encode, length_selfSized, List.length_append, List.length_singleton]

/-- Code with a scope takes four bytes more than text and scope do, for the length of both. -/
theorem WireValue.length_encode_codeWithScope (text : Bytes) (scope : WireDocument) :
    (codeWithScope text scope).encode.length = (wireText text).length + scope.encode.length + 4 := by
  rw [encode, length_selfSized, List.length_append, WireDocument.encode]

/-- No field is nested deeper than its document is. -/
theorem WireDocument.depth_le_of_mem {fields : WireDocument} {field : WireName × WireValue}
    (hmem : field ∈ fields) : field.2.depth ≤ fields.depth := by
  induction fields with
  | nil => cases hmem
  | cons first rest ih =>
    rw [depth]
    cases hmem with
    | head => exact Nat.le_max_left _ _
    | tail _ hmem => exact Nat.le_trans (ih hmem) (Nat.le_max_right _ _)

/-- A field's value has fewer bytes than the fields together, since a tag stands in front of it. -/
theorem WireDocument.length_encode_lt_of_mem {fields : WireDocument} {field : WireName × WireValue}
    (hmem : field ∈ fields) : field.2.encode.length < fields.fieldBytes.length := by
  induction fields with
  | nil => cases hmem
  | cons first rest ih =>
    simp only [fieldBytes, wireField, List.length_cons, List.length_append]
    cases hmem with
    | head => omega
    | tail _ hmem =>
      have hrest := ih hmem
      omega

/-- There are no more fields than bytes. -/
theorem WireDocument.length_le_length_fieldBytes (fields : WireDocument) :
    fields.length ≤ fields.fieldBytes.length := by
  induction fields with
  | nil => exact Nat.zero_le _
  | cons first rest ih =>
    simp only [fieldBytes, wireField, List.length_cons, List.length_append]
    omega

mutual

/-- A value holds no more levels than it has bytes. -/
theorem WireValue.depth_le_length_encode (value : WireValue) : value.depth ≤ value.encode.length := by
  cases value with
  | document fields | array fields =>
    have hfields := WireDocument.depth_le_length_fieldBytes fields
    simp only [WireValue.depth, WireValue.encode, length_selfSized, List.length_append]
    omega
  | codeWithScope text scope =>
    have hscope := WireDocument.depth_le_length_fieldBytes scope
    simp only [WireValue.depth, WireValue.encode, length_selfSized, List.length_append]
    omega
  | double _ | string _ | binary _ _ | objectId _ | boolean _ | date _ | null | regex _ _ | code _ | int32 _
  | timestamp _ | int64 _ | symbol _ => exact Nat.zero_le _

/-- A document holds no more levels than it has bytes. -/
theorem WireDocument.depth_le_length_fieldBytes (fields : WireDocument) :
    fields.depth ≤ fields.fieldBytes.length := by
  cases fields with
  | nil => exact Nat.zero_le _
  | cons field rest =>
    have hfirst := WireValue.depth_le_length_encode field.2
    have hrest := WireDocument.depth_le_length_fieldBytes rest
    simp only [WireDocument.depth, WireDocument.fieldBytes, wireField, List.length_cons, List.length_append]
    omega

end

mutual

/-- Values under one tag are told apart by their bytes, whatever follows these. -/
theorem WireValue.encode_append_inj (value other : WireValue) {rest more : Bytes}
    (htag : value.tag = other.tag) (hvalue : value.encode.length < declarable)
    (hother : other.encode.length < declarable)
    (hbytes : value.encode ++ rest = other.encode ++ more) : value = other ∧ rest = more := by
  cases value with
  | double word | date word | timestamp word | int64 word =>
    cases other <;> cases htag
    simpa using LittleEndian.encodeLong_append_inj hbytes
  | int32 word =>
    cases other <;> cases htag
    simpa using LittleEndian.encodeWord_append_inj hbytes
  | objectId id =>
    cases other <;> cases htag
    next otherId =>
    obtain ⟨hid, hrest⟩ := List.append_inj hbytes (id.length_bytes.trans otherId.length_bytes.symm)
    exact ⟨congrArg WireValue.objectId (ObjectId.ext hid), hrest⟩
  | boolean byte =>
    cases other <;> cases htag
    simpa [WireValue.encode] using hbytes
  | null =>
    cases other <;> cases htag
    exact ⟨rfl, hbytes⟩
  | string text | code text | symbol text =>
    cases other <;> cases htag
    simpa using wireText_append_inj hvalue hother hbytes
  | document fields | array fields =>
    cases other <;> cases htag
    next otherFields =>
    obtain ⟨hbody, hrest⟩ := selfSized_append_inj hvalue hother hbytes
    simp only [WireValue.encode, length_selfSized, List.length_append] at hvalue hother
    have hfields := WireDocument.fieldBytes_append_inj fields otherFields (by omega) (by omega) hbody
    exact ⟨by rw [hfields.1], hrest⟩
  | binary subtype data =>
    cases other <;> cases htag
    next otherSubtype otherData =>
    simp only [WireValue.encode, List.append_assoc, List.length_append, List.length_cons] at hbytes hvalue hother
    obtain ⟨hlength, hbody⟩ := LittleEndian.encode_append_inj (by omega) (by omega) hbytes
    obtain ⟨hdata, hrest⟩ := List.append_inj hbody (by simpa using hlength)
    exact ⟨by simpa using hdata, hrest⟩
  | regex pattern options =>
    cases other <;> cases htag
    simp only [WireValue.encode, List.append_assoc] at hbytes
    obtain ⟨rfl, hoptions⟩ := WireName.encode_append_inj hbytes
    obtain ⟨rfl, hrest⟩ := WireName.encode_append_inj hoptions
    exact ⟨rfl, hrest⟩
  | codeWithScope text scope =>
    cases other <;> cases htag
    next otherText otherScope =>
    obtain ⟨hbody, hrest⟩ := selfSized_append_inj hvalue hother hbytes
    simp only [WireValue.encode, length_selfSized, List.length_append] at hvalue hother
    obtain ⟨htext, hscope⟩ := wireText_append_inj (by omega) (by omega) hbody
    have hfields := congrArg (List.drop 4) hscope
    rw [drop_selfSized, drop_selfSized] at hfields
    have hfields := WireDocument.fieldBytes_append_inj scope otherScope (by omega) (by omega) hfields
    exact ⟨by rw [htext, hfields.1], hrest⟩

/-- Fields are told apart by their bytes and the zero behind them, since no tag is zero. -/
theorem WireDocument.fieldBytes_append_inj (fields other : WireDocument) {rest more : Bytes}
    (hfields : fields.fieldBytes.length < declarable) (hother : other.fieldBytes.length < declarable)
    (hbytes : fields.fieldBytes ++ 0 :: rest = other.fieldBytes ++ 0 :: more) :
    fields = other ∧ rest = more := by
  cases fields with
  | nil =>
    cases other with
    | nil => simpa [WireDocument.fieldBytes] using hbytes
    | cons field tail =>
      simp only [WireDocument.fieldBytes, wireField, List.nil_append, List.cons_append, List.cons.injEq] at hbytes
      exact absurd hbytes.1.symm (Tag.toByte_ne_zero _)
  | cons field tail =>
    obtain ⟨name, value⟩ := field
    cases other with
    | nil =>
      simp only [WireDocument.fieldBytes, wireField, List.nil_append, List.cons_append, List.cons.injEq] at hbytes
      exact absurd hbytes.1 (Tag.toByte_ne_zero _)
    | cons otherField otherTail =>
      obtain ⟨otherName, otherValue⟩ := otherField
      simp only [WireDocument.fieldBytes, wireField, List.length_cons, List.length_append] at hfields hother
      simp only [WireDocument.fieldBytes, wireField, List.cons_append, List.append_assoc, List.cons.injEq] at hbytes
      obtain ⟨htag, hbody⟩ := hbytes
      have htag : value.tag = otherValue.tag := by
        have hread := Tag.ofByte?_toByte value.tag
        rw [htag, Tag.ofByte?_toByte] at hread
        simpa [eq_comm] using hread
      obtain ⟨rfl, hvalues⟩ := WireName.encode_append_inj hbody
      obtain ⟨rfl, htails⟩ := WireValue.encode_append_inj value otherValue htag (by omega) (by omega) hvalues
      obtain ⟨rfl, hrest⟩ := WireDocument.fieldBytes_append_inj tail otherTail (by omega) (by omega) htails
      exact ⟨rfl, hrest⟩

end

/-- A document's bytes determine it. -/
theorem WireDocument.encode_inj {document other : WireDocument}
    (hsize : document.encode.length < declarable) (hbytes : document.encode = other.encode) :
    document = other := by
  have hother := hbytes ▸ hsize
  have hbody := congrArg (List.drop 4) hbytes
  simp only [encode, drop_selfSized, length_selfSized, List.length_append] at hsize hother hbody
  exact (fieldBytes_append_inj document other (by omega) (by omega) hbody).1

end ReplyCapture
