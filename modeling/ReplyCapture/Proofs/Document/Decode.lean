import ReplyCapture.Document.Decode
import ReplyCapture.Proofs.Document.Wire
import ReplyCapture.Proofs.Text.Utf8

namespace ReplyCapture

/-- The text of a key or of a part of a regular expression. -/
def WireName.read (name : WireName) : Except DecodeError String :=
  (Utf8.decode name.bytes).mapError .invalidName

/-- The text of a string, code or symbol. -/
def readWireText (text : Bytes) : Except DecodeError String :=
  (Utf8.decode text).mapError fun _ => .invalidText

/-- The instant that a stored date names. -/
def readWireDate (word : UInt64) : Except DecodeError Instant :=
  match Instant.ofStored? word.toInt64.toInt with
  | some instant => .ok instant
  | none => .error (.noSuchInstant word.toInt64.toInt)

mutual

/-- What a value stands for, or the first of its parts in wire order that stands for nothing. -/
def WireValue.read : WireValue → Except DecodeError Value
  | .double word => return .double ⟨word⟩
  | .string text => return .string (← readWireText text)
  | .document fields => return .document (Document.ofFields (← WireDocument.readFields fields))
  | .array fields => return .array (← WireDocument.readItems 0 fields)
  | .binary subtype data => return .binary subtype data
  | .objectId id => return .objectId id
  | .boolean byte => return .boolean (byte != 0)
  | .date word => return .date (← readWireDate word)
  | .null => return .null
  | .regex pattern options => do
    let pattern ← pattern.read
    return .regex pattern (← options.read)
  | .code text => return .code (← readWireText text)
  | .codeWithScope text scope => do
    let text ← readWireText text
    return .codeWithScope text (Document.ofFields (← WireDocument.readFields scope))
  | .int32 word => return .int32 word.toInt32
  | .timestamp word => return .timestamp (Timestamp.ofWord word)
  | .int64 word => return .int64 word.toInt64
  | .symbol text => return .symbol (← readWireText text)

/-- The fields of a document, each key read before its value. -/
def WireDocument.readFields : WireDocument → Except DecodeError (List (String × Value))
  | [] => return []
  | (name, value) :: rest => do
    let key ← name.read
    let item ← value.read
    return (key, item) :: (← WireDocument.readFields rest)

/-- The items of an array from the one with this index on. Each key must count its item. -/
def WireDocument.readItems (index : Nat) : WireDocument → Except DecodeError (List Value)
  | [] => return []
  | (name, value) :: rest => do
    let key ← name.read
    if arrayIndex? key ≠ some index then throw (.arrayKey index key)
    let item ← value.read
    return item :: (← WireDocument.readItems (index + 1) rest)

end

/-- What a document stands for. -/
def WireDocument.read (document : WireDocument) : Except DecodeError Document :=
  return Document.ofFields (← document.readFields)

theorem WireValue.read_document (fields : WireDocument) :
    (WireValue.document fields).read = do return .document (← fields.read) := by
  simp [WireValue.read, WireDocument.read]

/-- The scope is read as a document of its own, repeated keys included. -/
theorem WireValue.read_codeWithScope (text : Bytes) (scope : WireDocument) :
    (WireValue.codeWithScope text scope).read = do
      let text ← readWireText text
      return .codeWithScope text (← scope.read) := by
  simp [WireValue.read, WireDocument.read]

/-- The keys of an array count its items from this index on. -/
def WireDocument.Counted (index : Nat) : WireDocument → Prop
  | [] => True
  | (name, _) :: rest =>
    (∃ key, Utf8.encode key = name.bytes ∧ arrayIndex? key = some index) ∧ WireDocument.Counted (index + 1) rest

/-- Bytes that are some text in UTF-8. -/
def Utf8.Valid (bytes : Bytes) : Prop :=
  ∃ text, Utf8.encode text = bytes

mutual

/-- Every key, text and date in a value stands for something, and the keys of every array in it count its
    items. -/
def WireValue.Readable : WireValue → Prop
  | .string text | .code text | .symbol text => Utf8.Valid text
  | .document fields => WireDocument.Readable fields
  | .array fields => WireDocument.Readable fields ∧ WireDocument.Counted 0 fields
  | .date word => (Instant.ofStored? word.toInt64.toInt).isSome
  | .regex pattern options => Utf8.Valid pattern.bytes ∧ Utf8.Valid options.bytes
  | .codeWithScope text scope => Utf8.Valid text ∧ WireDocument.Readable scope
  | _ => True

/-- Every key and value of a document is readable. -/
def WireDocument.Readable : WireDocument → Prop
  | [] => True
  | (name, value) :: rest => Utf8.Valid name.bytes ∧ value.Readable ∧ WireDocument.Readable rest

end

/-- An error about what a well-formed part holds, not about where it stands or ends. -/
def DecodeError.IsContent : DecodeError → Prop
  | .invalidName _ | .invalidText | .arrayKey _ _ | .noSuchInstant _ => True
  | .misfit _ | .unknownTag _ | .wrongType _ | .endOfInput | .io _ => False

/-- A name has one reading at most: the text that is written as its bytes. -/
theorem WireName.read_eq_ok_iff {name : WireName} {key : String} :
    name.read = .ok key ↔ Utf8.encode key = name.bytes := by
  rw [WireName.read, mapError_eq_ok_iff, Utf8.decode_eq_ok_iff]

theorem readWireText_eq_ok_iff {text : Bytes} {result : String} :
    readWireText text = .ok result ↔ Utf8.encode result = text := by
  rw [readWireText, mapError_eq_ok_iff, Utf8.decode_eq_ok_iff]

/-- A stored date is read where it names an instant, and as that one. -/
theorem readWireDate_eq_ok_iff {word : UInt64} {instant : Instant} :
    readWireDate word = .ok instant ↔ Instant.ofStored? word.toInt64.toInt = some instant := by
  unfold readWireDate
  split <;> simp [*]

mutual

/-- A value stands for something exactly when all its parts do. -/
theorem WireValue.exists_read_iff (value : WireValue) : (∃ item, value.read = .ok item) ↔ value.Readable := by
  cases value with
  | string text | code text | symbol text =>
    simp only [WireValue.read, exists_bind_pure_eq_ok_iff, readWireText_eq_ok_iff, WireValue.Readable, Utf8.Valid]
  | document fields =>
    simp only [WireValue.read, exists_bind_pure_eq_ok_iff, WireValue.Readable]
    exact WireDocument.exists_readFields_iff fields
  | array fields =>
    simp only [WireValue.read, exists_bind_pure_eq_ok_iff, WireValue.Readable]
    exact WireDocument.exists_readItems_iff 0 fields
  | date word =>
    simp only [WireValue.read, exists_bind_pure_eq_ok_iff, readWireDate_eq_ok_iff, WireValue.Readable,
      Option.isSome_iff_exists]
  | regex pattern options =>
    simp only [WireValue.read, exists_bind_eq_ok_iff, exists_pure_eq_ok, and_true, WireName.read_eq_ok_iff,
      exists_and_right, WireValue.Readable, Utf8.Valid]
  | codeWithScope text scope =>
    simp only [WireValue.read, exists_bind_eq_ok_iff, exists_pure_eq_ok, and_true, readWireText_eq_ok_iff,
      exists_and_right, WireValue.Readable, Utf8.Valid, WireDocument.exists_readFields_iff scope]
  | double _ | binary _ _ | objectId _ | boolean _ | null | int32 _ | timestamp _ | int64 _ =>
    simp only [WireValue.read, exists_pure_eq_ok, WireValue.Readable]

/-- The fields of a document stand for something exactly when each key and each value does. That a key is repeated is no
    obstacle. -/
theorem WireDocument.exists_readFields_iff (fields : WireDocument) :
    (∃ read, fields.readFields = .ok read) ↔ fields.Readable := by
  cases fields with
  | nil => simp only [WireDocument.readFields, exists_pure_eq_ok, WireDocument.Readable]
  | cons field rest =>
    obtain ⟨name, value⟩ := field
    simp only [WireDocument.readFields, exists_bind_eq_ok_iff, exists_pure_eq_ok, and_true, WireName.read_eq_ok_iff,
      exists_and_right, WireDocument.Readable, Utf8.Valid, WireValue.exists_read_iff value,
      WireDocument.exists_readFields_iff rest]

/-- For items, the keys must also count them from the given index on. -/
theorem WireDocument.exists_readItems_iff (index : Nat) (fields : WireDocument) :
    (∃ read, fields.readItems index = .ok read) ↔ fields.Readable ∧ fields.Counted index := by
  cases fields with
  | nil => simp only [WireDocument.readItems, exists_pure_eq_ok, WireDocument.Readable, WireDocument.Counted, and_true]
  | cons field rest =>
    obtain ⟨name, value⟩ := field
    simp only [WireDocument.readItems, exists_bind_eq_ok_iff, exists_pure_eq_ok, and_true, guard_eq_ok_iff,
      WireName.read_eq_ok_iff, exists_and_right, exists_and_left, WireDocument.Readable, WireDocument.Counted,
      Utf8.Valid, WireValue.exists_read_iff value, WireDocument.exists_readItems_iff (index + 1) rest]
    constructor
    · intro hread
      obtain ⟨key, hkey, hcounts, hvalue, hrest, hlater⟩ := hread
      exact ⟨⟨⟨key, hkey⟩, hvalue, hrest⟩, ⟨key, hkey, Decidable.not_not.mp hcounts⟩, hlater⟩
    · intro hreadable
      obtain ⟨⟨_, hvalue, hrest⟩, ⟨key, hkey, hcounts⟩, hlater⟩ := hreadable
      exact ⟨key, hkey, not_not_intro hcounts, hvalue, hrest, hlater⟩

end

theorem WireName.isContent_of_read {name : WireName} {error : DecodeError} (hread : name.read = .error error) :
    error.IsContent := by
  obtain ⟨fault, _, rfl⟩ := mapError_eq_error_iff.mp hread
  trivial

theorem isContent_of_readWireText {text : Bytes} {error : DecodeError} (hread : readWireText text = .error error) :
    error.IsContent := by
  obtain ⟨fault, _, rfl⟩ := mapError_eq_error_iff.mp hread
  trivial

theorem isContent_of_readWireDate {word : UInt64} {error : DecodeError} (hread : readWireDate word = .error error) :
    error.IsContent := by
  unfold readWireDate at hread
  split at hread
  · cases hread
  · cases hread
    trivial

mutual

/-- A value that stands for nothing fails by what one of its parts holds. -/
theorem WireValue.isContent_of_read (value : WireValue) {error : DecodeError} (hread : value.read = .error error) :
    error.IsContent := by
  cases value with
  | string text | code text | symbol text =>
    rw [WireValue.read, bind_pure_eq_error_iff] at hread
    exact isContent_of_readWireText hread
  | document fields =>
    rw [WireValue.read, bind_pure_eq_error_iff] at hread
    exact WireDocument.isContent_of_readFields fields hread
  | array fields =>
    rw [WireValue.read, bind_pure_eq_error_iff] at hread
    exact WireDocument.isContent_of_readItems 0 fields hread
  | date word =>
    rw [WireValue.read, bind_pure_eq_error_iff] at hread
    exact isContent_of_readWireDate hread
  | regex pattern options =>
    rw [WireValue.read, bind_eq_error_iff] at hread
    simp only [bind_pure_eq_error_iff] at hread
    obtain hpattern | ⟨_, _, hoptions⟩ := hread
    · exact WireName.isContent_of_read hpattern
    · exact WireName.isContent_of_read hoptions
  | codeWithScope text scope =>
    rw [WireValue.read, bind_eq_error_iff] at hread
    simp only [bind_pure_eq_error_iff] at hread
    obtain htext | ⟨_, _, hscope⟩ := hread
    · exact isContent_of_readWireText htext
    · exact WireDocument.isContent_of_readFields scope hscope
  | double _ | binary _ _ | objectId _ | boolean _ | null | int32 _ | timestamp _ | int64 _ => cases hread

/-- Fields that stand for nothing fail by a key that is no text or by what a value holds. -/
theorem WireDocument.isContent_of_readFields (fields : WireDocument) {error : DecodeError}
    (hread : fields.readFields = .error error) : error.IsContent := by
  cases fields with
  | nil => cases hread
  | cons field rest =>
    obtain ⟨name, value⟩ := field
    simp only [WireDocument.readFields, bind_eq_error_iff, pure_ne_error, and_false, exists_false, or_false] at hread
    obtain hname | ⟨_, _, hvalue | ⟨_, _, hrest⟩⟩ := hread
    · exact WireName.isContent_of_read hname
    · exact WireValue.isContent_of_read value hvalue
    · exact WireDocument.isContent_of_readFields rest hrest

/-- Items may also fail by a key that counts another one. -/
theorem WireDocument.isContent_of_readItems (index : Nat) (fields : WireDocument) {error : DecodeError}
    (hread : fields.readItems index = .error error) : error.IsContent := by
  cases fields with
  | nil => cases hread
  | cons field rest =>
    obtain ⟨name, value⟩ := field
    simp only [WireDocument.readItems, bind_eq_error_iff, guard_eq_error_iff, pure_ne_error, and_false, exists_false,
      or_false] at hread
    obtain hname | ⟨_, _, ⟨_, rfl⟩ | ⟨_, hvalue | ⟨_, _, hrest⟩⟩⟩ := hread
    · exact WireName.isContent_of_read hname
    · trivial
    · exact WireValue.isContent_of_read value hvalue
    · exact WireDocument.isContent_of_readItems (index + 1) rest hrest

end

/-- A document can be read exactly when it is readable all through. -/
theorem WireDocument.exists_read_iff (document : WireDocument) :
    (∃ read, document.read = .ok read) ↔ document.Readable := by
  rw [read, exists_bind_pure_eq_ok_iff]
  exact exists_readFields_iff document

/-- Where a document cannot be read, none of its lengths, tags or endings is to blame. -/
theorem WireDocument.isContent_of_read {document : WireDocument} {error : DecodeError}
    (hread : document.read = .error error) : error.IsContent := by
  rw [read, bind_pure_eq_error_iff] at hread
  exact isContent_of_readFields document hread

end ReplyCapture
