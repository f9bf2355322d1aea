import Mathlib.Data.List.Flatten
import Mathlib.Data.List.Nodup
import ReplyCapture.Proofs.Document.Storable

namespace ReplyCapture

mutual

/-- No date in a value lies before the epoch and within a second. -/
def WireValue.DatesFaithful : WireValue → Prop
  | .date word => Instant.Faithful word.toInt64.toInt
  | .document fields | .array fields => WireDocument.DatesFaithful fields
  | .codeWithScope _ scope => WireDocument.DatesFaithful scope
  | _ => True

/-- No date in a document lies before the epoch and within a second. -/
def WireDocument.DatesFaithful : WireDocument → Prop
  | [] => True
  | (_, value) :: rest => value.DatesFaithful ∧ WireDocument.DatesFaithful rest

end

/-- The keys of an array are the digits of its items' indices from this one on. -/
def WireDocument.Numbered (index : Nat) : WireDocument → Prop
  | [] => True
  | (name, _) :: rest => name.bytes = Utf8.encode (toString index) ∧ WireDocument.Numbered (index + 1) rest

/-- No key comes twice. -/
def WireDocument.KeysDistinct (fields : WireDocument) : Prop :=
  (fields.map fun field => field.1.bytes).Nodup

mutual

/-- A value spelled as values are written: no key of a document in it comes twice, the keys of each array are the digits
    of its indices, and each truth value is a zero or a one. -/
def WireValue.Plain : WireValue → Prop
  | .document fields => WireDocument.KeysDistinct fields ∧ WireDocument.FieldsPlain fields
  | .array fields => WireDocument.Numbered 0 fields ∧ WireDocument.FieldsPlain fields
  | .boolean byte => byte = 0 ∨ byte = 1
  | .codeWithScope _ scope => WireDocument.KeysDistinct scope ∧ WireDocument.FieldsPlain scope
  | _ => True

/-- Every value of a document is spelled as values are written. -/
def WireDocument.FieldsPlain : WireDocument → Prop
  | [] => True
  | (_, value) :: rest => value.Plain ∧ WireDocument.FieldsPlain rest

end

/-- A document spelled as documents are written. -/
def WireDocument.Plain (document : WireDocument) : Prop :=
  document.KeysDistinct ∧ document.FieldsPlain

/-- How what a tree is read as is written again: under the same tag, in no more bytes and nested no deeper, storable if
    the tree's dates are faithful, and in the same bytes if the tree is plain. -/
structure WireValue.Rewritten (wire : WireValue) (value : Value) : Prop where
  tag : value.tag = wire.tag
  length_le : value.encode.length ≤ wire.encode.length
  depth_le : value.depth ≤ wire.depth
  storable : wire.DatesFaithful → value.Storable
  encode_eq : wire.DatesFaithful → wire.Plain → value.encode = wire.encode

/-- How the fields that a tree is read as are written again, all of them kept. -/
structure WireDocument.FieldsRewritten (wire : WireDocument) (fields : Document) : Prop where
  keys : (wire.map fun field => field.1.bytes) = fields.map fun field => Utf8.encode field.1
  length_le : fields.fieldBytes.length ≤ wire.fieldBytes.length
  depth_le : fields.depth ≤ wire.depth
  storable : wire.DatesFaithful → fields.FieldsStorable
  fieldBytes_eq : wire.DatesFaithful → wire.FieldsPlain → fields.fieldBytes = wire.fieldBytes

/-- How the items that a tree is read as, from this index on, are written again. -/
structure WireDocument.ItemsRewritten (wire : WireDocument) (index : Nat) (items : List Value) : Prop where
  length_le : (numberedFields index items).fieldBytes.length ≤ wire.fieldBytes.length
  depth_le : Value.depthAll items ≤ wire.depth
  storable : wire.DatesFaithful → Value.AllStorable items
  fieldBytes_eq : wire.DatesFaithful → wire.Numbered index → wire.FieldsPlain →
    (numberedFields index items).fieldBytes = wire.fieldBytes

/-- How the document that a tree is read as is written again, of each key the last field only. -/
structure WireDocument.Rewritten (wire : WireDocument) (document : Document) : Prop where
  length_le : document.encode.length ≤ wire.encode.length
  depth_le : document.depth ≤ wire.depth
  storable : wire.DatesFaithful → document.Storable
  encode_eq : wire.DatesFaithful → wire.Plain → document.encode = wire.encode

/-- Fields that are dropped leave the others no deeper than they were. -/
theorem Document.depth_le_of_sublist {fields others : Document} (hkept : fields.Sublist others) :
    fields.depth ≤ others.depth := by
  induction hkept with
  | slnil => exact Nat.le_refl _
  | cons field _ ih => exact Nat.le_trans ih (Nat.le_max_right _ _)
  | cons_cons field _ ih =>
    simp only [Document.depth]
    omega

/-- Nor do they leave the others less storable. -/
theorem Document.FieldsStorable.of_sublist {fields others : Document} (hkept : fields.Sublist others)
    (hstorable : others.FieldsStorable) : fields.FieldsStorable := by
  induction hkept with
  | slnil => exact hstorable
  | cons field _ ih => exact ih hstorable.2.2
  | cons_cons field _ ih => exact ⟨hstorable.1, hstorable.2.1, ih hstorable.2.2⟩

/-- Dropping the earlier fields of a key keeps all this. -/
theorem WireDocument.FieldsRewritten.ofFields {wire : WireDocument} {fields : Document}
    (hfields : wire.FieldsRewritten fields) : wire.Rewritten (Document.ofFields fields) := by
  have hkept := Document.ofFields_sublist fields
  refine ⟨?_, ?_, ?_, ?_⟩
  · have hless : (Document.ofFields fields).fieldBytes.length ≤ fields.fieldBytes.length := (hkept.flatMap _).length_le
    have hall := hfields.length_le
    rw [Document.length_encode, WireDocument.length_encode]
    omega
  · exact Nat.le_trans (Document.depth_le_of_sublist hkept) hfields.depth_le
  · intro hdates
    exact ⟨Document.nodup_ofFields fields, (hfields.storable hdates).of_sublist hkept⟩
  · intro hdates hplain
    have hkeys := hplain.1
    rw [KeysDistinct, hfields.keys] at hkeys
    have hnames : (fields.map Prod.fst).Nodup := by
      have hmap : (fields.map fun field => Utf8.encode field.1) = (fields.map Prod.fst).map Utf8.encode := by simp
      rw [hmap] at hkeys
      exact hkeys.of_map
    rw [Document.ofFields_of_nodup hnames, Document.encode_eq, hfields.fieldBytes_eq hdates hplain.2,
      WireDocument.encode]

theorem length_wireField (tag : Tag) (name : WireName) (value : Bytes) :
    (wireField tag name value).length = name.bytes.length + 2 + value.length := by
  simp only [wireField, WireName.encode, List.length_append, List.length_cons, List.length_nil]
  omega

/-- A key is written as the name it was read from, for there is only one way to write it. -/
theorem WireName.encode_of_read {name : WireName} {key : String} (hread : name.read = .ok key) :
    encodeName key = name.encode := by
  rw [WireName.encode, ← read_eq_ok_iff.mp hread]
  rfl

/-- The same of a text. -/
theorem encodeText_of_read {text : Bytes} {result : String} (hread : readWireText text = .ok result) :
    encodeText result = wireText text := by
  rw [← readWireText_eq_ok_iff.mp hread]
  rfl

/-- No zero is in a key that was read, as the name would have ended there. -/
theorem WireName.nulFree_of_read {name : WireName} {key : String} (hread : name.read = .ok key) : Utf8.NulFree key := by
  rw [← Utf8.zero_notMem_encode_iff, read_eq_ok_iff.mp hread]
  exact name.zero_notMem

/-- A timestamp is written as the long word it was read from. -/
theorem encodeTimestamp_ofWord (word : UInt64) :
    (Value.timestamp (Timestamp.ofWord word)).encode = LittleEndian.encodeLong word := by
  rw [LittleEndian.encodeLong_eq_append, Value.encode, Timestamp.ofWord]
  simp only [UInt32.toUInt32_toInt32]

/-- A value that nests nothing and is written in the bytes it was read from. -/
theorem WireValue.Rewritten.of_encode_eq {wire : WireValue} {value : Value} (htag : value.tag = wire.tag)
    (hdepth : value.depth = 0) (hsame : value.encode = wire.encode) (hstorable : wire.DatesFaithful → value.Storable) :
    wire.Rewritten value :=
  ⟨htag, Nat.le_of_eq (congrArg List.length hsame), hdepth ▸ Nat.zero_le _, hstorable, fun _ _ => hsame⟩

mutual

/-- A value that is read is written again. Where fields are read in order, none of them is dropped before all are read,
    so that the bytes of a document are those of its fields less what a repeated key costs. -/
theorem WireValue.rewritten_of_read (wire : WireValue) {value : Value} (hread : wire.read = .ok value) :
    wire.Rewritten value := by
  cases wire with
  | double word =>
    obtain rfl := pure_eq_ok_iff.mp hread
    exact .of_encode_eq rfl rfl rfl fun _ => trivial
  | string text =>
    obtain ⟨result, htext, hvalue⟩ := bind_eq_ok_iff.mp hread
    obtain rfl := pure_eq_ok_iff.mp hvalue
    exact .of_encode_eq rfl rfl (encodeText_of_read htext) fun _ => trivial
  | document fields =>
    obtain ⟨kept, hfields, hvalue⟩ := bind_eq_ok_iff.mp hread
    obtain rfl := pure_eq_ok_iff.mp hvalue
    have hdocument := (WireDocument.fieldsRewritten_of_read fields hfields).ofFields
    refine ⟨rfl, ?_, Nat.succ_le_succ hdocument.depth_le, hdocument.storable, ?_⟩
    · rw [Value.encode_document]
      exact hdocument.length_le
    · intro hdates hplain
      rw [Value.encode_document]
      exact hdocument.encode_eq hdates hplain
  | array fields =>
    obtain ⟨items, hfields, hvalue⟩ := bind_eq_ok_iff.mp hread
    obtain rfl := pure_eq_ok_iff.mp hvalue
    have hitems := WireDocument.itemsRewritten_of_read fields 0 hfields
    refine ⟨rfl, ?_, Nat.succ_le_succ hitems.depth_le, hitems.storable, ?_⟩
    · have hless := hitems.length_le
      rw [Value.encode_array, Document.length_encode, WireValue.encode, length_selfSized, List.length_append,
        List.length_singleton]
      omega
    · intro hdates hplain
      rw [Value.encode_array, Document.encode_eq, hitems.fieldBytes_eq hdates hplain.1 hplain.2, WireValue.encode]
  | binary subtype data =>
    obtain rfl := pure_eq_ok_iff.mp hread
    exact .of_encode_eq rfl rfl rfl fun _ => trivial
  | objectId id =>
    obtain rfl := pure_eq_ok_iff.mp hread
    exact .of_encode_eq rfl rfl rfl fun _ => trivial
  | boolean byte =>
    obtain rfl := pure_eq_ok_iff.mp hread
    refine ⟨rfl, Nat.le_refl _, Nat.le_refl _, fun _ => trivial, ?_⟩
    intro _ hplain
    obtain rfl | rfl := hplain
    · rfl
    · rfl
  | date word =>
    obtain ⟨instant, hdate, hvalue⟩ := bind_eq_ok_iff.mp hread
    obtain rfl := pure_eq_ok_iff.mp hvalue
    have hcount := readWireDate_eq_ok_iff.mp hdate
    refine ⟨rfl, ?_, Nat.le_refl _, ?_, ?_⟩
    · simp only [Value.encode, WireValue.encode, LittleEndian.length_encodeLong, Nat.le_refl]
    · intro hfaithful
      exact (Instant.storable_of_ofStored? hfaithful hcount).1
    · intro hfaithful _
      rw [Value.encode, (Instant.storable_of_ofStored? hfaithful hcount).2, Int64.ofInt_toInt, UInt64.toUInt64_toInt64,
        WireValue.encode]
  | null =>
    obtain rfl := pure_eq_ok_iff.mp hread
    exact .of_encode_eq rfl rfl rfl fun _ => trivial
  | regex pattern options =>
    simp only [WireValue.read, bind_eq_ok_iff, pure_eq_ok_iff] at hread
    obtain ⟨first, hfirst, second, hsecond, rfl⟩ := hread
    refine .of_encode_eq rfl rfl ?_ fun _ => ⟨WireName.nulFree_of_read hfirst, WireName.nulFree_of_read hsecond⟩
    rw [Value.encode, WireName.encode_of_read hfirst, WireName.encode_of_read hsecond, WireValue.encode]
  | code text =>
    obtain ⟨result, htext, hvalue⟩ := bind_eq_ok_iff.mp hread
    obtain rfl := pure_eq_ok_iff.mp hvalue
    exact .of_encode_eq rfl rfl (encodeText_of_read htext) fun _ => trivial
  | codeWithScope text scope =>
    simp only [WireValue.read, bind_eq_ok_iff, pure_eq_ok_iff] at hread
    obtain ⟨source, htext, kept, hscope, rfl⟩ := hread
    have hdocument := (WireDocument.fieldsRewritten_of_read scope hscope).ofFields
    have hsource := readWireText_eq_ok_iff.mp htext
    refine ⟨rfl, ?_, Nat.succ_le_succ hdocument.depth_le, hdocument.storable, ?_⟩
    · have hless := hdocument.length_le
      rw [Value.encode_codeWithScope, WireValue.length_encode_codeWithScope, hsource, length_selfSized,
        List.length_append]
      omega
    · intro hdates hplain
      rw [Value.encode_codeWithScope, hsource, hdocument.encode_eq hdates hplain, WireValue.encode, WireDocument.encode]
  | int32 word =>
    obtain rfl := pure_eq_ok_iff.mp hread
    exact .of_encode_eq rfl rfl rfl fun _ => trivial
  | timestamp word =>
    obtain rfl := pure_eq_ok_iff.mp hread
    exact .of_encode_eq rfl rfl (encodeTimestamp_ofWord word) fun _ => trivial
  | int64 word =>
    obtain rfl := pure_eq_ok_iff.mp hread
    exact .of_encode_eq rfl rfl rfl fun _ => trivial
  | symbol text =>
    obtain ⟨result, htext, hvalue⟩ := bind_eq_ok_iff.mp hread
    obtain rfl := pure_eq_ok_iff.mp hvalue
    exact .of_encode_eq rfl rfl (encodeText_of_read htext) fun _ => trivial

/-- The fields are all written again, also those whose key comes later once more. None of them is dropped before all are
    read. -/
theorem WireDocument.fieldsRewritten_of_read (wire : WireDocument) {fields : Document}
    (hread : wire.readFields = .ok fields) : wire.FieldsRewritten fields := by
  cases wire with
  | nil =>
    obtain rfl := pure_eq_ok_iff.mp hread
    exact ⟨rfl, Nat.le_refl _, Nat.le_refl _, fun _ => trivial, fun _ _ => rfl⟩
  | cons field rest =>
    obtain ⟨name, first⟩ := field
    simp only [WireDocument.readFields, bind_eq_ok_iff, pure_eq_ok_iff] at hread
    obtain ⟨key, hkey, value, hvalue, later, hlater, rfl⟩ := hread
    have hfirst := WireValue.rewritten_of_read first hvalue
    have hrest := WireDocument.fieldsRewritten_of_read rest hlater
    have hname := WireName.read_eq_ok_iff.mp hkey
    refine ⟨?_, ?_, ?_, ?_, ?_⟩
    · rw [List.map_cons, List.map_cons, hname, hrest.keys]
    · have hvalueLess := hfirst.length_le
      have hrestLess := hrest.length_le
      rw [Document.fieldBytes_cons, WireDocument.fieldBytes, List.length_append, List.length_append, length_encodeField,
        length_wireField, hname]
      omega
    · have hvalueDepth := hfirst.depth_le
      have hrestDepth := hrest.depth_le
      rw [Document.depth, WireDocument.depth]
      omega
    · intro hdates
      exact ⟨WireName.nulFree_of_read hkey, hfirst.storable hdates.1, hrest.storable hdates.2⟩
    · intro hdates hplain
      rw [Document.fieldBytes_cons, WireDocument.fieldBytes, hrest.fieldBytes_eq hdates.2 hplain.2, hfirst.tag,
        encodeField, WireName.encode_of_read hkey, hfirst.encode_eq hdates.1 hplain.1]
      rfl

/-- The items are written again under the digits of their indices. These are no longer than the keys that were read,
    which may have a sign or noughts in front. -/
theorem WireDocument.itemsRewritten_of_read (wire : WireDocument) (index : Nat) {items : List Value}
    (hread : wire.readItems index = .ok items) : wire.ItemsRewritten index items := by
  cases wire with
  | nil =>
    obtain rfl := pure_eq_ok_iff.mp hread
    exact ⟨Nat.le_refl _, Nat.le_refl _, fun _ => trivial, fun _ _ _ => rfl⟩
  | cons field rest =>
    obtain ⟨name, first⟩ := field
    simp only [WireDocument.readItems, bind_eq_ok_iff, guard_eq_ok_iff, pure_eq_ok_iff] at hread
    obtain ⟨key, hkey, hcounts, value, hvalue, later, hlater, rfl⟩ := hread
    have hfirst := WireValue.rewritten_of_read first hvalue
    have hrest := WireDocument.itemsRewritten_of_read rest (index + 1) hlater
    refine ⟨?_, ?_, ?_, ?_⟩
    · have hspelled := length_encode_toString_le (Decidable.not_not.mp hcounts)
      have hvalueLess := hfirst.length_le
      have hrestLess := hrest.length_le
      rw [WireName.read_eq_ok_iff.mp hkey] at hspelled
      rw [numberedFields, Document.fieldBytes_cons, WireDocument.fieldBytes, List.length_append, List.length_append,
        length_encodeField, length_wireField]
      omega
    · have hvalueDepth := hfirst.depth_le
      have hrestDepth := hrest.depth_le
      rw [Value.depthAll, WireDocument.depth]
      omega
    · intro hdates
      exact ⟨hfirst.storable hdates.1, hrest.storable hdates.2⟩
    · intro hdates hnumbered hplain
      have hdigits : encodeName (toString index) = name.encode := by
        rw [WireName.encode, hnumbered.1]
        rfl
      rw [numberedFields, Document.fieldBytes_cons, WireDocument.fieldBytes,
        hrest.fieldBytes_eq hdates.2 hnumbered.2 hplain.2, hfirst.tag, encodeField, hdigits,
        hfirst.encode_eq hdates.1 hplain.1]
      rfl

end

/-- A document that is read is written again in no more bytes, and in the same ones if it is plain. -/
theorem WireDocument.rewritten_of_read (wire : WireDocument) {document : Document} (hread : wire.read = .ok document) :
    wire.Rewritten document := by
  obtain ⟨fields, hfields, hdocument⟩ := bind_eq_ok_iff.mp hread
  obtain rfl := pure_eq_ok_iff.mp hdocument
  exact (wire.fieldsRewritten_of_read hfields).ofFields

namespace RawDocument

/-- Bytes that can be read are those of a tree, which is read as the same document. -/
theorem exists_tree_of_toDocument {raw : RawDocument} {document : Document} (hread : raw.toDocument = .ok document) :
    ∃ wire : WireDocument, wire.encode = raw.bytes ∧ wire.depth ≤ nestingLimit ∧ raw.bytes.length < declarable ∧
      wire.read = .ok document := by
  obtain ⟨_, hcheck, _⟩ := bind_eq_ok_iff.mp hread
  obtain ⟨wire, hbytes, hdepth, hsize⟩ := Structure.exists_document_of_check hcheck
  refine ⟨wire, hbytes, hdepth, hsize, ?_⟩
  rw [← toDocument_encode hdepth (hbytes ▸ hsize), hbytes]
  exact hread

/-- Bytes that are kept have a normal form, the bytes that their document is written as: unless a date in them lies
    before the epoch and within a second, these are kept too and read as the same document, are no more, and are their
    own normal form. They are the bytes themselves where nothing in the tree is spelled otherwise than it is written. -/
theorem ofDocument_of_kept {bytes : Bytes} {raw : RawDocument} (hkept : ofBytes bytes = .ok raw) :
    ∃ tree : WireDocument, tree.encode = bytes ∧ (∀ other : WireDocument, other.encode = bytes → other = tree) ∧
      (tree.DatesFaithful →
        ∃ document, raw.toDocument = .ok document ∧
          ofBytes (ofDocument document).bytes = .ok (ofDocument document) ∧
          (ofDocument document).toDocument = .ok document ∧
          (ofDocument document).bytes.length ≤ bytes.length ∧
          (ofDocument document).toDocument.map ofDocument = .ok (ofDocument document) ∧
          (tree.Plain → (ofDocument document).bytes = bytes)) := by
  obtain ⟨⟨document, hread⟩, rfl⟩ := ofBytes_eq_ok_iff.mp hkept
  obtain ⟨tree, rfl, hdepth, hsize, hmeaning⟩ := exists_tree_of_toDocument hread
  refine ⟨tree, rfl, fun other hother => (WireDocument.encode_inj hsize hother.symm).symm, ?_⟩
  intro hdates
  have hrewritten := tree.rewritten_of_read hmeaning
  have hback : (ofDocument document).toDocument = .ok document := by
    apply toDocument_of_storable (hrewritten.storable hdates)
    · exact Nat.lt_of_le_of_lt hrewritten.length_le hsize
    · exact Nat.le_trans hrewritten.depth_le hdepth
  refine ⟨document, hread, ofBytes_of_toDocument hback, hback, hrewritten.length_le, ?_, hrewritten.encode_eq hdates⟩
  rw [hback]
  rfl

/-- A key that comes twice, an array whose keys have a sign and a leading zero, and a two for a truth value. -/
def oddTree : WireDocument :=
  [(⟨[97], by decide⟩, .boolean 1),
    (⟨[120], by decide⟩, .array [(⟨[43, 48], by decide⟩, .boolean 2), (⟨[48, 49], by decide⟩, .date (-1000))]),
    (⟨[97], by decide⟩, .int32 7)]

/-- What the odd tree stands for, spelled as it is written. -/
def plainTree : WireDocument :=
  [(⟨[120], by decide⟩, .array [(⟨[48], by decide⟩, .boolean 1), (⟨[49], by decide⟩, .date (-1000))]),
    (⟨[97], by decide⟩, .int32 7)]

/-- The odd tree is brought into its normal form, and the plain one is its own. -/
theorem ofDocument_of_kept_odd :
    ofBytes oddTree.encode = .ok ⟨oddTree.encode⟩ ∧ oddTree.DatesFaithful ∧
    ofBytes plainTree.encode = .ok ⟨plainTree.encode⟩ ∧ plainTree.DatesFaithful ∧ plainTree.Plain ∧
    ∃ document, toDocument ⟨oddTree.encode⟩ = .ok document ∧ (ofDocument document).toDocument = .ok document ∧
      (ofDocument document).bytes.length ≤ oddTree.encode.length ∧
      ∃ same, toDocument ⟨plainTree.encode⟩ = .ok same ∧ (ofDocument same).bytes = plainTree.encode := by
  have hodd : ofBytes oddTree.encode = .ok ⟨oddTree.encode⟩ := by decide
  have hplain : ofBytes plainTree.encode = .ok ⟨plainTree.encode⟩ := by decide
  have hdate : (WireValue.date (-1000)).DatesFaithful := .inr (by decide)
  have hoddDates : oddTree.DatesFaithful := ⟨trivial, ⟨trivial, hdate, trivial⟩, trivial, trivial⟩
  have hplainDates : plainTree.DatesFaithful := ⟨⟨trivial, hdate, trivial⟩, trivial, trivial⟩
  have hdistinct : plainTree.KeysDistinct := by
    unfold WireDocument.KeysDistinct
    decide
  have hspelled : plainTree.Plain :=
    ⟨hdistinct, ⟨⟨by decide, by decide, trivial⟩, .inr rfl, trivial, trivial⟩, trivial, trivial⟩
  obtain ⟨tree, _, honly, hnormal⟩ := ofDocument_of_kept hodd
  obtain rfl := honly oddTree rfl
  obtain ⟨document, hread, _, hback, hless, _, _⟩ := hnormal hoddDates
  obtain ⟨tree, _, honly, hnormal⟩ := ofDocument_of_kept hplain
  obtain rfl := honly plainTree rfl
  obtain ⟨same, hsame, _, _, _, _, hbytes⟩ := hnormal hplainDates
  exact ⟨hodd, hoddDates, hplain, hplainDates, hspelled, document, hread, hback, hless, same, hsame, hbytes hspelled⟩

end RawDocument

end ReplyCapture
