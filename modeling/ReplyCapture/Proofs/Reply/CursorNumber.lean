import ReplyCapture.Proofs.Document.Lookup
import ReplyCapture.Proofs.Reply.History

namespace ReplyCapture

namespace Cursor

/-- What a reply tells of the number that is stored for a cursor: zero where none is, a whole number as it is, and of
    a value of any other type that it is none. -/
inductive Tells : Option Value → Except MessageError Int64 → Prop
  | absent : Tells none (.ok 0)
  | int32 {number : Int32} {id : Int64} (hid : id.toInt = number.toInt) : Tells (some (.int32 number)) (.ok id)
  | int64 (number : Int64) : Tells (some (.int64 number)) (.ok number)
  | other {value : Value} (htag : value.tag ∉ [.int32, .int64]) :
    Tells (some value) (.error (.unreadable (.wrongType "i64")))

/-- What is answered about a stored number tells of that number: the number itself, nought where none is stored, or its
    wrong type. -/
theorem tells_ofNumber (stored : Option Value) : Tells stored ((ofNumber stored).mapError .unreadable) := by
  cases stored with
  | none => exact .absent
  | some value =>
    cases value with
    | int32 number => exact .int32 (Int32.toInt_toInt64 number)
    | int64 number => exact .int64 number
    | _ => exact .other (by simp [Value.tag])

/-- The types of values without parts. -/
def plainTags : List Tag :=
  [.double, .string, .binary, .boolean, .null, .int32, .int64]

/-- The types of values that are shown as documents without being any. -/
def guisedTags : List Tag :=
  [.regex, .code, .codeWithScope, .objectId, .timestamp, .date, .symbol]

/-- A cursor that is no document has no parts and is refused, is taken for a document without a number, or is an array
    and tells its first item. -/
theorem ofValue_of_not_document {cursor : Value} (hshape : cursor.tag ≠ .document) :
    cursor.tag ∈ plainTags ∧ ofValue cursor = .error (.wrongType "struct CursorInfo") ∨
      cursor.tag ∈ guisedTags ∧ ofValue cursor = .ok 0 ∨
      ∃ items, cursor = .array items ∧ ofValue cursor = ofNumber items.head? := by
  cases cursor with
  | document fields => exact absurd rfl hshape
  | array items => exact .inr (.inr ⟨items, rfl, rfl⟩)
  | double _ | string _ | binary _ _ | boolean _ | null | int32 _ | int64 _ =>
    exact .inl ⟨by simp [plainTags, Value.tag], rfl⟩
  | _ => exact .inr (.inl ⟨by simp [guisedTags, Value.tag], rfl⟩)

theorem ofRaw_of_toDocument {raw : RawDocument} {document : Document} (hread : raw.toDocument = .ok document) :
    ofRaw raw = ofDocument document := by
  rw [ofRaw, hread]
  rfl

theorem ofDocument_of_get? {document : Document} {cursor : Value} (hcursor : document.get? "cursor" = some cursor) :
    ofDocument document = ofValue cursor := by
  rw [ofDocument, hcursor]

end Cursor

namespace Reply

variable {reply : Reply} {queries : List Query} {place : Nat}

/-- Whenever a reply is asked for a cursor that is no document, it says the same. It refuses a value without parts.
    A value that is shown as a document is a cursor without a number and counts as zero, and an array tells of its first
    item what a document tells of its number. -/
theorem cursorId_of_not_document (hobtained : reply.Obtained) (hasked : queries[place]? = some .cursorId)
    {document : Document} (hread : reply.commandReply.toDocument = .ok document) {cursor : Value}
    (hcursor : document.get? "cursor" = some cursor) (hshape : cursor.tag ≠ .document) :
    ∃ answered result, (reply.askAll queries)[place]? = some answered ∧ answered.answer = .cursorId result ∧
      (cursor.tag ∈ Cursor.plainTags ∧ result = .error (.unreadable (.wrongType "struct CursorInfo")) ∨
        cursor.tag ∈ Cursor.guisedTags ∧ result = .ok 0 ∨
        ∃ items, cursor = .array items ∧ Cursor.Tells items.head? result) := by
  obtain ⟨answered, hanswered, hanswer⟩ := hobtained.cursorId_asked hasked
  refine ⟨answered, _, hanswered, hanswer, ?_⟩
  rw [Cursor.ofRaw_of_toDocument hread, Cursor.ofDocument_of_get? hcursor]
  obtain ⟨htag, hvalue⟩ | ⟨htag, hvalue⟩ | ⟨items, hitems, hvalue⟩ := Cursor.ofValue_of_not_document hshape
  · exact .inl ⟨htag, congrArg _ hvalue⟩
  · exact .inr (.inl ⟨htag, congrArg _ hvalue⟩)
  · rw [hvalue]
    exact .inr (.inr ⟨items, hitems, Cursor.tells_ofNumber _⟩)

/-- A command reply whose cursor is an array of the number 42 and a null. -/
def listedCursorBytes : Bytes :=
  [28, 0, 0, 0, 4, 99, 117, 114, 115, 111, 114, 0, 15, 0, 0, 0, 16, 48, 0, 42, 0, 0, 0, 10, 49, 0, 0, 0]

theorem cursorId_of_not_document_listed :
    ∃ answered, (ofDocuments ⟨0, 7, 8, .commandReply⟩ ⟨listedCursorBytes⟩ ⟨[5, 0, 0, 0, 0]⟩ []).Obtained ∧
      (RawDocument.mk listedCursorBytes).toDocument = .ok [("cursor", .array [.int32 42, .null])] ∧
      ((ofDocuments ⟨0, 7, 8, .commandReply⟩ ⟨listedCursorBytes⟩ ⟨[5, 0, 0, 0, 0]⟩ []).askAll
        [.cursorId, .cursorId])[1]? = some answered ∧
      answered.answer = .cursorId (.ok 42) := by
  have hobtained := Obtained.made ⟨0, 7, 8, .commandReply⟩ ⟨listedCursorBytes⟩ ⟨[5, 0, 0, 0, 0]⟩ []
  have hasked : ([.cursorId, .cursorId] : List Query)[1]? = some .cursorId := rfl
  have hread : (RawDocument.mk listedCursorBytes).toDocument = .ok [("cursor", .array [.int32 42, .null])] := rfl
  have hshape : (Value.array [.int32 42, .null]).tag ≠ .document := by decide
  obtain ⟨answered, result, hanswered, hanswer, hresult⟩ := cursorId_of_not_document hobtained hasked hread rfl hshape
  obtain ⟨htag, _⟩ | ⟨htag, _⟩ | ⟨items, hitems, htells⟩ := hresult
  · exact absurd htag (by decide)
  · exact absurd htag (by decide)
  · obtain rfl := Value.array.inj hitems
    cases htells with
    | int32 hid =>
      obtain rfl := Int64.toInt_inj.mp (hid.trans (show (42 : Int32).toInt = (42 : Int64).toInt from rfl))
      exact ⟨answered, hobtained, hread, hanswered, hanswer⟩
    | other htag => exact absurd (by decide) htag

/-- A command reply whose cursor is the identifier of an object. -/
def guisedCursorBytes : Bytes :=
  [25, 0, 0, 0, 7, 99, 117, 114, 115, 111, 114, 0, 0, 1, 2, 3, 4, 5, 6, 7, 8, 9, 10, 11, 0]

/-- The identifier of an object counts as the cursor of number zero, the first time and the next. -/
theorem cursorId_of_objectId :
    (ofDocuments ⟨0, 7, 8, .commandReply⟩ ⟨guisedCursorBytes⟩ ⟨[5, 0, 0, 0, 0]⟩ []).Obtained ∧
      (RawDocument.mk guisedCursorBytes).toDocument =
        .ok [("cursor", .objectId ⟨[0, 1, 2, 3, 4, 5, 6, 7, 8, 9, 10, 11], by decide⟩)] ∧
      ((ofDocuments ⟨0, 7, 8, .commandReply⟩ ⟨guisedCursorBytes⟩ ⟨[5, 0, 0, 0, 0]⟩ []).askAll
        [.cursorId, .cursorId]).map Answered.answer = [.cursorId (.ok 0), .cursorId (.ok 0)] :=
  ⟨.made _ _ _ _, rfl, rfl⟩

/-- Whenever a reply is asked for its cursor, it says the same. Where the command reply cannot be read, it says so.
    Where a cursor is not there, the number is zero, and of a cursor that is a document the reply tells what is stored
    under `id`, whatever else the documents hold. In the bytes of the command reply, the last field of each of the two
    keys decides. -/
theorem cursorId_of_document (hobtained : reply.Obtained) (hasked : queries[place]? = some .cursorId) :
    ∃ answered result, (reply.askAll queries)[place]? = some answered ∧ answered.answer = .cursorId result ∧
      (∀ cause, reply.commandReply.toDocument = .error cause → result = .error (.unreadable cause)) ∧
      ∀ document, reply.commandReply.toDocument = .ok document →
        (document.get? "cursor" = none → result = .ok 0) ∧
        (∀ cursor : Document, document.get? "cursor" = some (.document cursor) →
          Cursor.Tells (cursor.get? "id") result) ∧
        ∃ tree : WireDocument, tree.encode = reply.commandReply.bytes ∧
          (∀ other : WireDocument, other.encode = reply.commandReply.bytes → other = tree) ∧
          (tree.last? "cursor" = none → result = .ok 0) ∧
          ∀ inner : WireDocument, tree.last? "cursor" = some (.document inner) →
            ∃ number, (inner.last? "id").map WireValue.read = number.map .ok ∧ Cursor.Tells number result := by
  obtain ⟨answered, hanswered, hanswer⟩ := hobtained.cursorId_asked hasked
  refine ⟨answered, _, hanswered, hanswer, ?_, ?_⟩
  · intro cause hcause
    rw [Cursor.ofRaw, hcause]
    rfl
  · intro document hread
    rw [Cursor.ofRaw_of_toDocument hread]
    have habsent (hnone : document.get? "cursor" = none) :
        (Cursor.ofDocument document).mapError MessageError.unreadable = .ok 0 := by
      rw [Cursor.ofDocument, hnone]
      rfl
    have htells (cursor : Document) (hcursor : document.get? "cursor" = some (.document cursor)) :
        Cursor.Tells (cursor.get? "id") ((Cursor.ofDocument document).mapError .unreadable) := by
      rw [Cursor.ofDocument_of_get? hcursor]
      exact Cursor.tells_ofNumber _
    -- Reading drops all but the last field of a key, so what the bytes hold is seen in the tree that was read.
    obtain ⟨tree, hbytes, _, hsize, htree⟩ := RawDocument.exists_tree_of_toDocument hread
    refine ⟨habsent, htells, tree, hbytes, ?_, ?_, ?_⟩
    · intro other hother
      rw [← hbytes] at hsize hother
      exact (WireDocument.encode_inj hsize hother.symm).symm
    · intro hlast
      have hfound := WireDocument.map_read_last?_of_read htree "cursor"
      rw [hlast, Option.map_none, eq_comm, Option.map_eq_none_iff] at hfound
      exact habsent hfound
    · intro inner hlast
      obtain ⟨cursor, hcursor, hinner⟩ := WireDocument.exists_document_of_last? htree hlast
      exact ⟨_, WireDocument.map_read_last?_of_read hinner "id", htells cursor hcursor⟩

/-- A cursor that is a text before it is a document, and in it a number that is a text before it is a number. -/
def repeatedTree : WireDocument :=
  [(⟨[99, 117, 114, 115, 111, 114], by decide⟩, .string [120]), (⟨[111, 107], by decide⟩, .double 0),
    (⟨[99, 117, 114, 115, 111, 114], by decide⟩,
      .document [(⟨[105, 100], by decide⟩, .string [121]), (⟨[110], by decide⟩, .null),
        (⟨[105, 100], by decide⟩, .int64 0xFFFFFFFFFFFFFFFB)])]

/-- Asked again after a latency was set, a reply tells the number that is stored last. -/
theorem cursorId_of_document_repeated :
    ∃ document answered, (ofDocuments ⟨0, 7, 8, .commandReply⟩ ⟨repeatedTree.encode⟩ ⟨[5, 0, 0, 0, 0]⟩ []).Obtained ∧
      (RawDocument.mk repeatedTree.encode).toDocument = .ok document ∧
      ((ofDocuments ⟨0, 7, 8, .commandReply⟩ ⟨repeatedTree.encode⟩ ⟨[5, 0, 0, 0, 0]⟩ []).askAll
        [.cursorId, .setLatency ⟨1, 5000, by decide⟩, .cursorId])[2]? = some answered ∧
      answered.answer = .cursorId (.ok (-5)) := by
  have hobtained := Obtained.made ⟨0, 7, 8, .commandReply⟩ ⟨repeatedTree.encode⟩ ⟨[5, 0, 0, 0, 0]⟩ []
  have hasked : ([.cursorId, .setLatency ⟨1, 5000, by decide⟩, .cursorId] : List Query)[2]? = some .cursorId := rfl
  obtain ⟨answered, result, hanswered, hanswer, _, htold⟩ := cursorId_of_document hobtained hasked
  have hread : (RawDocument.mk repeatedTree.encode).toDocument =
      .ok [("ok", .double ⟨0⟩), ("cursor", .document [("n", .null), ("id", .int64 (-5))])] := rfl
  obtain ⟨_, htells, _⟩ := htold _ hread
  have hnumber : Cursor.Tells (some (.int64 (-5))) result := htells _ rfl
  cases hnumber with
  | int64 => exact ⟨_, answered, hobtained, hread, hanswered, hanswer⟩
  | other htag => exact absurd (by decide) htag

end Reply

end ReplyCapture
