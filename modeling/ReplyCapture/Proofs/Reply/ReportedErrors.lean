import ReplyCapture.Proofs.Document.Lookup
import ReplyCapture.Proofs.Reply.ErrorCode

namespace ReplyCapture

namespace ReportedError

/-- The keys under which a document reports errors, and that of their code. -/
def keys : List String :=
  ["$err", "errmsg", "writeErrors", "writeConcernError", "code"]

/-- The error that a value reports by itself. A document has a message of its own or is all shown, and a code of its
    own; any other value has no code. -/
inductive Nested (place : ErrorPlace) : Value → ReportedError → Prop
  | told {fields : Document} {message : Value} (hmessage : fields.get? "errmsg" = some message) :
    Nested place (.document fields) ⟨place, message.errorMessage, fields.errorCode?⟩
  | shown {fields : Document} (hmessage : fields.get? "errmsg" = none) :
    Nested place (.document fields) ⟨place, fields.text, fields.errorCode?⟩
  | plain {value : Value} (hshape : value.tag ≠ .document) : Nested place value ⟨place, value.errorMessage, none⟩

/-- The errors of a document in four groups: one error for each of two fields that is there, with the document's code,
    one for each failed write in their order, and one for the write concern if there is one, with codes of their own. -/
structure Grouped (document : Document) (failures messages writes concerns : List ReportedError) : Prop where
  failures : failures =
    (document.get? "$err").toList.map fun value => ⟨.queryFailure, value.errorMessage, document.errorCode?⟩
  messages : messages =
    (document.get? "errmsg").toList.map fun value => ⟨.errorMessage, value.errorMessage, document.errorCode?⟩
  writes : List.Forall₂ (Nested .writeError) document.writeErrors writes
  concerns : List.Forall₂ (Nested .writeConcernError) (document.get? "writeConcernError").toList concerns

/-- An error made of a value takes its text and its code from that value alone. -/
theorem nested_ofNested (place : ErrorPlace) (value : Value) : Nested place value (ofNested place value) := by
  cases value with
  | document fields =>
    rw [ofNested]
    split
    · next message hmessage => exact .told hmessage
    · next hmessage => exact .shown hmessage
  | _ => exact .plain (by simp [Value.tag])

theorem forall₂_nested_map (place : ErrorPlace) (values : List Value) :
    List.Forall₂ (Nested place) values (values.map (ofNested place)) := by
  rw [List.forall₂_map_right_iff, List.forall₂_same]
  intro value _
  exact nested_ofNested place value

/-- The errors of a document come in four groups, in this order. -/
theorem grouped_ofDocument (document : Document) :
    ∃ failures messages writes concerns, Grouped document failures messages writes concerns ∧
      ofDocument document = failures ++ messages ++ writes ++ concerns := by
  refine ⟨ofField document .queryFailure, ofField document .errorMessage, ofWrites document, ofWriteConcern document,
    ⟨ofField_eq _ _, ofField_eq _ _, ?_, ?_⟩, rfl⟩
  · rw [ofWrites_eq]
    exact forall₂_nested_map _ _
  · rw [ofWriteConcern_eq]
    exact forall₂_nested_map _ _

/-- Only the fields of the five keys are looked at. -/
theorem ofDocument_congr {document other : Document} (hagree : ∀ key ∈ keys, other.get? key = document.get? key) :
    ofDocument other = ofDocument document := by
  simp only [keys, List.forall_mem_cons] at hagree
  obtain ⟨hfailure, hmessage, hwrites, hconcern, hcode, _⟩ := hagree
  simp only [ofDocument, ofField, ofWrites, ofWriteConcern, ErrorPlace.field, Document.errorCode?, hfailure, hmessage,
    hwrites, hconcern, hcode]

end ReportedError

namespace Reply

variable {reply : Reply} {first : RawDocument}

theorem errors_of_unreadable (hfirst : reply.outputs.head? = some first) {cause : DecodeError}
    (hcause : first.toDocument = .error cause) : reply.errors = .error (.unreadable cause) := by
  simp only [Reply.errors, hfirst, hcause]

theorem errors_of_toDocument (hfirst : reply.outputs.head? = some first) {document : Document}
    (hread : first.toDocument = .ok document) : reply.errors = .ok (ReportedError.ofDocument document) := by
  simp only [Reply.errors, hfirst, hread]

/-- The errors of a reply are those of its first output document, whatever its other documents are. There are none
    without that document, and it is an error if it cannot be read. Its errors come in four groups, place by place. They
    are the same for a document with the same fields in another order, and for one that has the same under the five keys
    and anything else under others. -/
theorem errors_of_first (reply : Reply) :
    (reply.outputs = [] → reply.errors = .ok []) ∧
      (∀ first, reply.outputs.head? = some first →
        (∀ cause, first.toDocument = .error cause → reply.errors = .error (.unreadable cause)) ∧
        ∀ document, first.toDocument = .ok document →
          (∃ failures messages writes concerns,
            ReportedError.Grouped document failures messages writes concerns ∧
              reply.errors = .ok (failures ++ messages ++ writes ++ concerns)) ∧
          ∀ (other : Reply) (otherFirst : RawDocument) (otherDocument : Document),
            other.outputs.head? = some otherFirst → otherFirst.toDocument = .ok otherDocument →
            (otherDocument.Perm document ∨
              ∀ key ∈ ReportedError.keys, otherDocument.get? key = document.get? key) →
            other.errors = reply.errors) ∧
      ∀ other : Reply, other.outputs.head? = reply.outputs.head? → other.errors = reply.errors := by
  refine ⟨?_, ?_, ?_⟩
  · intro hnone
    rw [Reply.errors, hnone]
    rfl
  · intro first hfirst
    refine ⟨?_, ?_⟩
    · intro cause hcause
      exact errors_of_unreadable hfirst hcause
    · intro document hread
      refine ⟨?_, ?_⟩
      · obtain ⟨failures, messages, writes, concerns, hgrouped, herrors⟩ := ReportedError.grouped_ofDocument document
        exact ⟨failures, messages, writes, concerns, hgrouped, herrors ▸ errors_of_toDocument hfirst hread⟩
      · intro other otherFirst otherDocument hother hotherRead hchange
        have hagree : ∀ key ∈ ReportedError.keys, otherDocument.get? key = document.get? key := by
          obtain hperm | hagree := hchange
          · intro key _
            exact Document.get?_perm (RawDocument.nodup_of_toDocument hread) hperm key
          · exact hagree
        rw [errors_of_toDocument hother hotherRead, errors_of_toDocument hfirst hread,
          ReportedError.ofDocument_congr hagree]
  · intro other hsame
    rw [Reply.errors, Reply.errors, hsame]

/-- A command that failed after two of its writes did, one of them without a code. -/
def failed : Document :=
  [("code", .int32 50), ("errmsg", .string "stop"),
    ("writeErrors", .array [.document [("code", .int64 11000)], .string "lost"])]

/-- The same failure among other fields and in another order. -/
def rearranged : Document :=
  [("writeErrors", .array [.document [("code", .int64 11000)], .string "lost"]), ("n", .null),
    ("errmsg", .string "stop"), ("code", .int32 50)]

/-- The failure alone, and rearranged before a document that would report another. -/
theorem errors_of_first_rearranged :
    ∃ reply other : Reply,
      reply.outputs = [.ofDocument failed] ∧ (RawDocument.ofDocument failed).toDocument = .ok failed ∧
      other.outputs = [.ofDocument rearranged, .ofDocument [("$err", .string "late")]] ∧
      (RawDocument.ofDocument rearranged).toDocument = .ok rearranged ∧
      (∀ key ∈ ReportedError.keys, rearranged.get? key = failed.get? key) ∧
      reply.errors = .ok [⟨.errorMessage, "stop", some 50⟩,
        ⟨.writeError, "\x7b code: 11000 \x7d", some 11000⟩, ⟨.writeError, "lost", none⟩] ∧
      other.errors = reply.errors := by
  have hread : (RawDocument.ofDocument failed).toDocument = .ok failed := rfl
  have hother : (RawDocument.ofDocument rearranged).toDocument = .ok rearranged := rfl
  have hagree : ∀ key ∈ ReportedError.keys, rearranged.get? key = failed.get? key := by
    simp only [ReportedError.keys, List.forall_mem_cons]
    exact ⟨rfl, rfl, rfl, rfl, rfl, nofun⟩
  obtain ⟨_, htold, _⟩ :=
    errors_of_first (ofDocuments ⟨0, 7, 8, .commandReply⟩ ⟨[5, 0, 0, 0, 0]⟩ ⟨[5, 0, 0, 0, 0]⟩ [.ofDocument failed])
  obtain ⟨_, hdocument⟩ := htold _ rfl
  obtain ⟨⟨failures, messages, writes, concerns, hgrouped, herrors⟩, hkept⟩ := hdocument _ hread
  have hsame := hkept (ofDocuments ⟨0, 7, 8, .commandReply⟩ ⟨[5, 0, 0, 0, 0]⟩ ⟨[5, 0, 0, 0, 0]⟩
    [.ofDocument rearranged, .ofDocument [("$err", .string "late")]]) _ _ rfl hother (.inr hagree)
  refine ⟨_, _, rfl, hread, rfl, hother, hagree, ?_, hsame⟩
  obtain ⟨rfl, rfl, hwrites, hconcerns⟩ := hgrouped
  rw [herrors]
  cases hconcerns
  obtain _ | ⟨hfirst, _ | ⟨hsecond, _ | _⟩⟩ := hwrites
  cases hfirst with
  | told hmessage => exact nomatch hmessage
  | plain hshape => exact absurd rfl hshape
  | shown =>
    cases hsecond with
    | plain => rfl

end Reply

end ReplyCapture
