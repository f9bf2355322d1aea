import ReplyCapture.Proofs.Document.Alignment
import ReplyCapture.Proofs.Source.Stepwise
import ReplyCapture.Proofs.Source.Within

namespace ReplyCapture

/-- The errors that a body gives of itself, not for want of bytes. -/
def MessageError.OfBody : MessageError → Prop
  | .lengthOutOfBounds _ | .crossesFrame _ _ | .malformed _ | .unexpectedOpCode _ => True
  | _ => False

namespace Frame

open Reading

/-- Bytes that start with their own number, which is within the bounds of a document. -/
structure Framed (limit : Nat) (bytes : Bytes) : Prop where
  declared : LittleEndian.signed (LittleEndian.decodeWord (bytes.take 4)) = bytes.length
  least : 5 ≤ bytes.length
  most : bytes.length ≤ limit

/-- Where one framed document ends is told by its own bytes. -/
theorem Framed.append_inj {limit : Nat} {bytes other rest more : Bytes} (hbytes : Framed limit bytes)
    (hother : Framed limit other) (hsame : bytes ++ rest = other ++ more) : bytes = other ∧ rest = more := by
  have hfront := congrArg (List.take 4) hsame
  have hleast := hbytes.least
  have hleast' := hother.least
  rw [List.take_append_of_le_length (by omega), List.take_append_of_le_length (by omega)] at hfront
  have hdeclared := hbytes.declared
  rw [hfront, hother.declared] at hdeclared
  exact List.append_inj hsame (by omega)

/-- Bytes that are kept as a document declare their own number. -/
theorem framed_of_ofBytes {limit : Nat} {bytes : Bytes} {raw : RawDocument} (hraw : RawDocument.ofBytes bytes = .ok raw)
    (hlimit : bytes.length ≤ limit) : Framed limit bytes := by
  obtain ⟨⟨value, hvalue⟩, _⟩ := RawDocument.ofBytes_eq_ok_iff.mp hraw
  obtain ⟨_, hcheck, _⟩ := bind_eq_ok_iff.mp hvalue
  obtain ⟨document, rfl, _, hsize⟩ := Structure.exists_document_of_check hcheck
  have hlength := document.length_encode
  have hfront : document.encode.take 4 = LittleEndian.encode 4 document.encode.length := by
    rw [WireDocument.encode, length_selfSized]
    exact List.take_left' (LittleEndian.length_encode 4 _)
  refine ⟨?_, by omega, hlimit⟩
  rw [hfront]
  exact LittleEndian.signed_eq_natCast_iff.mpr
    ⟨hsize, LittleEndian.encodeWord_decodeWord (LittleEndian.length_encode 4 _)⟩

/-- Bytes are framed in one way at most. -/
theorem flatten_framed_inj {limit : Nat} {documents others : List Bytes}
    (hdocuments : ∀ bytes ∈ documents, Framed limit bytes) (hothers : ∀ bytes ∈ others, Framed limit bytes)
    (hsame : documents.flatten = others.flatten) : documents = others := by
  induction documents generalizing others with
  | nil =>
    cases others with
    | nil => rfl
    | cons other others =>
      have hleast := (hothers other List.mem_cons_self).least
      have hlength := congrArg List.length hsame
      simp only [List.flatten_nil, List.length_nil, List.flatten_cons, List.length_append] at hlength
      omega
  | cons document documents ih =>
    have hdocument := hdocuments document List.mem_cons_self
    cases others with
    | nil =>
      have hleast := hdocument.least
      have hlength := congrArg List.length hsame
      simp only [List.flatten_nil, List.length_nil, List.flatten_cons, List.length_append] at hlength
      omega
    | cons other others =>
      obtain ⟨rfl, hrest⟩ := hdocument.append_inj (hothers other List.mem_cons_self) hsame
      have htail := ih (fun bytes hbytes => hdocuments bytes (List.mem_cons_of_mem _ hbytes))
        (fun bytes hbytes => hothers bytes (List.mem_cons_of_mem _ hbytes)) hrest
      rw [htail]

/-- A length is allowed within its bounds, both ends included. -/
theorem allowedLength_eq_ok_iff {limit declared : Nat} {front : Bytes} :
    allowedLength limit front = .ok declared ↔
      LittleEndian.signed (LittleEndian.decodeWord front) = declared ∧ 5 ≤ declared ∧ declared ≤ limit := by
  unfold allowedLength Structure.leastDocument
  simp only
  split
  · next hbounds =>
    simp only [reduceCtorEq, false_iff]
    omega
  · next hbounds =>
    simp only [Except.ok.injEq]
    omega

/-- A length that is not allowed is told of with its sign. -/
theorem allowedLength_eq_error {limit : Nat} {front : Bytes} {error : MessageError}
    (herror : allowedLength limit front = .error error) :
    error = .lengthOutOfBounds (LittleEndian.signed (LittleEndian.decodeWord front)) := by
  unfold allowedLength at herror
  simp only at herror
  split at herror
  · exact (Except.error.inj herror).symm
  · cases herror

/-- Behind its length, a document takes as many bytes as this says, whatever they are. -/
theorem accepts_completed (front : Bytes) (declared : Nat) :
    Accepts (completed front declared) fun bytes value => bytes.length = declared - 4 ∧ value = front ++ bytes := by
  have hexactly := (accepts_exactly (declared - lengthSize)).mapError (wholeShortage declared)
  refine (hexactly.bind fun rest => (accepts_record _).bind fun _ => accepts_pure (front ++ rest)).congr ?_
  intro bytes value
  constructor
  · intro haccepted
    obtain ⟨first, _, rest, rfl, ⟨rfl, hlength⟩, _, _, _, rfl, rfl, rfl, rfl⟩ := haccepted
    exact ⟨by simpa [lengthSize] using hlength, by simp⟩
  · intro haccepted
    obtain ⟨hlength, rfl⟩ := haccepted
    exact ⟨bytes, [], bytes, by simp, ⟨rfl, hlength⟩, [], [], (), rfl, rfl, rfl, rfl⟩

/-- Behind its length, a document is taken where it ends within the body. -/
theorem accepts_completed_within (front : Bytes) (remaining declared : Nat) (overrun : Event) (crosses : MessageError) :
    Accepts (if remaining < declared then (do record overrun; fail crosses) else completed front declared)
      fun bytes value => declared ≤ remaining ∧ bytes.length = declared - 4 ∧ value = front ++ bytes := by
  split
  · next hover =>
    refine ((accepts_record overrun).bind fun _ => accepts_fail crosses).congr fun bytes value => ?_
    constructor
    · intro hnever
      obtain ⟨_, _, _, _, _, hnever⟩ := hnever
      exact hnever.elim
    · intro haccepted
      omega
  · next hwithin =>
    refine (accepts_completed front declared).congr fun bytes value => ?_
    constructor
    · intro haccepted
      exact ⟨by omega, haccepted⟩
    · intro haccepted
      exact haccepted.2

/-- The reader of framed bytes takes exactly one framed document that ends within the body. -/
theorem accepts_nextWithin (limit consumed expected : Nat) :
    Accepts (nextWithin limit consumed expected) fun bytes value =>
      bytes = value ∧ Framed limit value ∧ value.length ≤ expected - consumed := by
  unfold nextWithin
  simp only
  split
  · next hroom =>
    refine (accepts_fail _).congr fun bytes value => ?_
    simp only [lengthSize] at hroom
    constructor
    · intro hnever
      exact hnever.elim
    · intro haccepted
      obtain ⟨_, hframed, hlength⟩ := haccepted
      have hleast := hframed.least
      omega
  · next hroom =>
    refine ((accepts_exactly lengthSize).bind fun front => (accepts_ofExcept (allowedLength limit front)).bind
      fun declared => accepts_completed_within front (expected - consumed) declared _ _).congr fun bytes value => ?_
    constructor
    · intro haccepted
      obtain ⟨front, _, _, rfl, ⟨rfl, hfront⟩, hbehind⟩ := haccepted
      obtain ⟨_, rest, declared, rfl, ⟨rfl, hallowed⟩, hwithin, hrest, rfl⟩ := hbehind
      obtain ⟨hdeclared, hleast, hmost⟩ := allowedLength_eq_ok_iff.mp hallowed
      simp only [lengthSize] at hfront
      have htotal : (front ++ rest).length = declared := by
        rw [List.length_append]
        omega
      refine ⟨by simp, ⟨?_, by omega, by omega⟩, by omega⟩
      rw [List.take_left' hfront, htotal, hdeclared]
    · intro haccepted
      obtain ⟨rfl, hframed, hlength⟩ := haccepted
      obtain ⟨hdeclared, hleast, hmost⟩ := hframed
      have hallowed : allowedLength limit (bytes.take 4) = .ok bytes.length :=
        allowedLength_eq_ok_iff.mpr ⟨hdeclared, hleast, hmost⟩
      refine ⟨bytes.take 4, bytes.drop 4, bytes.take 4, by simp, ⟨rfl, List.length_take_of_le (by omega)⟩, ?_⟩
      exact ⟨[], bytes.drop 4, bytes.length, rfl, ⟨rfl, hallowed⟩, hlength, List.length_drop, by simp⟩

/-- Keeping a document takes no bytes. That it logs a document it refuses does not matter here. -/
theorem accepts_keep (bytes : Bytes) :
    Accepts (keep bytes) fun front raw => front = [] ∧ RawDocument.ofBytes bytes = .ok raw := by
  unfold keep
  cases RawDocument.ofBytes bytes with
  | ok raw =>
    refine (accepts_pure raw).congr fun front value => ?_
    simp only [Except.ok.injEq, eq_comm]
  | error cause =>
    refine ((accepts_record _).bind fun _ => accepts_fail _).congr fun front value => ?_
    simp

/-- What is wanted behind a length is taken and told of, or it is missed. -/
theorem run_completed (front : Bytes) (declared : Nat) (source : Source) :
    (completed front declared).run source =
      if declared - lengthSize ≤ source.ready.length then
        ⟨.ok (front ++ source.ready.take (declared - lengthSize)), source.past (declared - lengthSize),
          [.framed declared]⟩
      else ⟨.error (wholeShortage declared (source.shortage (declared - lengthSize))), source.spent, []⟩ := by
  split
  · next hrest =>
    have hread : ((exactly (declared - lengthSize)).mapError (wholeShortage declared)).run source =
        ⟨.ok (source.ready.take (declared - lengthSize)), source.past (declared - lengthSize), []⟩ := by
      simp only [Reading.mapError, run_exactly_of_le hrest]
      rfl
    rw [completed, run_bind_of_ok hread]
    rfl
  · next hrest =>
    have hread : ((exactly (declared - lengthSize)).mapError (wholeShortage declared)).run source =
        ⟨.error (wholeShortage declared (source.shortage (declared - lengthSize))), source.spent, []⟩ := by
      simp only [Reading.mapError, run_exactly_of_lt (Nat.lt_of_not_le hrest)]
      rfl
    rw [completed, run_bind_of_error hread]

/-- A shortage within a document stays one when it is counted from the document's start. -/
theorem isShortage_wholeShortage (declared : Nat) {error : MessageError} (hshortage : error.IsShortage) :
    (wholeShortage declared error).IsShortage := by
  cases error <;> exact hshortage

/-- Behind its length, a document is framed in steps. -/
theorem stepwise_completed {reports : MessageError → Prop} (front : Bytes) (declared : Nat)
    (hreports : ∀ error, reports error → reports (wholeShortage declared error)) :
    Stepwise reports (completed front declared) := by
  apply ((Stepwise.exactly _).mapError (fun _ => isShortage_wholeShortage declared) (fun _ => rfl) hreports).bind
  intro rest
  apply (stepwise_record _).bind
  intro _
  exact stepwise_pure _

theorem ofBody_wholeShortage {declared : Nat} (error : MessageError) (hbody : error.OfBody) :
    (wholeShortage declared error).OfBody := by
  cases error <;> exact hbody

/-- Framing goes in steps and reports a length that is not allowed. -/
theorem stepwise_next (limit : Nat) : Stepwise MessageError.OfBody (next limit) := by
  unfold next
  apply (Stepwise.exactly _).bind
  intro front
  apply (stepwise_ofExcept fun error herror => allowedLength_eq_error herror ▸ trivial).bind
  intro declared
  exact stepwise_completed front declared ofBody_wholeShortage

/-- Within a body, framing also reports a document that leaves the body. -/
theorem stepwise_nextWithin (limit consumed expected : Nat) :
    Stepwise MessageError.OfBody (nextWithin limit consumed expected) := by
  unfold nextWithin
  simp only
  split
  · exact stepwise_fail trivial
  · apply (Stepwise.exactly _).bind
    intro front
    apply (stepwise_ofExcept fun error herror => allowedLength_eq_error herror ▸ trivial).bind
    intro declared
    split
    · apply (stepwise_record _).bind
      intro _
      exact stepwise_fail trivial
    · exact stepwise_completed front declared ofBody_wholeShortage

theorem stepwise_keep (bytes : Bytes) : Stepwise MessageError.OfBody (keep bytes) := by
  unfold keep
  split
  · exact stepwise_pure _
  · apply (stepwise_record _).bind
    intro _
    exact stepwise_fail trivial

theorem within_completed {front : Bytes} {declared room : Nat} (hroom : declared - lengthSize ≤ room) :
    Within (completed front declared) room := by
  have hrest := (within_exactly hroom).mapError (wholeShortage declared)
  refine hrest.bind ((accepts_exactly _).mapError _) fun rest _ _ _ => ?_
  exact (within_record _ _).bind (accepts_record _) fun _ _ _ _ => within_pure _ _

/-- No document is framed beyond the end of its body. -/
theorem within_nextWithin (limit consumed expected : Nat) :
    Within (nextWithin limit consumed expected) (expected - consumed) := by
  unfold nextWithin
  simp only
  split
  · exact within_fail _ _
  · next hroom =>
    refine (within_exactly (by omega)).bind (accepts_exactly _) fun front _ haccepted _ => ?_
    obtain ⟨rfl, hfront⟩ := haccepted
    refine (within_ofExcept _ _).bind (accepts_ofExcept _) fun taken declared hallowed _ => ?_
    obtain ⟨rfl, _⟩ := hallowed
    split
    · exact (within_record _ _).bind (accepts_record _) fun _ _ _ _ => within_fail _ _
    · apply within_completed
      rw [List.length_nil, hfront]
      omega

theorem within_keep (bytes : Bytes) (room : Nat) : Within (keep bytes) room := by
  unfold keep
  split
  · exact within_pure _ _
  · exact (within_record _ _).bind (accepts_record _) fun _ _ _ _ => within_fail _ _

end Frame

end ReplyCapture
