import ReplyCapture.Proofs.Reply.Stops

namespace ReplyCapture

/-- Limits under which no document and no message may be larger than under others. -/
structure Limits.Below (strict lax : Limits) : Prop where
  document : strict.documentSize ≤ lax.documentSize
  message : strict.messageSize ≤ lax.messageSize

/-- A length above the limit is reported as it is, if it is one that can be declared. -/
theorem Header.bodySize_of_exceeded {header : Header} {limits : Limits} (hdeclarable : header.messageLength.toNat < 2 ^ 31)
    (hover : limits.messageSize < header.messageLength.toNat) :
    header.bodySize limits = .error (.lengthOutOfBounds header.messageLength.toNat) := by
  have hsigned : LittleEndian.signed header.messageLength = header.messageLength.toNat := by
    rw [LittleEndian.signed_eq]
    exact if_pos hdeclarable
  unfold bodySize
  simp only [hsigned, if_pos (Or.inr (Or.inl hover))]

namespace Reply

variable {strict lax limits : Limits} {message : Bytes} {reply : Reply}

theorem Carries.messageLength_le (hcarries : Carries limits message reply) :
    reply.header.messageLength.toNat ≤ limits.messageSize :=
  (Header.bodySize_eq_ok_iff.mp hcarries.size).2.1

theorem Carries.size_le (hcarries : Carries limits message reply) :
    ∀ raw ∈ reply.documents, raw.size ≤ limits.documentSize :=
  fun _ hraw => (hcarries.framed hraw).most

/-- A body keeps its length under any limits that its message keeps within. -/
theorem Carries.size_under {others : Limits} (hcarries : Carries limits message reply)
    (hmessage : reply.header.messageLength.toNat ≤ others.messageSize) :
    reply.header.bodySize others = .ok reply.encodeBody.length := by
  obtain ⟨hlength, _, hdeclarable⟩ := Header.bodySize_eq_ok_iff.mp hcarries.size
  exact Header.bodySize_eq_ok_iff.mpr ⟨hlength, hmessage, hdeclarable⟩

/-- What the limits decide of a message is only how long it and its documents may be. -/
theorem Carries.relimit {others : Limits} (hcarries : Carries limits message reply)
    (hmessage : reply.header.messageLength.toNat ≤ others.messageSize)
    (hdocuments : ∀ raw ∈ reply.documents, raw.size ≤ others.documentSize) : Carries others message reply := by
  have hsize := hcarries.size_under hmessage
  refine ⟨hcarries.bytes, hcarries.code, hsize, ⟨hcarries.fills.flatten, ?_, hcarries.fills.readable⟩, hcarries.unasked⟩
  intro bytes hbytes
  obtain ⟨raw, hraw, rfl⟩ := List.mem_map.mp hbytes
  obtain ⟨hdeclared, hleast, _⟩ := hcarries.framed hraw
  exact ⟨hdeclared, hleast, hdocuments raw hraw⟩

theorem Carries.parse_of_exceeded (hcarries : Carries lax message reply)
    (hover : strict.messageSize < reply.header.messageLength.toNat) :
    (parse message strict).result = .error (.lengthOutOfBounds reply.header.messageLength.toNat) := by
  obtain ⟨_, _, hdeclarable⟩ := Header.bodySize_eq_ok_iff.mp hcarries.size
  have hstops : Stops reply.header strict reply.encodeBody _ 0 :=
    .misdeclared hcarries.code (Header.bodySize_of_exceeded hdeclarable hover)
  exact hstops.result_parse hcarries.bytes

/-- Behind documents that keep within the limit, one that does not stops the message at its length. -/
theorem Carries.parse_of_oversized {before after : List RawDocument} {document : RawDocument}
    (hcarries : Carries lax message reply) (hmessage : reply.header.messageLength.toNat ≤ strict.messageSize)
    (hdocuments : reply.documents = before ++ document :: after)
    (hbefore : ∀ raw ∈ before, raw.size ≤ strict.documentSize) (hover : strict.documentSize < document.size) :
    (parse message strict).result = .error (.lengthOutOfBounds document.size) := by
  have hdeclares := (hcarries.framed_of_split hdocuments).declares (after.map RawDocument.bytes).flatten
  have hleast := hdeclares.least
  have hbody := encodeBody_split hdocuments
  have hthrough := hcarries.through hdocuments hbefore (document.bytes ++ (after.map RawDocument.bytes).flatten)
  rw [← hbody] at hthrough
  have hroom : Frame.lengthSize ≤ reply.encodeBody.length - (before.map RawDocument.bytes).flatten.length := by
    rw [hbody, List.length_append, List.length_append, Frame.lengthSize]
    omega
  have hstops := Frame.Stops.length hroom hdeclares.front hdeclares.length (.inr (Int.ofNat_lt.mpr hover))
  exact (Stops.document hcarries.code (hcarries.size_under hmessage) hthrough hstops).result_parse hcarries.bytes

/-- Documents of which some exceed a limit have a first one that does. -/
theorem exists_first_oversized {raws : List RawDocument} {limit : Nat} (hover : ∃ raw ∈ raws, limit < raw.size) :
    ∃ before document after, raws = before ++ document :: after ∧ (∀ raw ∈ before, raw.size ≤ limit) ∧
      limit < document.size := by
  have hsome : (raws.find? fun raw => decide (limit < raw.size)).isSome := by
    simpa only [List.find?_isSome, decide_eq_true_iff] using hover
  obtain ⟨document, hfound⟩ := Option.isSome_iff_exists.mp hsome
  obtain ⟨hdocument, before, after, hsplit, hbefore⟩ := List.find?_eq_some_iff_append.mp hfound
  refine ⟨before, document, after, hsplit, ?_, of_decide_eq_true hdocument⟩
  intro raw hraw
  simpa using hbefore raw hraw

/-- Limits only reject. Under stricter limits a buffer is parsed to the same reply if its message and all its documents
    keep within them, and to none otherwise. Then the message's length is told, where that is above its limit, and else
    the length of the first document that is above its own. -/
theorem parse_under_limits (hbelow : strict.Below lax) (message : Bytes) :
    (∀ reply, (parse message strict).result = .ok reply ↔
      (parse message lax).result = .ok reply ∧ reply.header.messageLength.toNat ≤ strict.messageSize ∧
        ∀ raw ∈ reply.documents, raw.size ≤ strict.documentSize) ∧
    ∀ reply, (parse message lax).result = .ok reply → (∀ other, (parse message strict).result ≠ .ok other) →
      (strict.messageSize < reply.header.messageLength.toNat ∧
        (parse message strict).result = .error (.lengthOutOfBounds reply.header.messageLength.toNat)) ∨
      (reply.header.messageLength.toNat ≤ strict.messageSize ∧
        ∃ before document after, reply.documents = before ++ document :: after ∧
          (∀ raw ∈ before, raw.size ≤ strict.documentSize) ∧ strict.documentSize < document.size ∧
          (parse message strict).result = .error (.lengthOutOfBounds document.size)) := by
  constructor
  · intro reply
    simp only [parse_eq_ok_iff]
    constructor
    · intro hcarries
      have hmessage := hcarries.messageLength_le
      have hdocuments := hcarries.size_le
      refine ⟨hcarries.relimit (Nat.le_trans hmessage hbelow.message) ?_, hmessage, hdocuments⟩
      intro raw hraw
      exact Nat.le_trans (hdocuments raw hraw) hbelow.document
    · intro hkept
      obtain ⟨hcarries, hmessage, hdocuments⟩ := hkept
      exact hcarries.relimit hmessage hdocuments
  · intro reply hparse hrejected
    have hcarries := parse_eq_ok_iff.mp hparse
    by_cases hmessage : strict.messageSize < reply.header.messageLength.toNat
    · exact .inl ⟨hmessage, hcarries.parse_of_exceeded hmessage⟩
    · have hmessage := Nat.le_of_not_lt hmessage
      have hover : ∃ raw ∈ reply.documents, strict.documentSize < raw.size := by
        apply Decidable.byContradiction
        intro hnone
        apply hrejected reply
        apply parse_eq_ok_iff.mpr
        apply hcarries.relimit hmessage
        intro raw hraw
        exact Nat.le_of_not_lt fun hsize => hnone ⟨raw, hraw, hsize⟩
      obtain ⟨before, document, after, hdocuments, hbefore, hsize⟩ := exists_first_oversized hover
      exact .inr ⟨hmessage, before, document, after, hdocuments, hbefore, hsize,
        hcarries.parse_of_oversized hmessage hdocuments hbefore hsize⟩

/-- The message of a reply of four documents, of which the second and the last are larger than the others. -/
def mixedMessage : Bytes :=
  (Header.mk 51 7 8 .commandReply).encode ++
    [5, 0, 0, 0, 0, 12, 0, 0, 0, 16, 97, 0, 1, 0, 0, 0, 0, 5, 0, 0, 0, 0, 13, 0, 0, 0, 16, 97, 98, 0, 1, 0, 0, 0, 0]

/-- Documents of 12 and 13 bytes are above a limit of 8, of which the first is told, and a message of 51 bytes is above a
    limit of 50, which is told before its documents are looked at. -/
theorem parse_under_limits_mixed :
    Limits.Below ⟨8, 64⟩ ⟨64, 64⟩ ∧ Limits.Below ⟨8, 50⟩ ⟨64, 64⟩ ∧
      (∃ reply, (parse mixedMessage ⟨64, 64⟩).result = .ok reply) ∧
      (parse mixedMessage ⟨8, 64⟩).result = .error (.lengthOutOfBounds 12) ∧
      (parse mixedMessage ⟨8, 50⟩).result = .error (.lengthOutOfBounds 51) := by
  have hdocument : Limits.Below ⟨8, 64⟩ ⟨64, 64⟩ := ⟨by decide, by decide⟩
  have hboth : Limits.Below ⟨8, 50⟩ ⟨64, 64⟩ := ⟨by decide, by decide⟩
  have hparse : (parse mixedMessage ⟨64, 64⟩).result = .ok (ofDocuments ⟨51, 7, 8, .commandReply⟩ ⟨[5, 0, 0, 0, 0]⟩
      ⟨[12, 0, 0, 0, 16, 97, 0, 1, 0, 0, 0, 0]⟩
      [⟨[5, 0, 0, 0, 0]⟩, ⟨[13, 0, 0, 0, 16, 97, 98, 0, 1, 0, 0, 0, 0]⟩]) := rfl
  obtain ⟨hkept, hrejects⟩ := parse_under_limits hdocument mixedMessage
  obtain ⟨hkeptBoth, hrejectsBoth⟩ := parse_under_limits hboth mixedMessage
  refine ⟨hdocument, hboth, ⟨_, hparse⟩, ?_, ?_⟩
  · have hrejected : ∀ other, (parse mixedMessage ⟨8, 64⟩).result ≠ .ok other := by
      intro other haccepted
      obtain ⟨hother, _, hsizes⟩ := (hkept other).mp haccepted
      obtain rfl := Except.ok.inj (hparse.symm.trans hother)
      exact absurd hsizes (by decide)
    obtain ⟨hover, _⟩ | ⟨_, before, document, after, hsplit, hbefore, hsize, herror⟩ := hrejects _ hparse hrejected
    · exact absurd hover (by decide)
    · match before, hsplit, hbefore with
      | [], hsplit, _ =>
        cases hsplit
        exact absurd hsize (by decide)
      | [_], hsplit, _ =>
        cases hsplit
        exact herror
      | _ :: second :: _, hsplit, hbefore =>
        obtain ⟨_, hbehind⟩ := List.cons.inj hsplit
        obtain ⟨rfl, _⟩ := List.cons.inj hbehind
        exact absurd (hbefore _ (List.mem_cons_of_mem _ List.mem_cons_self)) (by decide)
  · have hrejected : ∀ other, (parse mixedMessage ⟨8, 50⟩).result ≠ .ok other := by
      intro other haccepted
      obtain ⟨hother, hlength, _⟩ := (hkeptBoth other).mp haccepted
      obtain rfl := Except.ok.inj (hparse.symm.trans hother)
      exact absurd hlength (by decide)
    obtain ⟨_, herror⟩ | ⟨hlength, _⟩ := hrejectsBoth _ hparse hrejected
    · exact herror
    · exact absurd hlength (by decide)

end Reply

end ReplyCapture
