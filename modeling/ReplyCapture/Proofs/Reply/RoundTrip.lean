import ReplyCapture.Proofs.Reply.Message

namespace ReplyCapture.Reply

open Reading

/-- A reply is written where its bytes can be counted by a length, and then as they are counted. -/
theorem encode_eq_ok_iff {reply : Reply} {message : Bytes} :
    reply.encode = .ok message ↔
      Header.size + reply.encodeBody.length ≤ greatestLength ∧
        message = Header.encode
          { reply.header with messageLength := UInt32.ofNat (Header.size + reply.encodeBody.length) } ++
            reply.encodeBody := by
  unfold encode
  simp only
  split
  · next hlarge =>
    simp only [reduceCtorEq, false_iff, not_and]
    omega
  · next hfits =>
    simp only [Except.ok.injEq, eq_comm (a := message)]
    exact (and_iff_right (Nat.not_lt.mp hfits)).symm

theorem toNat_length_of_le {size : Nat} (hsize : size ≤ greatestLength) : (UInt32.ofNat size).toNat = size := by
  rw [greatestLength] at hsize
  exact UInt32.toNat_ofNat_of_lt' (Nat.lt_of_le_of_lt hsize (by decide))

theorem length_encodeBody (reply : Reply) : reply.encodeBody.length = (reply.documents.map RawDocument.size).sum :=
  List.length_flatMap

/-- A message is what the reply in it is written as: its header declares the bytes that are there. -/
theorem Carries.encode {limits : Limits} {message : Bytes} {reply : Reply} (hcarries : Carries limits message reply) :
    reply.encode = .ok message := by
  obtain ⟨hlength, _, hgreatest⟩ := Header.bodySize_eq_ok_iff.mp hcarries.size
  have hfits : Header.size + reply.encodeBody.length ≤ greatestLength := by
    rw [Header.size, greatestLength]
    omega
  have hsame : UInt32.ofNat (Header.size + reply.encodeBody.length) = reply.header.messageLength := by
    rw [Header.size, ← hlength, UInt32.ofNat_toNat]
  refine encode_eq_ok_iff.mpr ⟨hfits, ?_⟩
  rw [hsame]
  exact hcarries.bytes

/-- Readable documents behind a header that declares them all are a message. -/
theorem carries_ofDocuments {limits : Limits} {header : Header} {commandReply metadata : RawDocument}
    {outputs : List RawDocument} (hcode : header.opCode = .commandReply)
    (hkept : ∀ raw ∈ commandReply :: metadata :: outputs,
      (∃ kept, RawDocument.ofBytes raw.bytes = .ok kept) ∧ raw.size ≤ limits.documentSize)
    (hsize : header.bodySize limits = .ok (ofDocuments header commandReply metadata outputs).encodeBody.length) :
    Carries limits (header.encode ++ (ofDocuments header commandReply metadata outputs).encodeBody)
      (ofDocuments header commandReply metadata outputs) := by
  refine ⟨rfl, hcode, hsize, ⟨(encodeBody_eq_flatten _).symm, ?_, ?_⟩, rfl⟩
  · intro bytes hbytes
    obtain ⟨raw, hraw, rfl⟩ := List.mem_map.mp hbytes
    obtain ⟨⟨kept, hkeeps⟩, hlimit⟩ := hkept raw hraw
    exact Frame.framed_of_ofBytes hkeeps hlimit
  · intro bytes hbytes
    obtain ⟨raw, hraw, rfl⟩ := List.mem_map.mp hbytes
    exact (hkept raw hraw).1

/-- What is written is read back. Readable documents within the limits, under any header of a command reply and
    whatever length it keeps, are written as one message of all their bytes, and the buffer of that message gives the
    same documents under the same header, which now declares the message's length. -/
theorem parse_encode_ofDocuments {limits : Limits} {header : Header} {commandReply metadata : RawDocument}
    {outputs : List RawDocument} (hcode : header.opCode = .commandReply)
    (hkept : ∀ raw ∈ commandReply :: metadata :: outputs,
      (∃ kept, RawDocument.ofBytes raw.bytes = .ok kept) ∧ raw.size ≤ limits.documentSize)
    (hlimit : Header.size + ((commandReply :: metadata :: outputs).map RawDocument.size).sum ≤ limits.messageSize)
    (hgreatest : Header.size + ((commandReply :: metadata :: outputs).map RawDocument.size).sum ≤ 2147483647) :
    ∃ message length, (ofDocuments header commandReply metadata outputs).encode = .ok message ∧
      message.length = Header.size + ((commandReply :: metadata :: outputs).map RawDocument.size).sum ∧
      length.toNat = message.length ∧
      (parse message limits).result =
        .ok (ofDocuments ⟨length, header.requestId, header.responseTo, header.opCode⟩ commandReply metadata outputs) := by
  have hbody : (ofDocuments header commandReply metadata outputs).encodeBody.length =
      ((commandReply :: metadata :: outputs).map RawDocument.size).sum := length_encodeBody _
  rw [← hbody] at hlimit hgreatest ⊢
  have hlength := toNat_length_of_le hgreatest
  have hsize : (Header.mk (UInt32.ofNat (Header.size + (ofDocuments header commandReply metadata outputs).encodeBody.length))
      header.requestId header.responseTo header.opCode).bodySize limits =
        .ok (ofDocuments header commandReply metadata outputs).encodeBody.length := by
    refine Header.bodySize_eq_ok_iff.mpr ⟨hlength, Nat.le_trans (Nat.le_of_eq hlength) hlimit, ?_⟩
    exact Nat.lt_of_le_of_lt (Nat.le_trans (Nat.le_of_eq hlength) hgreatest) (by decide)
  refine ⟨_, _, encode_eq_ok_iff.mpr ⟨hgreatest, rfl⟩, ?_, ?_, parse_eq_ok_iff.mpr (carries_ofDocuments hcode hkept hsize)⟩
  · rw [List.length_append, Header.length_encode]
  · rw [List.length_append, Header.length_encode]
    exact hlength

/-- A reply of three empty documents, whose kept header declares nothing of the kind and which just fits. -/
theorem parse_encode_ofDocuments_three :
    (Header.mk 99 7 8 .commandReply).opCode = .commandReply ∧
      ∃ message length, (ofDocuments ⟨99, 7, 8, .commandReply⟩ ⟨[5, 0, 0, 0, 0]⟩ ⟨[5, 0, 0, 0, 0]⟩
          [⟨[5, 0, 0, 0, 0]⟩]).encode = .ok message ∧ length.toNat = 31 ∧
        (parse message ⟨5, 31⟩).result = .ok (ofDocuments ⟨length, 7, 8, .commandReply⟩ ⟨[5, 0, 0, 0, 0]⟩
          ⟨[5, 0, 0, 0, 0]⟩ [⟨[5, 0, 0, 0, 0]⟩]) := by
  have hcode : (Header.mk 99 7 8 .commandReply).opCode = .commandReply := rfl
  have hkept : ∀ raw ∈ [RawDocument.mk [5, 0, 0, 0, 0], ⟨[5, 0, 0, 0, 0]⟩, ⟨[5, 0, 0, 0, 0]⟩],
      (∃ kept, RawDocument.ofBytes raw.bytes = .ok kept) ∧ raw.size ≤ (Limits.mk 5 31).documentSize := by
    intro raw hraw
    obtain rfl : raw = ⟨[5, 0, 0, 0, 0]⟩ := by simpa using hraw
    exact ⟨⟨_, rfl⟩, Nat.le.refl⟩
  obtain ⟨message, length, hencode, hmessage, hlength, hparse⟩ :=
    parse_encode_ofDocuments hcode hkept (by decide) (by decide)
  exact ⟨hcode, message, length, hencode, hlength.trans hmessage, hparse⟩

/-- What is read is written back, byte for byte: a buffer as the reply parsed from it, and of a source exactly the
    bytes that were taken. So messages with equal headers and documents are equal, whatever the limits. -/
theorem encode_of_decoded :
    (∀ limits buffer reply, (parse buffer limits).result = .ok reply → reply.encode = .ok buffer) ∧
    (∀ limits source reply, ((read limits).run source).result = .ok reply →
      ∃ taken, source.pending = taken ++ ((read limits).run source).source.pending ∧
        ((read limits).run source).source.position = source.position + taken.length ∧ reply.encode = .ok taken) ∧
    ∀ limits others buffer other first second, (parse buffer limits).result = .ok first →
      (parse other others).result = .ok second → first.header = second.header →
      first.documents = second.documents → buffer = other := by
  refine ⟨?_, ?_, ?_⟩
  · intro limits buffer reply hparse
    exact (parse_eq_ok_iff.mp hparse).encode
  · intro limits source reply hread
    obtain ⟨taken, htaken, hcarries, hafter⟩ := (accepts_read limits _ _ _).mp (gives_of_result hread)
    obtain ⟨rest, hrest⟩ := htaken.trans (List.take_prefix _ _)
    refine ⟨taken, ?_, ?_, hcarries.encode⟩
    · rw [hafter, Source.pending_past, ← hrest, List.drop_left]
    · rw [hafter, Source.position_past]
  · intro limits others buffer other first second hbuffer hother hheader hdocuments
    have hbody : first.encodeBody = second.encodeBody := congrArg (List.flatMap RawDocument.bytes) hdocuments
    rw [(parse_eq_ok_iff.mp hbuffer).bytes, (parse_eq_ok_iff.mp hother).bytes, hheader, hbody]

/-- Two empty documents, read off a source with more behind them which delivers three bytes at a time and is interrupted
    once. -/
theorem encode_of_decoded_pieces :
    ∃ reply taken, ((read ⟨64, 64⟩).run
        { pending := [26, 0, 0, 0, 7, 0, 0, 0, 8, 0, 0, 0, 219, 7, 0, 0, 5, 0, 0, 0, 0, 5, 0, 0, 0, 0, 9],
          chunk := some 3, interrupts := [20] }).result = .ok reply ∧
      reply.encode = .ok taken ∧ taken.length = 26 := by
  obtain ⟨_, hread, _⟩ := encode_of_decoded
  obtain ⟨taken, _, hplace, hencode⟩ := hread ⟨64, 64⟩
    { pending := [26, 0, 0, 0, 7, 0, 0, 0, 8, 0, 0, 0, 219, 7, 0, 0, 5, 0, 0, 0, 0, 5, 0, 0, 0, 0, 9],
      chunk := some 3, interrupts := [20] }
    (ofDocuments ⟨26, 7, 8, .commandReply⟩ ⟨[5, 0, 0, 0, 0]⟩ ⟨[5, 0, 0, 0, 0]⟩ []) rfl
  exact ⟨_, taken, rfl, hencode, (hplace.trans (Nat.zero_add _)).symm⟩

end ReplyCapture.Reply
