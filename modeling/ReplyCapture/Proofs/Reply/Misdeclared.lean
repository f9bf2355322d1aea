import ReplyCapture.Proofs.Message.Bounded
import ReplyCapture.Proofs.Reply.Buffer
import ReplyCapture.Proofs.Reply.RoundTrip

namespace ReplyCapture

/-- The same header with another length. -/
def Header.declaring (header : Header) (length : UInt32) : Header :=
  { header with messageLength := length }

namespace Reply

open Reading

/-- The error of a body that is declared to have `expected` bytes where documents of `held` bytes stand and none of them
    ends with the body: it ends within one of them, or so short behind them that no length could follow, or further on
    where a length should follow and there is nothing. -/
structure EndsAmiss (held expected : Nat) (error : MessageError) : Prop where
  within : expected < held → ∃ reached, error = .crossesFrame reached expected ∧ expected < reached
  narrow : held ≤ expected → expected < held + 4 → error = .crossesFrame (held + 4) expected
  beyond : held + 4 ≤ expected → error = .truncated 4 0

/-- A reading of a body that is misdeclared, from some place of it. -/
def GoesAmiss {α : Type} (reading : Reading α) (source : Source) (held expected : Nat) : Prop :=
  ∃ error, (reading.run source).result = .error error ∧ EndsAmiss held expected error

variable {α β : Type} {reading : Reading α} {next : α → Reading β} {source after : Source}
  {held consumed expected limit : Nat}

theorem GoesAmiss.bind (hreading : GoesAmiss reading source held expected) (next : α → Reading β) :
    GoesAmiss (reading >>= next) source held expected := by
  obtain ⟨error, hresult, herror⟩ := hreading
  exact ⟨error, result_bind_of_error hresult, herror⟩

theorem goesAmiss_bind_of_gives {value : α} (hgives : reading.Gives source value after)
    (hnext : GoesAmiss (next value) after held expected) : GoesAmiss (reading >>= next) source held expected := by
  obtain ⟨error, hresult, herror⟩ := hnext
  exact ⟨error, (result_bind_of_gives hgives).trans hresult, herror⟩

/-- A body that ends within a document is crossed by this document. -/
theorem goesAmiss_of_crossing {document : Bytes} (hframed : Frame.Framed limit document)
    (hfront : document <+: source.ready) (hover : ¬ document.length ≤ expected - consumed) {held : Nat}
    (hheld : expected < held) : GoesAmiss (Frame.nextWithin limit consumed expected) source held expected := by
  have hcrosses (reached : Nat) (hreached : expected < reached) :
      EndsAmiss held expected (.crossesFrame reached expected) :=
    ⟨fun _ => ⟨reached, rfl, hreached⟩, fun _ _ => by omega, fun _ => by omega⟩
  by_cases hroom : expected - consumed < Frame.lengthSize
  · refine ⟨_, congrArg Outcome.result (Frame.run_nextWithin_of_narrow hroom source), hcrosses _ ?_⟩
    rw [Frame.lengthSize] at hroom ⊢
    omega
  · obtain ⟨rest, hready⟩ := hfront
    have hdeclares := hready ▸ hframed.declares rest
    have hrun := Frame.run_nextWithin_of_overrun (Nat.le_of_not_lt hroom) hdeclares (Nat.lt_of_not_le hover)
    refine ⟨_, congrArg Outcome.result hrun, hcrosses _ ?_⟩
    omega

/-- A body that goes on behind its documents, where nothing stands, is left for want of bytes or of room. -/
theorem goesAmiss_of_end (hholds : source.Holds []) (limit : Nat) (hmore : consumed < expected) :
    GoesAmiss (Frame.nextWithin limit consumed expected) source consumed expected := by
  by_cases hroom : expected - consumed < Frame.lengthSize
  · refine ⟨_, congrArg Outcome.result (Frame.run_nextWithin_of_narrow hroom source), ?_⟩
    rw [Frame.lengthSize] at hroom
    exact ⟨fun _ => by omega, fun _ _ => rfl, fun _ => by omega⟩
  · have hread : ((exactly Frame.lengthSize).run source).result = .error (.truncated 4 0) := by
      rw [run_exactly_of_lt (by rw [hholds.ready]; exact Nat.succ_pos _), Source.shortage, hholds.ending, hholds.ready]
      rfl
    refine ⟨.truncated 4 0, ?_, ?_⟩
    · unfold Frame.nextWithin
      simp only [if_neg hroom]
      exact result_bind_of_error hread
    · rw [Frame.lengthSize] at hroom
      exact ⟨fun _ => by omega, fun _ _ => by omega, fun _ => rfl⟩

/-- The loop goes amiss where the body ends with none of the documents that are left. -/
theorem goesAmiss_outputs {limits : Limits} {documents : List Bytes} {rest : Bytes} {bound : Nat}
    (hfills : Fills limits documents rest) (hholds : source.Holds rest) (hwithin : consumed ≤ expected)
    (hbound : expected - consumed ≤ bound)
    (hamiss : ∀ count ≤ documents.length, consumed + (documents.take count).flatten.length ≠ expected) :
    GoesAmiss (many (outputStep limits expected) bound consumed) source (consumed + rest.length) expected := by
  induction documents generalizing source rest consumed bound with
  | nil =>
    obtain rfl := fills_nil_iff.mp hfills
    have hstart := hamiss 0 Nat.le.refl
    simp only [List.take_zero, List.flatten_nil, List.length_nil] at hstart
    have hmore : consumed < expected := by omega
    obtain ⟨bound, rfl⟩ : ∃ fewer, bound = fewer + 1 := ⟨bound - 1, by omega⟩
    rw [many_succ, outputStep, if_pos hmore]
    exact ((goesAmiss_of_end hholds limits.documentSize hmore).bind _).bind _
  | cons document documents ih =>
    obtain ⟨rest, rfl, hframed, ⟨raw, hraw⟩, hothers⟩ := fills_cons_iff.mp hfills
    have hstart := hamiss 0 (Nat.zero_le _)
    simp only [List.take_zero, List.flatten_nil, List.length_nil] at hstart
    have hmore : consumed < expected := by omega
    obtain ⟨bound, rfl⟩ : ∃ fewer, bound = fewer + 1 := ⟨bound - 1, by omega⟩
    rw [many_succ, outputStep, if_pos hmore, List.length_append, ← Nat.add_assoc]
    by_cases hfits : document.length ≤ expected - consumed
    · -- A whole document is passed, and the body goes amiss among the others.
      have hread := (accepts_readOutput limits expected consumed source (raw, consumed + document.length) _).mpr
        ⟨document, hholds.front, ⟨hframed, hfits, hraw, rfl⟩, rfl⟩
      have hbehind (count : Nat) (hcount : count ≤ documents.length) :
          consumed + document.length + (documents.take count).flatten.length ≠ expected := by
        have hnext := hamiss (count + 1) (Nat.succ_le_succ hcount)
        rwa [List.take_succ_cons, List.flatten_cons, List.length_append, ← Nat.add_assoc] at hnext
      have hleast := hframed.least
      exact goesAmiss_bind_of_gives hread ((ih hothers hholds.past (by omega) (by omega) hbehind).bind _)
    · have hheld : expected < consumed + document.length + rest.length := by omega
      exact ((goesAmiss_of_crossing hframed hholds.front hfits hheld).bind _).bind _

/-- A body goes amiss where its declared length ends with none of its documents, or with the first. -/
theorem goesAmiss_readBody {limits : Limits} {header : Header} {first second : Bytes} {others : List Bytes}
    {body : Bytes} (hcode : header.opCode = .commandReply) (hsize : header.bodySize limits = .ok expected)
    (hfills : Fills limits (first :: second :: others) body) (hholds : source.Holds body)
    (hamiss : ∀ count ≤ others.length, first.length + second.length + (others.take count).flatten.length ≠ expected) :
    GoesAmiss (readBody header limits) source body.length expected := by
  obtain ⟨_, rfl, hfirst, ⟨commandReply, hreply⟩, hbehind⟩ := fills_cons_iff.mp hfills
  obtain ⟨rest, rfl, hsecond, ⟨metadata, hmetadata⟩, hothers⟩ := fills_cons_iff.mp hbehind
  obtain rfl := (RawDocument.ofBytes_eq_ok_iff.mp hreply).2
  obtain rfl := (RawDocument.ofBytes_eq_ok_iff.mp hmetadata).2
  have hleast := hsecond.least
  have hsized : Gives (ofExcept (header.bodySize limits)) source expected source := ⟨[], run_ofExcept hsize source⟩
  rw [List.length_append, List.length_append, ← Nat.add_assoc]
  unfold readBody
  rw [if_neg (not_not_intro hcode)]
  refine goesAmiss_bind_of_gives hsized ?_
  by_cases hfits : first.length ≤ expected - 0
  · have hread := (accepts_document limits 0 expected source _ _).mpr
      ⟨first, hholds.front, ⟨hfirst, hfits, hreply⟩, rfl⟩
    refine goesAmiss_bind_of_gives hread ?_
    by_cases hroom : second.length ≤ expected - first.length
    · have hnext := (accepts_document limits first.length expected _ _ _).mpr
        ⟨second, hholds.past.front, ⟨hsecond, hroom, hmetadata⟩, rfl⟩
      refine goesAmiss_bind_of_gives hnext ?_
      exact (goesAmiss_outputs hothers hholds.past.past (by omega) (Nat.sub_le _ _) hamiss).bind _
    · have hheld : expected < first.length + second.length + rest.length := by omega
      exact ((goesAmiss_of_crossing hsecond hholds.past.front hroom hheld).bind _).bind _
  · have hheld : expected < first.length + second.length + rest.length := by omega
    exact ((goesAmiss_of_crossing hfirst hholds.front hfits hheld).bind _).bind _

/-- A message with another length in front. -/
def redeclare (length : UInt32) (message : Bytes) : Bytes :=
  LittleEndian.encodeWord length ++ message.drop 4

/-- Bytes of the command reply, the metadata and the first `count` of the other documents. -/
def sizeThrough (reply : Reply) (count : Nat) : Nat :=
  ((reply.commandReply :: reply.metadata :: reply.outputs.take count).map RawDocument.size).sum

/-- Behind another length stand the same words and the same body. -/
theorem redeclare_encode_append (length : UInt32) (header : Header) (body : Bytes) :
    redeclare length (header.encode ++ body) = (header.declaring length).encode ++ body := by
  simp only [redeclare, Header.encode, Header.declaring, List.append_assoc]
  rw [List.drop_left' (LittleEndian.length_encodeWord header.messageLength)]

/-- The first documents of a message, under a header that declares these and no others, are a message. -/
theorem Carries.take {limits : Limits} {message : Bytes} {reply : Reply} (hcarries : Carries limits message reply)
    {header : Header} (hcode : header.opCode = .commandReply) {count : Nat}
    (hsize : header.bodySize limits = .ok (reply.sizeThrough count)) :
    Carries limits
      (header.encode ++ (ofDocuments header reply.commandReply reply.metadata (reply.outputs.take count)).encodeBody)
      (ofDocuments header reply.commandReply reply.metadata (reply.outputs.take count)) := by
  refine carries_ofDocuments hcode ?_ ?_
  · intro raw hraw
    have hdocument : raw ∈ reply.documents := by
      have hsub : (reply.commandReply :: reply.metadata :: reply.outputs.take count).Sublist reply.documents :=
        ((List.take_sublist _ _).cons_cons _).cons_cons _
      exact hsub.subset hraw
    have hbytes : raw.bytes ∈ reply.documents.map RawDocument.bytes := List.mem_map_of_mem hdocument
    exact ⟨hcarries.fills.readable _ hbytes, (hcarries.fills.framed _ hbytes).most⟩
  · rw [length_encodeBody]
    exact hsize

/-- The first documents of a reply are the front of its body. -/
theorem encodeBody_take_isFront (reply : Reply) (header : Header) (count : Nat) :
    (ofDocuments header reply.commandReply reply.metadata (reply.outputs.take count)).encodeBody <+:
      reply.encodeBody := by
  refine ⟨(reply.outputs.drop count).flatMap RawDocument.bytes, ?_⟩
  simp only [encodeBody, ofDocuments, documents, List.flatMap_cons, List.append_assoc]
  rw [← List.flatMap_append, List.take_append_drop]

/-- A length that is accepted leaves a body, whatever it was before. -/
theorem bodySize_declaring (header : Header) {limits : Limits} {length : UInt32} (hleast : Header.size ≤ length.toNat)
    (hlimit : length.toNat ≤ limits.messageSize) (hgreatest : length.toNat ≤ greatestLength) :
    (header.declaring length).bodySize limits = .ok (length.toNat - Header.size) := by
  rw [greatestLength] at hgreatest
  rw [Header.size] at hleast ⊢
  have hlength : length.toNat = 16 + (length.toNat - 16) := by omega
  exact Header.bodySize_eq_ok_iff.mpr ⟨hlength, hlimit, Nat.lt_of_le_of_lt hgreatest (by decide)⟩

/-- A source that holds a message goes amiss where its length ends with none of its documents. -/
theorem Carries.goesAmiss {limits : Limits} {message : Bytes} {reply : Reply} (hcarries : Carries limits message reply)
    {header : Header} (hcode : header.opCode = .commandReply) (hsize : header.bodySize limits = .ok expected)
    (hholds : source.Holds (header.encode ++ reply.encodeBody))
    (hamiss : ∀ count ≤ reply.outputs.length, reply.sizeThrough count ≠ expected) :
    GoesAmiss (read limits) source reply.encodeBody.length expected := by
  have hbody := hholds.past
  rw [Header.length_encode] at hbody
  have hfills : Fills limits
      (reply.commandReply.bytes :: reply.metadata.bytes :: reply.outputs.map RawDocument.bytes) reply.encodeBody :=
    hcarries.fills
  obtain ⟨error, hresult, herror⟩ := goesAmiss_readBody hcode hsize hfills hbody fun count hcount => by
    rw [List.length_map] at hcount
    have hothers : ((reply.outputs.map RawDocument.bytes).take count).flatten.length =
        ((reply.outputs.take count).map RawDocument.size).sum := by
      rw [← List.map_take, ← List.flatMap_def, List.length_flatMap]
      rfl
    have hplace := hamiss count hcount
    rw [sizeThrough, List.map_cons, List.map_cons, List.sum_cons, List.sum_cons, ← Nat.add_assoc] at hplace
    rwa [hothers]
  refine ⟨error, ?_, herror⟩
  rw [run_read_of_declared hholds.front hsize]
  exact ((stepwise_readBody header limits).result_orSkip expected hbody.ending).trans hresult

/-- What becomes of a message whose length is replaced by any other that is accepted, on a source that holds nothing
    else. Where the new length ends with one of the documents behind the metadata, or with the metadata, the reply has
    the documents up to there, whole, and the source stands behind them. Where it ends anywhere else, within a document
    or behind the last one, there is no reply: the error tells of the document that crosses the boundary, of the length
    for which there is no room, or of the end of the source. -/
theorem read_redeclared {limits : Limits} {message : Bytes} {reply : Reply}
    (hparse : (parse message limits).result = .ok reply) {length : UInt32} (hleast : Header.size ≤ length.toNat)
    (hlimit : length.toNat ≤ limits.messageSize) (hgreatest : length.toNat ≤ greatestLength) {source : Source}
    (hholds : source.Holds (redeclare length message)) :
    (∀ count ≤ reply.outputs.length, reply.sizeThrough count = length.toNat - Header.size →
      ((read limits).run source).result =
          .ok (ofDocuments (reply.header.declaring length) reply.commandReply reply.metadata
            (reply.outputs.take count)) ∧
        ((read limits).run source).source.position = source.position + length.toNat) ∧
    ((∀ count ≤ reply.outputs.length, reply.sizeThrough count ≠ length.toNat - Header.size) →
      (length.toNat < message.length →
        ∃ reached, ((read limits).run source).result = .error (.crossesFrame reached (length.toNat - Header.size)) ∧
          length.toNat - Header.size < reached) ∧
      (message.length ≤ length.toNat → length.toNat - message.length < 4 →
        ((read limits).run source).result =
          .error (.crossesFrame (message.length - Header.size + 4) (length.toNat - Header.size))) ∧
      (message.length ≤ length.toNat → 4 ≤ length.toNat - message.length →
        ((read limits).run source).result = .error (.truncated 4 0))) := by
  have hcarries := parse_eq_ok_iff.mp hparse
  have hcode : (reply.header.declaring length).opCode = .commandReply := hcarries.code
  have hsize := bodySize_declaring reply.header hleast hlimit hgreatest
  rw [hcarries.bytes, redeclare_encode_append] at hholds
  have hlength : message.length = Header.size + reply.encodeBody.length := by
    rw [hcarries.bytes, List.length_append, Header.length_encode]
  constructor
  · intro count hcount hends
    have hfirst := hcarries.take hcode (hsize.trans (congrArg Except.ok hends.symm))
    have hfront := (List.prefix_append_right_inj (reply.header.declaring length).encode).mpr
      (encodeBody_take_isFront reply (reply.header.declaring length) count)
    rw [← hholds.ready] at hfront
    obtain ⟨log, hrun⟩ := (accepts_read limits source _ _).mpr ⟨_, hfront, hfirst, rfl⟩
    rw [hrun]
    refine ⟨rfl, ?_⟩
    rw [Source.position_past, ← hfirst.length_message]
    rfl
  · intro hamiss
    obtain ⟨error, hresult, hwithin, hnarrow, hbeyond⟩ := hcarries.goesAmiss hcode hsize hholds hamiss
    rw [Header.size] at hleast hlength hwithin hnarrow hbeyond ⊢
    refine ⟨?_, ?_, ?_⟩
    · intro hcut
      obtain ⟨reached, rfl, hreached⟩ := hwithin (by omega)
      exact ⟨reached, hresult, hreached⟩
    · intro hmore hroom
      rw [hresult, hnarrow (by omega) (by omega), hlength, Nat.add_sub_cancel_left]
    · intro hmore hroom
      rw [hresult, hbeyond (by omega)]

/-- A reply of three empty documents. -/
def threefoldMessage : Bytes :=
  [31, 0, 0, 0, 7, 0, 0, 0, 8, 0, 0, 0, 219, 7, 0, 0, 5, 0, 0, 0, 0, 5, 0, 0, 0, 0, 5, 0, 0, 0, 0]

/-- Declared shorter, the message ends behind its metadata or within its last document. Declared longer, it ends too
    early for another length, or where one should stand. -/
theorem read_redeclared_threefold :
    (parse threefoldMessage ⟨64, 64⟩).result = .ok (ofDocuments ⟨31, 7, 8, .commandReply⟩ ⟨[5, 0, 0, 0, 0]⟩
      ⟨[5, 0, 0, 0, 0]⟩ [⟨[5, 0, 0, 0, 0]⟩]) ∧
    ((read ⟨64, 64⟩).run (Source.ofBytes (redeclare 26 threefoldMessage))).result =
      .ok (ofDocuments ⟨26, 7, 8, .commandReply⟩ ⟨[5, 0, 0, 0, 0]⟩ ⟨[5, 0, 0, 0, 0]⟩ []) ∧
    (∃ reached, ((read ⟨64, 64⟩).run (Source.ofBytes (redeclare 28 threefoldMessage))).result =
      .error (.crossesFrame reached 12) ∧ 12 < reached) ∧
    ((read ⟨64, 64⟩).run (Source.ofBytes (redeclare 33 threefoldMessage))).result = .error (.crossesFrame 19 17) ∧
    ((read ⟨64, 64⟩).run (Source.ofBytes (redeclare 35 threefoldMessage))).result = .error (.truncated 4 0) := by
  have hparse : (parse threefoldMessage ⟨64, 64⟩).result = .ok (ofDocuments ⟨31, 7, 8, .commandReply⟩
      ⟨[5, 0, 0, 0, 0]⟩ ⟨[5, 0, 0, 0, 0]⟩ [⟨[5, 0, 0, 0, 0]⟩]) := rfl
  have hholds (length : UInt32) : (Source.ofBytes (redeclare length threefoldMessage)).Holds
      (redeclare length threefoldMessage) := ⟨Source.ready_ofBytes _, rfl⟩
  obtain ⟨hends, _⟩ := read_redeclared hparse (by decide) (by decide) (by decide) (hholds 26)
  obtain ⟨_, hcut⟩ := read_redeclared hparse (by decide) (by decide) (by decide) (hholds 28)
  obtain ⟨_, hnarrow⟩ := read_redeclared hparse (by decide) (by decide) (by decide) (hholds 33)
  obtain ⟨_, hbeyond⟩ := read_redeclared hparse (by decide) (by decide) (by decide) (hholds 35)
  exact ⟨hparse, (hends 0 (by decide) (by decide)).1, (hcut (by decide)).1 (by decide),
    (hnarrow (by decide)).2.1 (by decide) (by decide), (hbeyond (by decide)).2.2 (by decide) (by decide)⟩

end Reply

end ReplyCapture
