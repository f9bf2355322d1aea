import ReplyCapture.Proofs.Reply.Capture
import ReplyCapture.Reply.Encode

namespace ReplyCapture

namespace Reading

variable {α : Type} {reading : Reading α}

/-- Bytes passed over after a failure are none that a reading accepts. -/
theorem Accepts.orSkip {accepted : Bytes → α → Prop} (hreading : Accepts reading accepted) (size : Nat) :
    Accepts (reading.orSkip size) accepted := by
  intro source value after
  rw [← hreading source value after]
  constructor
  · intro hgives
    obtain ⟨log, hrun⟩ := hgives
    rcases hbefore : reading.run source with ⟨error | found, stop, lines⟩
    · simp only [Reading.orSkip, hbefore, Outcome.skipRest] at hrun
      repeat' split at hrun
      all_goals cases hrun
    · rw [run_orSkip_of_ok size hbefore] at hrun
      exact ⟨log, hbefore.trans hrun⟩
  · intro hgives
    obtain ⟨log, hrun⟩ := hgives
    exact ⟨log, run_orSkip_of_ok size hrun⟩

/-- Off a buffer, a reading takes the bytes that it accepts, and is whole if nothing is left behind them. -/
theorem result_whole_append {accepted : Bytes → α → Prop} (hreading : Accepts reading accepted) {front : Bytes}
    {value : α} (haccepted : accepted front value) (rest : Bytes) :
    (reading.whole.run (Source.ofBytes (front ++ rest))).result =
      if rest.isEmpty then .ok value else .error (.trailingBytes rest.length) := by
  have hready : front <+: (Source.ofBytes (front ++ rest)).ready :=
    (Source.ready_ofBytes _).symm ▸ List.prefix_append front rest
  obtain ⟨log, hrun⟩ := (hreading _ value _).mpr ⟨front, hready, haccepted, rfl⟩
  have hpending : ((Source.ofBytes (front ++ rest)).past front.length).pending = rest := List.drop_left
  rw [run_whole_of_ok hrun, hpending]
  split <;> rfl

/-- A buffer is read whole where it holds the bytes accepted and no others. -/
theorem whole_eq_ok_iff {accepted : Bytes → α → Prop} (hreading : Accepts reading accepted) {buffer : Bytes}
    {value : α} : (reading.whole.run (Source.ofBytes buffer)).result = .ok value ↔ accepted buffer value := by
  constructor
  · intro hresult
    rcases hrun : reading.run (Source.ofBytes buffer) with ⟨error | found, after, log⟩
    · rw [run_whole_of_error hrun] at hresult
      cases hresult
    · rw [run_whole_of_ok hrun] at hresult
      split at hresult
      · next hend =>
        obtain rfl := Except.ok.inj hresult
        obtain ⟨front, hfront, haccepted, rfl⟩ := (hreading _ _ _).mp ⟨log, hrun⟩
        rw [Source.ready_ofBytes] at hfront
        have hlength := List.drop_eq_nil_iff.mp (List.isEmpty_iff.mp hend)
        rwa [hfront.eq_of_length (Nat.le_antisymm hfront.length_le hlength)] at haccepted
      · cases hresult
  · intro haccepted
    have hwhole := result_whole_append hreading haccepted []
    rwa [List.append_nil] at hwhole

end Reading

namespace Reply

open Reading

/-- A message that is a reply: the reply's header, which declares all its bytes, and behind it the reply's documents,
    each framed and readable. Nothing has been asked of the reply yet. -/
structure Carries (limits : Limits) (message : Bytes) (reply : Reply) : Prop where
  bytes : message = reply.header.encode ++ reply.encodeBody
  code : reply.header.opCode = .commandReply
  size : reply.header.bodySize limits = .ok reply.encodeBody.length
  fills : Fills limits (reply.documents.map RawDocument.bytes) reply.encodeBody
  unasked : reply = ofDocuments reply.header reply.commandReply reply.metadata reply.outputs

theorem encodeBody_eq_flatten (reply : Reply) :
    reply.encodeBody = (reply.documents.map RawDocument.bytes).flatten :=
  List.flatMap_def

/-- Where one of the documents stands in a body. -/
theorem encodeBody_split {reply : Reply} {before after : List RawDocument} {document : RawDocument}
    (hdocuments : reply.documents = before ++ document :: after) :
    reply.encodeBody = (before.map RawDocument.bytes).flatten ++
      (document.bytes ++ (after.map RawDocument.bytes).flatten) := by
  rw [encodeBody_eq_flatten, hdocuments, List.map_append, List.map_cons, List.flatten_append, List.flatten_cons]

theorem Carries.length_message {limits : Limits} {message : Bytes} {reply : Reply}
    (hcarries : Carries limits message reply) : reply.header.messageLength.toNat = message.length := by
  rw [hcarries.bytes, List.length_append, Header.length_encode]
  exact (Header.bodySize_eq_ok_iff.mp hcarries.size).1

theorem Carries.framed {limits : Limits} {message : Bytes} {reply : Reply} (hcarries : Carries limits message reply)
    {raw : RawDocument} (hraw : raw ∈ reply.documents) : Frame.Framed limits.documentSize raw.bytes :=
  hcarries.fills.framed _ (List.mem_map_of_mem hraw)

theorem Carries.framed_of_split {limits : Limits} {message : Bytes} {reply : Reply} {before after : List RawDocument}
    {document : RawDocument} (hcarries : Carries limits message reply)
    (hdocuments : reply.documents = before ++ document :: after) :
    Frame.Framed limits.documentSize document.bytes := by
  apply hcarries.framed
  rw [hdocuments]
  exact List.mem_append_right _ List.mem_cons_self

/-- The bodies that are read, each with the header in front of it, are the messages that carry replies. -/
theorem accepts_body (header : Header) (limits : Limits) :
    Accepts (readBody header limits) fun body reply =>
      reply.header = header ∧ Carries limits (header.encode ++ body) reply := by
  by_cases hcode : header.opCode = .commandReply
  · refine (accepts_readBody limits hcode).congr fun body reply => ?_
    constructor
    · intro haccepted
      obtain ⟨first, second, others, hsize, hfills, rfl⟩ := haccepted
      have hdocuments : (ofDocuments header ⟨first⟩ ⟨second⟩ (others.map RawDocument.mk)).documents.map
          RawDocument.bytes = first :: second :: others := by
        simp [ofDocuments, documents, Function.comp_def]
      have hbody := encodeBody_eq_flatten (ofDocuments header ⟨first⟩ ⟨second⟩ (others.map RawDocument.mk))
      rw [hdocuments, hfills.flatten] at hbody
      refine ⟨rfl, ⟨?_, hcode, ?_, ?_, rfl⟩⟩
      · rw [hbody]
        rfl
      · rwa [hbody]
      · rwa [hdocuments, hbody]
    · intro hcarried
      obtain ⟨rfl, hbytes, _, hsize, hfills, hreply⟩ := hcarried
      have hbody := List.append_cancel_left hbytes
      refine ⟨reply.commandReply.bytes, reply.metadata.bytes, reply.outputs.map RawDocument.bytes, ?_, ?_, ?_⟩
      · rw [hbody, hsize]
      · rw [hbody]
        exact hfills
      · rw [hreply]
        simp [ofDocuments, Function.comp_def]
  · unfold readBody
    rw [if_pos hcode]
    refine (accepts_fail _).congr fun body reply => ?_
    constructor
    · intro hnever
      exact hnever.elim
    · intro hcarried
      obtain ⟨rfl, hcarries⟩ := hcarried
      exact hcode hcarries.code

/-- Behind a reply, a buffer is told of by the number of bytes that are left. -/
theorem Carries.parse_append {limits : Limits} {message : Bytes} {reply : Reply} (hcarries : Carries limits message reply)
    (rest : Bytes) :
    (parse (message ++ rest) limits).result =
      if rest.isEmpty then .ok reply else .error (.trailingBytes rest.length) := by
  have hparse : Header.parse (message ++ rest) = .ok (reply.header, reply.encodeBody ++ rest) := by
    rw [Header.parse_eq_ok_iff, ← List.append_assoc, ← hcarries.bytes]
  have hbody : reply.header = reply.header ∧ Carries limits (reply.header.encode ++ reply.encodeBody) reply :=
    ⟨rfl, hcarries.bytes ▸ hcarries⟩
  rw [parse, hparse]
  exact result_whole_append (accepts_body reply.header limits) hbody rest

/-- A buffer is parsed where it is a reply and nothing else. -/
theorem parse_eq_ok_iff {limits : Limits} {message : Bytes} {reply : Reply} :
    (parse message limits).result = .ok reply ↔ Carries limits message reply := by
  constructor
  · intro hresult
    unfold parse at hresult
    split at hresult
    · cases hresult
    · next header body hparse =>
      obtain ⟨rfl, hcarries⟩ := (whole_eq_ok_iff (accepts_body header limits)).mp hresult
      rwa [Header.parse_eq_ok_iff.mp hparse]
  · intro hcarries
    have hwhole := hcarries.parse_append []
    rwa [List.append_nil] at hwhole

/-- A source is read where a reply comes first on it, of which every byte is taken and none behind it. -/
theorem accepts_read (limits : Limits) : Accepts (read limits) (Carries limits) := by
  refine (Header.accepts_read.bind fun header => (accepts_ofExcept (header.bodySize limits)).bind fun size =>
    (accepts_body header limits).orSkip size).congr fun message reply => ?_
  constructor
  · intro haccepted
    obtain ⟨_, _, header, rfl, rfl, _, body, size, rfl, ⟨rfl, _⟩, _, hcarries⟩ := haccepted
    exact hcarries
  · intro hcarries
    refine ⟨reply.header.encode, reply.encodeBody, reply.header, hcarries.bytes, rfl, [], reply.encodeBody, _, rfl,
      ⟨rfl, hcarries.size⟩, rfl, ?_⟩
    rw [← hcarries.bytes]
    exact hcarries

end Reply

end ReplyCapture
