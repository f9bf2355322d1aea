import ReplyCapture.Proofs.Reply.History
import ReplyCapture.Proofs.Reply.RoundTrip

namespace ReplyCapture

namespace Cursor

/-- A cursor whose shape leaves it without a number, and the error that says so: the value has no parts, or the part
    that should be the number is no whole number. -/
inductive Misshapen : Value → DecodeError → Prop
  | plain {value : Value} (htag : value.tag ∈ [.double, .string, .binary, .boolean, .null, .int32, .int64]) :
    Misshapen value (.wrongType "struct CursorInfo")
  | named {fields : Document} {number : Value} (hnumber : fields.get? "id" = some number)
    (htag : number.tag ∉ [.int32, .int64]) : Misshapen (.document fields) (.wrongType "i64")
  | first {items : List Value} {number : Value} (hnumber : items.head? = some number)
    (htag : number.tag ∉ [.int32, .int64]) : Misshapen (.array items) (.wrongType "i64")

/-- A document in which the cursor is misshapen. -/
def MisshapenIn (document : Document) (cause : DecodeError) : Prop :=
  ∃ cursor, document.get? "cursor" = some cursor ∧ Misshapen cursor cause

theorem ofNumber_eq_error_iff {found : Option Value} {cause : DecodeError} :
    ofNumber found = .error cause ↔
      ∃ number, found = some number ∧ number.tag ∉ [.int32, .int64] ∧ cause = .wrongType "i64" := by
  cases found with
  | none => simp [ofNumber]
  | some number => cases number <;> simp [ofNumber, Value.tag, eq_comm]

/-- Taking a cursor's number fails where the cursor is misshapen. -/
theorem ofValue_eq_error_iff {cursor : Value} {cause : DecodeError} :
    ofValue cursor = .error cause ↔ Misshapen cursor cause := by
  constructor
  · intro hfails
    cases cursor with
    | document fields =>
      obtain ⟨number, hnumber, htag, rfl⟩ := ofNumber_eq_error_iff.mp hfails
      exact .named hnumber htag
    | array items =>
      obtain ⟨number, hnumber, htag, rfl⟩ := ofNumber_eq_error_iff.mp hfails
      exact .first hnumber htag
    | double _ | string _ | binary _ _ | boolean _ | null | int32 _ | int64 _ =>
      cases hfails
      exact .plain (by simp [Value.tag])
    | _ => cases hfails
  · intro hmisshapen
    cases hmisshapen with
    | plain htag =>
      cases cursor with
      | double _ | string _ | binary _ _ | boolean _ | null | int32 _ | int64 _ => rfl
      | _ => simp [Value.tag] at htag
    | named hnumber htag => exact ofNumber_eq_error_iff.mpr ⟨_, hnumber, htag, rfl⟩
    | first hnumber htag => exact ofNumber_eq_error_iff.mpr ⟨_, hnumber, htag, rfl⟩

theorem ofDocument_eq_error_iff {document : Document} {cause : DecodeError} :
    ofDocument document = .error cause ↔ MisshapenIn document cause := by
  unfold ofDocument MisshapenIn
  split
  · next hnone => simp [hnone]
  · next cursor hcursor => simp [hcursor, ofValue_eq_error_iff]

end Cursor

/-- An answer that tells of a failure: an error, or the text of one in place of the reply. -/
def Answer.Failed : Answer → Prop
  | .cursorId (.error _) | .errors (.error _) | .rendered (.error _) | .summary (.error _) | .encode (.error _) => True
  | .text line => ∃ error : RenderError, line = error.message
  | _ => False

/-- A document's text starts with a brace. -/
theorem Document.exists_text (document : Document) : ∃ rest, document.text.toList = '\x7b' :: rest := by
  unfold text braced
  split
  · exact ⟨['\x7d'], rfl⟩
  · simp only [String.toList_append, List.append_assoc]
    exact ⟨_, rfl⟩

/-- A readable document is shown by its fields, which no number of bytes is mistaken for. -/
theorem RawDocument.debugText_of_toDocument {raw : RawDocument} {document : Document}
    (hread : raw.toDocument = .ok document) :
    raw.debugText = "RawDocument(" ++ document.text ++ ")" ∧
      ∀ count : Nat, raw.debugText ≠ "RawDocument(<" ++ toString count ++ " unreadable bytes>)" := by
  have htext : raw.debugText = "RawDocument(" ++ document.text ++ ")" := by
    rw [debugText, hread]
  refine ⟨htext, ?_⟩
  intro count hsame
  obtain ⟨rest, hrest⟩ := document.exists_text
  have hsame := congrArg String.toList (htext.symm.trans hsame)
  simp [String.toList_append, hrest] at hsame

theorem RawDocument.json_of_toDocument {raw : RawDocument} {document : Document}
    (hread : raw.toDocument = .ok document) : raw.json = .ok document.json := by
  rw [json, hread]

/-- One array of readable documents holds the text that each of them has alone. -/
theorem RawDocument.jsonAll_of_toDocument {raws : List RawDocument} {documents : List Document}
    (hread : raws.map toDocument = documents.map .ok) :
    jsonAll raws = .ok (Json.array (documents.map Document.json)) := by
  have hall : raws.mapM (fun raw => raw.toDocument.mapError RenderError.document) = .ok (documents.map id) :=
    mapM_eq_ok_of_map (fun _ _ hdocument => mapError_eq_ok_iff.mpr hdocument) hread
  rw [jsonAll, hall, List.map_id, ← Value.json_array_documents]
  rfl

/-- What a reply is shown as on one line: its parts as they are shortened, behind what it is. -/
def RenderedReply.line (body : RenderedReply) (shorten : String → String) : String :=
  "CommandReply " ++ shorten body.commandReply ++ " " ++ shorten body.metadata ++
    if body.outputs.isEmpty then "" else " " ++ shorten body.outputs

/-- A line about a reply is not taken for an error. -/
theorem RenderedReply.line_ne_message (body : RenderedReply) (shorten : String → String) (error : RenderError) :
    body.line shorten ≠ error.message := by
  have hline : (body.line shorten).toList.head? = some 'C' := by
    unfold line
    simp
  have hmessage : error.message.toList.head? ≠ some 'C' := by
    cases error with
    | document cause =>
      change ("document cannot be rendered: " ++ cause.message).toList.head? ≠ _
      simp
    | json cause =>
      change ("json encoding failed: " ++ cause.message).toList.head? ≠ _
      simp
  intro hsame
  exact hmessage (hsame ▸ hline)

namespace Reply

/-- The documents that are read from the bytes of a reply. -/
structure Reads (reply : Reply) (commandReply metadata : Document) (outputs : List Document) : Prop where
  commandReply : reply.commandReply.toDocument = .ok commandReply
  metadata : reply.metadata.toDocument = .ok metadata
  outputs : reply.outputs.map RawDocument.toDocument = outputs.map .ok

variable {reply : Reply} {commandReply metadata : Document} {outputs : List Document}

/-- The three parts of documents that are read. -/
def shown (commandReply metadata : Document) (outputs : List Document) : RenderedReply :=
  ⟨commandReply.json, metadata.json, if outputs.isEmpty then "" else Json.array (outputs.map Document.json)⟩

/-- A readable reply reports the errors of its first output document, and none where it has no output documents. -/
theorem Reads.errors (hreads : reply.Reads commandReply metadata outputs) :
    reply.errors = .ok ((outputs.head?.map ReportedError.ofDocument).getD []) := by
  have houtputs := hreads.outputs
  unfold Reply.errors
  cases hraws : reply.outputs with
  | nil =>
    rw [hraws] at houtputs
    obtain rfl := List.map_eq_nil_iff.mp houtputs.symm
    rfl
  | cons raw raws =>
    rw [hraws] at houtputs
    cases outputs with
    | nil => cases houtputs
    | cons document others =>
      obtain ⟨hfirst, _⟩ := List.cons.inj houtputs
      rw [List.head?_cons]
      simp only [hfirst]
      rfl

/-- A readable reply is shown by the texts of what its documents are read as. -/
theorem Reads.rendered (hreads : reply.Reads commandReply metadata outputs) :
    reply.rendered = .ok (shown commandReply metadata outputs) := by
  have hempty : reply.outputs.isEmpty = outputs.isEmpty := by
    have hlength := congrArg List.length hreads.outputs
    rw [List.length_map, List.length_map] at hlength
    rw [Bool.eq_iff_iff, List.isEmpty_iff_length_eq_zero, List.isEmpty_iff_length_eq_zero, hlength]
  rw [Reply.rendered, RawDocument.json_of_toDocument hreads.commandReply,
    RawDocument.json_of_toDocument hreads.metadata, RawDocument.jsonAll_of_toDocument hreads.outputs, hempty, shown]
  cases outputs <;> rfl

/-- Its summary holds what the same documents are read as, the command reply behind the metadata. -/
theorem Reads.summary (hreads : reply.Reads commandReply metadata outputs) :
    reply.summary = .ok
      ⟨OpCode.commandReply.name, "", "",
        [("metadata", .document metadata), ("command_reply", .document commandReply),
          ("output_docs", .array (outputs.map .document))]⟩ := by
  have hvalue : ∀ raw document, raw.toDocument = .ok document → asValue raw = .ok (.document document) := by
    intro raw document hread
    rw [asValue, hread]
  rw [Reply.summary, mapM_eq_ok_of_map hvalue hreads.outputs, hvalue _ _ hreads.metadata,
    hvalue _ _ hreads.commandReply]
  rfl

theorem lineWith_of_rendered {body : RenderedReply} (hrendered : reply.rendered = .ok body)
    (shorten : String → String) : reply.lineWith shorten = ⟨body.line shorten, []⟩ := by
  rw [lineWith, hrendered]
  rfl

/-- Once the command reply is read, only the shape of its cursor keeps the number from being told. -/
theorem Reads.ofRaw_eq_error_iff (hreads : reply.Reads commandReply metadata outputs) {cause : DecodeError} :
    Cursor.ofRaw reply.commandReply = .error cause ↔ Cursor.MisshapenIn commandReply cause := by
  rw [Cursor.ofRaw, hreads.commandReply, ← Cursor.ofDocument_eq_error_iff]
  rfl

/-- Documents that can be read one by one are read as a list of the same length. -/
theorem exists_map_toDocument {raws : List RawDocument}
    (hreadable : ∀ raw ∈ raws, ∃ document, raw.toDocument = .ok document) :
    ∃ documents : List Document, raws.map RawDocument.toDocument = documents.map .ok := by
  induction raws with
  | nil => exact ⟨[], rfl⟩
  | cons raw raws ih =>
    obtain ⟨hfirst, hrest⟩ := List.forall_mem_cons.mp hreadable
    obtain ⟨document, hdocument⟩ := hfirst
    obtain ⟨documents, hdocuments⟩ := ih hrest
    exact ⟨document :: documents, by rw [List.map_cons, List.map_cons, hdocument, hdocuments]⟩

theorem exists_reads (hreadable : ∀ raw ∈ reply.documents, ∃ document, raw.toDocument = .ok document) :
    ∃ commandReply metadata outputs, reply.Reads commandReply metadata outputs := by
  simp only [documents, List.forall_mem_cons] at hreadable
  obtain ⟨⟨commandReply, hcommandReply⟩, ⟨metadata, hmetadata⟩, hothers⟩ := hreadable
  obtain ⟨outputs, houtputs⟩ := exists_map_toDocument hothers
  exact ⟨commandReply, metadata, outputs, hcommandReply, hmetadata, houtputs⟩

/-- What a message carries can be read. -/
theorem Carries.toDocument {limits : Limits} {message : Bytes} (hcarries : Carries limits message reply)
    {raw : RawDocument} (hraw : raw ∈ reply.documents) : ∃ document, raw.toDocument = .ok document := by
  obtain ⟨kept, hkept⟩ := hcarries.fills.readable raw.bytes (List.mem_map_of_mem hraw)
  exact (RawDocument.ofBytes_eq_ok_iff.mp hkept).1

theorem Carries.reads {limits : Limits} {message : Bytes} (hcarries : Carries limits message reply) :
    ∃ commandReply metadata outputs, reply.Reads commandReply metadata outputs :=
  exists_reads fun _ hraw => hcarries.toDocument hraw

/-- What becomes of a reply has the same documents. -/
theorem Reached.reads {origin : Reply} {latency : Latency} (hreached : Reached origin latency reply)
    (hreads : origin.Reads commandReply metadata outputs) : reply.Reads commandReply metadata outputs := by
  cases hreached with
  | unknown => exact ⟨hreads.commandReply, hreads.metadata, hreads.outputs⟩
  | known _ => exact ⟨hreads.commandReply, hreads.metadata, hreads.outputs⟩

theorem Reached.encode {origin : Reply} {latency : Latency} (hreached : Reached origin latency reply) :
    reply.encode = origin.encode := by
  cases hreached with
  | unknown => rfl
  | known _ => rfl

/-- A reply fails to tell its cursor only if it does not know it yet and the command reply has none that it can tell. -/
theorem cursorId_eq_error_iff {error : MessageError} :
    reply.cursorId.1 = .error error ↔
      reply.knownCursor = none ∧
        ∃ cause, Cursor.ofRaw reply.commandReply = .error cause ∧ error = .unreadable cause := by
  unfold Reply.cursorId
  split
  · next hknown => simp [hknown]
  · next hunknown =>
    split
    · next hnumber => simp [hnumber]
    · next hcause => simp [hunknown, hcause, eq_comm]

/-- Where the documents are read and the message is not too large, asking fails for a misshapen cursor or not at all,
    and nothing is logged. -/
theorem Reads.ask (hreads : reply.Reads commandReply metadata outputs) {message : Bytes}
    (hencode : reply.encode = .ok message) (query : Query) :
    (reply.ask query).log = [] ∧
      ((reply.ask query).answer.Failed →
        ∃ cause, (reply.ask query).answer = .cursorId (.error (.unreadable cause)) ∧
          Cursor.MisshapenIn commandReply cause) := by
  have hline (shorten : String → String) :
      (reply.lineWith shorten).log = [] ∧ ¬ (Answer.text (reply.lineWith shorten).value).Failed := by
    rw [lineWith_of_rendered hreads.rendered]
    refine ⟨rfl, ?_⟩
    intro hfailed
    obtain ⟨error, herror⟩ := hfailed
    exact RenderedReply.line_ne_message _ _ _ herror
  cases query with
  | cursorId =>
    refine ⟨rfl, ?_⟩
    intro hfailed
    rcases hresult : reply.cursorId.1 with error | number
    · obtain ⟨_, cause, hcause, rfl⟩ := cursorId_eq_error_iff.mp hresult
      exact ⟨cause, congrArg Answer.cursorId hresult, hreads.ofRaw_eq_error_iff.mp hcause⟩
    · have hanswer : (reply.ask .cursorId).answer = .cursorId (.ok number) := congrArg Answer.cursorId hresult
      rw [hanswer] at hfailed
      exact hfailed.elim
  | line =>
    obtain ⟨hlog, hanswer⟩ := hline id
    exact ⟨hlog, fun hfailed => (hanswer hfailed).elim⟩
  | clipped limit =>
    obtain ⟨hlog, hanswer⟩ := hline fun part => clip part limit
    exact ⟨hlog, fun hfailed => (hanswer hfailed).elim⟩
  | errors => simp [Reply.ask, hreads.errors, Answer.Failed]
  | rendered => simp [Reply.ask, hreads.rendered, Answer.Failed]
  | summary => simp [Reply.ask, hreads.summary, Answer.Failed]
  | encode => simp [Reply.ask, hencode, Answer.Failed]
  | _ => exact ⟨rfl, False.elim⟩

/-- Once read, a reply is readable, whatever it was read from and under whatever limits. Its errors, its summary and its
    parts are those of the documents in it, it is shown by them on a line of any width, and so is each of its documents.
    Its cursor alone can fail, exactly where it is misshapen in the command reply. So whatever is asked of the reply, in
    any order and however often, nothing is logged, and an answer that tells of a failure is one about such a cursor. -/
theorem readable_of_decoded (hdecoded : reply.Decoded) :
    ∃ commandReply metadata outputs, reply.Reads commandReply metadata outputs ∧
      reply.errors = .ok ((outputs.head?.map ReportedError.ofDocument).getD []) ∧
      reply.summary = .ok
        ⟨OpCode.commandReply.name, "", "",
          [("metadata", .document metadata), ("command_reply", .document commandReply),
            ("output_docs", .array (outputs.map .document))]⟩ ∧
      reply.rendered = .ok (shown commandReply metadata outputs) ∧
      reply.line = ⟨(shown commandReply metadata outputs).line id, []⟩ ∧
      (∀ limit, reply.clipped limit = ⟨(shown commandReply metadata outputs).line fun part => clip part limit, []⟩) ∧
      (∀ raw ∈ reply.documents, (∃ document, raw.toDocument = .ok document ∧
          raw.debugText = "RawDocument(" ++ document.text ++ ")") ∧
        ∀ count : Nat, raw.debugText ≠ "RawDocument(<" ++ toString count ++ " unreadable bytes>)") ∧
      (∀ error, reply.cursorId.1 = .error error ↔
        ∃ cause, Cursor.MisshapenIn commandReply cause ∧ error = .unreadable cause) ∧
      ∀ queries, ∀ answered ∈ reply.askAll queries,
        answered.log = [] ∧
          (answered.answer.Failed →
            ∃ cause, answered.answer = .cursorId (.error (.unreadable cause)) ∧
              Cursor.MisshapenIn commandReply cause) := by
  obtain ⟨limits, message, hcarries⟩ := hdecoded.carries
  obtain ⟨commandReply, metadata, outputs, hreads⟩ := hcarries.reads
  have hline := lineWith_of_rendered hreads.rendered
  refine ⟨commandReply, metadata, outputs, hreads, hreads.errors, hreads.summary, hreads.rendered, hline id,
    fun limit => hline fun part => clip part limit, ?_, ?_, ?_⟩
  · intro raw hraw
    obtain ⟨document, hdocument⟩ := hcarries.toDocument hraw
    obtain ⟨htext, hnever⟩ := RawDocument.debugText_of_toDocument hdocument
    exact ⟨⟨document, hdocument, htext⟩, hnever⟩
  · intro error
    have hunknown : reply.knownCursor = none := congrArg knownCursor hcarries.unasked
    simp only [cursorId_eq_error_iff, hunknown, true_and, hreads.ofRaw_eq_error_iff]
  · intro queries answered hanswered
    obtain ⟨latency, before, query, hbefore, rfl⟩ := (Obtained.decoded hdecoded).reached.of_mem_askAll hanswered
    exact (hbefore.reads hreads).ask (hbefore.encode.trans hcarries.encode) query

/-- A command reply whose cursor is a number and has no parts. -/
def plainCursorBytes : Bytes :=
  [17, 0, 0, 0, 16, 99, 117, 114, 115, 111, 114, 0, 1, 0, 0, 0, 0]

/-- A document of a number that JSON cannot show. -/
def notANumberBytes : Bytes :=
  [16, 0, 0, 0, 1, 110, 0, 0, 0, 0, 0, 0, 0, 248, 127, 0]

theorem readable_of_decoded_plain :
    ∃ reply, (parse ([54, 0, 0, 0, 7, 0, 0, 0, 8, 0, 0, 0, 219, 7, 0, 0] ++ plainCursorBytes ++ [5, 0, 0, 0, 0] ++
        notANumberBytes) ⟨64, 64⟩).result = .ok reply ∧ reply.Decoded ∧
      (∃ body, reply.rendered = .ok body ∧ reply.line = ⟨body.line id, []⟩) ∧
      reply.cursorId.1 = .error (.unreadable (.wrongType "struct CursorInfo")) := by
  have hparse : (parse ([54, 0, 0, 0, 7, 0, 0, 0, 8, 0, 0, 0, 219, 7, 0, 0] ++ plainCursorBytes ++ [5, 0, 0, 0, 0] ++
      notANumberBytes) ⟨64, 64⟩).result =
        .ok (ofDocuments ⟨54, 7, 8, .commandReply⟩ ⟨plainCursorBytes⟩ ⟨[5, 0, 0, 0, 0]⟩ [⟨notANumberBytes⟩]) := rfl
  have hdecoded := Decoded.parse hparse
  obtain ⟨_, _, _, _, _, _, hrendered, hline, _⟩ := readable_of_decoded hdecoded
  exact ⟨_, hparse, hdecoded, ⟨_, hrendered, hline⟩, rfl⟩

end Reply

end ReplyCapture
