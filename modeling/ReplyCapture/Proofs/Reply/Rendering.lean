import ReplyCapture.Proofs.Reply.Readable

namespace ReplyCapture

/-- A text without characters to escape is only put between quotes. -/
theorem Quoted.quote_of_plain {text : String} (hplain : text.toList.flatMap escape = text.toList) :
    quote text = "\"" ++ text ++ "\"" := by
  rw [quote, hplain, ← String.toList_inj]
  simp

theorem RawDocument.json_eq (raw : RawDocument) :
    raw.json = (raw.toDocument.mapError RenderError.document).map Document.json := by
  rw [json]
  cases raw.toDocument <;> rfl

theorem RawDocument.map_json_of_toDocument {raws : List RawDocument} {documents : List Document}
    (hread : raws.map toDocument = documents.map .ok) : raws.map json = (documents.map Document.json).map .ok := by
  have hjson := congrArg (List.map fun read => (read.mapError RenderError.document).map Document.json) hread
  rw [List.map_map, List.map_map] at hjson
  rw [List.map_map, List.map_congr_left fun raw _ => raw.json_eq]
  exact hjson

/-- An array of documents fails as showing them one by one does, though it reads all of them before it shows any. -/
theorem RawDocument.jsonAll_eq_error_iff {raws : List RawDocument} {error : RenderError} :
    jsonAll raws = .error error ↔ FirstFails json raws error := by
  have hsame (raw : RawDocument) :
      raw.toDocument.mapError RenderError.document = (raw.toDocument.mapError RenderError.document).map id := by
    rw [Except.map_id, id]
  rw [jsonAll, bind_pure_eq_error_iff, mapM_eq_error_iff, firstFails_iff_of_changes hsame,
    firstFails_iff_of_changes json_eq]

namespace Reply

variable {reply : Reply}

theorem asValue_eq (raw : RawDocument) :
    asValue raw = (raw.toDocument.mapError MessageError.unreadable).map Value.document := by
  rw [asValue]
  cases raw.toDocument <;> rfl

/-- The parts are shown in wire order, the first that cannot be read in place of all. -/
theorem rendered_eq_error_iff {error : RenderError} :
    reply.rendered = .error error ↔
      ∃ cause, FirstFails RawDocument.toDocument (reply.commandReply :: reply.metadata :: reply.outputs) cause ∧
        .document cause = error := by
  have houtputs (change : String → RenderedReply) :
      (if reply.outputs.isEmpty then pure "" >>= fun outputs => pure (change outputs)
        else RawDocument.jsonAll reply.outputs >>= fun outputs => pure (change outputs)) = .error error ↔
          FirstFails RawDocument.json reply.outputs error := by
    split
    · next hempty => simp [List.isEmpty_iff.mp hempty, pure_ne_error, not_firstFails_nil]
    · rw [bind_pure_eq_error_iff, RawDocument.jsonAll_eq_error_iff]
  rw [← firstFails_iff_of_changes RawDocument.json_eq, firstFails_cons_iff, firstFails_cons_iff, rendered]
  simp only [bind_eq_error_iff, houtputs]

/-- For a summary, the parts are read in wire order from the third on, then the second, then the first. -/
theorem summary_eq_error_iff {error : MessageError} :
    reply.summary = .error error ↔
      ∃ cause, FirstFails RawDocument.toDocument (reply.outputs ++ [reply.metadata, reply.commandReply]) cause ∧
        .unreadable cause = error := by
  rw [← firstFails_iff_of_changes asValue_eq, firstFails_append_iff]
  simp only [firstFails_cons_iff, not_firstFails_nil, and_false, exists_false, or_false, summary, bind_eq_error_iff,
    mapM_eq_error_iff, pure_ne_error]

/-- The text of a summary around the texts of its documents. -/
theorem json_summary_of_data (commandReply metadata : Document) (outputs : List Document) :
    Summary.json ⟨OpCode.commandReply.name, "", "",
        [("metadata", .document metadata), ("command_reply", .document commandReply),
          ("output_docs", .array (outputs.map .document))]⟩ =
      "\x7b\"op\":\"op_commandreply\",\"ns\":\"\",\"command\":\"\",\"data\":\x7b\"metadata\":" ++ metadata.json ++
        ",\"command_reply\":" ++ commandReply.json ++ ",\"output_docs\":[" ++
        ",".intercalate (outputs.map Document.json) ++ "]\x7d\x7d" := by
  have hop : Quoted.quote "op" = "\"op\"" := Quoted.quote_of_plain rfl
  have hcode : Quoted.quote OpCode.commandReply.name = "\"op_commandreply\"" := Quoted.quote_of_plain rfl
  have hspace : Quoted.quote "ns" = "\"ns\"" := Quoted.quote_of_plain rfl
  have hcommand : Quoted.quote "command" = "\"command\"" := Quoted.quote_of_plain rfl
  have hempty : Quoted.quote "" = "\"\"" := Quoted.quote_of_plain rfl
  have hdata : Quoted.quote "data" = "\"data\"" := Quoted.quote_of_plain rfl
  have hmetadata : Quoted.quote "metadata" = "\"metadata\"" := Quoted.quote_of_plain rfl
  have hreply : Quoted.quote "command_reply" = "\"command_reply\"" := Quoted.quote_of_plain rfl
  have houtputs : Quoted.quote "output_docs" = "\"output_docs\"" := Quoted.quote_of_plain rfl
  have hitems := Value.json_array_documents outputs
  simp only [Summary.json, Document.json, List.map_cons, List.map_nil, hitems, Value.json_document]
  simp only [Json.object, Json.member, hop, hcode, hspace, hcommand, hempty, hdata, hmetadata, hreply, houtputs,
    String.intercalate_cons_cons, String.intercalate_singleton, Json.array]
  rw [← String.toList_inj]
  simp

/-- The parts of a reply are shown where each of its documents can be read. -/
theorem exists_rendered_iff :
    (∃ body, reply.rendered = .ok body) ↔ ∀ raw ∈ reply.documents, ∃ document, raw.toDocument = .ok document :=
  exists_ok_iff_of_firstFails fun _ => rendered_eq_error_iff

/-- Its summary is shown under the same condition. -/
theorem exists_summary_iff :
    (∃ summary, reply.summary = .ok summary) ↔ ∀ raw ∈ reply.documents, ∃ document, raw.toDocument = .ok document := by
  have hsame (raw : RawDocument) :
      raw ∈ reply.outputs ++ [reply.metadata, reply.commandReply] ↔ raw ∈ reply.documents := by
    simp only [documents, List.mem_append, List.mem_cons, List.not_mem_nil, or_false]
    rw [or_comm, or_comm (a := raw = reply.metadata), or_assoc]
  rw [exists_ok_iff_of_firstFails fun _ => summary_eq_error_iff]
  simp only [hsame]

/-- What is shown of a reply is what its documents are read as. -/
theorem rendered_eq_ok_iff {body : RenderedReply} :
    reply.rendered = .ok body ↔
      ∃ commandReply metadata outputs, reply.Reads commandReply metadata outputs ∧
        body = shown commandReply metadata outputs := by
  constructor
  · intro hrendered
    obtain ⟨commandReply, metadata, outputs, hreads⟩ := exists_reads (exists_rendered_iff.mp ⟨body, hrendered⟩)
    exact ⟨commandReply, metadata, outputs, hreads, Except.ok.inj (hrendered.symm.trans hreads.rendered)⟩
  · intro hbody
    obtain ⟨_, _, _, hreads, rfl⟩ := hbody
    exact hreads.rendered

theorem Reads.outputs_eq_nil_iff {commandReply metadata : Document} {outputs : List Document}
    (hreads : reply.Reads commandReply metadata outputs) : reply.outputs = [] ↔ outputs = [] := by
  rw [← List.map_eq_nil_iff (f := RawDocument.toDocument), hreads.outputs, List.map_eq_nil_iff]

/-- The ways to show a reply agree, whatever its documents are. Its parts and its summary are shown where each document
    can be read. Then the texts of the parts are those of the single documents, in a list as well as alone, and the
    summary holds the very same texts. Otherwise each way reports the first document that it cannot read, in its own
    order. -/
theorem renderings_agree (reply : Reply) :
    ((∃ body, reply.rendered = .ok body) ↔ ∀ raw ∈ reply.documents, ∃ document, raw.toDocument = .ok document) ∧
      ((∃ summary, reply.summary = .ok summary) ↔
        ∀ raw ∈ reply.documents, ∃ document, raw.toDocument = .ok document) ∧
      (∀ body, reply.rendered = .ok body →
        ∃ commandReply metadata outputs, reply.commandReply.json = .ok commandReply ∧
          reply.metadata.json = .ok metadata ∧ reply.outputs.map RawDocument.json = outputs.map .ok ∧
          body = ⟨commandReply, metadata, if reply.outputs = [] then "" else "[" ++ ",".intercalate outputs ++ "]"⟩ ∧
          RawDocument.jsonAll reply.outputs = .ok ("[" ++ ",".intercalate outputs ++ "]") ∧
          ∃ summary, reply.summary = .ok summary ∧
            summary.json =
              "\x7b\"op\":\"op_commandreply\",\"ns\":\"\",\"command\":\"\",\"data\":\x7b\"metadata\":" ++ metadata ++
                ",\"command_reply\":" ++ commandReply ++ ",\"output_docs\":[" ++ ",".intercalate outputs ++
                "]\x7d\x7d") ∧
      (∀ error, reply.rendered = .error error ↔
        ∃ cause, FirstFails RawDocument.toDocument (reply.commandReply :: reply.metadata :: reply.outputs) cause ∧
          .document cause = error) ∧
      ∀ error, reply.summary = .error error ↔
        ∃ cause, FirstFails RawDocument.toDocument (reply.outputs ++ [reply.metadata, reply.commandReply]) cause ∧
          .unreadable cause = error := by
  refine ⟨exists_rendered_iff, exists_summary_iff, ?_, fun _ => rendered_eq_error_iff, fun _ => summary_eq_error_iff⟩
  intro body hbody
  obtain ⟨commandReply, metadata, outputs, hreads, rfl⟩ := rendered_eq_ok_iff.mp hbody
  refine ⟨commandReply.json, metadata.json, outputs.map Document.json,
    RawDocument.json_of_toDocument hreads.commandReply, RawDocument.json_of_toDocument hreads.metadata,
    RawDocument.map_json_of_toDocument hreads.outputs, ?_, RawDocument.jsonAll_of_toDocument hreads.outputs, _,
    hreads.summary, json_summary_of_data commandReply metadata outputs⟩
  simp only [shown, List.isEmpty_iff, hreads.outputs_eq_nil_iff]
  rfl

/-- A reply of which the metadata does not end and the second output document says that it is longer than it is. -/
def unreadableReply : Reply :=
  ofDocuments ⟨37, 7, 8, .commandReply⟩ ⟨[5, 0, 0, 0, 0]⟩ ⟨[5, 0, 0, 0, 1]⟩ [⟨[5, 0, 0, 0, 0]⟩, ⟨[6, 0, 0, 0, 0]⟩]

/-- A reply of readable documents. -/
def readableReply : Reply :=
  ofDocuments ⟨43, 7, 8, .commandReply⟩ ⟨[12, 0, 0, 0, 16, 120, 0, 1, 0, 0, 0, 0]⟩ ⟨[5, 0, 0, 0, 0]⟩
    [⟨[5, 0, 0, 0, 0]⟩, ⟨[5, 0, 0, 0, 0]⟩]

theorem renderings_agree_readable_unreadable :
    (∃ body summary, readableReply.rendered = .ok body ∧ body.outputs = "[\x7b\x7d,\x7b\x7d]" ∧
        readableReply.summary = .ok summary) ∧
      unreadableReply.rendered = .error (.document (.misfit (.unendedDocument 0))) ∧
      unreadableReply.summary = .error (.unreadable (.misfit (.overrun .document 6 0))) := by
  obtain ⟨_, _, hshown, _⟩ := renderings_agree readableReply
  obtain ⟨_, _, _, hrendered, hsummary⟩ := renderings_agree unreadableReply
  have hbody : readableReply.rendered = .ok ⟨"\x7b\"x\":1\x7d", "\x7b\x7d", "[\x7b\x7d,\x7b\x7d]"⟩ := rfl
  have hempty : (RawDocument.mk [5, 0, 0, 0, 0]).toDocument = .ok [] := rfl
  have hunended : (RawDocument.mk [5, 0, 0, 0, 1]).toDocument = .error (.misfit (.unendedDocument 0)) := rfl
  have hoverrun : (RawDocument.mk [6, 0, 0, 0, 0]).toDocument = .error (.misfit (.overrun .document 6 0)) := rfl
  obtain ⟨_, _, _, _, _, _, _, _, summary, hdata, _⟩ := hshown _ hbody
  exact ⟨⟨_, summary, hbody, rfl, hdata⟩, (hrendered _).mpr ⟨_, .later hempty (.here hunended), rfl⟩,
    (hsummary _).mpr ⟨_, .later hempty (.here hoverrun), rfl⟩⟩

end Reply

end ReplyCapture
