import ReplyCapture.Proofs.Reply.Rendering
import ReplyCapture.Proofs.Text.Clip

namespace ReplyCapture

theorem Json.getLast?_object (members : List String) : (object members).toList.getLast? = some '\x7d' := by
  rw [object, String.toList_append, List.getLast?_append]
  rfl

theorem Json.getLast?_array (items : List String) : (array items).toList.getLast? = some ']' := by
  rw [array, String.toList_append, List.getLast?_append]
  rfl

theorem Json.array_ne_empty (items : List String) : array items ≠ "" := by
  intro hempty
  have hlast := getLast?_array items
  rw [hempty] at hlast
  cases hlast

namespace RenderedReply

/-- Parts that do not end with a dot, as JSON never does. -/
structure Undotted (body : RenderedReply) : Prop where
  commandReply : body.commandReply.toList.getLast? ≠ some '.'
  metadata : body.metadata.toList.getLast? ≠ some '.'
  outputs : body.outputs.toList.getLast? ≠ some '.'

variable {body : RenderedReply} {limit : Nat}

/-- A line is the same when its parts are cut only if all of them fit. -/
theorem line_clip_eq_iff (hundotted : body.Undotted) :
    (body.line fun part => clip part limit) = body.line id ↔
      body.commandReply.length ≤ limit ∧ body.metadata.length ≤ limit ∧ body.outputs.length ≤ limit := by
  -- What one part loses to a cut another may gain in dots, so lengths do not tell. The last character of a part does.
  have hcut {part : String} (hpart : part.toList.getLast? ≠ some '.') (other front : String) :
      other ++ clip part limit = front ++ part ↔ other = front ∧ part.length ≤ limit :=
    (cut_clip part limit).append_eq_iff hpart
  have htwo : "CommandReply " ++ clip body.commandReply limit ++ " " ++ clip body.metadata limit =
      "CommandReply " ++ body.commandReply ++ " " ++ body.metadata ↔
        body.commandReply.length ≤ limit ∧ body.metadata.length ≤ limit := by
    rw [hcut hundotted.metadata, String.append_left_inj, hcut hundotted.commandReply, eq_self_iff_true, true_and]
  unfold line
  split
  · next hnone =>
    rw [String.isEmpty_iff] at hnone
    simp only [String.append_empty, hnone, id, htwo, String.length_empty, Nat.zero_le, and_true]
  · simp only [← String.append_assoc, id, hcut hundotted.outputs, String.append_left_inj, htwo, and_assoc]

/-- A line is as long as its fixed parts and three texts that are cut, each with its mark. -/
theorem length_line_clip_le (body : RenderedReply) (limit : Nat) :
    (body.line fun part => clip part limit).length ≤ 15 + 3 * (limit + 3) := by
  have hcommandReply := (cut_clip body.commandReply limit).length_le
  have hmetadata := (cut_clip body.metadata limit).length_le
  have houtputs := (cut_clip body.outputs limit).length_le
  have hname : "CommandReply ".length = 13 := rfl
  have hblank : " ".length = 1 := rfl
  unfold line
  split
  · simp only [String.length_append, hname, hblank, String.length_empty]
    omega
  · simp only [String.length_append, hname, hblank]
    omega

end RenderedReply

namespace Reply

variable {reply : Reply} {body : RenderedReply}

/-- Each text of a shown reply ends with a brace or a bracket or is empty, so that none looks cut. -/
theorem undotted_of_rendered (hrendered : reply.rendered = .ok body) : body.Undotted := by
  obtain ⟨commandReply, metadata, outputs, _, rfl⟩ := rendered_eq_ok_iff.mp hrendered
  have hdocument (document : Document) : document.json.toList.getLast? ≠ some '.' := by
    rw [Document.json, Json.getLast?_object]
    decide
  refine ⟨hdocument commandReply, hdocument metadata, ?_⟩
  rw [shown]
  split
  · simp
  · rw [Json.getLast?_array]
    decide

/-- Output documents are shown where there are some. -/
theorem isEmpty_outputs_iff (hrendered : reply.rendered = .ok body) : body.outputs.isEmpty ↔ reply.outputs = [] := by
  obtain ⟨commandReply, metadata, outputs, hreads, rfl⟩ := rendered_eq_ok_iff.mp hrendered
  rw [hreads.outputs_eq_nil_iff, String.isEmpty_iff, shown, ← List.isEmpty_iff]
  split
  · next hnone => exact iff_of_true rfl hnone
  · next hsome => exact iff_of_false (Json.array_ne_empty _) hsome

/-- A line that cannot be shown is the error's text, of any width, and is warned of. -/
theorem lineWith_of_error {cause : RenderError} (hrendered : reply.rendered = .error cause)
    (shorten : String → String) :
    reply.lineWith shorten = ⟨cause.message, [.unrenderable reply.header.requestId cause]⟩ := by
  rw [lineWith, hrendered]

/-- A reply is shown the same on a line of any width, part by part. One that cannot be shown is the error's text and
    warned of, and nothing of that text is cut. Of one that can be shown, each part is whole or cut behind as many
    characters, and output documents make a part where there are some. A part is cut in front of a character, so that
    what is left of its bytes are characters again, and no part is cut twice. So the cut line is the whole one only
    where all parts fit, and its length is bounded. -/
theorem line_agrees_with_clipped (reply : Reply) (limit : Nat) :
    (∀ cause, reply.rendered = .error cause →
      reply.line = ⟨cause.message, [.unrenderable reply.header.requestId cause]⟩ ∧
        reply.clipped limit = ⟨cause.message, [.unrenderable reply.header.requestId cause]⟩ ∧
        (Event.unrenderable reply.header.requestId cause).level = .warn) ∧
    ∀ body, reply.rendered = .ok body →
      reply.line = ⟨"CommandReply " ++ body.commandReply ++ " " ++ body.metadata ++
        if reply.outputs = [] then "" else " " ++ body.outputs, []⟩ ∧
      reply.clipped limit = ⟨"CommandReply " ++ clip body.commandReply limit ++ " " ++ clip body.metadata limit ++
        if reply.outputs = [] then "" else " " ++ clip body.outputs limit, []⟩ ∧
      (∀ part ∈ [body.commandReply, body.metadata, body.outputs],
        (∀ cut, Cut limit part cut ↔ cut = clip part limit) ∧ clip (clip part limit) limit = clip part limit ∧
          ((Utf8.starts part)[limit]? = none → clip part limit = part) ∧
          ∀ start, (Utf8.starts part)[limit]? = some start →
            Utf8.encode (clip part limit) = (Utf8.encode part).take start ++ Utf8.encode "..." ∧
              Utf8.decode ((Utf8.encode part).take start) = .ok (String.ofList (part.toList.take limit))) ∧
      ((reply.clipped limit).value = reply.line.value ↔
        body.commandReply.length ≤ limit ∧ body.metadata.length ≤ limit ∧ body.outputs.length ≤ limit) ∧
      (reply.clipped limit).value.length ≤ 15 + 3 * (limit + 3) := by
  refine ⟨fun cause hcause => ⟨lineWith_of_error hcause id, lineWith_of_error hcause _, rfl⟩, ?_⟩
  intro body hbody
  have hline := lineWith_of_rendered hbody
  have hwhole : reply.line = ⟨body.line id, []⟩ := hline id
  have hcut : reply.clipped limit = ⟨body.line fun part => clip part limit, []⟩ := hline _
  have hoptional (part : String) :
      (if body.outputs.isEmpty then "" else part) = if reply.outputs = [] then "" else part :=
    if_congr (isEmpty_outputs_iff hbody) rfl rfl
  rw [hwhole, hcut]
  refine ⟨?_, ?_, ?_, RenderedReply.line_clip_eq_iff (undotted_of_rendered hbody),
    RenderedReply.length_line_clip_le body limit⟩
  · unfold RenderedReply.line
    simp only [hoptional, id]
  · unfold RenderedReply.line
    simp only [hoptional]
  · intro part _
    refine ⟨fun _ => cut_iff, (cut_clip part limit).clip_eq, clip_of_starts_eq_none, ?_⟩
    intro start hstart
    exact ⟨encode_clip_of_starts hstart, Utf8.decode_eq_ok_iff.mpr (Utf8.take_encode_of_starts hstart).symm⟩

/-- A reply of a text of two bytes and one output document. -/
def accentedReply : Reply :=
  ofDocuments ⟨41, 7, 8, .commandReply⟩ ⟨[15, 0, 0, 0, 2, 120, 0, 3, 0, 0, 0, 195, 169, 0, 0]⟩ ⟨[5, 0, 0, 0, 0]⟩
    [⟨[5, 0, 0, 0, 0]⟩]

theorem line_agrees_with_clipped_accented :
    accentedReply.rendered = .ok ⟨"\x7b\"x\":\"é\"\x7d", "\x7b\x7d", "[\x7b\x7d]"⟩ ∧
      (accentedReply.clipped 8).value ≠ accentedReply.line.value ∧
      (accentedReply.clipped 9).value = accentedReply.line.value ∧
      unreadableReply.rendered = .error (.document (.misfit (.unendedDocument 0))) ∧
      (unreadableReply.clipped 1).value = unreadableReply.line.value := by
  have hbody : accentedReply.rendered = .ok ⟨"\x7b\"x\":\"é\"\x7d", "\x7b\x7d", "[\x7b\x7d]"⟩ := rfl
  have hcause : unreadableReply.rendered = .error (.document (.misfit (.unendedDocument 0))) := rfl
  obtain ⟨_, hnarrow⟩ := line_agrees_with_clipped accentedReply 8
  obtain ⟨_, hwide⟩ := line_agrees_with_clipped accentedReply 9
  obtain ⟨hunreadable, _⟩ := line_agrees_with_clipped unreadableReply 1
  obtain ⟨_, _, _, hcut, _⟩ := hnarrow _ hbody
  obtain ⟨_, _, _, hwhole, _⟩ := hwide _ hbody
  obtain ⟨hline, hclipped, _⟩ := hunreadable _ hcause
  refine ⟨hbody, ?_, hwhole.mpr ⟨by decide, by decide, by decide⟩, hcause, ?_⟩
  · intro hsame
    exact absurd (hcut.mp hsame).1 (by decide)
  · rw [hline, hclipped]

end Reply

end ReplyCapture
