import ReplyCapture.Proofs.Reply.Stops

namespace ReplyCapture.Reply

open Reading

variable {limits : Limits} {message : Bytes} {reply : Reply} {source : Source} {before after : List RawDocument}
  {document : RawDocument} {offset count : Nat}

/-- A place in front of the end of some documents lies in one of them. -/
theorem exists_document_at {raws : List RawDocument} {place : Nat} (hplace : place < (raws.map RawDocument.size).sum) :
    ∃ before document after offset, raws = before ++ document :: after ∧ offset < document.size ∧
      place = (before.map RawDocument.size).sum + offset := by
  induction raws generalizing place with
  | nil => cases hplace
  | cons raw raws ih =>
    rw [List.map_cons, List.sum_cons] at hplace
    by_cases hfirst : place < raw.size
    · exact ⟨[], raw, raws, place, rfl, hfirst, (Nat.zero_add place).symm⟩
    · have hbehind : place - raw.size < (raws.map RawDocument.size).sum := by omega
      obtain ⟨before, document, after, offset, rfl, hoffset, hrest⟩ := ih hbehind
      refine ⟨raw :: before, document, after, offset, rfl, hoffset, ?_⟩
      rw [List.map_cons, List.sum_cons]
      omega

/-- A framed document of which the source holds only a part is missed, within its length or behind it. -/
theorem stops_of_cut {limit consumed expected : Nat} {part tail : Bytes} (hframed : Frame.Framed limit (part ++ tail))
    (hfits : (part ++ tail).length ≤ expected - consumed) (htail : tail ≠ []) :
    Frame.Stops limit consumed expected part
      (.truncated (if part.length < Frame.lengthSize then Frame.lengthSize else (part ++ tail).length) part.length)
      part.length := by
  have hleast := hframed.least
  split
  · next hlength =>
    have hroom : Frame.lengthSize ≤ expected - consumed := by
      rw [Frame.lengthSize]
      omega
    exact .cutLength hroom hlength
  · next hlength =>
    have hfront : 4 ≤ part.length := Nat.le_of_not_lt hlength
    have hdeclares : Frame.Declares limit part (part ++ tail).length := by
      refine ⟨hfront, ?_, hleast, hframed.most⟩
      rw [← hframed.declared, List.take_append_of_le_length hfront]
    refine .cut hdeclares hfits ?_
    rw [List.length_append]
    exact Nat.lt_add_of_pos_right (List.length_pos_iff.mpr htail)

/-- A source that holds a message up to a place within one of its documents stops there, and tells of the length that is
    cut off or of the document that is. -/
theorem Carries.fails_read_of_cut (hcarries : Carries limits message reply)
    (hdocuments : reply.documents = before ++ document :: after) (hoffset : offset < document.size)
    (hcount : count = Header.size + ((before.map RawDocument.size).sum + offset))
    (hholds : source.Holds (message.take count)) :
    (read limits).Fails source
      (.truncated (if offset < Frame.lengthSize then Frame.lengthSize else document.size) offset) count := by
  have hbefore : (before.map RawDocument.bytes).flatten.length = (before.map RawDocument.size).sum := by
    rw [List.length_flatten, List.map_map]
    rfl
  have hbody := encodeBody_split hdocuments
  have hkept : ∀ raw ∈ before, raw.size ≤ limits.documentSize := by
    intro raw hraw
    apply Frame.Framed.most
    apply hcarries.framed
    rw [hdocuments]
    exact List.mem_append_left _ hraw
  have hfits : document.size ≤ reply.encodeBody.length - (before.map RawDocument.bytes).flatten.length := by
    rw [hbody, List.length_append, List.length_append, Nat.add_sub_cancel_left]
    exact Nat.le_add_right _ _
  -- What the source holds of the message is the header, the documents in front and a part of this one.
  have hheld : message.take count = reply.header.encode ++
      ((before.map RawDocument.bytes).flatten ++ document.bytes.take offset) := by
    rw [hcarries.bytes, hbody, hcount, ← Header.length_encode reply.header, List.take_length_add_append, ← hbefore,
      List.take_length_add_append, List.take_append_of_le_length (Nat.le_of_lt hoffset)]
  rw [hheld] at hholds
  have hpart : (document.bytes.take offset).length = offset := List.length_take_of_le (Nat.le_of_lt hoffset)
  have hmissing : document.bytes.drop offset ≠ [] := by
    intro hnone
    exact absurd (List.drop_eq_nil_iff.mp hnone) (Nat.not_le.mpr hoffset)
  have hframed := hcarries.framed_of_split hdocuments
  rw [← List.take_append_drop offset document.bytes] at hframed
  have hstops := stops_of_cut hframed (by rwa [List.take_append_drop]) hmissing
  rw [List.take_append_drop, hpart] at hstops
  have hthrough := hcarries.through hdocuments hkept (document.bytes.take offset)
  have hfails := (Stops.document hcarries.code hcarries.size hthrough hstops).fails_read hholds hcarries.size rfl
  rwa [hbefore, ← hcount] at hfails

theorem fails_read_of_short (limits : Limits) {bytes : Bytes} (hholds : source.Holds bytes)
    (hshort : bytes.length < Header.size) :
    (read limits).Fails source (.truncated Header.size bytes.length) bytes.length := by
  have hrun := Header.run_read_of_short (hholds.ready.symm ▸ hshort)
  rw [hholds.shortage] at hrun
  exact (fails_of_run_spent hholds hrun).bind _

/-- A source that holds only the front of a message gives neither a reply nor any other error than that it ends too early,
    wherever it ends, and is read to its end. The error counts what is there and what is missed: of the header, of the
    length of a document, or of a document whose length is there. -/
theorem read_truncated (hparse : (parse message limits).result = .ok reply) (hcut : count < message.length)
    (hholds : source.Holds (message.take count)) :
    ((read limits).run source).source.position = source.position + count ∧
      ((read limits).run source).source.ready = [] ∧
      (∃ wanted taken, ((read limits).run source).result = .error (.truncated wanted taken) ∧ taken < wanted) ∧
      (count < Header.size → ((read limits).run source).result = .error (.truncated Header.size count)) ∧
      ∀ before document after offset, reply.documents = before ++ document :: after → offset < document.size →
        count = Header.size + ((before.map RawDocument.size).sum + offset) →
        ((read limits).run source).result =
          .error (.truncated (if offset < 4 then 4 else document.size) offset) := by
  have hcarries := parse_eq_ok_iff.mp hparse
  have hheld : (message.take count).length = count := List.length_take_of_le (Nat.le_of_lt hcut)
  have hwhole : message.length = Header.size + (reply.documents.map RawDocument.size).sum := by
    rw [hcarries.bytes, List.length_append, Header.length_encode, length_encodeBody]
  have hshortage (hshort : count < Header.size) :
      (read limits).Fails source (.truncated Header.size count) count := by
    have hfails := fails_read_of_short limits hholds (hheld.symm ▸ hshort)
    rwa [hheld] at hfails
  have hstops : ∃ wanted taken, (read limits).Fails source (.truncated wanted taken) count ∧ taken < wanted := by
    by_cases hshort : count < Header.size
    · exact ⟨_, _, hshortage hshort, hshort⟩
    · have hbehind : count - Header.size < (reply.documents.map RawDocument.size).sum := by omega
      obtain ⟨before, document, after, offset, hdocuments, hoffset, hplace⟩ := exists_document_at hbehind
      refine ⟨_, _, hcarries.fails_read_of_cut hdocuments hoffset (by omega) hholds, ?_⟩
      split
      · assumption
      · exact hoffset
  obtain ⟨wanted, taken, hfails, hmissing⟩ := hstops
  refine ⟨hfails.position, ?_, ⟨wanted, taken, hfails.result, hmissing⟩, ?_, ?_⟩
  · rw [hfails.ready, hholds.ready, List.drop_eq_nil_of_le (Nat.le_of_eq hheld)]
  · intro hshort
    exact (hshortage hshort).result
  · intro before document after offset hdocuments hoffset hplace
    exact (hcarries.fails_read_of_cut hdocuments hoffset hplace hholds).result

/-- The message of a reply of two documents, the second with a field. -/
def nestedMessage : Bytes :=
  (Header.mk 33 7 8 .commandReply).encode ++ [5, 0, 0, 0, 0, 12, 0, 0, 0, 16, 97, 0, 1, 0, 0, 0, 0]

/-- The message is cut within its header, within the length of the first document, between the two documents, and within
    the second one. -/
theorem read_truncated_nested :
    (∃ reply, (parse nestedMessage ⟨64, 64⟩).result = .ok reply) ∧
      ((read ⟨64, 64⟩).run (Source.ofBytes (nestedMessage.take 10))).result = .error (.truncated 16 10) ∧
      ((read ⟨64, 64⟩).run (Source.ofBytes (nestedMessage.take 18))).result = .error (.truncated 4 2) ∧
      ((read ⟨64, 64⟩).run (Source.ofBytes (nestedMessage.take 21))).result = .error (.truncated 4 0) ∧
      ((read ⟨64, 64⟩).run (Source.ofBytes (nestedMessage.take 27))).result = .error (.truncated 12 6) ∧
      ((read ⟨64, 64⟩).run (Source.ofBytes (nestedMessage.take 27))).source.position = 27 := by
  have hparse : (parse nestedMessage ⟨64, 64⟩).result = .ok (ofDocuments ⟨33, 7, 8, .commandReply⟩ ⟨[5, 0, 0, 0, 0]⟩
      ⟨[12, 0, 0, 0, 16, 97, 0, 1, 0, 0, 0, 0]⟩ []) := rfl
  have hholds (count : Nat) : (Source.ofBytes (nestedMessage.take count)).Holds (nestedMessage.take count) :=
    ⟨Source.ready_ofBytes _, rfl⟩
  obtain ⟨_, _, _, hheader, _⟩ := read_truncated hparse (by decide) (hholds 10)
  obtain ⟨_, _, _, _, hlength⟩ := read_truncated hparse (by decide) (hholds 18)
  obtain ⟨_, _, _, _, hbetween⟩ := read_truncated hparse (by decide) (hholds 21)
  obtain ⟨hplace, _, _, _, hwithin⟩ := read_truncated hparse (by decide) (hholds 27)
  refine ⟨⟨_, hparse⟩, hheader (by decide), ?_, ?_, ?_, hplace⟩
  · exact hlength [] _ _ 2 rfl (by decide) rfl
  · exact hbetween [_] _ [] 0 rfl (by decide) rfl
  · exact hwithin [_] _ [] 6 rfl (by decide) rfl

end ReplyCapture.Reply
