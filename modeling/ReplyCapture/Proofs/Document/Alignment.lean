import ReplyCapture.Message.Frame
import ReplyCapture.Proofs.Document.Reader
import ReplyCapture.Proofs.Document.Structure

namespace ReplyCapture

open Structure

namespace Reader

/-- Started at one place of a document, whatever stands behind what encloses it, a reader stops at the other
    place or fails by what a part holds. -/
def Aligned {α : Type} (reader : Reader α) (cursor after : Cursor) : Prop :=
  ∀ rest,
    (∃ value, reader.run (cursor.rest ++ rest) = .ok (value, after.rest ++ rest)) ∨
      ∃ cause, reader.run (cursor.rest ++ rest) = .error cause ∧ cause.IsContent

/-- A reader that reads the bytes between two places is aligned with a walk between them, whatever follows, if it fails
    only by content. -/
theorem Reads.aligned {α : Type} {reader : Reader α} {bytes : Bytes} {result : Except DecodeError α}
    {cursor after : Cursor} (hreads : Reads reader bytes result) (hspans : Spans cursor bytes after)
    (hcontent : ∀ cause, result = .error cause → cause.IsContent) : Aligned reader cursor after := by
  intro rest
  rw [hspans.1, List.append_assoc, hreads]
  cases result with
  | ok value => exact .inl ⟨value, rfl⟩
  | error cause => exact .inr ⟨cause, rfl, hcontent cause rfl⟩

/-- Where the check passes over a document, the reader passes over it too, as a document or as an array. -/
theorem aligned_of_skipDocument {levels bound fuel : Nat} {cursor after : Cursor}
    (hbound : cursor.rest.length ≤ bound) (hfuel : cursor.rest.length ≤ fuel)
    (hskip : skipDocument levels cursor = .ok after) :
    Aligned (document bound fuel) cursor after ∧ Aligned (array bound fuel) cursor after := by
  obtain ⟨read, _, hsize, hspans⟩ := (passesDocuments_skipDocument levels cursor after).mp hskip
  have hlength := hspans.length_rest
  have hdepth := WireDocument.depth_le_length_fieldBytes read
  have htotal := read.length_encode
  obtain ⟨hdocument, harray⟩ := readsTrees bound fuel read hsize (by omega) (by omega)
  constructor
  · exact hdocument.aligned hspans fun cause hread => WireDocument.isContent_of_read hread
  · exact harray.aligned hspans fun cause hread => read.isContent_of_readItems 0 hread

/-- Where the check passes over a value, the reader passes over it under the same tag. -/
theorem aligned_of_skipValue {levels bound fuel : Nat} {byte : UInt8} {cursor after : Cursor}
    (hroom : cursor.rest.length < declarable) (hbound : cursor.rest.length ≤ bound)
    (hfuel : cursor.rest.length ≤ fuel) (hskip : skipValue (skipDocument levels) byte cursor = .ok after) :
    Aligned (value (document bound fuel) (array bound fuel) byte) cursor after := by
  have hpasses := passesValues_skipValue (passesDocuments_skipDocument levels)
  obtain ⟨read, rfl, _, hspans⟩ := (hpasses byte cursor after hroom).mp hskip
  have hlength := hspans.length_rest
  have hdepth := read.depth_le_length_encode
  have hreads := reads_value (readsTrees bound fuel) (by omega) (by omega) (Nat.le_trans hdepth (by omega))
  exact hreads.aligned hspans fun cause hread => read.isContent_of_read hread

end Reader

/-- The bytes of a tree are read to their end, as what the tree stands for. -/
theorem WireDocument.read_encode {document : WireDocument} (hsize : document.encode.length < declarable) :
    Document.read document.encode = document.read.map fun value => (value, []) := by
  have hdepth := document.depth_le_length_fieldBytes
  have htotal := document.length_encode
  have hreads := (Reader.readsTrees _ document.encode.length document hsize Nat.le.refl (by omega)).1 []
  rwa [List.append_nil] at hreads

theorem RawDocument.toDocument_encode {document : WireDocument} (hdepth : document.depth ≤ nestingLimit)
    (hsize : document.encode.length < declarable) : toDocument ⟨document.encode⟩ = document.read := by
  rw [toDocument, Structure.check_encode hdepth hsize, document.read_encode hsize]
  cases document.read <;> rfl

theorem RawDocument.ofBytes_eq_ok_iff {bytes : Bytes} {raw : RawDocument} :
    ofBytes bytes = .ok raw ↔ (∃ document, toDocument ⟨bytes⟩ = .ok document) ∧ raw = ⟨bytes⟩ := by
  simp only [ofBytes, bind_eq_ok_iff, pure_eq_ok_iff, exists_and_right, eq_comm (a := raw)]

theorem RawDocument.ofBytes_eq_error_iff {bytes : Bytes} {cause : DecodeError} :
    ofBytes bytes = .error cause ↔ toDocument ⟨bytes⟩ = .error cause := by
  rw [ofBytes, bind_pure_eq_error_iff]

/-- Bytes are kept where they can be read, and the source is left alone either way. -/
theorem Frame.run_keep (bytes : Bytes) (source : Source) :
    (keep bytes).run source =
      match RawDocument.ofBytes bytes with
      | .ok raw => ⟨.ok raw, source, []⟩
      | .error cause => ⟨.error (.malformed cause), source, [.malformed bytes]⟩ := by
  rw [keep]
  cases RawDocument.ofBytes bytes <;> rfl

/-- The reader, which goes by endings, follows the check, which goes by lengths. Wherever the check passes over
    a document, an array or a value, the reader stops at the same place or fails by what a part holds. So bytes
    that pass the check are read to their end, nothing ever trails, and they are kept exactly when every part of
    their tree can be read. -/
theorem read_follows_check {bytes : Bytes} (hcheck : check bytes = .ok ()) :
    (∀ levels bound fuel cursor after, cursor.rest.length ≤ bound → cursor.rest.length ≤ fuel →
      skipDocument levels cursor = .ok after →
      Reader.Aligned (Reader.document bound fuel) cursor after ∧
        Reader.Aligned (Reader.array bound fuel) cursor after) ∧
    (∀ levels bound fuel byte cursor after, cursor.rest.length < 2 ^ 31 → cursor.rest.length ≤ bound →
      cursor.rest.length ≤ fuel → skipValue (skipDocument levels) byte cursor = .ok after →
      Reader.Aligned (Reader.value (Reader.document bound fuel) (Reader.array bound fuel) byte) cursor after) ∧
    (∀ document rest, Document.read bytes = .ok (document, rest) → rest = []) ∧
    (∀ cause, Document.read bytes = .error cause → cause.IsContent) ∧
    RawDocument.toDocument ⟨bytes⟩ = (Document.read bytes).map Prod.fst ∧
    ((∃ raw, RawDocument.ofBytes bytes = .ok raw) ↔
      ∃ document : WireDocument, document.encode = bytes ∧ document.Readable) ∧
    ∀ source error, ((Frame.keep bytes).run source).result = .error error →
      ∃ cause, error = .malformed cause ∧ cause.IsContent := by
  obtain ⟨document, rfl, hdepth, hsize⟩ := exists_document_of_check hcheck
  have hread := document.read_encode hsize
  have hraw := RawDocument.toDocument_encode hdepth hsize
  refine ⟨?_, ?_, ?_, ?_, ?_, ?_, ?_⟩
  · intro levels bound fuel cursor after hbound hfuel hskip
    exact Reader.aligned_of_skipDocument hbound hfuel hskip
  · intro levels bound fuel byte cursor after hroom hbound hfuel hskip
    exact Reader.aligned_of_skipValue hroom hbound hfuel hskip
  · intro value rest hvalue
    rw [hread, map_eq_ok_iff] at hvalue
    obtain ⟨_, _, hresult⟩ := hvalue
    exact (congrArg Prod.snd hresult).symm
  · intro cause hcause
    rw [hread, map_eq_error_iff] at hcause
    exact WireDocument.isContent_of_read hcause
  · rw [hraw, hread]
    cases document.read <;> rfl
  · simp only [RawDocument.ofBytes_eq_ok_iff, exists_and_left, exists_eq, and_true, hraw, document.exists_read_iff]
    constructor
    · intro hreadable
      exact ⟨document, rfl, hreadable⟩
    · intro hother
      obtain ⟨other, hbytes, hreadable⟩ := hother
      obtain rfl := WireDocument.encode_inj hsize hbytes.symm
      exact hreadable
  · intro source error hkeep
    rw [Frame.run_keep] at hkeep
    split at hkeep
    · cases hkeep
    · next cause hcause =>
      obtain rfl := Except.error.inj hkeep
      rw [RawDocument.ofBytes_eq_error_iff, hraw] at hcause
      exact ⟨cause, rfl, WireDocument.isContent_of_read hcause⟩

/-- A document with the number 7 inside another document. -/
theorem read_follows_check_nested :
    check [20, 0, 0, 0, 3, 100, 0, 12, 0, 0, 0, 16, 110, 0, 7, 0, 0, 0, 0, 0] = .ok () ∧
      (∃ raw, RawDocument.ofBytes [20, 0, 0, 0, 3, 100, 0, 12, 0, 0, 0, 16, 110, 0, 7, 0, 0, 0, 0, 0] = .ok raw) ∧
      Reader.Aligned (Reader.document 20 19) ⟨7, [12, 0, 0, 0, 16, 110, 0, 7, 0, 0, 0, 0]⟩ ⟨19, []⟩ ∧
      Reader.Aligned (Reader.value (Reader.document 20 18) (Reader.array 20 18) 16) ⟨14, [7, 0, 0, 0]⟩ ⟨18, []⟩ := by
  have hcheck : check [20, 0, 0, 0, 3, 100, 0, 12, 0, 0, 0, 16, 110, 0, 7, 0, 0, 0, 0, 0] = .ok () := by rfl
  obtain ⟨hdocuments, hvalues, _, _, _, hkept, _⟩ := read_follows_check hcheck
  have hname (byte : UInt8) (hbyte : byte = 100 ∨ byte = 110) : Utf8.Valid [byte] := by
    obtain rfl | rfl := hbyte
    · exact ⟨"d", by decide⟩
    · exact ⟨"n", by decide⟩
  refine ⟨hcheck, ?_, ?_, ?_⟩
  · refine hkept.mpr ⟨[(⟨[100], by decide⟩, .document [(⟨[110], by decide⟩, .int32 7)])], by decide, ?_⟩
    exact ⟨hname 100 (.inl rfl), ⟨hname 110 (.inr rfl), trivial, trivial⟩, trivial⟩
  · exact (hdocuments 200 20 19 _ _ (by decide) (by decide) rfl).1
  · exact hvalues 199 20 18 16 _ _ (by decide) (by decide) (by decide) rfl

end ReplyCapture
