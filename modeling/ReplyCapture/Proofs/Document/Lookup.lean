import ReplyCapture.Proofs.Document.NormalForm

namespace ReplyCapture

/-- The value of the last field of a key. -/
def WireDocument.last? (fields : WireDocument) (key : String) : Option WireValue :=
  (fields.reverse.find? fun field => field.1.bytes == Utf8.encode key).map Prod.snd

namespace Document

/-- Where no key comes twice, a value is found exactly if its field is there. -/
theorem get?_eq_some_iff {document : Document} (hkeys : (document.map Prod.fst).Nodup) {key : String} {value : Value} :
    document.get? key = some value ↔ (key, value) ∈ document := by
  rw [get?, List.lookup_eq_some_iff]
  constructor
  · intro hfound
    obtain ⟨before, after, rfl, _⟩ := hfound
    exact List.mem_append_right _ List.mem_cons_self
  · intro hmem
    obtain ⟨before, after, rfl⟩ := List.append_of_mem hmem
    refine ⟨before, after, rfl, ?_⟩
    intro field hfield
    rw [List.map_append, List.map_cons, List.nodup_append] at hkeys
    have hother := hkeys.2.2 field.1 (List.mem_map_of_mem hfield) key List.mem_cons_self
    exact bne_iff_ne.mpr hother.symm

/-- Where no key comes twice, the order of the fields does not matter. -/
theorem get?_perm {document other : Document} (hkeys : (document.map Prod.fst).Nodup) (hperm : other.Perm document)
    (key : String) : other.get? key = document.get? key := by
  have hothers : (other.map Prod.fst).Nodup := (hperm.map Prod.fst).nodup_iff.mpr hkeys
  apply Option.ext
  intro value
  rw [get?_eq_some_iff hothers, get?_eq_some_iff hkeys, hperm.mem_iff]

/-- A field is found behind all later ones of its key. -/
theorem get?_ofFields_cons (field : String × Value) (rest : List (String × Value)) (key : String) :
    (ofFields (field :: rest)).get? key =
      ((ofFields rest).get? key).or (if field.1 = key then some field.2 else none) := by
  rw [ofFields_cons]
  split
  · next hlater =>
    split
    · next hkey =>
      have hfound : ((ofFields rest).get? key).isSome := by
        rw [get?, List.lookup_isSome_iff]
        obtain ⟨later, hmem, hname⟩ := List.any_eq_true.mp hlater
        exact ⟨later, hmem, by rw [← hkey, beq_iff_eq, ← beq_iff_eq.mp hname]⟩
      rw [Option.or_of_isSome hfound]
    · rw [Option.or_none]
  · next hlast =>
    unfold get?
    rw [List.lookup_cons]
    by_cases hkey : field.1 = key
    · have hnone : (ofFields rest).lookup key = none := by
        rw [List.lookup_eq_none_iff]
        intro later hmem
        rw [bne_iff_ne]
        intro hsame
        exact hlast (List.any_eq_true.mpr ⟨later, hmem, beq_iff_eq.mpr (hsame.symm.trans hkey.symm)⟩)
      simp [hkey, hnone]
    · have hmiss : (key == field.1) = false := beq_eq_false_iff_ne.mpr (Ne.symm hkey)
      simp [hkey, hmiss]

end Document

namespace WireDocument

theorem last?_cons (name : WireName) (value : WireValue) (rest : WireDocument) (key : String) :
    last? ((name, value) :: rest) key =
      (rest.last? key).or (if name.bytes = Utf8.encode key then some value else none) := by
  rw [last?, last?, List.reverse_cons, List.find?_append, Option.map_or]
  congr 1
  by_cases hname : name.bytes = Utf8.encode key <;> simp [hname]

/-- Of a key that comes more than once, what is found is what the last field is read as. -/
theorem map_read_last? {fields : WireDocument} {kept : List (String × Value)} (hread : fields.readFields = .ok kept)
    (key : String) : (fields.last? key).map WireValue.read = ((Document.ofFields kept).get? key).map .ok := by
  -- From the front: on both sides the head is found only if its key does not come again behind it.
  induction fields generalizing kept with
  | nil =>
    obtain rfl := pure_eq_ok_iff.mp hread
    rfl
  | cons field rest ih =>
    obtain ⟨name, value⟩ := field
    simp only [readFields, bind_eq_ok_iff, pure_eq_ok_iff] at hread
    obtain ⟨text, hname, item, hvalue, later, hlater, rfl⟩ := hread
    have htext : name.bytes = Utf8.encode key ↔ text = key := by
      rw [eq_comm, ← WireName.read_eq_ok_iff, hname, Except.ok.injEq]
    rw [last?_cons, Document.get?_ofFields_cons, Option.map_or, Option.map_or, ih hlater]
    congr 1
    by_cases hkey : text = key
    · rw [if_pos (htext.mpr hkey), if_pos hkey, Option.map_some, Option.map_some, hvalue]
    · rw [if_neg (mt htext.mp hkey), if_neg hkey, Option.map_none, Option.map_none]

theorem map_read_last?_of_read {fields : WireDocument} {document : Document} (hread : fields.read = .ok document)
    (key : String) : (fields.last? key).map WireValue.read = (document.get? key).map .ok := by
  obtain ⟨kept, hkept, hdocument⟩ := bind_eq_ok_iff.mp hread
  obtain rfl := pure_eq_ok_iff.mp hdocument
  exact map_read_last? hkept key

/-- Where the last field of a key holds a document, a document is found under it. -/
theorem exists_document_of_last? {fields inner : WireDocument} {document : Document} (hread : fields.read = .ok document)
    {key : String} (hlast : fields.last? key = some (.document inner)) :
    ∃ nested : Document, document.get? key = some (.document nested) ∧ inner.read = .ok nested := by
  have hfound := map_read_last?_of_read hread key
  rw [hlast, Option.map_some, WireValue.read_document] at hfound
  obtain ⟨value, hvalue, hsame⟩ := Option.map_eq_some_iff.mp hfound.symm
  obtain ⟨nested, hinner, hnested⟩ := bind_eq_ok_iff.mp hsame.symm
  obtain rfl := pure_eq_ok_iff.mp hnested
  exact ⟨nested, hvalue, hinner⟩

end WireDocument

namespace RawDocument

/-- No key comes twice in what is read. -/
theorem nodup_of_toDocument {raw : RawDocument} {document : Document} (hread : raw.toDocument = .ok document) :
    (document.map Prod.fst).Nodup := by
  obtain ⟨tree, _, _, _, htree⟩ := exists_tree_of_toDocument hread
  obtain ⟨kept, _, hdocument⟩ := bind_eq_ok_iff.mp htree
  obtain rfl := pure_eq_ok_iff.mp hdocument
  exact Document.nodup_ofFields kept

end RawDocument

end ReplyCapture
