import Mathlib.Algebra.Group.Nat.Defs
import Mathlib.Logic.ExistsUnique
import ReplyCapture.Document.Structure
import ReplyCapture.Proofs.Document.Wire
import ReplyCapture.Proofs.Steps

namespace ReplyCapture.Structure

/-- Between two places of one document lie exactly these bytes. -/
def Spans (cursor : Cursor) (bytes : Bytes) (after : Cursor) : Prop :=
  cursor.rest = bytes ++ after.rest ∧ after.offset = cursor.offset + bytes.length

theorem spans_nil_iff {cursor after : Cursor} : Spans cursor [] after ↔ cursor = after := by
  cases cursor
  cases after
  simp [Spans, and_comm, eq_comm]

/-- A front and a back lie between two places exactly where some place parts them. That place need not be given: the
    front fixes how far on it is. -/
theorem spans_append_iff {cursor after : Cursor} {front back : Bytes} :
    Spans cursor (front ++ back) after ↔ ∃ middle, Spans cursor front middle ∧ Spans middle back after := by
  constructor
  · intro hspans
    obtain ⟨hrest, hoffset⟩ := hspans
    refine ⟨⟨cursor.offset + front.length, back ++ after.rest⟩, ⟨by simpa using hrest, rfl⟩, rfl, ?_⟩
    simpa [Nat.add_assoc] using hoffset
  · intro hparts
    obtain ⟨middle, ⟨hfront, hmiddle⟩, hback, hafter⟩ := hparts
    refine ⟨by rw [hfront, hback, List.append_assoc], ?_⟩
    rw [hafter, hmiddle, List.length_append, Nat.add_assoc]

theorem Spans.length_rest {cursor after : Cursor} {bytes : Bytes} (hspans : Spans cursor bytes after) :
    cursor.rest.length = bytes.length + after.rest.length := by
  rw [hspans.1, List.length_append]

/-- A cut succeeds with exactly the bytes it was asked for and stops behind them. The part that is cut is only named in
    its errors. -/
theorem cut_eq_ok_iff {part : Part} {size : Nat} {cursor after : Cursor} {bytes : Bytes} :
    cut part size cursor = .ok (bytes, after) ↔ bytes.length = size ∧ Spans cursor bytes after := by
  unfold cut
  rw [Bytes.split?_eq]
  constructor
  · intro hcut
    split at hcut
    · next front rest hsplit =>
      split at hsplit
      · next hsize =>
        cases hsplit
        cases hcut
        have hlength : (cursor.rest.take size).length = size := List.length_take_of_le hsize
        exact ⟨hlength, by simp, by simp only [hlength]⟩
      · cases hsplit
    · cases hcut
  · intro hspans
    obtain ⟨rfl, hrest, hoffset⟩ := hspans
    cases after
    simp only at hrest hoffset
    simp [hrest, hoffset]

/-- So many bytes are skipped whatever they are. -/
theorem skip_eq_ok_iff {part : Part} {size : Nat} {cursor after : Cursor} :
    skip part size cursor = .ok after ↔ ∃ bytes : Bytes, bytes.length = size ∧ Spans cursor bytes after := by
  simp only [skip, bind_eq_ok_iff, Prod.exists, pure_eq_ok_iff, cut_eq_ok_iff]
  constructor
  · intro hcut
    obtain ⟨bytes, stop, hbytes, rfl⟩ := hcut
    exact ⟨bytes, hbytes⟩
  · intro hspans
    obtain ⟨bytes, hbytes⟩ := hspans
    exact ⟨bytes, after, hbytes, rfl⟩

/-- A length is found where its four bytes stand in front and have no sign. The cursor stays where it is, so that what
    is behind those bytes plays no part. -/
theorem declared_eq_ok_iff {part : Part} {cursor : Cursor} {length : Nat} :
    declared part cursor = .ok length ↔
      length < declarable ∧ ∃ after, Spans cursor (LittleEndian.encode 4 length) after := by
  simp only [declared, bind_eq_ok_iff, Prod.exists, guard_eq_ok_iff, pure_eq_ok_iff, cut_eq_ok_iff]
  constructor
  · intro hcut
    obtain ⟨front, after, ⟨hfront, hspans⟩, hsign, rfl⟩ := hcut
    have hsigned := LittleEndian.signed_eq_natCast_iff.mp
      (Int.toNat_of_nonneg (Int.not_lt.mp hsign)).symm
    rw [LittleEndian.encodeWord_decodeWord hfront] at hsigned
    exact ⟨hsigned.1, after, hsigned.2 ▸ hspans⟩
  · intro hspans
    obtain ⟨hlength, after, hspans⟩ := hspans
    have hfour : (LittleEndian.encode 4 length).length = 4 := by simp
    have hsigned : LittleEndian.signed (LittleEndian.decodeWord (LittleEndian.encode 4 length)) = length :=
      LittleEndian.signed_eq_natCast_iff.mpr ⟨hlength, LittleEndian.encodeWord_decodeWord hfour⟩
    exact ⟨_, after, ⟨hfour, hspans⟩, by rw [hsigned]; omega, by rw [hsigned]; rfl⟩

/-- A name ends with the first zero byte. Nothing else is looked at, so that it need not be text. -/
theorem skipName_eq_ok_iff {cursor after : Cursor} :
    skipName cursor = .ok after ↔ ∃ name : WireName, Spans cursor name.encode after := by
  unfold skipName
  constructor
  · intro hskip
    split at hskip
    · next name rest hsplit =>
      obtain ⟨hzero, hrest⟩ := Bytes.splitZero?_eq_some_iff.mp hsplit
      cases hskip
      exact ⟨⟨name, hzero⟩, by simpa [WireName.encode] using hrest, by simp [WireName.encode, Nat.add_assoc]⟩
    · cases hskip
  · intro hname
    obtain ⟨name, hrest, hoffset⟩ := hname
    have hsplit : cursor.rest.splitZero? = some (name.bytes, after.rest) :=
      Bytes.splitZero?_eq_some_iff.mpr ⟨name.zero_notMem, by simpa [WireName.encode] using hrest⟩
    simp only [hsplit]
    cases after
    simpa [WireName.encode, Nat.add_assoc] using hoffset.symm

/-- A text ends where its length says and with a zero byte. Zeros in front of that one are part of it, and it need not
    be text either. The length counts no byte of its own. -/
theorem skipString_eq_ok_iff {cursor after : Cursor} :
    skipString cursor = .ok after ↔
      ∃ text, (wireText text).length < declarable + 4 ∧ Spans cursor (wireText text) after := by
  simp only [skipString, bind_eq_ok_iff, Prod.exists, guard_eq_ok_iff, pure_eq_ok_iff, declared_eq_ok_iff,
    cut_eq_ok_iff, length_wireText]
  constructor
  · intro hparts
    obtain ⟨length, ⟨hlength, front, hfront⟩, hpositive, bytes, stop, ⟨hbytes, hstop⟩, hzero, rfl⟩ := hparts
    have hlast : bytes.getLast? = some 0 := Decidable.not_not.mp hzero
    obtain ⟨text, rfl⟩ := List.getLast?_eq_some_iff.mp hlast
    have hbody : Spans front (text ++ [0]) stop := by
      refine ⟨?_, by simpa [hfront.2] using hstop.2⟩
      have hdrop := hstop.1
      simp only [hfront.1] at hdrop
      rwa [List.drop_left' (by simp)] at hdrop
    simp only [List.length_append, List.length_singleton] at hbytes
    refine ⟨text, by omega, ?_⟩
    rw [wireText, spans_append_iff]
    exact ⟨front, by simpa [hbytes] using hfront, hbody⟩
  · intro htext
    obtain ⟨text, hlength, hspans⟩ := htext
    rw [wireText, spans_append_iff] at hspans
    obtain ⟨front, hfront, hstop⟩ := hspans
    refine ⟨(text ++ [0]).length, ⟨by simp; omega, front, hfront⟩, by simp, _, after, ⟨rfl, ?_, ?_⟩,
      by simp, rfl⟩
    · simp only [hfront.1]
      rw [List.drop_left' (by simp), hstop.1]
    · rw [hstop.2, hfront.2]
      simp

/-- Binary data is skipped together with its subtype, which its length does not count and which may be any byte. -/
theorem skipBinary_eq_ok_iff {cursor after : Cursor} :
    skipBinary cursor = .ok after ↔
      ∃ subtype data, data.length < declarable ∧ Spans cursor (WireValue.binary subtype data).encode after := by
  simp only [skipBinary, bind_eq_ok_iff, declared_eq_ok_iff, skip_eq_ok_iff]
  constructor
  · intro hparts
    obtain ⟨length, ⟨hlength, front, hfront⟩, data, ⟨head, hhead, hdata⟩, bytes, rfl, hbytes⟩ := hparts
    obtain ⟨hword, hsubtype⟩ : head.take 4 = LittleEndian.encode 4 bytes.length ∧ (head.drop 4).length = 1 := by
      have htake := congrArg (List.take 4) (hfront.1.symm.trans hdata.1)
      rw [List.take_left' (by simp), List.take_append_of_le_length (by omega)] at htake
      exact ⟨htake.symm, by simp [hhead]⟩
    obtain ⟨subtype, hdrop⟩ := List.length_eq_one_iff.mp hsubtype
    refine ⟨subtype, bytes, hlength, ?_⟩
    have hsplit : (WireValue.binary subtype bytes).encode = head ++ bytes := by
      rw [WireValue.encode, ← hword, List.append_cons, ← hdrop, List.take_append_drop]
    rw [hsplit, spans_append_iff]
    exact ⟨data, hdata, hbytes⟩
  · intro hbinary
    obtain ⟨subtype, data, hlength, hspans⟩ := hbinary
    have hhead := hspans
    rw [WireValue.encode, List.append_cons, spans_append_iff] at hspans
    rw [WireValue.encode, spans_append_iff] at hhead
    obtain ⟨middle, hmiddle, hdata⟩ := hspans
    obtain ⟨front, hfront, _⟩ := hhead
    exact ⟨data.length, ⟨hlength, front, hfront⟩, middle, ⟨_, by simp, hmiddle⟩, data, rfl, hdata⟩

/-- Reading a part's own length and then cutting the part off finds what starts with its true size. -/
theorem declared_cut_iff {part : Part} {cursor after : Cursor} {length : Nat} {region : Bytes} (hfour : 4 ≤ length) :
    (declared part cursor = .ok length ∧ cut part length cursor = .ok (region, after)) ↔
      ∃ body, region = selfSized body ∧ length = region.length ∧ length < declarable ∧
        Spans cursor region after := by
  rw [declared_eq_ok_iff, cut_eq_ok_iff]
  constructor
  · intro hparts
    obtain ⟨⟨hlength, front, hfront⟩, hregion, hspans⟩ := hparts
    refine ⟨region.drop 4, ?_, hregion.symm, hlength, hspans⟩
    have htake := congrArg (List.take 4) (hfront.1.symm.trans hspans.1)
    rw [List.take_left' (by simp), List.take_append_of_le_length (by omega)] at htake
    rw [selfSized, List.length_drop, hregion, Nat.sub_add_cancel hfour, htake, List.take_append_drop]
  · intro hregion
    obtain ⟨body, rfl, rfl, hlength, hspans⟩ := hregion
    refine ⟨⟨hlength, ?_⟩, rfl, hspans⟩
    rw [selfSized, spans_append_iff] at hspans
    obtain ⟨front, hfront, _⟩ := hspans
    exact ⟨front, by simpa using hfront⟩

/-- The documents that a walk passes over whole, nested less than `levels` deep. -/
def PassesDocuments (levels : Nat) (walk : Cursor → Walk) : Prop :=
  ∀ cursor after, walk cursor = .ok after ↔
    ∃ document : WireDocument, document.depth < levels ∧ document.encode.length < declarable ∧
      Spans cursor document.encode after

/-- Code with a scope is skipped where text and scope fill the length that is declared for both. Only the scope is
    walked into, so nothing but documents has to be known of the inner walk. -/
theorem skipCodeWithScope_eq_ok_iff {levels : Nat} {nested : Cursor → Walk} {cursor after : Cursor}
    (hnested : PassesDocuments levels nested) :
    skipCodeWithScope nested cursor = .ok after ↔
      ∃ text scope, WireDocument.depth scope < levels ∧
        (WireValue.codeWithScope text scope).encode.length < declarable ∧
        Spans cursor (WireValue.codeWithScope text scope).encode after := by
  simp only [skipCodeWithScope, bind_eq_ok_iff, Prod.exists, guard_eq_ok_iff, pure_eq_ok_iff,
    skipString_eq_ok_iff, hnested _ _]
  constructor
  · intro hparts
    obtain ⟨length, hdeclared, hleast, region, stop, hcut, middle, ⟨text, htext, hmiddle⟩, last, ⟨scope, hdepth,
      hscope, hlast⟩, hend, rfl⟩ := hparts
    have hfour : 4 ≤ length := by
      unfold leastCodeWithScope at hleast
      omega
    obtain ⟨body, rfl, rfl, hlength, hspans⟩ := (declared_cut_iff hfour).mp ⟨hdeclared, hcut⟩
    have hbody : Spans ⟨cursor.offset + 4, body⟩ (wireText text ++ scope.encode) last :=
      spans_append_iff.mpr ⟨middle, by simpa using hmiddle, hlast⟩
    -- The scope ends where the region does, so nothing of the region is left behind it.
    have hrest : last.rest = [] := by
      have hroom := hbody.length_rest
      have hoffset := hbody.2
      have hstop := hspans.2
      simp only [length_selfSized] at hroom hoffset hstop
      exact List.eq_nil_of_length_eq_zero (by omega)
    have hencode : body = wireText text ++ scope.encode := by simpa [hrest] using hbody.1
    subst hencode
    exact ⟨text, scope, hdepth, hlength, hspans⟩
  · intro hvalue
    obtain ⟨text, scope, hdepth, hlength, hspans⟩ := hvalue
    have hsize := WireValue.length_encode_codeWithScope text scope
    have hleast : leastCodeWithScope ≤ (WireValue.codeWithScope text scope).encode.length := by
      rw [hsize, length_wireText, WireDocument.length_encode, leastCodeWithScope]
      omega
    obtain ⟨hdeclared, hcut⟩ := (declared_cut_iff (Nat.le_trans (by decide) hleast)).mpr
      ⟨_, by rw [WireValue.encode], rfl, hlength, hspans⟩
    have hbody : Spans ⟨cursor.offset + 4, (WireValue.codeWithScope text scope).encode.drop 4⟩
        (wireText text ++ scope.encode) ⟨after.offset, []⟩ := by
      refine ⟨by simp [WireValue.encode, WireDocument.encode], ?_⟩
      change after.offset = cursor.offset + 4 + _
      rw [hspans.2, hsize, List.length_append]
      omega
    obtain ⟨middle, hmiddle, hlast⟩ := spans_append_iff.mp hbody
    exact ⟨_, hdeclared, by omega, _, after, hcut, middle, ⟨text, by omega, hmiddle⟩, ⟨after.offset, []⟩,
      ⟨scope, hdepth, by omega, hlast⟩, by simp, rfl⟩

/-- Eight bytes are always a word, for there is nothing to refuse about them. -/
theorem skip_long_eq_ok_iff {part : Part} {cursor after : Cursor} :
    skip part 8 cursor = .ok after ↔ ∃ word, Spans cursor (LittleEndian.encodeLong word) after := by
  rw [skip_eq_ok_iff]
  constructor
  · intro hbytes
    obtain ⟨bytes, hbytes, hspans⟩ := hbytes
    exact ⟨LittleEndian.decodeLong bytes, by rwa [LittleEndian.encodeLong_decodeLong hbytes]⟩
  · intro hword
    obtain ⟨word, hspans⟩ := hword
    exact ⟨_, LittleEndian.length_encodeLong word, hspans⟩

theorem skip_word_eq_ok_iff {part : Part} {cursor after : Cursor} :
    skip part 4 cursor = .ok after ↔ ∃ word, Spans cursor (LittleEndian.encodeWord word) after := by
  rw [skip_eq_ok_iff]
  constructor
  · intro hbytes
    obtain ⟨bytes, hbytes, hspans⟩ := hbytes
    exact ⟨LittleEndian.decodeWord bytes, by rwa [LittleEndian.encodeWord_decodeWord hbytes]⟩
  · intro hword
    obtain ⟨word, hspans⟩ := hword
    exact ⟨_, LittleEndian.length_encodeWord word, hspans⟩

/-- The values that a walk under a given tag passes over whole, nested at most `levels` deep. What they
    stand in is small enough that every length in them can be declared. -/
def PassesValues (levels : Nat) (walk : UInt8 → Cursor → Walk) : Prop :=
  ∀ byte cursor after, cursor.rest.length < declarable →
    (walk byte cursor = .ok after ↔
      ∃ value : WireValue, value.tag.toByte = byte ∧ value.depth ≤ levels ∧ Spans cursor value.encode after)

/-- What is skipped under a tag is a value of that tag. In this direction nothing has to be known of the room around it:
    a length that was read is one that can be declared. -/
theorem exists_value_of_skipValue {levels : Nat} {nested : Cursor → Walk} {tag : Tag} {cursor after : Cursor}
    (hnested : PassesDocuments levels nested) (hskip : skipValue nested tag.toByte cursor = .ok after) :
    ∃ value : WireValue, value.tag = tag ∧ value.depth ≤ levels ∧ Spans cursor value.encode after := by
  unfold skipValue at hskip
  rw [Tag.ofByte?_toByte] at hskip
  cases tag with
  | double =>
    obtain ⟨word, hspans⟩ := skip_long_eq_ok_iff.mp hskip
    exact ⟨.double word, rfl, Nat.zero_le _, hspans⟩
  | date =>
    obtain ⟨word, hspans⟩ := skip_long_eq_ok_iff.mp hskip
    exact ⟨.date word, rfl, Nat.zero_le _, hspans⟩
  | timestamp =>
    obtain ⟨word, hspans⟩ := skip_long_eq_ok_iff.mp hskip
    exact ⟨.timestamp word, rfl, Nat.zero_le _, hspans⟩
  | int64 =>
    obtain ⟨word, hspans⟩ := skip_long_eq_ok_iff.mp hskip
    exact ⟨.int64 word, rfl, Nat.zero_le _, hspans⟩
  | int32 =>
    obtain ⟨word, hspans⟩ := skip_word_eq_ok_iff.mp hskip
    exact ⟨.int32 word, rfl, Nat.zero_le _, hspans⟩
  | objectId =>
    obtain ⟨bytes, hbytes, hspans⟩ := skip_eq_ok_iff.mp hskip
    exact ⟨.objectId ⟨bytes, hbytes⟩, rfl, Nat.zero_le _, hspans⟩
  | boolean =>
    obtain ⟨bytes, hbytes, hspans⟩ := skip_eq_ok_iff.mp hskip
    obtain ⟨byte, rfl⟩ := List.length_eq_one_iff.mp hbytes
    exact ⟨.boolean byte, rfl, Nat.zero_le _, hspans⟩
  | null =>
    cases hskip
    exact ⟨.null, rfl, Nat.zero_le _, spans_nil_iff.mpr rfl⟩
  | string =>
    obtain ⟨text, _, hspans⟩ := skipString_eq_ok_iff.mp hskip
    exact ⟨.string text, rfl, Nat.zero_le _, hspans⟩
  | code =>
    obtain ⟨text, _, hspans⟩ := skipString_eq_ok_iff.mp hskip
    exact ⟨.code text, rfl, Nat.zero_le _, hspans⟩
  | symbol =>
    obtain ⟨text, _, hspans⟩ := skipString_eq_ok_iff.mp hskip
    exact ⟨.symbol text, rfl, Nat.zero_le _, hspans⟩
  | document =>
    obtain ⟨document, hdepth, _, hspans⟩ := (hnested _ _).mp hskip
    exact ⟨.document document, rfl, hdepth, hspans⟩
  | array =>
    obtain ⟨document, hdepth, _, hspans⟩ := (hnested _ _).mp hskip
    exact ⟨.array document, rfl, hdepth, hspans⟩
  | binary =>
    obtain ⟨subtype, data, _, hspans⟩ := skipBinary_eq_ok_iff.mp hskip
    exact ⟨.binary subtype data, rfl, Nat.zero_le _, hspans⟩
  | regex =>
    obtain ⟨middle, hpattern, hoptions⟩ := bind_eq_ok_iff.mp hskip
    obtain ⟨pattern, hpattern⟩ := skipName_eq_ok_iff.mp hpattern
    obtain ⟨options, hoptions⟩ := skipName_eq_ok_iff.mp hoptions
    exact ⟨.regex pattern options, rfl, Nat.zero_le _, spans_append_iff.mpr ⟨middle, hpattern, hoptions⟩⟩
  | codeWithScope =>
    obtain ⟨text, scope, hdepth, _, hspans⟩ := (skipCodeWithScope_eq_ok_iff hnested).mp hskip
    exact ⟨.codeWithScope text scope, rfl, hdepth, hspans⟩

/-- A value that is nested no deeper than the inner walk goes is skipped whole, if it is small enough for its lengths to
    be declared. -/
theorem skipValue_of_spans {levels : Nat} {nested : Cursor → Walk} {value : WireValue} {cursor after : Cursor}
    (hnested : PassesDocuments levels nested) (hsize : value.encode.length < declarable)
    (hdepth : value.depth ≤ levels) (hspans : Spans cursor value.encode after) :
    skipValue nested value.tag.toByte cursor = .ok after := by
  unfold skipValue
  rw [Tag.ofByte?_toByte]
  cases value with
  | double word | date word | timestamp word | int64 word => exact skip_long_eq_ok_iff.mpr ⟨word, hspans⟩
  | int32 word => exact skip_word_eq_ok_iff.mpr ⟨word, hspans⟩
  | objectId id => exact skip_eq_ok_iff.mpr ⟨_, id.length_bytes, hspans⟩
  | boolean byte => exact skip_eq_ok_iff.mpr ⟨_, rfl, hspans⟩
  | null => exact congrArg Except.ok (spans_nil_iff.mp hspans)
  | string text | code text | symbol text =>
    exact skipString_eq_ok_iff.mpr ⟨text, Nat.lt_add_right 4 hsize, hspans⟩
  | document fields | array fields => exact (hnested _ _).mpr ⟨fields, hdepth, hsize, hspans⟩
  | binary subtype data =>
    have hdata : data.length < declarable := by
      simp only [WireValue.encode, List.length_append, List.length_cons] at hsize
      omega
    exact skipBinary_eq_ok_iff.mpr ⟨subtype, data, hdata, hspans⟩
  | regex pattern options =>
    obtain ⟨middle, hpattern, hoptions⟩ := spans_append_iff.mp hspans
    refine bind_eq_ok_iff.mpr ⟨middle, ?_, ?_⟩
    · exact skipName_eq_ok_iff.mpr ⟨pattern, hpattern⟩
    · exact skipName_eq_ok_iff.mpr ⟨options, hoptions⟩
  | codeWithScope text scope =>
    exact (skipCodeWithScope_eq_ok_iff hnested).mpr ⟨text, scope, hdepth, hsize, hspans⟩

/-- What holds of documents holds of the values around them, one level up. A byte that is no tag belongs to no value,
    and nothing is skipped under it. -/
theorem passesValues_skipValue {levels : Nat} {nested : Cursor → Walk}
    (hnested : PassesDocuments levels nested) : PassesValues levels (skipValue nested) := by
  intro byte cursor after hroom
  constructor
  · intro hskip
    cases htag : Tag.ofByte? byte with
    | none => simp [skipValue, htag] at hskip
    | some tag =>
      obtain rfl := Tag.ofByte?_eq_some_iff.mp htag
      obtain ⟨value, rfl, hvalue⟩ := exists_value_of_skipValue hnested hskip
      exact ⟨value, rfl, hvalue⟩
  · intro hvalue
    obtain ⟨value, rfl, hdepth, hspans⟩ := hvalue
    have hlength := hspans.length_rest
    exact skipValue_of_spans hnested (by omega) hdepth hspans

/-- The two steps over a field, its name and its value, pass over exactly a field. -/
theorem skip_field_iff {levels offset : Nat} {value : UInt8 → Cursor → Walk} {byte : UInt8} {tail : Bytes}
    {next : Cursor} (hvalue : PassesValues levels value) (hroom : tail.length < declarable) :
    (∃ field, skipName ⟨offset + 1, tail⟩ = .ok field ∧ value byte field = .ok next) ↔
      ∃ (name : WireName) (item : WireValue), item.depth ≤ levels ∧
        Spans ⟨offset, byte :: tail⟩ (wireField item.tag name item.encode) next := by
  constructor
  · intro hsteps
    obtain ⟨field, hname, hitem⟩ := hsteps
    obtain ⟨name, hname⟩ := skipName_eq_ok_iff.mp hname
    have hlength := hname.length_rest
    simp only at hlength
    obtain ⟨item, rfl, hdepth, hitem⟩ := (hvalue byte field next (by omega)).mp hitem
    obtain ⟨hrest, hoffset⟩ := spans_append_iff.mpr ⟨field, hname, hitem⟩
    refine ⟨name, item, hdepth, ?_, ?_⟩
    · simp only at hrest
      rw [wireField, hrest, List.cons_append]
    · change next.offset = offset + _
      rw [hoffset, wireField, List.length_cons]
      simp only
      omega
  · intro hfield
    obtain ⟨name, item, hdepth, hrest, hoffset⟩ := hfield
    simp only [wireField, List.cons_append, List.cons.injEq] at hrest
    obtain ⟨rfl, hrest⟩ := hrest
    have hparts : Spans ⟨offset + 1, tail⟩ (name.encode ++ item.encode) next := by
      refine ⟨hrest, ?_⟩
      change next.offset = offset + _ at hoffset
      change next.offset = offset + 1 + _
      rw [hoffset, wireField, List.length_cons]
      omega
    obtain ⟨field, hname, hitem⟩ := spans_append_iff.mp hparts
    have hlength := hname.length_rest
    simp only at hlength
    exact ⟨field, skipName_eq_ok_iff.mpr ⟨name, hname⟩,
      (hvalue _ _ _ (by omega)).mpr ⟨item, rfl, hdepth, hitem⟩⟩

/-- The walk over fields stops at the end of its room exactly when that room is filled with fields. -/
theorem skipFields_eq_ok_iff {levels bound : Nat} {value : UInt8 → Cursor → Walk} {offset : Nat} {rest : Bytes}
    (hvalue : PassesValues levels value) (hbound : rest.length < bound) (hroom : rest.length < declarable) :
    skipFields value bound ⟨offset, rest⟩ = .ok (offset + rest.length + 1) ↔
      ∃ fields : WireDocument, fields.depth ≤ levels ∧ rest = fields.fieldBytes := by
  induction bound generalizing offset rest with
  | zero => omega
  | succ bound ih =>
    cases rest with
    | nil => exact ⟨fun _ => ⟨[], Nat.zero_le _, rfl⟩, fun _ => rfl⟩
    | cons byte tail =>
      simp only [List.length_cons] at hbound hroom ⊢
      unfold skipFields
      by_cases hzero : byte = 0
      · -- A zero in front of the end stops the walk too early, and is no tag either.
        rw [if_pos hzero]
        constructor
        · intro hstop
          simp only [Except.ok.injEq] at hstop
          omega
        · intro hfilled
          obtain ⟨fields, _, hfields⟩ := hfilled
          cases fields with
          | nil => cases hfields
          | cons field others =>
            simp only [WireDocument.fieldBytes, wireField, List.cons_append, List.cons.injEq] at hfields
            exact absurd (hfields.1.symm.trans hzero) (Tag.toByte_ne_zero _)
      · rw [if_neg hzero]
        simp only [bind_eq_ok_iff]
        constructor
        · intro hsteps
          obtain ⟨field, hname, ⟨nextOffset, nextRest⟩, hskip, hstop⟩ := hsteps
          obtain ⟨name, item, hdepth, hitem⟩ := (skip_field_iff hvalue (by omega)).mp ⟨field, hname, hskip⟩
          have hlength := hitem.length_rest
          have hoffset := hitem.2
          simp only [List.length_cons, wireField] at hlength hoffset
          rw [show offset + (tail.length + 1) + 1 = nextOffset + nextRest.length + 1 by omega] at hstop
          obtain ⟨fields, hfields, rfl⟩ := (ih (by omega) (by omega)).mp hstop
          exact ⟨(name, item) :: fields, Nat.max_le.mpr ⟨hdepth, hfields⟩, hitem.1⟩
        · intro hfilled
          obtain ⟨fields, hdepth, hfields⟩ := hfilled
          cases fields with
          | nil => cases hfields
          | cons field others =>
            obtain ⟨name, item⟩ := field
            obtain ⟨hitem, hothers⟩ := Nat.max_le.mp hdepth
            rw [WireDocument.fieldBytes] at hfields
            have hspans : Spans ⟨offset, byte :: tail⟩ (wireField item.tag name item.encode)
                ⟨offset + (wireField item.tag name item.encode).length, WireDocument.fieldBytes others⟩ :=
              ⟨hfields, rfl⟩
            have hroom : tail.length < declarable := by omega
            obtain ⟨field, hname, hskip⟩ := (skip_field_iff hvalue hroom).mpr ⟨name, item, hitem, hspans⟩
            have hlength := congrArg List.length hfields
            simp only [List.length_cons, List.length_append] at hlength
            refine ⟨field, hname, _, hskip, ?_⟩
            rw [show offset + (tail.length + 1) + 1 = offset + (wireField item.tag name item.encode).length +
              (WireDocument.fieldBytes others).length + 1 by omega]
            have hpositive : 0 < (wireField item.tag name item.encode).length := Nat.succ_pos _
            exact (ih (by omega) (by omega)).mpr ⟨others, hothers, rfl⟩

/-- The zero at the end of a region is not part of the length in front, if anything is behind that length. -/
theorem exists_eq_append_zero {body : Bytes} (hbody : 0 < body.length)
    (hlast : (selfSized body).getLast? = some 0) : ∃ room, body = room ++ [0] := by
  obtain ⟨front, hfront⟩ := List.getLast?_eq_some_iff.mp hlast
  have hlength := congrArg List.length hfront
  simp only [length_selfSized, List.length_append, List.length_singleton] at hlength
  refine ⟨front.drop 4, ?_⟩
  rw [← drop_selfSized body, hfront, List.drop_append_of_le_length (by omega)]

/-- A walk passes over exactly the documents that are nested no deeper than it may go. -/
theorem passesDocuments_skipDocument (levels : Nat) : PassesDocuments levels (skipDocument levels) := by
  induction levels with
  | zero =>
    intro cursor after
    constructor
    · intro hskip
      cases hskip
    · intro hdocument
      obtain ⟨document, hdepth, _⟩ := hdocument
      omega
  | succ levels ih =>
    intro cursor after
    have hvalue := passesValues_skipValue ih
    unfold skipDocument
    simp only [bind_eq_ok_iff, Prod.exists, guard_eq_ok_iff, pure_eq_ok_iff]
    constructor
    · intro hsteps
      obtain ⟨length, hdeclared, hleast, region, stop, hcut, hended, last, hfields, hend, rfl⟩ := hsteps
      have hfive : 5 ≤ length := Nat.not_lt.mp hleast
      obtain ⟨body, rfl, rfl, hlength, hspans⟩ :=
        (declared_cut_iff (Nat.le_of_succ_le hfive)).mp ⟨hdeclared, hcut⟩
      rw [length_selfSized] at hfive
      obtain ⟨room, rfl⟩ := exists_eq_append_zero (by omega) (Decidable.not_not.mp hended)
      have hstop := hspans.2
      rw [drop_selfSized, List.dropLast_concat] at hfields
      simp only [length_selfSized, List.length_append, List.length_singleton] at hlength hstop hfields
      rw [show last = cursor.offset + 4 + room.length + 1 by omega] at hfields
      obtain ⟨fields, hdepth, rfl⟩ := (skipFields_eq_ok_iff hvalue (by omega) (by omega)).mp hfields
      exact ⟨fields, Nat.lt_succ_of_le hdepth, by simpa [WireDocument.encode] using hlength, hspans⟩
    · intro hdocument
      obtain ⟨document, hdepth, hlength, hspans⟩ := hdocument
      have hsize : (selfSized (document.fieldBytes ++ [0])).length = _ := document.length_encode
      rw [WireDocument.encode] at hlength hspans
      obtain ⟨hdeclared, hcut⟩ := (declared_cut_iff (by omega)).mpr ⟨_, rfl, rfl, hlength, hspans⟩
      have hfields : skipFields (skipValue (skipDocument levels)) (selfSized (document.fieldBytes ++ [0])).length
          ⟨cursor.offset + 4, document.fieldBytes⟩ = .ok (cursor.offset + 4 + document.fieldBytes.length + 1) :=
        (skipFields_eq_ok_iff hvalue (by omega) (by omega)).mpr ⟨document, Nat.le_of_lt_succ hdepth, rfl⟩
      have hstop := hspans.2
      refine ⟨_, hdeclared, by rw [hsize]; simp [leastDocument], _, after, hcut, by simp [selfSized],
        _, by simpa using hfields, ?_, rfl⟩
      omega

/-- What the check accepts is a document and nothing behind it. -/
theorem exists_document_of_check {bytes : Bytes} (hcheck : check bytes = .ok ()) :
    ∃ document : WireDocument, document.encode = bytes ∧ document.depth ≤ nestingLimit ∧ bytes.length < declarable := by
  simp only [check, bind_eq_ok_iff, passesDocuments_skipDocument (nestingLimit + 1) _ _] at hcheck
  obtain ⟨after, ⟨document, hdepth, hlength, hspans⟩, hend⟩ := hcheck
  split at hend
  · cases hend
  · next hstop =>
    have hsize := hspans.length_rest
    have hoffset := hspans.2
    have hbytes := hspans.1
    simp only at hsize hoffset hbytes
    have hrest : after.rest = [] := List.eq_nil_of_length_eq_zero (by omega)
    rw [hrest, List.append_nil] at hbytes
    exact ⟨document, hbytes.symm, Nat.le_of_lt_succ hdepth, hbytes ▸ hlength⟩

/-- No document within the bounds is refused, whatever its names and texts are. -/
theorem check_encode {document : WireDocument} (hdepth : document.depth ≤ nestingLimit)
    (hlength : document.encode.length < declarable) : check document.encode = .ok () := by
  have hspans : Spans ⟨0, document.encode⟩ document.encode ⟨document.encode.length, []⟩ := by simp [Spans]
  have hskip := (passesDocuments_skipDocument (nestingLimit + 1) _ _).mpr
    ⟨document, Nat.lt_succ_of_le hdepth, hlength, hspans⟩
  rw [check, hskip]
  simp [bind, Except.bind, pure, Except.pure]

/-- The check accepts exactly the bytes of documents that are nested no deeper than the limit. Every tag,
    length, ending zero and name in them is as the tree says, the tree is the only one they have, and a byte that
    is no tag is refused wherever a value should follow it. -/
theorem check_eq_ok_iff (bytes : Bytes) :
    (check bytes = .ok () ↔
      ∃ document : WireDocument, document.encode = bytes ∧ document.depth ≤ 200 ∧ bytes.length < 2 ^ 31) ∧
    (check bytes = .ok () → ∃! document : WireDocument, document.encode = bytes) ∧
    ∀ byte ∉ tagBytes, ∀ (nested : Cursor → Walk) (cursor : Cursor),
      skipValue nested byte cursor = .error (.unknownTag byte) := by
  refine ⟨?_, ?_, ?_⟩
  · constructor
    · exact exists_document_of_check
    · intro haccepted
      obtain ⟨document, rfl, hdepth, hlength⟩ := haccepted
      exact check_encode hdepth hlength
  · intro hcheck
    obtain ⟨document, rfl, _, hlength⟩ := exists_document_of_check hcheck
    refine ⟨document, rfl, ?_⟩
    intro other hother
    exact (WireDocument.encode_inj hlength hother.symm).symm
  · intro byte hbyte nested cursor
    rw [skipValue, Tag.ofByte?_eq_none hbyte]

/-- A document with an empty text and an empty scope in it, and a byte that is no tag. -/
theorem check_eq_ok_iff_scope :
    check [22, 0, 0, 0, 15, 99, 0, 14, 0, 0, 0, 1, 0, 0, 0, 0, 5, 0, 0, 0, 0, 0] = .ok () ∧
      (∃! document : WireDocument,
        document.encode = [22, 0, 0, 0, 15, 99, 0, 14, 0, 0, 0, 1, 0, 0, 0, 0, 5, 0, 0, 0, 0, 0]) ∧
      skipValue (skipDocument 200) 6 ⟨7, [0]⟩ = .error (.unknownTag 6) := by
  have hcheck : check [22, 0, 0, 0, 15, 99, 0, 14, 0, 0, 0, 1, 0, 0, 0, 0, 5, 0, 0, 0, 0, 0] = .ok () := by rfl
  obtain ⟨_, honly, hunknown⟩ :=
    check_eq_ok_iff [22, 0, 0, 0, 15, 99, 0, 14, 0, 0, 0, 1, 0, 0, 0, 0, 5, 0, 0, 0, 0, 0]
  exact ⟨hcheck, honly hcheck, hunknown 6 (by decide) (skipDocument 200) ⟨7, [0]⟩⟩

end ReplyCapture.Structure
