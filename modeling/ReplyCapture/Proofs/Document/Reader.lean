import ReplyCapture.Proofs.Document.Decode

namespace ReplyCapture

namespace LittleEndian

/-- Only as much of a value is written as the bytes have room for. -/
theorem encode_mod (width value : Nat) : encode width (value % capacity width) = encode width value := by
  induction width generalizing value with
  | zero => rfl
  | succ width ih =>
    have hbyte : UInt8.ofNat (value % (256 * capacity width)) = UInt8.ofNat value := by
      apply UInt8.toNat_inj.mp
      simp
    rw [encode, encode, capacity, hbyte, Nat.mod_mul_right_div_self, ih]

/-- A value over more bytes is its lower part and then what is left of it. -/
theorem encode_add (front back value : Nat) :
    encode (front + back) value = encode front value ++ encode back (value / capacity front) := by
  induction front generalizing value with
  | zero => simp [encode, capacity]
  | succ front ih =>
    rw [Nat.succ_add, encode, ih, encode, capacity, Nat.div_div_eq_div_mul, List.cons_append]

/-- A long word is its low half and then its high half. -/
theorem encodeLong_eq_append (word : UInt64) :
    encodeLong word =
      encodeWord (UInt32.ofNat word.toNat) ++ encodeWord (UInt32.ofNat (word.toNat / UInt32.size)) := by
  have hlow (value : Nat) : (UInt32.ofNat value).toNat = value % capacity 4 := UInt32.toNat_ofNat'
  rw [encodeLong, encodeWord, encodeWord, hlow, hlow, encode_mod, encode_mod]
  exact encode_add 4 4 word.toNat

end LittleEndian

namespace Reader

/-- Off these bytes, whatever follows them, a reader gives this result and leaves what follows. -/
def Reads {α : Type} (reader : Reader α) (bytes : Bytes) (result : Except DecodeError α) : Prop :=
  ∀ rest, reader.run (bytes ++ rest) = result.map fun value => (value, rest)

variable {α β : Type} {reader : Reader α} {bytes front back : Bytes} {result : Except DecodeError α}

/-- Two readers in a row read off two parts what the parts stand for in a row. Of the second, only what it does behind a
    value of the first has to be known. -/
theorem Reads.bind {next : α → Reader β} {meaning : α → Except DecodeError β} (hreader : Reads reader front result)
    (hnext : ∀ value, result = .ok value → Reads (next value) back (meaning value)) :
    Reads (reader >>= next) (front ++ back) (result >>= meaning) := by
  intro rest
  rw [StateT.run_bind, List.append_assoc, hreader]
  cases result with
  | error error => rfl
  | ok value => exact hnext value rfl rest

/-- What comes after a value that was read depends on that value alone. -/
theorem Reads.andThen {value : α} {next : α → Reader β} {later : Except DecodeError β}
    (hreader : Reads reader front (.ok value)) (hnext : Reads (next value) back later) :
    Reads (reader >>= next) (front ++ back) later := by
  intro rest
  rw [StateT.run_bind, List.append_assoc, hreader]
  exact hnext rest

theorem reads_pure (value : α) : Reads (pure value) [] (pure value) :=
  fun _ => rfl

/-- An error is given off any bytes, for those behind it are not read. -/
theorem reads_throw (error : DecodeError) : Reads (throw error : Reader α) bytes (.error error) :=
  fun _ => rfl

/-- Nothing more is read to make something of a value. -/
theorem Reads.map {change : α → β} (hreader : Reads reader bytes result) :
    Reads (do return change (← reader)) bytes (do return change (← result)) := by
  have hbind : Reads (do return change (← reader)) (bytes ++ []) (do return change (← result)) :=
    hreader.bind fun value _ => reads_pure (change value)
  rwa [List.append_nil] at hbind

/-- As many bytes as are asked for are read as they are. -/
theorem reads_take {count : Nat} (hcount : bytes.length = count) : Reads (take count) bytes (.ok bytes) := by
  intro rest
  subst hcount
  simp only [take, StateT.run_bind, StateT.run_get, pure_bind, Bytes.split?_append]
  rfl

theorem reads_byte (read : UInt8) : Reads byte [read] (.ok read) :=
  fun _ => rfl

theorem reads_fourBytes (hbytes : bytes.length = 4) : Reads word bytes (.ok (LittleEndian.decodeWord bytes)) :=
  (reads_take hbytes).map

/-- A word is read off the four bytes it is written as. -/
theorem reads_word (read : UInt32) : Reads word (LittleEndian.encodeWord read) (.ok read) := by
  have hword := reads_fourBytes (LittleEndian.length_encodeWord read)
  rwa [LittleEndian.decodeWord_encodeWord] at hword

theorem reads_long (read : UInt64) : Reads long (LittleEndian.encodeLong read) (.ok read) := by
  have htake : Reads long (LittleEndian.encodeLong read)
      (.ok (LittleEndian.decodeLong (LittleEndian.encodeLong read))) :=
    (reads_take (LittleEndian.length_encodeLong read)).map
  rwa [LittleEndian.decodeLong_encodeLong] at htake

/-- A length that can be declared has no sign and is read as itself. -/
theorem reads_length {read : Nat} (hread : read < declarable) :
    Reads length (LittleEndian.encode 4 read) (.ok read) := by
  have hword := LittleEndian.encodeWord_decodeWord (LittleEndian.length_encode 4 read)
  have hsigned := LittleEndian.signed_eq_natCast_iff.mpr ⟨hread, hword⟩
  rw [← hword, ← List.append_nil (LittleEndian.encodeWord _)]
  refine (reads_word _).andThen ?_
  simp only [hsigned, Int.toNat_natCast]
  rw [if_neg (by omega)]
  exact reads_pure read

/-- A name is read up to its zero, and then looked at as text: the zero is taken either way, which is why a name that is
    no text still has an end. -/
theorem reads_name (read : WireName) : Reads name read.encode read.read := by
  intro rest
  have hsplit : Bytes.splitZero? (read.encode ++ rest) = some (read.bytes, rest) :=
    Bytes.splitZero?_eq_some_iff.mpr ⟨read.zero_notMem, by simp [WireName.encode]⟩
  simp only [name, StateT.run_bind, StateT.run_get, pure_bind, hsplit, WireName.read]
  cases Utf8.decode read.bytes <;> rfl

/-- A text is read as far as its length says. One that is not UTF-8 fails before the zero behind it is taken, which
    makes no difference, as nothing is read after an error. -/
theorem reads_text {read : Bytes} (hread : (wireText read).length < declarable) :
    Reads text (wireText read) (readWireText read) := by
  rw [length_wireText] at hread
  have hlength : (read ++ [0]).length = read.length + 1 := by simp
  rw [wireText, readWireText, hlength]
  refine (reads_length (by omega)).andThen ((reads_take (by simp)).andThen ?_)
  cases Utf8.decode read with
  | error fault => exact reads_throw .invalidText
  | ok text => exact (reads_byte 0).map

theorem reads_objectId (read : ObjectId) : Reads objectId read.bytes (.ok read) := by
  rw [← List.append_nil read.bytes]
  refine (reads_take read.length_bytes).andThen ?_
  rw [dif_pos read.length_bytes]
  exact reads_pure read

/-- A stored date is read as the instant it names, and fails if it names none. -/
theorem reads_date (read : UInt64) : Reads date (LittleEndian.encodeLong read) (readWireDate read) := by
  rw [← List.append_nil (LittleEndian.encodeLong read), readWireDate]
  refine (reads_long read).andThen ?_
  simp only
  cases Instant.ofStored? read.toInt64.toInt with
  | none => exact reads_throw _
  | some instant => exact reads_pure instant

/-- Binary data is read with its subtype, whatever that is. -/
theorem reads_binary {subtype : UInt8} {data : Bytes} (hdata : data.length < declarable) :
    Reads binary (WireValue.binary subtype data).encode (.ok (.binary subtype data)) := by
  rw [WireValue.encode]
  exact (reads_length hdata).andThen ((reads_byte subtype).andThen (reads_take rfl).map)

/-- The two words of a timestamp come low half first, as those of the long word do that is skipped in its place. -/
theorem reads_timestamp (read : UInt64) :
    Reads (do
      let increment ← word
      let time ← word
      return Value.timestamp ⟨time.toInt32, increment.toInt32⟩)
      (LittleEndian.encodeLong read) (.ok (Value.timestamp (Timestamp.ofWord read))) := by
  rw [LittleEndian.encodeLong_eq_append]
  exact (reads_word _).andThen (reads_word _).map

/-- A document and an array of these levels read every tree of this size and depth as what it stands for. -/
def ReadsTrees (bound levels : Nat) : Prop :=
  ∀ read : WireDocument, read.encode.length < declarable → read.encode.length ≤ bound → read.depth < levels →
    Reads (document bound levels) read.encode read.read ∧
      Reads (array bound levels) read.encode (read.readItems 0)

/-- Readers of documents and arrays carry over to values, one level up. The length in front of code with a scope is read
    and not used. -/
theorem reads_value {bound levels : Nat} {read : WireValue} (htrees : ReadsTrees bound levels)
    (hsize : read.encode.length < declarable) (hbound : read.encode.length ≤ bound) (hdepth : read.depth ≤ levels) :
    Reads (value (document bound levels) (array bound levels) read.tag.toByte) read.encode read.read := by
  unfold value
  rw [Tag.ofByte?_toByte]
  cases read with
  | double word => exact (reads_long word).map
  | string text => exact (reads_text hsize).map
  | document fields =>
    rw [WireValue.read_document]
    exact (htrees fields hsize hbound hdepth).1.map
  | array fields => exact (htrees fields hsize hbound hdepth).2.map
  | binary subtype data =>
    have hdata : data.length < declarable := by
      simp only [WireValue.encode, List.length_append, List.length_cons] at hsize
      omega
    exact reads_binary hdata
  | objectId id => exact (reads_objectId id).map
  | boolean read => exact (reads_byte read).map
  | date word => exact (reads_date word).map
  | null => exact reads_pure Value.null
  | regex pattern options => exact (reads_name pattern).bind fun _ _ => (reads_name options).map
  | code text => exact (reads_text hsize).map
  | symbol text => exact (reads_text hsize).map
  | codeWithScope text scope =>
    rw [WireValue.length_encode_codeWithScope] at hsize hbound
    have hscope := htrees scope (by omega) (by omega) hdepth
    rw [WireValue.read_codeWithScope, WireValue.encode, selfSized]
    exact (reads_fourBytes (LittleEndian.length_encode 4 _)).andThen
      ((reads_text (by omega)).bind fun _ _ => hscope.1.map)
  | int32 word => exact (reads_word word).map
  | timestamp word => exact reads_timestamp word
  | int64 word => exact (reads_long word).map

/-- A reader that reads each value reads the fields up to the ending zero, behind those that are done. The bound only
    has to exceed their number. -/
theorem reads_fieldsOnto {value : UInt8 → Reader Value} {bound : Nat} {fields : WireDocument}
    (hvalue : ∀ field ∈ fields, Reads (value field.2.tag.toByte) field.2.encode field.2.read)
    (hbound : fields.length < bound) (done : List (String × Value)) :
    Reads (fieldsOnto value bound done) (fields.fieldBytes ++ [0])
      (do return done.reverse ++ (← fields.readFields)) := by
  induction fields generalizing bound done with
  | nil =>
    obtain ⟨bound, rfl⟩ : ∃ fewer, bound = fewer + 1 := ⟨bound - 1, by omega⟩
    simp only [WireDocument.readFields, pure_bind, List.append_nil]
    exact (reads_byte 0).andThen (reads_pure done.reverse)
  | cons field rest ih =>
    obtain ⟨name, item⟩ := field
    obtain ⟨bound, rfl⟩ : ∃ fewer, bound = fewer + 1 := ⟨bound - 1, by omega⟩
    have hfirst := hvalue (name, item) List.mem_cons_self
    have hrest (key : String) (value : Value) := ih (fun field hmem => hvalue field (List.mem_cons_of_mem _ hmem))
      (Nat.lt_of_succ_lt_succ hbound) ((key, value) :: done)
    have hread := (reads_name name).bind fun key _ => hfirst.bind fun value _ => hrest key value
    rw [WireDocument.fieldBytes, wireField, List.append_assoc]
    change Reads _ ([item.tag.toByte] ++ (name.encode ++ item.encode ++ (WireDocument.fieldBytes rest ++ [0]))) _
    refine (reads_byte item.tag.toByte).andThen ?_
    rw [if_neg (Tag.toByte_ne_zero _)]
    simpa [WireDocument.readFields, bind_assoc] using hread

/-- The same of the items of an array, each under the key that counts it. The count starts where the items that are done
    leave off. -/
theorem reads_itemsOnto {value : UInt8 → Reader Value} {bound : Nat} {fields : WireDocument}
    (hvalue : ∀ field ∈ fields, Reads (value field.2.tag.toByte) field.2.encode field.2.read)
    (hbound : fields.length < bound) (index : Nat) (done : List Value) :
    Reads (itemsOnto value bound index done) (fields.fieldBytes ++ [0])
      (do return done.reverse ++ (← fields.readItems index)) := by
  induction fields generalizing bound index done with
  | nil =>
    obtain ⟨bound, rfl⟩ : ∃ fewer, bound = fewer + 1 := ⟨bound - 1, by omega⟩
    simp only [WireDocument.readItems, pure_bind, List.append_nil]
    exact (reads_byte 0).andThen (reads_pure done.reverse)
  | cons field rest ih =>
    obtain ⟨name, item⟩ := field
    obtain ⟨bound, rfl⟩ : ∃ fewer, bound = fewer + 1 := ⟨bound - 1, by omega⟩
    have hfirst := hvalue (name, item) List.mem_cons_self
    have hrest (value : Value) := ih (fun field hmem => hvalue field (List.mem_cons_of_mem _ hmem))
      (Nat.lt_of_succ_lt_succ hbound) (index + 1) (value :: done)
    rw [WireDocument.fieldBytes, wireField, List.append_assoc, WireDocument.readItems, bind_assoc]
    change Reads _ ([item.tag.toByte] ++ (name.encode ++ item.encode ++ (WireDocument.fieldBytes rest ++ [0]))) _
    refine (reads_byte item.tag.toByte).andThen ?_
    rw [if_neg (Tag.toByte_ne_zero _), List.append_assoc]
    refine (reads_name name).bind fun key _ => ?_
    -- The key is compared before the value is read.
    by_cases hcounts : arrayIndex? key ≠ some index
    · rw [if_pos hcounts, if_pos hcounts]
      exact reads_throw (.arrayKey index key)
    · rw [if_neg hcounts, if_neg hcounts]
      have hread := hfirst.bind fun value _ => hrest value
      simpa [bind_assoc] using hread

/-- Documents and arrays read every tree that is small enough for their bounds. -/
theorem readsTrees (bound levels : Nat) : ReadsTrees bound levels := by
  induction levels with
  | zero =>
    intro read _ _ hdepth
    omega
  | succ levels ih =>
    intro read hsize hbound hdepth
    rw [WireDocument.length_encode] at hsize hbound
    have hvalue : ∀ field ∈ read,
        Reads (value (document bound levels) (array bound levels) field.2.tag.toByte) field.2.encode field.2.read := by
      intro field hmem
      have hless := WireDocument.length_encode_lt_of_mem hmem
      have hlevels := WireDocument.depth_le_of_mem hmem
      exact reads_value ih (by omega) (by omega) (by omega)
    have hcount : read.length < bound := by
      have hfields := WireDocument.length_le_length_fieldBytes read
      omega
    constructor
    · have hfields := reads_fieldsOnto hvalue hcount []
      simp only [List.reverse_nil, List.nil_append, bind_pure] at hfields
      exact (reads_fourBytes (LittleEndian.length_encode 4 _)).andThen hfields.map
    · have hitems := reads_itemsOnto hvalue hcount 0 []
      simp only [List.reverse_nil, List.nil_append, bind_pure] at hitems
      exact (reads_fourBytes (LittleEndian.length_encode 4 _)).andThen hitems

end Reader

end ReplyCapture
