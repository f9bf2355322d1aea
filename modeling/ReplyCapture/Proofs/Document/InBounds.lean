import ReplyCapture.Proofs.Document.Offsets

namespace ReplyCapture

open Structure

/-- The zero that ends a name is looked for from the front. -/
theorem Bytes.splitZeroOnto_eq (taken bytes : Bytes) :
    splitZeroOnto taken bytes = (bytes.findIdx? fun byte => byte = 0).map
      fun place => (taken.reverse ++ bytes.take place, bytes.drop (place + 1)) := by
  induction bytes generalizing taken with
  | nil => rfl
  | cons byte rest ih =>
    by_cases hzero : byte = 0
    · simp [splitZeroOnto, List.findIdx?_cons, hzero]
    · simp [splitZeroOnto, List.findIdx?_cons, hzero, ih, Function.comp_def]

/-- The zero that is split at is the one that a search by index finds first. -/
theorem Bytes.splitZero?_eq (bytes : Bytes) :
    bytes.splitZero? = (bytes.findIdx? fun byte => byte = 0).map
      fun place => (bytes.take place, bytes.drop (place + 1)) :=
  splitZeroOnto_eq [] bytes

namespace Memory

open Probe

/-- What lies between two offsets, as a place from which the other walk goes on. -/
def window (memory : Memory) (offset limit : Nat) : Cursor :=
  ⟨offset, (memory.bytes.take limit).drop offset⟩

variable {memory : Memory} {offset limit start stop count index : Nat}

@[simp]
theorem offset_window (memory : Memory) (offset limit : Nat) : (memory.window offset limit).offset = offset := rfl

/-- In a window of the buffer lie as many bytes as its ends are apart, and none where they are crossed. -/
theorem length_window (hlimit : limit ≤ memory.bytes.length) :
    (memory.window offset limit).rest.length = limit - offset := by
  rw [window, List.length_drop, List.length_take_of_le hlimit]

/-- The first byte of a window is the one at its offset. -/
theorem window_of_lt (hoffset : offset < limit) (hlimit : limit ≤ memory.bytes.length) :
    (memory.window offset limit).rest =
      memory.bytes[offset] :: (memory.window (offset + 1) limit).rest := by
  have hlength : offset < (memory.bytes.take limit).length := by
    rw [List.length_take_of_le hlimit]
    exact hoffset
  rw [window, List.drop_eq_getElem_cons hlength, List.getElem_take]
  rfl

/-- Bytes dropped off the front move the offset and leave the limit where it is. -/
theorem drop_window (memory : Memory) (offset limit count : Nat) :
    (memory.window offset limit).rest.drop count = (memory.window (offset + count) limit).rest :=
  List.drop_drop

/-- No more bytes than there are, taken off the front, end where their count says. -/
theorem take_window (hroom : offset + count ≤ limit) :
    (memory.window offset limit).rest.take count = (memory.window offset (offset + count)).rest := by
  rw [window, window, List.take_drop, List.take_take, Nat.min_eq_left hroom]

/-- Without its last byte, a window ends one place earlier. -/
theorem dropLast_window (hstart : start < stop) (hstop : stop ≤ memory.bytes.length) :
    (memory.window start stop).rest.dropLast = (memory.window start (stop - 1)).rest := by
  have hplace : start + (stop - start - 1) = stop - 1 := by omega
  rw [List.dropLast_eq_take, length_window hstop, take_window (by omega), hplace]

/-- The last byte of a window is the one in front of its limit. -/
theorem getLast?_window (hstart : start < stop) (hstop : stop ≤ memory.bytes.length) :
    (memory.window start stop).rest.getLast? = some memory.bytes[stop - 1] := by
  have hplace : start + (stop - start - 1) = stop - 1 := by omega
  rw [List.getLast?_eq_getElem?, length_window hstop, window, List.getElem?_drop, hplace,
    List.getElem?_take_of_lt (by omega), List.getElem?_eq_getElem]

theorem yields_byteAt (hindex : index < memory.bytes.length) :
    Yields memory.bytes.length (memory.byteAt index) memory.bytes[index] := by
  rw [byteAt, List.getElem?_eq_getElem hindex]
  exact yields_attempt hindex

/-- A slice is in bounds where its ends are in order and in the buffer. -/
theorem yields_slice (hstart : start ≤ stop) (hstop : stop ≤ memory.bytes.length) :
    Yields memory.bytes.length (memory.slice start stop) (memory.window start stop).rest := by
  rw [slice, if_pos ⟨hstart, hstop⟩]
  exact yields_attempt ⟨hstart, hstop⟩

/-- A sum that stays in the buffer does not overflow, since the machine has a number for every place of the buffer. -/
theorem yields_add (hsum : start + count ≤ memory.bytes.length) :
    Yields memory.bytes.length (memory.add start count) (start + count) := by
  rw [add, if_pos (Nat.le_trans hsum memory.counted)]
  exact yields_attempt hsum

/-- A difference needs only that no more is taken away than there is. -/
theorem yields_subtract {size : Nat} (hcount : count ≤ stop) : Yields size (subtract stop count) (stop - count) := by
  rw [subtract, if_pos hcount]
  exact yields_attempt hcount

/-- A span that ends within the limit is what is cut off the window. One that does not is refused alike, before any byte
    of it is touched. -/
theorem agrees_spanAt (part : Part) (count : Nat) (hoffset : offset ≤ limit) (hlimit : limit ≤ memory.bytes.length) :
    Agrees memory.bytes.length (memory.spanAt part count offset limit) (cut part count (memory.window offset limit))
      fun stop found => stop = offset + count ∧ offset + count ≤ limit ∧
        found = ((memory.window offset stop).rest, memory.window stop limit) := by
  have hcounted := memory.counted
  refine Agrees.within trivial hoffset hlimit ?_ fun stop found hfound => by omega
  rw [cut, Bytes.split?_eq, length_window hlimit]
  by_cases hroom : offset + count ≤ limit
  · -- What ends within the limit ends within the buffer, so the machine has a number for it.
    rw [if_pos ⟨by omega, hroom⟩, if_pos (by omega), take_window hroom, drop_window]
    exact agrees_pure ⟨rfl, hroom, rfl⟩
  · rw [if_neg fun hboth => hroom hboth.2, if_neg (by omega)]
    exact agrees_refuse _ _

/-- Four bytes are read where a length should stand, and these are there. -/
theorem agrees_lengthAt (part : Part) (hoffset : offset ≤ limit) (hlimit : limit ≤ memory.bytes.length) :
    Agrees memory.bytes.length (memory.lengthAt part offset limit) (declared part (memory.window offset limit))
      fun length found => length = found ∧ offset + 4 ≤ limit := by
  have hentered : Yields memory.bytes.length (note (.entered .length offset limit)) () :=
    yields_note ⟨trivial, hoffset, hlimit⟩
  refine hentered.bind ((agrees_spanAt part 4 hoffset hlimit).bind fun stop found hfound => ?_)
  obtain ⟨rfl, hroom, rfl⟩ := hfound
  have hfour : (memory.window offset (offset + 4)).rest =
      [memory.bytes[offset], memory.bytes[offset + 1], memory.bytes[offset + 2], memory.bytes[offset + 3]] := by
    rw [window_of_lt (by omega) (by omega), window_of_lt (by omega) (by omega), window_of_lt (by omega) (by omega),
      window_of_lt (by omega) (by omega)]
    simp [window]
  refine (yields_byteAt (by omega)).bind ?_
  refine ((yields_add (by omega)).trans (yields_byteAt (by omega))).bind ?_
  refine ((yields_add (by omega)).trans (yields_byteAt (by omega))).bind ?_
  refine ((yields_add (by omega)).trans (yields_byteAt (by omega))).bind ?_
  simp only [hfour]
  exact Agrees.guard fun _ => agrees_pure ⟨rfl, hroom⟩

/-- What a walk finds from an offset on: a place not in front of `least`, from which the other walk goes on. -/
structure Reaches (memory : Memory) (least limit stop : Nat) (found : Cursor) : Prop where
  ahead : least ≤ stop
  within : stop ≤ limit
  found : found = memory.window stop limit

theorem Reaches.mono {least less : Nat} {found : Cursor} (hreaches : memory.Reaches least limit stop found)
    (hless : less ≤ least) : memory.Reaches less limit stop found :=
  ⟨Nat.le_trans hless hreaches.ahead, hreaches.within, hreaches.found⟩

/-- The same where the bytes of a span are of no interest. -/
theorem agrees_skip (part : Part) (count : Nat) (hoffset : offset ≤ limit) (hlimit : limit ≤ memory.bytes.length) :
    Agrees memory.bytes.length (memory.spanAt part count offset limit) (skip part count (memory.window offset limit))
      (memory.Reaches offset limit) := by
  refine (agrees_spanAt part count hoffset hlimit).map fun stop found hfound => ?_
  obtain ⟨rfl, hroom, rfl⟩ := hfound
  exact ⟨Nat.le_add_right _ _, hroom, rfl⟩

/-- The zero behind a name is looked for within the limit only. -/
theorem agrees_nameAt (hoffset : offset ≤ limit) (hlimit : limit ≤ memory.bytes.length) :
    Agrees memory.bytes.length (memory.nameAt offset limit) (skipName (memory.window offset limit))
      (memory.Reaches (offset + 1) limit) := by
  refine Agrees.within trivial hoffset hlimit ?_ fun stop found hfound =>
    ⟨Nat.le_of_succ_le hfound.ahead, hfound.within⟩
  refine (yields_slice hoffset hlimit).bind ?_
  rw [skipName, Bytes.splitZero?_eq]
  cases hplace : (memory.window offset limit).rest.findIdx? fun byte => byte = 0 with
  | none => exact agrees_refuse _ _
  | some place =>
    obtain ⟨hwithin, _⟩ := List.findIdx?_eq_some_iff_getElem.mp hplace
    rw [length_window hlimit] at hwithin
    have hname : ((memory.window offset limit).rest.take place).length = place :=
      List.length_take_of_le (by rw [length_window hlimit]; omega)
    have hstop : Yields memory.bytes.length (memory.add offset place >>= fun stop => memory.add stop 1)
        (offset + place + 1) := (yields_add (by omega)).trans (yields_add (by omega))
    simp only [Option.map_some, hname]
    refine hstop.agrees ⟨by omega, by omega, ?_⟩
    rw [drop_window]
    rfl

/-- A string is not empty once its length is accepted, so that a byte stands in front of its end. -/
theorem agrees_stringAt (hoffset : offset ≤ limit) (hlimit : limit ≤ memory.bytes.length) :
    Agrees memory.bytes.length (memory.stringAt offset limit) (skipString (memory.window offset limit))
      (memory.Reaches offset limit) := by
  refine Agrees.within trivial hoffset hlimit ?_ fun stop found hfound => ⟨hfound.ahead, hfound.within⟩
  refine (agrees_lengthAt .string hoffset hlimit).bind fun length found hlength => ?_
  obtain ⟨rfl, hroom⟩ := hlength
  refine Agrees.guard fun hleast => ?_
  refine (yields_add (by omega)).bind ?_
  rw [drop_window]
  refine (agrees_spanAt .string length hroom hlimit).bind fun stop found hfound => ?_
  obtain ⟨rfl, hfits, rfl⟩ := hfound
  refine ((yields_subtract (by omega)).trans (yields_byteAt (by omega))).bind ?_
  have hlast : (memory.window (offset + 4) (offset + 4 + length)).rest.getLast? =
      some memory.bytes[offset + 4 + length - 1] := getLast?_window (by omega) (by omega)
  simp only [hlast, ne_eq, Option.some.injEq]
  exact Agrees.guard fun _ => agrees_pure ⟨by omega, hfits, rfl⟩

/-- The length of binary data is read first and passed over afterwards, together with the subtype. -/
theorem agrees_binaryAt (hoffset : offset ≤ limit) (hlimit : limit ≤ memory.bytes.length) :
    Agrees memory.bytes.length (memory.binaryAt offset limit) (skipBinary (memory.window offset limit))
      (memory.Reaches offset limit) := by
  refine (agrees_lengthAt .binary hoffset hlimit).bind fun length found hlength => ?_
  obtain ⟨rfl, _⟩ := hlength
  refine (agrees_skip .binarySubtype 5 hoffset hlimit).bind fun data found hdata => ?_
  obtain ⟨hfirst, hroom, rfl⟩ := hdata
  exact (agrees_skip .binary length hroom hlimit).mono fun stop found hfound => hfound.mono hfirst

/-- What a walk over embedded documents by offsets has to keep to, wherever one may stand. -/
def Follows (memory : Memory) (nested : (start limit : Nat) → Probe Nat) (walk : Cursor → Walk) : Prop :=
  ∀ start limit, start ≤ limit → limit ≤ memory.bytes.length →
    Agrees memory.bytes.length (nested start limit) (walk (memory.window start limit)) (memory.Reaches start limit)

variable {nested : (start limit : Nat) → Probe Nat} {walk : Cursor → Walk}

/-- Text and scope lie within a limit of their own, in front of the outer one. The walk over the scope is only known by
    what it keeps to. -/
theorem agrees_codeWithScopeAt (hnested : memory.Follows nested walk) (hoffset : offset ≤ limit)
    (hlimit : limit ≤ memory.bytes.length) :
    Agrees memory.bytes.length (memory.codeWithScopeAt nested offset limit)
      (skipCodeWithScope walk (memory.window offset limit)) (memory.Reaches offset limit) := by
  refine (agrees_lengthAt .codeWithScope hoffset hlimit).bind fun length found hlength => ?_
  obtain ⟨rfl, _⟩ := hlength
  refine Agrees.guard fun hleast => ?_
  rw [leastCodeWithScope] at hleast
  refine (agrees_spanAt .codeWithScope length hoffset hlimit).bind fun stop found hfound => ?_
  obtain ⟨rfl, hfits, rfl⟩ := hfound
  refine (yields_add (by omega)).bind ?_
  simp only [drop_window]
  refine (agrees_stringAt (by omega) (by omega)).bind fun scope found hscope => ?_
  obtain ⟨hbehind, hroom, rfl⟩ := hscope
  refine (hnested scope (offset + length) hroom (by omega)).bind fun last found hlast => ?_
  obtain ⟨_, _, rfl⟩ := hlast
  exact Agrees.guard fun _ => agrees_pure ⟨Nat.le_add_right _ _, hfits, rfl⟩

/-- Under each tag both walks do the same, and under a byte that is none both refuse. -/
theorem agrees_valueAt (hnested : memory.Follows nested walk) (byte : UInt8) (hoffset : offset ≤ limit)
    (hlimit : limit ≤ memory.bytes.length) :
    Agrees memory.bytes.length (memory.valueAt nested byte offset limit)
      (skipValue walk byte (memory.window offset limit)) (memory.Reaches offset limit) := by
  refine Agrees.within trivial hoffset hlimit ?_ fun stop found hfound => ⟨hfound.ahead, hfound.within⟩
  rw [skipValue]
  cases Tag.ofByte? byte with
  | none => exact agrees_refuse _ _
  | some tag =>
    cases tag with
    | double | date | timestamp | int64 => exact agrees_skip .long 8 hoffset hlimit
    | int32 => exact agrees_skip .word 4 hoffset hlimit
    | objectId => exact agrees_skip .objectId 12 hoffset hlimit
    | boolean => exact agrees_skip .boolean 1 hoffset hlimit
    | null => exact agrees_pure ⟨Nat.le.refl, hoffset, rfl⟩
    | string | code | symbol => exact agrees_stringAt hoffset hlimit
    | document | array => exact hnested offset limit hoffset hlimit
    | binary => exact agrees_binaryAt hoffset hlimit
    | regex =>
      refine (agrees_nameAt hoffset hlimit).bind fun options found hoptions => ?_
      obtain ⟨hfirst, hroom, rfl⟩ := hoptions
      exact (agrees_nameAt hroom hlimit).mono fun stop found hfound => hfound.mono (by omega)
    | codeWithScope => exact agrees_codeWithScopeAt hnested hoffset hlimit

/-- The loop over the fields stays in front of the zero at the limit. As each field takes two bytes, half as many
    rounds as there are bytes are enough. -/
theorem agrees_fieldsAt (hnested : memory.Follows nested walk) {bound rounds : Nat} (hoffset : offset ≤ limit)
    (hlimit : limit < memory.bytes.length) (hzero : memory.bytes[limit] = 0) (hrounds : limit - offset < 2 * rounds)
    (hbound : limit - offset < bound) :
    Agrees memory.bytes.length (memory.fieldsAt (memory.valueAt nested) limit rounds offset)
      (skipFields (skipValue walk) bound (memory.window offset limit)) Eq := by
  induction rounds generalizing offset bound with
  | zero => omega
  | succ rounds ih =>
    obtain ⟨bound, rfl⟩ : ∃ fewer, bound = fewer + 1 := ⟨bound - 1, by omega⟩
    have htag : Yields memory.bytes.length (note (.tag offset limit)) () := yields_note ⟨hoffset, hlimit⟩
    refine htag.bind ((yields_byteAt (by omega)).bind ((yields_add (by omega)).bind ?_))
    obtain rfl | hmore := Nat.eq_or_lt_of_le hoffset
    · -- The zero at the limit is the document's own, which is no longer among the bytes of the other walk.
      have hempty : memory.window offset offset = ⟨offset, []⟩ := by simp [window]
      rw [if_pos hzero, hempty]
      exact agrees_pure rfl
    · have hfirst : memory.window offset limit =
          ⟨offset, memory.bytes[offset] :: (memory.window (offset + 1) limit).rest⟩ :=
        congrArg (Cursor.mk offset) (window_of_lt hmore (by omega))
      rw [hfirst, skipFields]
      by_cases hstop : memory.bytes[offset] = 0
      · rw [if_pos hstop, if_pos hstop]
        exact agrees_pure rfl
      · rw [if_neg hstop, if_neg hstop]
        refine (agrees_nameAt hmore (by omega)).bind fun field found hfield => ?_
        obtain ⟨hname, hroom, rfl⟩ := hfield
        refine (agrees_valueAt hnested memory.bytes[offset] hroom (by omega)).bind fun stop found hvalue => ?_
        obtain ⟨hbehind, hend, rfl⟩ := hvalue
        have hpassed : Yields memory.bytes.length (note (.field offset stop)) () :=
          yields_note (Nat.le_trans hname hbehind)
        exact hpassed.bind (ih hend (by omega) (by omega))

/-- A document is looked at as long as it is nested no deeper than one level too deep, which is where the walk by
    cursors has no levels left. -/
theorem follows_documentAt {bound levels depth : Nat} (hbound : memory.bytes.length ≤ 2 * bound)
    (hlevels : nestingLimit + 2 ≤ levels + depth) (hdepth : depth ≤ nestingLimit + 1) :
    memory.Follows (memory.documentAt bound levels depth) (skipDocument (nestingLimit + 1 - depth)) := by
  induction levels generalizing depth with
  | zero => omega
  | succ levels ih =>
    intro start limit hstart hlimit
    refine Agrees.within hdepth hstart hlimit ?_ fun stop found hfound => ⟨hfound.ahead, hfound.within⟩
    by_cases hdeep : nestingLimit < depth
    · -- One level too deep, the other walk has just no levels left.
      have hnone : nestingLimit + 1 - depth = 0 := by omega
      rw [if_pos hdeep, hnone]
      exact agrees_refuse _ _
    · have hsome : nestingLimit + 1 - depth = nestingLimit + 1 - (depth + 1) + 1 := by omega
      have hnested : memory.Follows (memory.documentAt bound levels (depth + 1))
          (skipDocument (nestingLimit + 1 - (depth + 1))) := ih (by omega) (by omega)
      rw [if_neg hdeep, hsome, skipDocument]
      refine (agrees_lengthAt .document hstart hlimit).bind fun length found hlength => ?_
      obtain ⟨rfl, _⟩ := hlength
      refine Agrees.guard fun hleast => ?_
      rw [leastDocument] at hleast
      refine (agrees_spanAt .document length hstart hlimit).bind fun stop found hfound => ?_
      obtain ⟨rfl, hfits, rfl⟩ := hfound
      refine (yields_subtract (by omega)).bind ((yields_byteAt (by omega)).bind ?_)
      have hlast : (memory.window start (start + length)).rest.getLast? =
          some memory.bytes[start + length - 1] := getLast?_window (by omega) (by omega)
      simp only [hlast, ne_eq, Option.some.injEq]
      refine Agrees.guard fun hended => ?_
      have hzero : memory.bytes[start + length - 1] = 0 := Decidable.not_not.mp hended
      refine (yields_add (by omega)).bind ?_
      have hfields : (memory.window (start + 4) (start + length)).rest.dropLast =
          (memory.window (start + 4) (start + length - 1)).rest := dropLast_window (by omega) (by omega)
      simp only [drop_window, hfields]
      refine (agrees_fieldsAt hnested (by omega) (by omega) hzero (by omega) (by omega)).bind ?_
      intro last found hlast
      obtain rfl := hlast
      exact Agrees.guard fun _ => agrees_pure ⟨Nat.le_add_right _ _, hfits, rfl⟩

/-- The check of a buffer by offsets comes to what the check of its bytes comes to, whatever the bytes are, and is safe
    all the way. Nothing outside of the buffer is read, no sum of offsets leaves it, every routine stays between its
    offset and its limit, which lies in the buffer, and no document is looked at that is nested more than one level too
    deep. That walk ends: where the recursion is followed for two levels more than may be nested and the loop for half
    as many rounds as there are bytes, it is followed to its end. -/
theorem checkAt_stays_in_bounds (memory : Memory) {levels bound : Nat} (hlevels : nestingLimit + 2 ≤ levels)
    (hbound : memory.bytes.length ≤ 2 * bound) :
    (memory.checkAt levels bound).outcome = (check memory.bytes).mapError .refused ∧
      ∀ act ∈ (memory.checkAt levels bound).acts, act.Safe memory.bytes.length := by
  have hwhole : memory.window 0 memory.bytes.length = ⟨0, memory.bytes⟩ := by simp [window]
  have hdocument : memory.Follows (memory.documentAt bound levels 0) (skipDocument (nestingLimit + 1)) :=
    follows_documentAt hbound hlevels (Nat.zero_le _)
  have hcheck : Agrees memory.bytes.length (memory.checkAt levels bound) (check memory.bytes) Eq := by
    have hskip := hdocument 0 memory.bytes.length (Nat.zero_le _) Nat.le.refl
    rw [hwhole] at hskip
    refine hskip.bind fun stop found hfound => ?_
    obtain ⟨_, hwithin, rfl⟩ := hfound
    rw [offset_window]
    by_cases hend : stop = memory.bytes.length
    · rw [if_neg (not_not_intro hend), if_neg (not_not_intro hend)]
      exact agrees_pure rfl
    · rw [if_pos hend, if_pos hend]
      exact (yields_subtract hwithin).bind (agrees_refuse _ _)
  exact ⟨hcheck.outcome_eq, hcheck.safe⟩

/-- A document with an empty text and an empty scope in it, in a machine whose numbers just count its bytes. -/
def scopeMemory : Memory :=
  ⟨[22, 0, 0, 0, 15, 99, 0, 14, 0, 0, 0, 1, 0, 0, 0, 0, 5, 0, 0, 0, 0, 0], 22, Nat.le.refl⟩

theorem checkAt_stays_in_bounds_scope :
    nestingLimit + 2 ≤ 202 ∧ scopeMemory.bytes.length ≤ 2 * 11 ∧ (scopeMemory.checkAt 202 11).outcome = .ok () ∧
      ∀ act ∈ (scopeMemory.checkAt 202 11).acts, act.Safe 22 := by
  have hlevels : nestingLimit + 2 ≤ 202 := Nat.le.refl
  have hbound : scopeMemory.bytes.length ≤ 2 * 11 := Nat.le.refl
  obtain ⟨houtcome, hsafe⟩ := checkAt_stays_in_bounds scopeMemory hlevels hbound
  exact ⟨hlevels, hbound, houtcome, hsafe⟩

end Memory

end ReplyCapture
