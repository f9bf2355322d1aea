import ReplyCapture.Proofs.Message.Bounded
import ReplyCapture.Proofs.Reply.RoundTrip

namespace ReplyCapture

theorem Source.Holds.shortage {source : Source} {bytes : Bytes} (hholds : source.Holds bytes) (want : Nat) :
    source.shortage want = .truncated want bytes.length := by
  rw [Source.shortage, hholds.ending, hholds.ready]

namespace Reading

variable {α β : Type} {reading : Reading α} {source : Source} {error : MessageError} {taken : Nat}

/-- Started on one source, a reading fails and leaves it so many bytes further on. -/
def Fails (reading : Reading α) (source : Source) (error : MessageError) (taken : Nat) : Prop :=
  ∃ after log, reading.run source = ⟨.error error, after, log⟩ ∧ after.position = source.position + taken ∧
    after.ready = source.ready.drop taken

theorem fails_of_run {log : List Event} (htaken : taken ≤ source.ready.length)
    (hrun : reading.run source = ⟨.error error, source.past taken, log⟩) : reading.Fails source error taken :=
  ⟨_, log, hrun, source.position_past taken, Source.ready_past htaken⟩

theorem fails_of_run_still {log : List Event} (hrun : reading.run source = ⟨.error error, source, log⟩) :
    reading.Fails source error 0 :=
  ⟨_, log, hrun, rfl, rfl⟩

/-- A reading that wants more than there is takes all there is. -/
theorem fails_of_run_spent {bytes : Bytes} {log : List Event} (hholds : source.Holds bytes)
    (hrun : reading.run source = ⟨.error error, source.spent, log⟩) : reading.Fails source error bytes.length := by
  refine ⟨_, log, hrun, ?_, ?_⟩
  · rw [Source.position_spent, hholds.ready]
  · rw [Source.ready_spent, hholds.ready, List.drop_length]

theorem Fails.bind (hfails : reading.Fails source error taken) (next : α → Reading β) :
    (reading >>= next).Fails source error taken := by
  obtain ⟨after, log, hrun, hplace⟩ := hfails
  exact ⟨after, log, run_bind_of_error hrun, hplace⟩

/-- Behind what a first reading takes, a second one fails by its own. -/
theorem fails_bind_of_gives {next : α → Reading β} {value : α} {count : Nat} (hcount : count ≤ source.ready.length)
    (hgives : reading.Gives source value (source.past count)) (hnext : (next value).Fails (source.past count) error taken) :
    (reading >>= next).Fails source error (count + taken) := by
  obtain ⟨log, hfirst⟩ := hgives
  obtain ⟨after, lines, hrun, hplace, hleft⟩ := hnext
  refine ⟨after, log ++ lines, ?_, ?_, ?_⟩
  · rw [run_bind_of_ok hfirst, hrun]
  · rw [hplace, Source.position_past, Nat.add_assoc]
  · rw [hleft, Source.ready_past hcount, List.drop_drop]

theorem fails_bind_of_still {next : α → Reading β} {value : α} (hgives : reading.Gives source value source)
    (hnext : (next value).Fails source error taken) : (reading >>= next).Fails source error taken := by
  obtain ⟨log, hfirst⟩ := hgives
  obtain ⟨after, lines, hrun, hplace⟩ := hnext
  refine ⟨after, log ++ lines, ?_, hplace⟩
  rw [run_bind_of_ok hfirst, hrun]

theorem Fails.result (hfails : reading.Fails source error taken) : (reading.run source).result = .error error := by
  obtain ⟨_, _, hrun, _⟩ := hfails
  rw [hrun]

theorem Fails.position (hfails : reading.Fails source error taken) :
    (reading.run source).source.position = source.position + taken := by
  obtain ⟨_, _, hrun, hplace, _⟩ := hfails
  rw [hrun, hplace]

theorem Fails.ready (hfails : reading.Fails source error taken) :
    (reading.run source).source.ready = source.ready.drop taken := by
  obtain ⟨_, _, hrun, _, hleft⟩ := hfails
  rw [hrun, hleft]

end Reading

namespace Frame

open Reading

variable {limit consumed expected : Nat} {rest : Bytes} {source : Source} {error : MessageError} {taken : Nat}

/-- The document that should stand next in a body is not read: why, and how many bytes are taken of it. In front of it
    stand `consumed` of the `expected` bytes of the body, and `rest` is all that the source still holds. Of several
    reasons the first one counts. -/
inductive Stops (limit consumed expected : Nat) (rest : Bytes) : MessageError → Nat → Prop
  /-- The body has no room for a length. -/
  | narrow (hroom : expected - consumed < lengthSize) :
      Stops limit consumed expected rest (.crossesFrame (consumed + lengthSize) expected) 0
  /-- The source ends within the length. -/
  | cutLength (hroom : lengthSize ≤ expected - consumed) (hcut : rest.length < lengthSize) :
      Stops limit consumed expected rest (.truncated lengthSize rest.length) rest.length
  /-- The length is out of the bounds of a document. -/
  | length {declared : Int} (hroom : lengthSize ≤ expected - consumed) (hfront : lengthSize ≤ rest.length)
      (hdeclared : LittleEndian.signed (LittleEndian.decodeWord (rest.take lengthSize)) = declared)
      (hbounds : declared < Structure.leastDocument ∨ (limit : Int) < declared) :
      Stops limit consumed expected rest (.lengthOutOfBounds declared) lengthSize
  /-- The document would end beyond the body. -/
  | overrun {declared : Nat} (hroom : lengthSize ≤ expected - consumed) (hdeclares : Declares limit rest declared)
      (hover : expected - consumed < declared) :
      Stops limit consumed expected rest (.crossesFrame (consumed + declared) expected) lengthSize
  /-- The source ends within the document, behind its length. -/
  | cut {declared : Nat} (hdeclares : Declares limit rest declared) (hfits : declared ≤ expected - consumed)
      (hcut : rest.length < declared) : Stops limit consumed expected rest (.truncated declared rest.length) rest.length
  /-- The document is framed and cannot be read. -/
  | unreadable {document tail : Bytes} {cause : DecodeError} (hrest : rest = document ++ tail)
      (hframed : Framed limit document) (hfits : document.length ≤ expected - consumed)
      (hcause : RawDocument.ofBytes document = .error cause) :
      Stops limit consumed expected rest (.malformed cause) document.length

/-- A length that is allowed is the only one that the bytes declare. -/
theorem Declares.eq {bytes : Bytes} {declared other : Nat} (hdeclares : Declares limit bytes declared)
    (hother : Declares limit bytes other) : other = declared :=
  Int.ofNat.inj (hother.length.symm.trans hdeclares.length)

/-- Without a body, a length that the source does not hold is missed. -/
theorem run_next_of_short (hshort : source.ready.length < lengthSize) :
    (next limit).run source = ⟨.error (source.shortage lengthSize), source.spent, []⟩ := by
  unfold next
  rw [run_bind_of_error (run_exactly_of_lt hshort)]

/-- Without a body, a length out of bounds is told of and left behind. -/
theorem run_next_of_length {declared : Int} (hfront : lengthSize ≤ source.ready.length)
    (hdeclared : LittleEndian.signed (LittleEndian.decodeWord (source.ready.take lengthSize)) = declared)
    (hbounds : declared < Structure.leastDocument ∨ (limit : Int) < declared) :
    (next limit).run source = ⟨.error (.lengthOutOfBounds declared), source.past lengthSize, []⟩ := by
  have hrefused : allowedLength limit (source.ready.take lengthSize) = .error (.lengthOutOfBounds declared) := by
    unfold allowedLength
    simp only [hdeclared, if_pos hbounds]
  unfold next
  rw [run_bind_of_ok (run_exactly_of_le hfront), run_bind_of_error (run_ofExcept hrefused _)]
  rfl

/-- Without a body, a document that ends with the source is missed from its own start. -/
theorem run_next_of_cut {declared : Nat} (hholds : source.Holds rest) (hdeclares : Declares limit rest declared)
    (hcut : rest.length < declared) :
    (next limit).run source = ⟨.error (.truncated declared rest.length), source.spent, []⟩ := by
  rw [← hholds.ready] at hdeclares
  obtain ⟨hfront, hallowed⟩ := declares_iff_allowedLength.mp hdeclares
  have hlength := Source.length_ready_past hfront
  rw [hholds.ready] at hfront hlength
  have hshort : (source.past lengthSize).ready.length < declared - lengthSize := by omega
  have hmissed : (source.past lengthSize).shortage (declared - lengthSize) =
      .truncated (declared - lengthSize) (rest.length - lengthSize) := by
    rw [Source.shortage, Source.ending_past (hholds.ready ▸ hfront), hholds.ending, hlength]
  have hcompleted : (completed (source.ready.take lengthSize) declared).run (source.past lengthSize) =
      ⟨.error (.truncated declared rest.length), source.spent, []⟩ := by
    rw [run_completed, if_neg (Nat.not_le.mpr hshort), hmissed, wholeShortage, Nat.sub_add_cancel hfront,
      Source.spent_past (hholds.ready ▸ hfront)]
  unfold next
  rw [run_bind_of_ok (run_exactly_of_le (hholds.ready ▸ hfront)), run_bind_of_ok (run_ofExcept hallowed _), hcompleted]
  rfl

/-- Where the next document stops a reading, it stops it so, whatever would be done with the document. -/
theorem Stops.fails {β : Type} (hstops : Stops limit consumed expected rest error taken) (hholds : source.Holds rest)
    (next : Bytes → RawDocument → Reading β) :
    (nextWithin limit consumed expected >>= fun bytes => keep bytes >>= next bytes).Fails source error taken := by
  cases hstops with
  | narrow hroom =>
    apply Fails.bind
    exact fails_of_run_still (run_nextWithin_of_narrow hroom source)
  | cutLength hroom hcut =>
    rw [← hholds.ready] at hcut
    have hfits : ∀ declared, Declares limit source.ready declared → declared ≤ expected - consumed := by
      intro declared hdeclares
      exact absurd hdeclares.front (Nat.not_le.mpr hcut)
    have hrun := (run_nextWithin_of_fits hroom hfits).trans (run_next_of_short hcut)
    rw [hholds.shortage] at hrun
    exact (fails_of_run_spent hholds hrun).bind _
  | length hroom hfront hdeclared hbounds =>
    rw [← hholds.ready] at hfront hdeclared
    have hfits : ∀ declared, Declares limit source.ready declared → declared ≤ expected - consumed := by
      intro declared hdeclares
      have hsame := hdeclared.symm.trans hdeclares.length
      have hleast := hdeclares.least
      have hmost := hdeclares.most
      rw [hsame, Structure.leastDocument] at hbounds
      omega
    have hrun := (run_nextWithin_of_fits hroom hfits).trans (run_next_of_length hfront hdeclared hbounds)
    exact (fails_of_run hfront hrun).bind _
  | overrun hroom hdeclares hover =>
    rw [← hholds.ready] at hdeclares
    have hrun := run_nextWithin_of_overrun hroom hdeclares hover
    exact (fails_of_run hdeclares.front hrun).bind _
  | @cut declared hdeclares hwithin hcut =>
    have hleast := hdeclares.least
    have hroom : lengthSize ≤ expected - consumed := by
      rw [lengthSize]
      omega
    have hfits : ∀ other, Declares limit source.ready other → other ≤ expected - consumed := by
      intro other hother
      rw [hholds.ready] at hother
      rwa [hdeclares.eq hother]
    have hrun := (run_nextWithin_of_fits hroom hfits).trans (run_next_of_cut hholds hdeclares hcut)
    exact (fails_of_run_spent hholds hrun).bind _
  | @unreadable document tail cause hrest hframed hfits hcause =>
    rw [hrest] at hholds
    have hread := (accepts_nextWithin limit consumed expected source document _).mpr
      ⟨document, hholds.front, ⟨rfl, hframed, hfits⟩, rfl⟩
    have hrun : (keep document).run (source.past document.length) =
        ⟨.error (.malformed cause), source.past document.length, [.malformed document]⟩ := by
      rw [keep, hcause]
      rfl
    have hkeep : (keep document >>= next document).Fails (source.past document.length) (.malformed cause) 0 :=
      (fails_of_run_still hrun).bind _
    change Fails _ source _ (document.length + 0)
    exact fails_bind_of_gives hholds.front.length_le hread hkeep

/-- No document is taken further than its body goes. -/
theorem Stops.taken_le (hstops : Stops limit consumed expected rest error taken) : taken ≤ expected - consumed := by
  cases hstops with
  | narrow _ => exact Nat.zero_le _
  | cutLength hroom hcut => omega
  | length hroom _ _ _ => exact hroom
  | overrun hroom _ _ => exact hroom
  | cut _ hfits hcut => omega
  | unreadable _ _ hfits _ => exact hfits

/-- What is said to cross the end of a body does. -/
theorem Stops.crosses {reached total : Nat} (hstops : Stops limit consumed expected rest (.crossesFrame reached total) taken)
    (hwithin : consumed ≤ expected) : total = expected ∧ expected < reached := by
  cases hstops with
  | narrow hroom => exact ⟨rfl, by omega⟩
  | overrun _ _ hover => exact ⟨rfl, by omega⟩

/-- What is said to be missing is, and all that is there is taken. -/
theorem Stops.misses {wanted read : Nat} (hstops : Stops limit consumed expected rest (.truncated wanted read) taken) :
    read < wanted ∧ taken = rest.length := by
  cases hstops with
  | cutLength _ hcut => exact ⟨hcut, rfl⟩
  | cut _ _ hcut => exact ⟨hcut, rfl⟩

/-- A length is out of the bounds of a document or declares one. -/
theorem bounds_or_declares (limit : Nat) {bytes : Bytes} {value : Int} (hfront : lengthSize ≤ bytes.length)
    (hvalue : LittleEndian.signed (LittleEndian.decodeWord (bytes.take lengthSize)) = value) :
    (value < Structure.leastDocument ∨ (limit : Int) < value) ∨ ∃ declared, Declares limit bytes declared := by
  rw [Structure.leastDocument]
  by_cases hbounds : value < (5 : Nat) ∨ (limit : Int) < value
  · exact .inl hbounds
  · exact .inr ⟨value.toNat, hfront, hvalue.trans (Int.toNat_of_nonneg (by omega)).symm, by omega, by omega⟩

/-- The document that stands next is read or stops the reading. -/
theorem framed_or_stops (limit consumed expected : Nat) (rest : Bytes) :
    (∃ document tail raw, rest = document ++ tail ∧ Framed limit document ∧ document.length ≤ expected - consumed ∧
      RawDocument.ofBytes document = .ok raw) ∨
    ∃ error taken, Stops limit consumed expected rest error taken := by
  by_cases hroom : expected - consumed < lengthSize
  · exact .inr ⟨_, _, .narrow hroom⟩
  have hroom := Nat.le_of_not_lt hroom
  by_cases hcut : rest.length < lengthSize
  · exact .inr ⟨_, _, .cutLength hroom hcut⟩
  have hfront := Nat.le_of_not_lt hcut
  obtain hbounds | ⟨declared, hdeclares⟩ := bounds_or_declares limit hfront rfl
  · exact .inr ⟨_, _, .length hroom hfront rfl hbounds⟩
  by_cases hover : expected - consumed < declared
  · exact .inr ⟨_, _, .overrun hroom hdeclares hover⟩
  have hfits := Nat.le_of_not_lt hover
  by_cases hcut : rest.length < declared
  · exact .inr ⟨_, _, .cut hdeclares hfits hcut⟩
  have hframed := hdeclares.framed (Nat.le_of_not_lt hcut)
  have hrest := (List.take_append_drop declared rest).symm
  rw [← List.length_take_of_le (Nat.le_of_not_lt hcut)] at hfits
  cases hraw : RawDocument.ofBytes (rest.take declared) with
  | ok raw => exact .inl ⟨_, _, raw, hrest, hframed, hfits, hraw⟩
  | error cause => exact .inr ⟨_, _, .unreadable hrest hframed hfits hraw⟩

end Frame

namespace Reply

open Reading

variable {limits : Limits} {header : Header} {consumed expected : Nat} {documents : List Bytes} {rest body : Bytes}
  {source : Source} {error : MessageError} {taken : Nat}

/-- A body of `expected` bytes has been read through `documents`, behind which `rest` stands, and more is wanted: two
    documents at least, and as many as fill the body. -/
structure Through (limits : Limits) (expected : Nat) (documents : List Bytes) (rest body : Bytes) : Prop where
  bytes : body = documents.flatten ++ rest
  fills : Fills limits documents documents.flatten
  within : documents.flatten.length ≤ expected
  wanted : documents.length < 2 ∨ documents.flatten.length < expected

/-- A body is not read: why, and how many bytes are taken of it. -/
inductive Stops (header : Header) (limits : Limits) (body : Bytes) : MessageError → Nat → Prop
  /-- The header names another operation. -/
  | foreign (hcode : header.opCode ≠ .commandReply) : Stops header limits body (.unexpectedOpCode header.opCode) 0
  /-- The header declares a length that is not accepted. -/
  | misdeclared {error : MessageError} (hcode : header.opCode = .commandReply)
      (hsize : header.bodySize limits = .error error) : Stops header limits body error 0
  /-- The next document is not read. -/
  | document {expected taken : Nat} {documents : List Bytes} {rest : Bytes} {error : MessageError}
      (hcode : header.opCode = .commandReply) (hsize : header.bodySize limits = .ok expected)
      (hthrough : Through limits expected documents rest body)
      (hstops : Frame.Stops limits.documentSize documents.flatten.length expected rest error taken) :
      Stops header limits body error (documents.flatten.length + taken)

/-- The loop stops at the document behind those that it reads. -/
theorem fails_outputs {front : Bytes} {bound : Nat} (hfills : Fills limits documents front)
    (hholds : source.Holds (front ++ rest)) (hwanted : consumed + front.length < expected)
    (hbound : expected - consumed ≤ bound)
    (hstops : Frame.Stops limits.documentSize (consumed + front.length) expected rest error taken) :
    (many (outputStep limits expected) bound consumed).Fails source error (front.length + taken) := by
  induction documents generalizing source front consumed bound with
  | nil =>
    obtain rfl := fills_nil_iff.mp hfills
    obtain ⟨bound, rfl⟩ : ∃ fewer, bound = fewer + 1 := ⟨bound - 1, by omega⟩
    rw [List.length_nil, Nat.add_zero] at hwanted hstops
    rw [many_succ, outputStep, if_pos hwanted, List.length_nil, Nat.zero_add]
    exact (hstops.fails hholds _).bind _
  | cons document documents ih =>
    obtain ⟨behind, rfl, hframed, ⟨raw, hraw⟩, hothers⟩ := fills_cons_iff.mp hfills
    have hleast := hframed.least
    rw [List.length_append, ← Nat.add_assoc] at hwanted hstops
    rw [List.append_assoc] at hholds
    obtain ⟨bound, rfl⟩ : ∃ fewer, bound = fewer + 1 := ⟨bound - 1, by omega⟩
    rw [many_succ, outputStep, if_pos (by omega), List.length_append, Nat.add_assoc]
    have hread := (accepts_readOutput limits expected consumed source (raw, consumed + document.length) _).mpr
      ⟨document, hholds.front, ⟨hframed, by omega, hraw, rfl⟩, rfl⟩
    have hfewer : expected - (consumed + document.length) ≤ bound := by omega
    have hlater := ih hothers hholds.past hwanted hfewer hstops
    exact fails_bind_of_gives hholds.front.length_le hread (hlater.bind _)

/-- The body stops at the document behind those that it is read through. -/
theorem Through.fails (hthrough : Through limits expected documents rest body) (hcode : header.opCode = .commandReply)
    (hsize : header.bodySize limits = .ok expected) (hholds : source.Holds body)
    (hstops : Frame.Stops limits.documentSize documents.flatten.length expected rest error taken) :
    (readBody header limits).Fails source error (documents.flatten.length + taken) := by
  obtain ⟨rfl, hfills, hwithin, hwanted⟩ := hthrough
  have hsized : Gives (ofExcept (header.bodySize limits)) source expected source := ⟨[], run_ofExcept hsize source⟩
  unfold readBody
  rw [if_neg (not_not_intro hcode)]
  refine fails_bind_of_still hsized ?_
  match documents with
  | [] =>
    rw [List.flatten_nil] at hholds hstops ⊢
    rw [List.length_nil, Nat.zero_add, bind_assoc]
    exact hstops.fails hholds _
  | first :: documents =>
    obtain ⟨_, hflatten, hfirst, ⟨commandReply, hreply⟩, hbehind⟩ := fills_cons_iff.mp hfills
    obtain rfl := List.append_cancel_left hflatten
    obtain rfl := (RawDocument.ofBytes_eq_ok_iff.mp hreply).2
    rw [List.flatten_cons, List.append_assoc] at hholds
    rw [List.flatten_cons, List.length_append] at hwithin hwanted hstops ⊢
    have hread := (accepts_document limits 0 expected source _ _).mpr
      ⟨first, hholds.front, ⟨hfirst, by omega, hreply⟩, rfl⟩
    rw [Nat.add_assoc]
    refine fails_bind_of_gives hholds.front.length_le hread ?_
    match documents with
    | [] =>
      rw [List.flatten_nil] at hholds hstops ⊢
      rw [List.length_nil, Nat.zero_add, bind_assoc]
      exact hstops.fails hholds.past _
    | second :: others =>
      obtain ⟨_, hflatten, hsecond, ⟨metadata, hmetadata⟩, hothers⟩ := fills_cons_iff.mp hbehind
      obtain rfl := List.append_cancel_left hflatten
      obtain rfl := (RawDocument.ofBytes_eq_ok_iff.mp hmetadata).2
      have hholds := hholds.past
      rw [List.flatten_cons, List.append_assoc] at hholds
      rw [List.flatten_cons, List.length_append] at hwithin hwanted hstops ⊢
      have hnext := (accepts_document limits first.length expected _ _ _).mpr
        ⟨second, hholds.front, ⟨hsecond, by omega, hmetadata⟩, rfl⟩
      rw [Nat.add_assoc]
      refine fails_bind_of_gives hholds.front.length_le hnext ?_
      have hmore : first.length + second.length + others.flatten.length < expected := by
        simp only [List.length_cons] at hwanted
        omega
      rw [← Nat.add_assoc] at hstops
      exact (fails_outputs hothers hholds.past hmore (Nat.sub_le _ _) hstops).bind _

theorem Stops.fails (hstops : Stops header limits body error taken) (hholds : source.Holds body) :
    (readBody header limits).Fails source error taken := by
  cases hstops with
  | foreign hcode => exact fails_of_run_still (run_readBody_of_foreign hcode limits source)
  | misdeclared hcode hsize =>
    unfold readBody
    rw [if_neg (not_not_intro hcode)]
    exact (fails_of_run_still (run_ofExcept hsize source)).bind _
  | document hcode hsize hthrough hstops => exact hthrough.fails hcode hsize hholds hstops

/-- One more document that is read leaves the body at its end or on the way to it. -/
theorem Through.next {document tail : Bytes} {raw : RawDocument} (hthrough : Through limits expected documents rest body)
    (hrest : rest = document ++ tail) (hframed : Frame.Framed limits.documentSize document)
    (hfits : document.length ≤ expected - documents.flatten.length) (hraw : RawDocument.ofBytes document = .ok raw) :
    (2 ≤ (documents ++ [document]).length ∧ expected ≤ body.length ∧
      Fills limits (documents ++ [document]) (body.take expected)) ∨
    Through limits expected (documents ++ [document]) tail body := by
  obtain ⟨rfl, hfills, hwithin, hwanted⟩ := hthrough
  obtain rfl := hrest
  have hflatten : (documents ++ [document]).flatten = documents.flatten ++ document := by
    rw [List.flatten_append, List.flatten_singleton]
  have hlength := congrArg List.length hflatten
  rw [List.length_append] at hlength
  have hmore : Fills limits (documents ++ [document]) (documents ++ [document]).flatten := by
    refine ⟨rfl, ?_, ?_⟩
    · intro bytes hbytes
      obtain hbefore | hlast := List.mem_append.mp hbytes
      · exact hfills.framed bytes hbefore
      · rwa [List.mem_singleton.mp hlast]
    · intro bytes hbytes
      obtain hbefore | hlast := List.mem_append.mp hbytes
      · exact hfills.readable bytes hbefore
      · exact ⟨raw, by rwa [List.mem_singleton.mp hlast]⟩
  rw [← List.append_assoc, ← hflatten]
  by_cases hwanted : (documents ++ [document]).length < 2 ∨ (documents ++ [document]).flatten.length < expected
  · exact .inr ⟨rfl, hmore, by omega, hwanted⟩
  · have hend : expected = (documents ++ [document]).flatten.length := by omega
    refine .inl ⟨by omega, ?_, ?_⟩
    · rw [List.length_append, ← hend]
      exact Nat.le_add_right _ _
    · rwa [hend, List.take_left]

/-- Read on from any place, a body is filled with documents or stops at one. -/
theorem Through.fills_or_stops (hthrough : Through limits expected documents rest body) :
    (∃ documents : List Bytes, 2 ≤ documents.length ∧ expected ≤ body.length ∧
      Fills limits documents (body.take expected)) ∨
    ∃ documents rest error taken, Through limits expected documents rest body ∧
      Frame.Stops limits.documentSize documents.flatten.length expected rest error taken := by
  induction hleft : expected - documents.flatten.length using Nat.strongRecOn generalizing documents rest with
  | _ left ih =>
    obtain ⟨document, tail, raw, hrest, hframed, hfits, hraw⟩ | ⟨error, taken, hstops⟩ :=
      Frame.framed_or_stops limits.documentSize documents.flatten.length expected rest
    · obtain hfilled | hnext := hthrough.next hrest hframed hfits hraw
      · exact .inl ⟨_, hfilled⟩
      · have hleast := hframed.least
        have hlength : (documents ++ [document]).flatten.length = documents.flatten.length + document.length := by
          rw [List.flatten_append, List.flatten_singleton, List.length_append]
        exact ih _ (by omega) hnext rfl
    · exact .inr ⟨_, _, error, taken, hthrough, hstops⟩

/-- A body that a source holds is read or stops. -/
theorem reply_or_stops (header : Header) (limits : Limits) (hholds : source.Holds body) :
    (∃ reply, ((readBody header limits).run source).result = .ok reply) ∨
      ∃ error taken, Stops header limits body error taken := by
  by_cases hcode : header.opCode = .commandReply
  · cases hsize : header.bodySize limits with
    | error error => exact .inr ⟨error, 0, .misdeclared hcode hsize⟩
    | ok expected =>
      have hstart : Through limits expected [] body body :=
        ⟨rfl, fills_nil_iff.mpr rfl, Nat.zero_le _, .inl Nat.two_pos⟩
      obtain ⟨documents, htwo, hroom, hfills⟩ | ⟨_, _, error, taken, hthrough, hstops⟩ := hstart.fills_or_stops
      · obtain ⟨first, second, others, rfl⟩ : ∃ first second others, documents = first :: second :: others := by
          match documents, htwo with
          | first :: second :: others, _ => exact ⟨first, second, others, rfl⟩
        have hfront : body.take expected <+: source.ready := hholds.ready.symm ▸ List.take_prefix _ _
        rw [← List.length_take_of_le hroom] at hsize
        obtain ⟨log, hrun⟩ := (accepts_readBody limits hcode source _ _).mpr
          ⟨_, hfront, ⟨first, second, others, hsize, hfills, rfl⟩, rfl⟩
        exact .inl ⟨_, congrArg Outcome.result hrun⟩
      · exact .inr ⟨_, _, .document hcode hsize hthrough hstops⟩
  · exact .inr ⟨_, _, .foreign hcode⟩

/-- A body under a header that refuses it is not touched. -/
theorem Stops.taken_eq_zero (hstops : Stops header limits body error taken)
    (hrefused : header.opCode ≠ .commandReply ∨ ∃ cause, header.bodySize limits = .error cause) : taken = 0 := by
  cases hstops with
  | foreign _ => rfl
  | misdeclared _ _ => rfl
  | document hcode hsize _ _ =>
    obtain hforeign | ⟨cause, hcause⟩ := hrefused
    · exact absurd hcode hforeign
    · rw [hcause] at hsize
      cases hsize

/-- Nothing is taken from behind the body. -/
theorem Stops.taken_le (hstops : Stops header limits body error taken) :
    taken ≤ header.messageLength.toNat - Header.size := by
  cases hstops with
  | foreign _ => exact Nat.zero_le _
  | misdeclared _ _ => exact Nat.zero_le _
  | document _ hsize hthrough hstops =>
    have hdeclared := (Header.bodySize_eq_ok_iff.mp hsize).1
    have hwithin := hthrough.within
    have hmost := hstops.taken_le
    rw [Header.size]
    omega

theorem Stops.crosses {reached total : Nat} (hstops : Stops header limits body (.crossesFrame reached total) taken) :
    total = header.messageLength.toNat - Header.size ∧ total < reached := by
  cases hstops with
  | misdeclared _ hsize => cases Header.bodySize_eq_error hsize
  | document _ hsize hthrough hstops =>
    have hdeclared := (Header.bodySize_eq_ok_iff.mp hsize).1
    obtain ⟨rfl, hbeyond⟩ := hstops.crosses hthrough.within
    rw [hdeclared]
    exact ⟨(Nat.add_sub_cancel_left _ _).symm, hbeyond⟩

theorem Stops.misses {wanted read : Nat} (hstops : Stops header limits body (.truncated wanted read) taken) :
    read < wanted ∧ taken = body.length := by
  cases hstops with
  | misdeclared _ hsize => cases Header.bodySize_eq_error hsize
  | document _ _ hthrough hstops =>
    obtain ⟨hmissing, rfl⟩ := hstops.misses
    rw [hthrough.bytes, List.length_append]
    exact ⟨hmissing, rfl⟩

/-- What stops the body of a buffer is what the buffer gives. -/
theorem Stops.result_parse {message : Bytes} (hstops : Stops header limits body error taken)
    (hmessage : message = header.encode ++ body) : (parse message limits).result = .error error := by
  have hholds : (Source.ofBytes body).Holds body := ⟨Source.ready_ofBytes body, rfl⟩
  obtain ⟨after, log, hrun, _⟩ := hstops.fails hholds
  rw [parse, Header.parse_eq_ok_iff.mpr hmessage]
  exact congrArg Outcome.result (run_whole_of_error hrun)

/-- What stops a body with the framing lost stops the message there. -/
theorem Stops.fails_read {size : Nat} (hstops : Stops header limits body error taken)
    (hholds : source.Holds (header.encode ++ body)) (hsize : header.bodySize limits = .ok size)
    (hlost : error.keepsFraming = false) : (read limits).Fails source error (Header.size + taken) := by
  have hheader := hholds.front
  have hbehind := hholds.past
  rw [Header.length_encode] at hbehind
  have hroom := hheader.length_le
  rw [Header.length_encode] at hroom
  obtain ⟨after, log, hrun, hplace, hleft⟩ := hstops.fails hbehind
  refine ⟨after, log, ?_, ?_, ?_⟩
  · rw [run_read_of_declared hheader hsize, run_orSkip_of_lost size hrun hlost]
  · rw [hplace, Source.position_past, Nat.add_assoc]
  · rw [hleft, Source.ready_past hroom, List.drop_drop]

/-- The body of a message is read through any documents in front of another of its documents, if these keep within the
    limits, whatever stands behind them. -/
theorem Carries.through {strict : Limits} {message : Bytes} {reply : Reply} {before after : List RawDocument}
    {document : RawDocument} (hcarries : Carries limits message reply)
    (hdocuments : reply.documents = before ++ document :: after)
    (hstrict : ∀ raw ∈ before, raw.size ≤ strict.documentSize) (rest : Bytes) :
    Through strict reply.encodeBody.length (before.map RawDocument.bytes) rest
      ((before.map RawDocument.bytes).flatten ++ rest) := by
  have hbefore : ∀ raw ∈ before, raw ∈ reply.documents := by
    intro raw hraw
    rw [hdocuments]
    exact List.mem_append_left _ hraw
  have hleast := (hcarries.framed_of_split hdocuments).least
  have hshorter : (before.map RawDocument.bytes).flatten.length < reply.encodeBody.length := by
    rw [encodeBody_split hdocuments, List.length_append, List.length_append]
    omega
  refine ⟨rfl, ⟨rfl, ?_, ?_⟩, Nat.le_of_lt hshorter, .inr hshorter⟩
  · intro bytes hbytes
    obtain ⟨raw, hraw, rfl⟩ := List.mem_map.mp hbytes
    obtain ⟨hdeclared, hleast, _⟩ := hcarries.framed (hbefore raw hraw)
    exact ⟨hdeclared, hleast, hstrict raw hraw⟩
  · intro bytes hbytes
    obtain ⟨raw, hraw, rfl⟩ := List.mem_map.mp hbytes
    exact hcarries.fills.readable _ (List.mem_map_of_mem (hbefore raw hraw))

/-- A body is not read with an error exactly where it stops with it: at a header that names another operation or declares
    a length that is not accepted, or at the first document that is not framed within the body or cannot be read. Nothing
    behind that place is taken, and so nothing behind the body. An error that tells of the end of the body names that end
    and a place behind it, and one that tells of the end of the source says what is missing there. -/
theorem readBody_stops (header : Header) (limits : Limits) (hholds : source.Holds body) :
    (∀ error, ((readBody header limits).run source).result = .error error ↔
      ∃ taken, Stops header limits body error taken) ∧
    ∀ error taken, Stops header limits body error taken →
      ((readBody header limits).run source).source.position = source.position + taken ∧
      ((readBody header limits).run source).source.ready = body.drop taken ∧
      taken ≤ header.messageLength.toNat - Header.size ∧
      (header.opCode ≠ .commandReply ∨ (∃ cause, header.bodySize limits = .error cause) → taken = 0) ∧
      (∀ reached expected, error = .crossesFrame reached expected →
        expected = header.messageLength.toNat - Header.size ∧ expected < reached) ∧
      ∀ wanted read, error = .truncated wanted read →
        read < wanted ∧ ((readBody header limits).run source).source.ready = [] := by
  constructor
  · intro error
    constructor
    · intro herror
      obtain ⟨reply, hreply⟩ | ⟨cause, taken, hstops⟩ := reply_or_stops header limits hholds
      · rw [hreply] at herror
        cases herror
      · have hsame := (hstops.fails hholds).result.symm.trans herror
        exact ⟨taken, Except.error.inj hsame ▸ hstops⟩
    · intro hstopped
      obtain ⟨taken, hstops⟩ := hstopped
      exact (hstops.fails hholds).result
  · intro error taken hstops
    have hfails := hstops.fails hholds
    have hleft := hfails.ready
    rw [hholds.ready] at hleft
    refine ⟨hfails.position, hleft, hstops.taken_le, hstops.taken_eq_zero, ?_, ?_⟩
    · intro reached expected hcrosses
      exact (hcrosses ▸ hstops).crosses
    · intro wanted read hmisses
      obtain ⟨hmissing, hall⟩ := (hmisses ▸ hstops).misses
      refine ⟨hmissing, ?_⟩
      rw [hleft, hall, List.drop_length]

/-- An empty document and another whose length, 300, leaves a body of 15 bytes, one byte at a time and with an
    interruption. -/
def overrunCapture : Source :=
  { pending := [5, 0, 0, 0, 0, 44, 1, 0, 0, 0, 0, 0, 0, 0, 0, 0], chunk := some 1, interrupts := [7] }

/-- The second document is left behind its length. Under a header of another operation nothing is taken. -/
theorem readBody_stops_overrun :
    overrunCapture.Holds [5, 0, 0, 0, 0, 44, 1, 0, 0, 0, 0, 0, 0, 0, 0, 0] ∧
      ((readBody ⟨31, 7, 8, .commandReply⟩ ⟨512, 512⟩).run overrunCapture).result = .error (.crossesFrame 305 15) ∧
      ((readBody ⟨31, 7, 8, .commandReply⟩ ⟨512, 512⟩).run overrunCapture).source.position = 9 ∧
      ((readBody ⟨31, 7, 8, .msg⟩ ⟨512, 512⟩).run overrunCapture).result = .error (.unexpectedOpCode .msg) ∧
      ((readBody ⟨31, 7, 8, .msg⟩ ⟨512, 512⟩).run overrunCapture).source.position = 0 := by
  have hholds : overrunCapture.Holds [5, 0, 0, 0, 0, 44, 1, 0, 0, 0, 0, 0, 0, 0, 0, 0] := ⟨rfl, rfl⟩
  obtain ⟨hstopped, hplaces⟩ := readBody_stops ⟨31, 7, 8, .commandReply⟩ ⟨512, 512⟩ hholds
  obtain ⟨hforeign, huntouched⟩ := readBody_stops ⟨31, 7, 8, .msg⟩ ⟨512, 512⟩ hholds
  have hthrough : Through ⟨512, 512⟩ 15 [[5, 0, 0, 0, 0]] [44, 1, 0, 0, 0, 0, 0, 0, 0, 0, 0]
      [5, 0, 0, 0, 0, 44, 1, 0, 0, 0, 0, 0, 0, 0, 0, 0] := by
    refine ⟨rfl, ⟨rfl, ?_, ?_⟩, by decide, by decide⟩
    · intro bytes hbytes
      obtain rfl := List.mem_singleton.mp hbytes
      exact ⟨by decide, by decide, by decide⟩
    · intro bytes hbytes
      obtain rfl := List.mem_singleton.mp hbytes
      exact ⟨_, rfl⟩
  have hdeclares : Frame.Declares 512 [44, 1, 0, 0, 0, 0, 0, 0, 0, 0, 0] 300 :=
    ⟨by decide, by decide, by decide, by decide⟩
  have hstops : Stops ⟨31, 7, 8, .commandReply⟩ ⟨512, 512⟩ [5, 0, 0, 0, 0, 44, 1, 0, 0, 0, 0, 0, 0, 0, 0, 0]
      (.crossesFrame 305 15) 9 :=
    .document rfl rfl hthrough (.overrun (by decide) hdeclares (by decide))
  have hother : Stops ⟨31, 7, 8, .msg⟩ ⟨512, 512⟩ [5, 0, 0, 0, 0, 44, 1, 0, 0, 0, 0, 0, 0, 0, 0, 0]
      (.unexpectedOpCode .msg) 0 := .foreign (by decide)
  exact ⟨hholds, (hstopped _).mpr ⟨9, hstops⟩, (hplaces _ _ hstops).1, (hforeign _).mpr ⟨0, hother⟩,
    (huntouched _ _ hother).1⟩

end Reply

end ReplyCapture
