import ReplyCapture.Proofs.Message.Frame
import ReplyCapture.Session

namespace ReplyCapture

namespace Frame

open Reading

variable {limit consumed expected declared : Nat} {source : Source}

/-- Bytes that start with a length within the bounds of a document, whether or not so many bytes are there. -/
structure Declares (limit : Nat) (bytes : Bytes) (declared : Nat) : Prop where
  front : 4 ≤ bytes.length
  length : LittleEndian.signed (LittleEndian.decodeWord (bytes.take 4)) = declared
  least : 5 ≤ declared
  most : declared ≤ limit

/-- Bytes declare a length where four of them are there and the length in these is allowed. -/
theorem declares_iff_allowedLength {bytes : Bytes} :
    Declares limit bytes declared ↔
      lengthSize ≤ bytes.length ∧ allowedLength limit (bytes.take lengthSize) = .ok declared := by
  rw [allowedLength_eq_ok_iff]
  constructor
  · intro hdeclares
    exact ⟨hdeclares.front, hdeclares.length, hdeclares.least, hdeclares.most⟩
  · intro hallowed
    obtain ⟨hfront, hlength, hleast, hmost⟩ := hallowed
    exact ⟨hfront, hlength, hleast, hmost⟩

theorem Framed.declares {bytes : Bytes} (hframed : Framed limit bytes) (rest : Bytes) :
    Declares limit (bytes ++ rest) bytes.length := by
  have hleast := hframed.least
  refine ⟨?_, ?_, hleast, hframed.most⟩
  · rw [List.length_append]
    omega
  · rw [List.take_append_of_le_length (by omega), hframed.declared]

/-- A document whose length is there and allowed is all there or ends with the bytes. -/
theorem Declares.framed {bytes : Bytes} (hdeclares : Declares limit bytes declared) (hall : declared ≤ bytes.length) :
    Framed limit (bytes.take declared) := by
  obtain ⟨_, hlength, hleast, hmost⟩ := hdeclares
  have htaken : (bytes.take declared).length = declared := List.length_take_of_le hall
  refine ⟨?_, by omega, by omega⟩
  rw [htaken, List.take_take, Nat.min_eq_left (by omega), hlength]

/-- Where a body has no room for another length, that is said and nothing is touched. -/
theorem run_nextWithin_of_narrow (hroom : expected - consumed < lengthSize) (source : Source) :
    (nextWithin limit consumed expected).run source =
      ⟨.error (.crossesFrame (consumed + lengthSize) expected), source, []⟩ := by
  unfold nextWithin
  simp only [if_pos hroom]
  rfl

/-- A document that would end beyond its body is left unread behind its length. -/
theorem run_nextWithin_of_overrun (hroom : lengthSize ≤ expected - consumed)
    (hdeclares : Declares limit source.ready declared) (hover : expected - consumed < declared) :
    (nextWithin limit consumed expected).run source =
      ⟨.error (.crossesFrame (consumed + declared) expected), source.past lengthSize,
        [.overrun declared consumed expected]⟩ := by
  obtain ⟨hfront, hallowed⟩ := declares_iff_allowedLength.mp hdeclares
  unfold nextWithin
  simp only [if_neg (Nat.not_lt.mpr hroom)]
  rw [run_bind_of_ok (run_exactly_of_le hfront), run_bind_of_ok (run_ofExcept hallowed _), if_pos hover]
  rfl

/-- Unless a document would end beyond its body, the body makes no difference to how it is framed. -/
theorem run_nextWithin_of_fits (hroom : lengthSize ≤ expected - consumed)
    (hfits : ∀ declared, Declares limit source.ready declared → declared ≤ expected - consumed) :
    (nextWithin limit consumed expected).run source = (next limit).run source := by
  unfold nextWithin next
  simp only [if_neg (Nat.not_lt.mpr hroom)]
  by_cases hfront : lengthSize ≤ source.ready.length
  · have hread := run_exactly_of_le hfront
    rw [run_bind_of_ok hread, run_bind_of_ok hread]
    cases hallowed : allowedLength limit (source.ready.take lengthSize) with
    | error error => rw [run_bind_of_error (run_ofExcept rfl _), run_bind_of_error (run_ofExcept rfl _)]
    | ok declared =>
      have hwithin := hfits declared (declares_iff_allowedLength.mpr ⟨hfront, hallowed⟩)
      rw [run_bind_of_ok (run_ofExcept rfl _), run_bind_of_ok (run_ofExcept rfl _), if_neg (Nat.not_lt.mpr hwithin)]
  · have hread := run_exactly_of_lt (Nat.lt_of_not_le hfront)
    rw [run_bind_of_error hread, run_bind_of_error hread]

/-- No allowed document leaves a body that has room for the largest one. -/
theorem next_eq_nextWithin (limit : Nat) : next limit = nextWithin limit 0 (limit + 4) := by
  ext source : 1
  refine (run_nextWithin_of_fits (Nat.le_add_left 4 limit) fun declared hdeclares => ?_).symm
  exact Nat.le_add_right_of_le hdeclares.most

/-- The unbounded reader takes exactly one framed document. -/
theorem accepts_next (limit : Nat) : Accepts (next limit) fun bytes value => bytes = value ∧ Framed limit value := by
  rw [next_eq_nextWithin]
  refine (accepts_nextWithin limit 0 (limit + 4)).congr fun bytes value => ?_
  constructor
  · intro haccepted
    obtain ⟨hbytes, hframed, _⟩ := haccepted
    exact ⟨hbytes, hframed⟩
  · intro haccepted
    obtain ⟨hbytes, hframed⟩ := haccepted
    exact ⟨hbytes, hframed, Nat.le_add_right_of_le hframed.most⟩

end Frame

namespace Session

open ReplyCapture.Frame

/-- The run of calls on framed documents, from any place of a source and whatever follows them. -/
theorem callAll_of_framed {limits : Limits} {limit : Nat} {documents : List Bytes} {session : Session}
    (hframed : ∀ bytes ∈ documents, Framed limit bytes) (hready : documents.flatten <+: session.source.ready)
    {index : Nat} (hindex : index < documents.length) :
    ∃ received,
      (session.callAll limits (List.replicate documents.length (.document limit)))[index]? = some received ∧
        received.reception = .bytes (.ok documents[index]) ∧
        received.session.source = session.source.past (documents.take (index + 1)).flatten.length := by
  induction documents generalizing session index with
  | nil => cases hindex
  | cons document documents ih =>
    simp only [List.mem_cons, forall_eq_or_imp] at hframed
    obtain ⟨hfirst, hothers⟩ := hframed
    rw [List.flatten_cons, Reading.append_prefix_ready_iff] at hready
    obtain ⟨hdocument, hrest⟩ := hready
    obtain ⟨log, hread⟩ := (accepts_next limit session.source document _).mpr ⟨document, hdocument, ⟨rfl, hfirst⟩, rfl⟩
    simp only [List.length_cons, List.replicate_succ, callAll, call, run, hread]
    cases index with
    | zero =>
      refine ⟨_, rfl, rfl, ?_⟩
      simp only [List.take_succ_cons, List.take_zero, List.flatten_cons, List.flatten_nil, List.append_nil]
    | succ index =>
      have hlater : documents.flatten <+:
          ({ session with source := session.source.past document.length } : Session).source.ready := hrest
      obtain ⟨received, hreceived, hreception, hplace⟩ := ih hothers hlater (Nat.lt_of_succ_lt_succ hindex)
      refine ⟨received, hreceived, hreception, ?_⟩
      rw [hplace, Source.past_past, List.take_succ_cons, List.flatten_cons, List.length_append]

/-- Framing within a body agrees with framing without one on every source. Where the body has no room for a length,
    nothing is touched, and where the document would end beyond the body, nothing but its length; everywhere else both
    do the same. And neither looks into what is framed: of documents that stand one after the other, whatever they hold
    and whatever follows them, each call gives the next and stops exactly behind it. -/
theorem nextWithin_agrees_with_next (limit : Nat) :
    (∀ consumed expected source,
      (expected - consumed < 4 →
        (nextWithin limit consumed expected).run source =
          ⟨.error (.crossesFrame (consumed + 4) expected), source, []⟩) ∧
      (4 ≤ expected - consumed →
        (∀ declared, Declares limit source.ready declared → expected - consumed < declared →
          (nextWithin limit consumed expected).run source =
            ⟨.error (.crossesFrame (consumed + declared) expected), source.past 4,
              [.overrun declared consumed expected]⟩) ∧
        ((∀ declared, Declares limit source.ready declared → declared ≤ expected - consumed) →
          (nextWithin limit consumed expected).run source = (next limit).run source))) ∧
    ∀ (documents : List Bytes) (suffix : Bytes) (session : Session) (limits : Limits),
      (∀ bytes ∈ documents, Framed limit bytes) → session.source.ready = documents.flatten ++ suffix →
      ∀ index (hindex : index < documents.length), ∃ received,
        (session.callAll limits (List.replicate documents.length (.document limit)))[index]? = some received ∧
          received.reception = .bytes (.ok documents[index]) ∧
          received.session.source.position =
            session.source.position + (documents.take (index + 1)).flatten.length ∧
          received.session.source.ready = (documents.drop (index + 1)).flatten ++ suffix := by
  constructor
  · intro consumed expected source
    refine ⟨fun hnarrow => run_nextWithin_of_narrow hnarrow source, fun hroom => ⟨?_, ?_⟩⟩
    · intro declared hdeclares hover
      exact run_nextWithin_of_overrun hroom hdeclares hover
    · intro hfits
      exact run_nextWithin_of_fits hroom hfits
  · intro documents suffix session limits hframed hready index hindex
    have hprefix : documents.flatten <+: session.source.ready := ⟨suffix, hready.symm⟩
    obtain ⟨received, hreceived, hreception, hplace⟩ := callAll_of_framed hframed hprefix hindex
    have hsplit : documents.flatten = (documents.take (index + 1)).flatten ++ (documents.drop (index + 1)).flatten := by
      rw [← List.flatten_append, List.take_append_drop]
    have hwithin : (documents.take (index + 1)).flatten.length ≤ session.source.ready.length := by
      rw [hready, hsplit, List.append_assoc, List.length_append]
      exact Nat.le_add_right _ _
    refine ⟨received, hreceived, hreception, ?_, ?_⟩
    · rw [hplace, Source.position_past]
    · rw [hplace, Source.ready_past hwithin, hready, hsplit, List.append_assoc, List.drop_left]

/-- Two framed documents that hold nothing readable and a byte of something else, which come one byte at a time and with
    interruptions. -/
def framedCapture : Source :=
  { pending := [7, 0, 0, 0, 255, 255, 255, 5, 0, 0, 0, 9, 1], chunk := some 1, interrupts := [3, 7] }

/-- The first document would end two bytes beyond one body and ends with another. Read without a body, the second one
    follows. -/
theorem nextWithin_agrees_with_next_pieces :
    (∀ bytes ∈ [[7, 0, 0, 0, 255, 255, 255], [5, 0, 0, 0, 9]], Framed 64 bytes) ∧
      framedCapture.ready = [[7, 0, 0, 0, 255, 255, 255], [5, 0, 0, 0, 9]].flatten ++ [1] ∧
      (nextWithin 64 25 30).run framedCapture =
        ⟨.error (.crossesFrame 32 30), framedCapture.past 4, [.overrun 7 25 30]⟩ ∧
      (nextWithin 64 23 30).run framedCapture = (next 64).run framedCapture ∧
      ∃ received, (callAll ⟨framedCapture, none⟩ ⟨64, 64⟩ (List.replicate 2 (.document 64)))[1]? = some received ∧
        received.reception = .bytes (.ok [5, 0, 0, 0, 9]) ∧ received.session.source.position = 12 := by
  obtain ⟨hbounded, hframes⟩ := nextWithin_agrees_with_next 64
  have hframed : ∀ bytes ∈ [[7, 0, 0, 0, 255, 255, 255], [5, 0, 0, 0, 9]], Framed 64 bytes := by
    intro bytes hbytes
    simp only [List.mem_cons, List.not_mem_nil, or_false] at hbytes
    obtain rfl | rfl := hbytes
    · exact ⟨by decide, by decide, by decide⟩
    · exact ⟨by decide, by decide, by decide⟩
  have hready : framedCapture.ready = [[7, 0, 0, 0, 255, 255, 255], [5, 0, 0, 0, 9]].flatten ++ [1] := rfl
  have hdeclares : Declares 64 framedCapture.ready 7 := ⟨by decide, by decide, by decide, by decide⟩
  have hwithin : ∀ declared, Declares 64 framedCapture.ready declared → declared ≤ 30 - 23 := by
    intro declared hdeclared
    exact Nat.le_of_eq (Int.ofNat.inj (hdeclared.length.symm.trans hdeclares.length))
  obtain ⟨_, hroom⟩ := hbounded 25 30 framedCapture
  obtain ⟨_, hfits⟩ := hbounded 23 30 framedCapture
  obtain ⟨received, hreceived, hreception, hposition, _⟩ :=
    hframes _ [1] ⟨framedCapture, none⟩ ⟨64, 64⟩ hframed hready 1 (by decide)
  exact ⟨hframed, hready, (hroom (by decide)).1 7 hdeclares (by decide), (hfits (by decide)).2 hwithin, received, hreceived,
    hreception, hposition⟩

end Session

end ReplyCapture
