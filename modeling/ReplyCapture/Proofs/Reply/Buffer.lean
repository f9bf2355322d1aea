import ReplyCapture.Proofs.Reply.Message

namespace ReplyCapture

/-- A source that does not fail delivers up to its end. -/
theorem Source.failure_collect {source : Source} (hending : source.ending = none) (want : Nat) :
    (source.collect want).failure = none := by
  by_cases hwant : want ≤ source.ready.length
  · rw [collect_of_le hwant]
  · rw [collect_of_lt (Nat.lt_of_not_le hwant), hending]

namespace Reading

/-- Where the source does not fail, what is passed over after a reading does not change the reading's result. -/
theorem Stepwise.result_orSkip {α : Type} {reports : MessageError → Prop} {reading : Reading α}
    (hsteps : Stepwise reports reading) (size : Nat) {source : Source} (hending : source.ending = none) :
    ((reading.orSkip size).run source).result = (reading.run source).result := by
  have hafter := hsteps.ending_run source
  rcases hrun : reading.run source with ⟨cause | value, after, log⟩
  · -- A skip that meets no failure keeps the cause, however few bytes it passes over.
    rw [hrun, hending] at hafter
    simp only [orSkip, hrun, Outcome.skipRest, Source.failure_collect hafter]
    split <;> rfl
  · rw [run_orSkip_of_ok size hrun]

end Reading

namespace Reply

open Reading

/-- A header that is refused twice over: for its operation, which is not the one that is read, and for its length. -/
structure DoublyRefused (limits : Limits) (buffer : Bytes) (header : Header) : Prop where
  front : ∃ body, Header.parse buffer = .ok (header, body)
  code : header.opCode ≠ .commandReply
  size : ∃ error, header.bodySize limits = .error error

/-- A body in a buffer under a length that is not accepted is refused for the length. -/
theorem result_parseBody_of_misdeclared {header : Header} {limits : Limits} {error : MessageError}
    (hcode : header.opCode = .commandReply) (hsize : header.bodySize limits = .error error) (body : Bytes) :
    (parseBody header body limits).result = .error error := by
  have hrun : (readBody header limits).run (Source.ofBytes body) = ⟨.error error, Source.ofBytes body, []⟩ := by
    rw [readBody, if_neg (not_not_intro hcode), run_bind_of_error (run_ofExcept hsize _)]
  rw [parseBody, run_whole_of_error hrun]

/-- Behind a header with an accepted length, a source that does not fail gives what its bytes give in a buffer. -/
theorem result_read_of_declared {header : Header} {limits : Limits} {source : Source} {size : Nat} {body : Bytes}
    (hready : source.ready = header.encode ++ body) (hending : source.ending = none)
    (hsize : header.bodySize limits = .ok size) :
    ((read limits).run source).result = ((readBody header limits).run (Source.ofBytes body)).result := by
  have hheader : header.encode <+: source.ready := ⟨body, hready.symm⟩
  have hlength := hheader.length_le
  rw [Header.length_encode] at hlength
  have halike : (source.past Header.size).Alike (Source.ofBytes body) := by
    constructor
    · rw [Source.ready_past hlength, hready, Source.ready_ofBytes]
      exact List.drop_left' header.length_encode
    · rw [Source.ending_past hlength, hending]
      rfl
  obtain ⟨result, _, _, _, _, hrun, hother, _⟩ := (stepwise_readBody header limits).uniform _ _ halike
  have hstop : (source.past Header.size).ending = none := (Source.ending_past hlength).trans hending
  rw [run_read_of_declared hheader hsize, (stepwise_readBody header limits).result_orSkip size hstop, hrun, hother]

/-- Under an accepted length, the error of a source that does not fail is that of its bytes in a buffer. -/
theorem result_parseBody_of_declared {header : Header} {limits : Limits} {source : Source} {size : Nat} {body : Bytes}
    {error : MessageError} (hready : source.ready = header.encode ++ body) (hending : source.ending = none)
    (hsize : header.bodySize limits = .ok size) (herror : ((read limits).run source).result = .error error) :
    (parseBody header body limits).result = .error error := by
  rw [result_read_of_declared hready hending hsize] at herror
  rcases hrun : (readBody header limits).run (Source.ofBytes body) with ⟨result, after, log⟩
  rw [hrun] at herror
  obtain rfl := herror
  rw [parseBody, run_whole_of_error hrun]

/-- Unless a header is refused twice over, the error of a source that does not fail is that of its bytes in a buffer. -/
theorem parse_eq_error_of_read {limits : Limits} {source : Source} {error : MessageError}
    (hending : source.ending = none) (hlength : Header.size ≤ source.ready.length)
    (hrefused : ∀ header, ¬ DoublyRefused limits source.ready header)
    (herror : ((read limits).run source).result = .error error) : (parse source.ready limits).result = .error error := by
  obtain ⟨messageLength, requestId, responseTo, opWord, body, hbytes⟩ := Header.exists_eq_words hlength
  have hparse := Header.parse_words messageLength requestId responseTo opWord body
  rw [← hbytes, Header.parseOpCode] at hparse
  cases hcode : OpCode.ofWord? opWord with
  | none =>
    -- Both stop at the last word of the header, before the length is looked at.
    rw [hcode] at hparse
    rw [run_read_of_unknown ⟨body, hbytes.symm⟩ hcode] at herror
    rw [parse, hparse]
    exact herror
  | some code =>
    rw [hcode] at hparse
    have hready := Header.parse_eq_ok_iff.mp hparse
    rw [parse, hparse]
    cases hsize : (Header.mk messageLength requestId responseTo code).bodySize limits with
    | ok size => exact result_parseBody_of_declared hready hending hsize herror
    | error cause =>
      -- The length is refused, so the operation is not, and the buffer tells of the length as well.
      have hreply : code = .commandReply := by
        apply Decidable.byContradiction
        intro hforeign
        exact hrefused _ ⟨⟨body, hparse⟩, hforeign, cause, hsize⟩
      rw [run_read_of_misdeclared ⟨body, hready.symm⟩ hsize] at herror
      obtain rfl := Except.error.inj herror
      exact result_parseBody_of_misdeclared hreply hsize body

/-- A buffer and a source that delivers its bytes and does not fail give the same. Where the bytes are too few for a
    header, each says so in its own way. Where a header is refused twice over, the buffer tells of the operation and
    the source of the length. Everywhere else the error of the source is that of the buffer, and a reply from the source
    is that from the buffer too, unless bytes are left behind its message, of which only the buffer tells. -/
theorem parse_agrees_with_read {limits : Limits} {buffer : Bytes} {source : Source} (hready : source.ready = buffer)
    (hending : source.ending = none) :
    (buffer.length < Header.size →
      (parse buffer limits).result = .error .shortBuffer ∧
        ((read limits).run source).result = .error (.truncated Header.size buffer.length)) ∧
    (∀ header, DoublyRefused limits buffer header →
      (parse buffer limits).result = .error (.unexpectedOpCode header.opCode) ∧
        ((read limits).run source).result =
          .error (.lengthOutOfBounds (LittleEndian.signed header.messageLength))) ∧
    (Header.size ≤ buffer.length → (∀ header, ¬ DoublyRefused limits buffer header) →
      (∀ error, ((read limits).run source).result = .error error → (parse buffer limits).result = .error error) ∧
      ∀ reply, ((read limits).run source).result = .ok reply →
        (∃ body, Header.parse buffer = .ok (reply.header, body)) ∧
          reply.header.messageLength.toNat ≤ buffer.length ∧
          (buffer.length = reply.header.messageLength.toNat → (parse buffer limits).result = .ok reply) ∧
          (reply.header.messageLength.toNat < buffer.length →
            (parse buffer limits).result =
              .error (.trailingBytes (buffer.length - reply.header.messageLength.toNat)))) := by
  obtain rfl := hready
  refine ⟨?short, ?refused, ?otherwise⟩
  case short =>
    intro hshort
    refine ⟨by rw [parse, Header.parse_of_short hshort], ?_⟩
    rw [read, run_bind_of_error (Header.run_read_of_short hshort), Source.shortage, hending]
  case refused =>
    intro header hrefused
    obtain ⟨⟨body, hparse⟩, hcode, error, hsize⟩ := hrefused
    have hheader : header.encode <+: source.ready := ⟨body, (Header.parse_eq_ok_iff.mp hparse).symm⟩
    constructor
    · rw [parse, hparse]
      exact result_parseBody_of_foreign hcode body limits
    · rw [run_read_of_misdeclared hheader hsize, Header.bodySize_eq_error hsize]
  case otherwise =>
    intro hlength hrefused
    refine ⟨fun error herror => parse_eq_error_of_read hending hlength hrefused herror, ?_⟩
    intro reply hreply
    obtain ⟨message, ⟨rest, hrest⟩, hcarries, _⟩ := (accepts_read limits _ _ _).mp (gives_of_result hreply)
    have hparse := hcarries.parse_append rest
    rw [hcarries.length_message, ← hrest, List.length_append, Nat.add_sub_cancel_left]
    refine ⟨⟨reply.encodeBody ++ rest, ?_⟩, Nat.le_add_right _ _, ?_, ?_⟩
    · rw [Header.parse_eq_ok_iff, ← List.append_assoc, ← hcarries.bytes]
    · intro hall
      have hnone : rest = [] := List.eq_nil_of_length_eq_zero (by omega)
      rw [hparse, hnone]
      rfl
    · intro hmore
      have hsome : ¬ rest.isEmpty = true := by
        rw [List.isEmpty_iff_length_eq_zero]
        omega
      rw [hparse, if_neg hsome]

/-- A reply of two empty documents and one byte of the next message, which come three bytes at a time and with an
    interruption. -/
def overlongCapture : Source :=
  { pending := [26, 0, 0, 0, 7, 0, 0, 0, 8, 0, 0, 0, 219, 7, 0, 0, 5, 0, 0, 0, 0, 5, 0, 0, 0, 0, 9], chunk := some 3,
    interrupts := [20] }

theorem parse_agrees_with_read_overlong :
    overlongCapture.ready = overlongCapture.pending ∧ overlongCapture.ending = none ∧
      (∀ header, ¬ DoublyRefused ⟨64, 64⟩ overlongCapture.pending header) ∧
      (parse overlongCapture.pending ⟨64, 64⟩).result = .error (.trailingBytes 1) := by
  have hready : overlongCapture.ready = overlongCapture.pending := rfl
  have hending : overlongCapture.ending = none := rfl
  have hrefused : ∀ header, ¬ DoublyRefused ⟨64, 64⟩ overlongCapture.pending header := by
    intro header hrefused
    obtain ⟨⟨body, hparse⟩, hcode, _⟩ := hrefused
    cases hparse
    exact hcode rfl
  have hreply : ((read ⟨64, 64⟩).run overlongCapture).result =
      .ok (ofDocuments ⟨26, 7, 8, .commandReply⟩ ⟨[5, 0, 0, 0, 0]⟩ ⟨[5, 0, 0, 0, 0]⟩ []) := by rfl
  obtain ⟨_, _, hagrees⟩ := parse_agrees_with_read hready hending
  obtain ⟨_, hbehind⟩ := hagrees (by decide) hrefused
  obtain ⟨_, _, _, hleft⟩ := hbehind _ hreply
  exact ⟨hready, hending, hrefused, hleft (by decide)⟩

end Reply

end ReplyCapture
