import ReplyCapture.Proofs.Reply.Body
import ReplyCapture.Session

namespace ReplyCapture

/-- Whatever comes of passing over the rest, the source is where collecting the rest leaves it. -/
theorem Outcome.source_skipRest {α : Type} (outcome : Outcome α) (rest : Nat) (cause : MessageError) :
    (outcome.skipRest rest cause).source = (outcome.source.collect rest).source := by
  unfold skipRest
  simp only
  split <;> rfl

namespace Reading

variable {α : Type} {reading : Reading α} {source after : Source} {log : List Event}

/-- A buffer must end where the reading stops. What is left over is counted, and the source stays there. -/
theorem run_whole_of_ok {value : α} (hrun : reading.run source = ⟨.ok value, after, log⟩) :
    reading.whole.run source =
      if after.pending.isEmpty then ⟨.ok value, after, log⟩
      else ⟨.error (.trailingBytes after.pending.length), after, log⟩ := by
  rw [whole, run_bind_of_ok hrun]
  split
  · next hempty =>
    have hend : atEnd.run after = ⟨.ok (), after, []⟩ := by simp only [atEnd, if_pos hempty]
    rw [run_bind_of_ok hend]
    simp only [run_pure, List.append_nil]
  · next hleft =>
    have hend : atEnd.run after = ⟨.error (.trailingBytes after.pending.length), after, []⟩ := by
      simp only [atEnd, if_neg hleft]
    rw [run_bind_of_error hend, List.append_nil]

theorem run_whole_of_error {error : MessageError} (hrun : reading.run source = ⟨.error error, after, log⟩) :
    reading.whole.run source = ⟨.error error, after, log⟩ := by
  rw [whole, run_bind_of_error hrun]

/-- A reading that succeeds is not followed by a skip. -/
theorem run_orSkip_of_ok {value : α} (size : Nat) (hrun : reading.run source = ⟨.ok value, after, log⟩) :
    (reading.orSkip size).run source = ⟨.ok value, after, log⟩ := by
  simp only [orSkip, hrun]

/-- What a failure that is not passed over leaves is left. -/
theorem run_orSkip_of_lost {cause : MessageError} (size : Nat) (hrun : reading.run source = ⟨.error cause, after, log⟩)
    (hlost : cause.keepsFraming = false) : (reading.orSkip size).run source = ⟨.error cause, after, log⟩ := by
  simp only [orSkip, hrun, hlost, Bool.false_eq_true, if_false]

/-- Behind a failure that leaves the message of no use, as much is passed over as the reading did not take. -/
theorem run_orSkip_of_kept {cause : MessageError} {count : Nat} (size : Nat)
    (hrun : reading.run source = ⟨.error cause, after, log⟩) (hkeeps : cause.keepsFraming = true)
    (hplace : after.position = source.position + count) :
    (reading.orSkip size).run source = (Outcome.mk (.error cause) after log).skipRest (size - count) cause := by
  have hcount : after.position - source.position = count := by omega
  simp only [orSkip, hrun, hkeeps, if_true, hcount]

/-- What a reading left of a message that is of no use is passed over. -/
theorem run_orSkip_of_error {cause : MessageError} {count size : Nat}
    (hrun : reading.run source = ⟨.error cause, source.past count, log⟩) (hkeeps : cause.keepsFraming = true)
    (hcount : count ≤ size) (hsize : size ≤ source.ready.length) :
    (reading.orSkip size).run source =
      ⟨.error cause, source.past size, log ++ [.skipped (size - count) cause]⟩ := by
  have hleft : size - count ≤ (source.past count).ready.length := by
    rw [Source.length_ready_past (by omega)]
    omega
  rw [run_orSkip_of_kept size hrun hkeeps (Source.position_past source count)]
  simp only [Outcome.skipRest, Source.collect_of_le hleft, List.length_take_of_le hleft, Source.past_past,
    Nat.add_sub_cancel' hcount]

end Reading

namespace Reply

open Reading

/-- A body is read by its own bytes alone: neither a reply nor an unreadable document depends on what
    follows. -/
theorem local_readBody (header : Header) (limits : Limits) : Local (readBody header limits) :=
  (stepwise_readBody header limits).isLocal

/-- Nothing is read of the body of another operation. -/
theorem run_readBody_of_foreign {header : Header} (hcode : header.opCode ≠ .commandReply) (limits : Limits)
    (source : Source) :
    (readBody header limits).run source = ⟨.error (.unexpectedOpCode header.opCode), source, []⟩ := by
  rw [readBody, if_pos hcode]
  rfl

theorem result_parseBody_of_foreign {header : Header} (hcode : header.opCode ≠ .commandReply) (body : Bytes)
    (limits : Limits) : (parseBody header body limits).result = .error (.unexpectedOpCode header.opCode) := by
  rw [parseBody, run_whole_of_error (run_readBody_of_foreign hcode limits _)]

/-- Where the last word of a header names no operation, nothing but the header is read. -/
theorem run_read_of_unknown {limits : Limits} {source : Source} {messageLength requestId responseTo opWord : UInt32}
    (hready : Header.words messageLength requestId responseTo opWord <+: source.ready)
    (hunknown : OpCode.ofWord? opWord = none) :
    (read limits).run source = ⟨.error (.unknownOpCode opWord), source.past Header.size, []⟩ := by
  have hread := Header.run_read_of_words hready
  rw [Header.parseOpCode, hunknown] at hread
  rw [read, run_bind_of_error hread]

/-- Under a length that is not accepted, nothing but the header is read. -/
theorem run_read_of_misdeclared {header : Header} {limits : Limits} {source : Source} {error : MessageError}
    (hready : header.encode <+: source.ready) (hsize : header.bodySize limits = .error error) :
    (read limits).run source = ⟨.error error, source.past Header.size, []⟩ := by
  rw [read, run_bind_of_ok (Header.run_read_of_encode hready), run_bind_of_error (run_ofExcept hsize _)]
  rfl

/-- Behind a header with an accepted length, the body of that length is read or passed over. -/
theorem run_read_of_declared {header : Header} {limits : Limits} {source : Source} {size : Nat}
    (hready : header.encode <+: source.ready) (hsize : header.bodySize limits = .ok size) :
    (read limits).run source = ((readBody header limits).orSkip size).run (source.past Header.size) := by
  rw [read, run_bind_of_ok (Header.run_read_of_encode hready), run_bind_of_ok (run_ofExcept hsize _)]
  rfl

/-- A message that is all there. Its header declares its own bytes and an accepted length, and a command reply
    is either read or has a document that cannot be read. -/
def Complete (limits : Limits) (message : Bytes) : Prop :=
  ∃ header body, Header.parse message = .ok (header, body) ∧ header.messageLength.toNat = message.length ∧
    (∃ size, header.bodySize limits = .ok size) ∧
    (header.opCode = .commandReply →
      (∃ reply, (parse message limits).result = .ok reply) ∨
        ∃ cause, (parse message limits).result = .error (.malformed cause))

/-- What is made of a body in a buffer of its own is made of it in front of anything else, and it is used up
    where it gives a reply. -/
theorem run_readBody_of_parseBody {header : Header} {limits : Limits} {body : Bytes} {source : Source}
    (hresult : (∃ reply, (parseBody header body limits).result = .ok reply) ∨
      ∃ cause, (parseBody header body limits).result = .error (.malformed cause))
    (hready : body <+: source.ready) :
    ∃ count log, count ≤ body.length ∧
      (readBody header limits).run source = ⟨(parseBody header body limits).result, source.past count, log⟩ ∧
      ((∃ reply, (parseBody header body limits).result = .ok reply) → count = body.length) := by
  obtain ⟨error, herror, hshortage⟩ | ⟨front, result, log, hfront, hsame⟩ :=
    local_readBody header limits (Source.ofBytes body)
  · -- A shortage is an error of the whole buffer, and neither a reply nor an unreadable document.
    have hwhole : (parseBody header body limits).result = .error error := by
      rcases hrun : (readBody header limits).run (Source.ofBytes body) with ⟨result, after, log⟩
      rw [hrun] at herror
      simp only at herror
      rw [parseBody, run_whole_of_error (herror ▸ hrun)]
    rw [hwhole] at hresult
    obtain ⟨reply, hreply⟩ | ⟨cause, hcause⟩ := hresult
    · cases hreply
    · obtain rfl := Except.error.inj hcause
      exact hshortage.elim
  · have hbody := hsame (Source.ofBytes body) hfront
    rw [Source.ready_ofBytes] at hfront
    have hsource := hsame source (hfront.trans hready)
    cases result with
    | error error =>
      have hwhole : (parseBody header body limits).result = .error error := by
        rw [parseBody, run_whole_of_error hbody]
      refine ⟨front.length, log, hfront.length_le, by rw [hwhole, hsource], ?_⟩
      intro hreply
      obtain ⟨reply, hreply⟩ := hreply
      rw [hwhole] at hreply
      cases hreply
    | ok reply =>
      have hwhole := run_whole_of_ok hbody
      rw [← parseBody, Source.pending_past] at hwhole
      by_cases hend : ((Source.ofBytes body).pending.drop front.length).isEmpty
      · rw [if_pos hend] at hwhole
        refine ⟨front.length, log, hfront.length_le, by rw [hwhole, hsource], ?_⟩
        intro _
        have hempty := List.drop_eq_nil_iff.mp (List.isEmpty_iff.mp hend)
        exact Nat.le_antisymm hfront.length_le hempty
      · rw [if_neg hend] at hwhole
        rw [hwhole] at hresult
        obtain ⟨reply, hreply⟩ | ⟨cause, hcause⟩ := hresult
        · cases hreply
        · cases hcause

/-- A body in front of anything else gives what it gives alone, and all of it is taken or passed over. -/
theorem run_orSkip_of_parseBody {header : Header} {limits : Limits} {body : Bytes} {source : Source}
    (hresult : header.opCode = .commandReply →
      (∃ reply, (parseBody header body limits).result = .ok reply) ∨
        ∃ cause, (parseBody header body limits).result = .error (.malformed cause))
    (hready : body <+: source.ready) :
    (((readBody header limits).orSkip body.length).run source).result = (parseBody header body limits).result ∧
      (((readBody header limits).orSkip body.length).run source).source = source.past body.length := by
  by_cases hcode : header.opCode = .commandReply
  · have hresult := hresult hcode
    obtain ⟨count, log, hcount, hrun, hend⟩ := run_readBody_of_parseBody hresult hready
    obtain ⟨reply, hreply⟩ | ⟨cause, hcause⟩ := hresult
    · obtain rfl := hend ⟨reply, hreply⟩
      rw [hreply] at hrun ⊢
      rw [run_orSkip_of_ok body.length hrun]
      exact ⟨rfl, rfl⟩
    · rw [hcause] at hrun ⊢
      rw [run_orSkip_of_error hrun rfl hcount hready.length_le]
      exact ⟨rfl, rfl⟩
  · have hrun : (readBody header limits).run source = ⟨.error (.unexpectedOpCode header.opCode), source.past 0, []⟩ := by
      rw [run_readBody_of_foreign hcode, Source.past_zero]
    rw [run_orSkip_of_error hrun rfl (Nat.zero_le _) hready.length_le, result_parseBody_of_foreign hcode]
    exact ⟨rfl, rfl⟩

/-- One call on a source that starts with a complete message gives what the message alone gives, and stops
    behind it. -/
theorem run_read_of_complete {limits : Limits} {message : Bytes} {source : Source}
    (hcomplete : Complete limits message) (hready : message <+: source.ready) :
    ((read limits).run source).result = (parse message limits).result ∧
      ((read limits).run source).source = source.past message.length := by
  obtain ⟨header, body, hparse, hlength, ⟨size, hsize⟩, hresult⟩ := hcomplete
  have hbody : parse message limits = parseBody header body limits := by rw [parse, hparse]
  rw [hbody] at hresult ⊢
  obtain rfl := Header.parse_eq_ok_iff.mp hparse
  rw [append_prefix_ready_iff, Header.length_encode] at hready
  obtain ⟨hheader, hrest⟩ := hready
  rw [List.length_append, Header.length_encode] at hlength ⊢
  have hdeclared := (Header.bodySize_eq_ok_iff.mp hsize).1
  obtain rfl : size = body.length := by
    simp only [Header.size] at hlength
    omega
  obtain ⟨hsame, hafter⟩ := run_orSkip_of_parseBody hresult hrest
  rw [run_read_of_declared hheader hsize]
  refine ⟨hsame, ?_⟩
  rw [hafter, Source.past_past]

end Reply

namespace Session

open Reply

/-- The run of calls on complete messages, from any place of a source and whatever follows them. -/
theorem callAll_of_complete {limits : Limits} {messages : List Bytes} {session : Session}
    (hcomplete : ∀ message ∈ messages, Complete limits message) (hready : messages.flatten <+: session.source.ready)
    {index : Nat} (hindex : index < messages.length) :
    ∃ received, (session.callAll limits (List.replicate messages.length .message))[index]? = some received ∧
      received.reception = .reply (parse messages[index] limits).result ∧
      received.session.source = session.source.past (messages.take (index + 1)).flatten.length := by
  induction messages generalizing session index with
  | nil => cases hindex
  | cons message messages ih =>
    simp only [List.mem_cons, forall_eq_or_imp] at hcomplete
    obtain ⟨hfirst, hothers⟩ := hcomplete
    rw [List.flatten_cons, Reading.append_prefix_ready_iff] at hready
    obtain ⟨hmessage, hrest⟩ := hready
    obtain ⟨hresult, hafter⟩ := run_read_of_complete hfirst hmessage
    simp only [List.length_cons, List.replicate_succ, callAll, call, run]
    cases index with
    | zero =>
      refine ⟨_, rfl, ?_, ?_⟩
      · simp only [hresult, List.getElem_cons_zero]
      · simp only [hafter, List.take_succ_cons, List.take_zero, List.flatten_cons, List.flatten_nil, List.append_nil]
    | succ index =>
      rw [← hafter] at hrest
      have hlater : messages.flatten <+:
          ({ session with source := ((Reply.read limits).run session.source).source } : Session).source.ready := hrest
      obtain ⟨received, hreceived, hreception, hplace⟩ := ih hothers hlater (Nat.lt_of_succ_lt_succ hindex)
      refine ⟨received, hreceived, hreception, ?_⟩
      simp only [hafter, Source.past_past] at hplace
      rw [hplace, List.take_succ_cons, List.flatten_cons, List.length_append]

/-- Calls stay aligned with the messages of a capture. However many complete messages come one after the other,
    whether they are replies, hold unreadable documents or carry other operations, and whatever follows them, each
    call gives what its message alone gives and stops exactly behind it. -/
theorem callAll_aligned {limits : Limits} {messages : List Bytes} {suffix : Bytes} {session : Session}
    (hcomplete : ∀ message ∈ messages, Complete limits message)
    (hready : session.source.ready = messages.flatten ++ suffix) {index : Nat} (hindex : index < messages.length) :
    ∃ received, (session.callAll limits (List.replicate messages.length .message))[index]? = some received ∧
      received.reception = .reply (parse messages[index] limits).result ∧
      received.session.source.position = session.source.position + (messages.take (index + 1)).flatten.length ∧
      received.session.source.ready = (messages.drop (index + 1)).flatten ++ suffix := by
  have hprefix : messages.flatten <+: session.source.ready := ⟨suffix, hready.symm⟩
  obtain ⟨received, hreceived, hreception, hplace⟩ := callAll_of_complete hcomplete hprefix hindex
  have hsplit : messages.flatten = (messages.take (index + 1)).flatten ++ (messages.drop (index + 1)).flatten := by
    rw [← List.flatten_append, List.take_append_drop]
  have hwithin : (messages.take (index + 1)).flatten.length ≤ session.source.ready.length := by
    rw [hready, hsplit, List.append_assoc, List.length_append]
    exact Nat.le_add_right _ _
  refine ⟨received, hreceived, hreception, ?_, ?_⟩
  · rw [hplace, Source.position_past]
  · rw [hplace, Source.ready_past hwithin, hready, hsplit, List.append_assoc, List.drop_left]

/-- A reply of two empty documents, another operation, and a reply whose second document does not end. -/
def mixedCapture : List Bytes :=
  [[26, 0, 0, 0, 7, 0, 0, 0, 8, 0, 0, 0, 219, 7, 0, 0, 5, 0, 0, 0, 0, 5, 0, 0, 0, 0],
    [18, 0, 0, 0, 7, 0, 0, 0, 8, 0, 0, 0, 221, 7, 0, 0, 1, 2],
    [26, 0, 0, 0, 7, 0, 0, 0, 8, 0, 0, 0, 219, 7, 0, 0, 5, 0, 0, 0, 0, 5, 0, 0, 0, 1]]

/-- Messages of three kinds come three bytes at a time, with an interruption among them and a byte behind. -/
theorem callAll_aligned_mixed :
    (∀ message ∈ mixedCapture, Complete ⟨64, 64⟩ message) ∧
      ∃ received,
        (callAll ⟨{ pending := mixedCapture.flatten ++ [9], chunk := some 3, interrupts := [20] }, none⟩ ⟨64, 64⟩
          (List.replicate 3 .message))[2]? = some received ∧ received.session.source.position = 70 := by
  have hcomplete : ∀ message ∈ mixedCapture, Complete ⟨64, 64⟩ message := by
    intro message hmessage
    simp only [mixedCapture, List.mem_cons, List.not_mem_nil, or_false] at hmessage
    obtain rfl | rfl | rfl := hmessage
    · exact ⟨⟨26, 7, 8, .commandReply⟩, _, rfl, rfl, ⟨_, rfl⟩, fun _ => .inl ⟨_, rfl⟩⟩
    · exact ⟨⟨18, 7, 8, .msg⟩, _, rfl, rfl, ⟨_, rfl⟩, fun hcode => nomatch hcode⟩
    · exact ⟨⟨26, 7, 8, .commandReply⟩, _, rfl, rfl, ⟨_, rfl⟩, fun _ => .inr ⟨_, rfl⟩⟩
  have hready : (Session.mk { pending := mixedCapture.flatten ++ [9], chunk := some 3, interrupts := [20] }
      none).source.ready = mixedCapture.flatten ++ [9] := rfl
  have hlast : 2 < mixedCapture.length := by decide
  obtain ⟨received, hreceived, _, hposition, _⟩ := callAll_aligned hcomplete hready hlast
  exact ⟨hcomplete, received, hreceived, hposition⟩

end Session

end ReplyCapture
