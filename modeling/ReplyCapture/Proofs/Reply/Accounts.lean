import ReplyCapture.Proofs.Message.Bounded
import ReplyCapture.Proofs.Reply.Message

namespace ReplyCapture

namespace Event

/-- The bytes of the document that a line says was framed. -/
def framedSize? : Event → Option Nat
  | .framed size => some size
  | _ => none

/-- The bytes that a line says were passed over. -/
def skippedCount? : Event → Option Nat
  | .skipped count _ => some count
  | _ => none

/-- A line as it is written out: how much it matters, and its text. -/
def entry (event : Event) : Level × String :=
  (event.level, event.message)

end Event

/-- Behind input that ends too early, no message can follow. -/
theorem MessageError.keepsFraming_of_isShortage {error : MessageError} (hshortage : error.IsShortage) :
    error.keepsFraming = false := by
  cases error with
  | malformed _ => exact hshortage.elim
  | unexpectedOpCode _ => exact hshortage.elim
  | _ => rfl

namespace Frame

open Reading

variable {limit consumed expected : Nat} {source : Source}

/-- The lines about documents that are framed one after the other. -/
def lines (documents : List Bytes) : List Event :=
  documents.map fun document => .framed document.length

/-- The lines about documents that are framed one after the other, written out: each is traced with its length. -/
def entries (documents : List Bytes) : List (Level × String) :=
  documents.map fun document => (.trace, "read document of " ++ toString document.length ++ " bytes")

@[simp]
theorem map_entry_lines (documents : List Bytes) : (lines documents).map Event.entry = entries documents := by
  rw [lines, List.map_map]
  rfl

/-- Of a log that starts with lines about documents, these are what tells of framing if nothing behind them does. -/
theorem map_entry_filter_lines_append (documents : List Bytes) {tail : List Event}
    (hnone : (tail.filter fun event => event.framedSize?.isSome) = []) :
    ((lines documents ++ tail).filter fun event => event.framedSize?.isSome).map Event.entry = entries documents := by
  have hall : ((lines documents).filter fun event => event.framedSize?.isSome) = lines documents := by
    simp [lines, List.filter_eq_self, Event.framedSize?]
  rw [List.filter_append, hall, hnone, List.append_nil, map_entry_lines]

@[simp]
theorem filterMap_framedSize?_lines (documents : List Bytes) :
    (lines documents).filterMap Event.framedSize? = documents.map List.length := by
  simp [lines, List.filterMap_map, Function.comp_def, Event.framedSize?]

@[simp]
theorem filterMap_skippedCount?_lines (documents : List Bytes) :
    (lines documents).filterMap Event.skippedCount? = [] := by
  simp [lines, List.filterMap_map, Function.comp_def, Event.skippedCount?]

/-- Framing within a body loses the framing, or it takes a framed document and tells of it. -/
theorem lost_or_framed (limit consumed expected : Nat) (source : Source) :
    (∃ error after log, (nextWithin limit consumed expected).run source = ⟨.error error, after, log⟩ ∧
      error.keepsFraming = false) ∨
    ∃ document, document <+: source.ready ∧ Framed limit document ∧
      (nextWithin limit consumed expected).run source =
        ⟨.ok document, source.past document.length, lines [document]⟩ := by
  unfold nextWithin
  simp only
  split
  · exact .inl ⟨_, _, _, rfl, rfl⟩
  by_cases hfront : lengthSize ≤ source.ready.length
  · rw [run_bind_of_ok (run_exactly_of_le hfront)]
    cases hallowed : allowedLength limit (source.ready.take lengthSize) with
    | error error =>
      obtain rfl := allowedLength_eq_error hallowed
      rw [run_bind_of_error (run_ofExcept rfl _)]
      exact .inl ⟨_, _, _, rfl, rfl⟩
    | ok declared =>
      have hdeclares := declares_iff_allowedLength.mpr ⟨hfront, hallowed⟩
      have hleast := hdeclares.least
      rw [run_bind_of_ok (run_ofExcept rfl _)]
      split
      · exact .inl ⟨_, _, _, rfl, rfl⟩
      rw [run_completed, Source.ready_past hfront, List.length_drop]
      split
      · next hrest =>
        have hwhole : declared ≤ source.ready.length := by omega
        have hsplit : lengthSize + (declared - lengthSize) = declared := by
          rw [lengthSize]
          omega
        have htaken := List.length_take_of_le hwhole
        refine .inr ⟨source.ready.take declared, List.take_prefix _ _, hdeclares.framed hwhole, ?_⟩
        rw [Source.past_past, ← List.take_add, hsplit, lines, List.map_singleton, htaken]
        rfl
      · refine .inl ⟨_, _, _, rfl, ?_⟩
        exact MessageError.keepsFraming_of_isShortage (isShortage_wholeShortage _ (Source.isShortage_shortage _ _))
  · refine .inl ⟨_, _, _, run_bind_of_error (run_exactly_of_lt (Nat.lt_of_not_le hfront)), ?_⟩
    exact MessageError.keepsFraming_of_isShortage (Source.isShortage_shortage _ _)

end Frame

namespace Reading

variable {α β : Type} {limit : Nat} {reading : Reading α} {next : α → Reading β}

/-- What comes of reading documents. For some documents, `given` says which value is given and which lines are logged
    behind those about the documents. -/
inductive Account (limit : Nat) (given : List Bytes → α → List Event → Prop) (source : Source) : Outcome α → Prop
  /-- The framing is lost. -/
  | lost {error : MessageError} {after : Source} {log : List Event} (hlost : error.keepsFraming = false) :
      Account limit given source ⟨.error error, after, log⟩
  /-- Documents are framed one after the other and told of. -/
  | read {documents : List Bytes} {value : α} {after : Source} {log tail : List Event}
      (hframed : ∀ document ∈ documents, Frame.Framed limit document) (hready : documents.flatten <+: source.ready)
      (hgiven : given documents value tail) (hafter : after = source.past documents.flatten.length)
      (hlog : log = Frame.lines documents ++ tail) : Account limit given source ⟨.ok value, after, log⟩
  /-- The last of the documents cannot be read, and is shown. -/
  | spoiled {documents : List Bytes} {last : Bytes} {cause : DecodeError} {after : Source} {log : List Event}
      (hframed : ∀ document ∈ documents, Frame.Framed limit document) (hready : documents.flatten <+: source.ready)
      (hlast : documents.getLast? = some last) (hcause : RawDocument.ofBytes last = .error cause)
      (hafter : after = source.past documents.flatten.length)
      (hlog : log = Frame.lines documents ++ [.malformed last]) :
      Account limit given source ⟨.error (.malformed cause), after, log⟩

/-- A reading of documents tells of each document that it takes, and takes nothing else. -/
def Accounts (reading : Reading α) (limit : Nat) (given : List Bytes → α → List Event → Prop) : Prop :=
  ∀ source, Account limit given source (reading.run source)

/-- Less may be said of what is given. -/
theorem Accounts.mono {given other : List Bytes → α → List Event → Prop} (hreading : Accounts reading limit given)
    (hmore : ∀ documents value tail, given documents value tail → other documents value tail) :
    Accounts reading limit other := by
  intro source
  have haccount := hreading source
  generalize reading.run source = outcome at haccount
  cases haccount with
  | lost hlost => exact .lost hlost
  | read hframed hready hgiven hafter hlog => exact .read hframed hready (hmore _ _ _ hgiven) hafter hlog
  | spoiled hframed hready hlast hcause hafter hlog => exact .spoiled hframed hready hlast hcause hafter hlog

/-- A reading that leaves every source alone takes no documents. -/
theorem accounts_of_run {value : α} {tail : List Event}
    (hrun : ∀ source, reading.run source = ⟨.ok value, source, tail⟩) :
    Accounts reading limit fun documents found log => log = tail ∧ documents = [] ∧ found = value := by
  intro source
  have hnone : ∀ document ∈ ([] : List Bytes), Frame.Framed limit document := nofun
  rw [hrun]
  exact .read hnone List.nil_prefix ⟨rfl, rfl, rfl⟩ source.past_zero.symm rfl

/-- Documents of a second reading are told of behind those of the first, if the first logs nothing else. -/
theorem Accounts.bind {given : List Bytes → α → Prop} {later : α → List Bytes → β → List Event → Prop}
    (hreading : Accounts reading limit fun documents value tail => tail = [] ∧ given documents value)
    (hnext : ∀ value, Accounts (next value) limit (later value)) :
    Accounts (reading >>= next) limit fun documents result tail =>
      ∃ front back value, documents = front ++ back ∧ given front value ∧ later value back result tail := by
  intro source
  have hfirst := hreading source
  generalize hrun : reading.run source = outcome at hfirst
  cases hfirst with
  | lost hlost =>
    rw [run_bind_of_error hrun]
    exact .lost hlost
  | spoiled hframed hready hlast hcause hafter hlog =>
    rw [run_bind_of_error hrun]
    exact .spoiled hframed hready hlast hcause hafter hlog
  | @read front value after log tail hframed hready hgiven hafter hlog =>
    obtain ⟨rfl, hgiven⟩ := hgiven
    obtain rfl := hafter
    obtain rfl := hlog
    have hsecond := hnext value (source.past front.flatten.length)
    rw [run_bind_of_ok hrun]
    generalize (next value).run (source.past front.flatten.length) = outcome at hsecond
    have hboth {back : List Bytes} (hframedBack : ∀ document ∈ back, Frame.Framed limit document) :
        ∀ document ∈ front ++ back, Frame.Framed limit document := by
      intro document hdocument
      exact (List.mem_append.mp hdocument).elim (hframed document) (hframedBack document)
    have hplace (back : List Bytes) :
        (source.past front.flatten.length).past back.flatten.length = source.past (front ++ back).flatten.length := by
      rw [Source.past_past, List.flatten_append, List.length_append]
    have hfits {back : List Bytes} (hback : back.flatten <+: (source.past front.flatten.length).ready) :
        (front ++ back).flatten <+: source.ready := by
      rw [List.flatten_append]
      exact append_prefix_ready_iff.mpr ⟨hready, hback⟩
    cases hsecond with
    | lost hlost => exact .lost hlost
    | @read back result after log tail hframed hready hlater hafter hlog =>
      refine .read (hboth hframed) (hfits hready) ⟨front, back, value, rfl, hgiven, hlater⟩
        (hafter.trans (hplace back)) ?_
      simp only [hlog, Frame.lines, List.map_append, List.append_nil, List.append_assoc]
    | @spoiled back last cause after log hframed hready hlast hcause hafter hlog =>
      refine .spoiled (hboth hframed) (hfits hready) ?_ hcause (hafter.trans (hplace back)) ?_
      · rw [List.getLast?_append, hlast, Option.some_or]
      · simp only [hlog, Frame.lines, List.map_append, List.append_nil, List.append_assoc]

end Reading

open Reading

/-- A document is kept and told of, or it is shown instead. -/
theorem Frame.accounts_document {α : Type} (limit consumed expected : Nat) (change : Bytes → RawDocument → α) :
    Accounts (nextWithin limit consumed expected >>= fun bytes => keep bytes >>= fun raw => pure (change bytes raw))
      limit fun documents value tail =>
        tail = [] ∧ ∃ raw : RawDocument, documents = [raw.bytes] ∧ value = change raw.bytes raw := by
  intro source
  obtain ⟨error, after, log, hrun, hlost⟩ | ⟨document, hfront, hframed, hrun⟩ :=
    lost_or_framed limit consumed expected source
  · rw [run_bind_of_error hrun]
    exact .lost hlost
  · have hone : ∀ bytes ∈ [document], Framed limit bytes := by
      intro bytes hbytes
      rwa [List.mem_singleton.mp hbytes]
    have hflatten : [document].flatten = document := List.flatten_singleton
    rw [run_bind_of_ok hrun, keep]
    cases hraw : RawDocument.ofBytes document with
    | ok raw =>
      obtain rfl := (RawDocument.ofBytes_eq_ok_iff.mp hraw).2
      exact .read hone (hflatten.symm ▸ hfront) ⟨rfl, ⟨document⟩, rfl, rfl⟩ (by rw [hflatten]; rfl) rfl
    | error cause => exact .spoiled hone (hflatten.symm ▸ hfront) rfl hraw (by rw [hflatten]; rfl) rfl

namespace Reply

variable {limits : Limits} {header : Header} {source : Source} {size : Nat}

/-- The loop over output documents tells of each of them. -/
theorem accounts_outputs (limits : Limits) (expected bound consumed : Nat) :
    Accounts (many (outputStep limits expected) bound consumed) limits.documentSize fun documents outputs tail =>
      tail = [] ∧ documents = outputs.map RawDocument.bytes := by
  have hnone : Accounts (pure []) limits.documentSize fun documents (outputs : List RawDocument) tail =>
      tail = [] ∧ documents = outputs.map RawDocument.bytes := by
    refine (accounts_of_run (run_pure [])).mono fun documents outputs tail hgiven => ?_
    obtain ⟨rfl, rfl, rfl⟩ := hgiven
    exact ⟨rfl, rfl⟩
  induction bound generalizing consumed with
  | zero => exact hnone
  | succ bound ih =>
    rw [many_succ, outputStep]
    split
    · exact hnone
    · next item hitem =>
      split at hitem
      · obtain rfl := Option.some.inj hitem
        have hitem := Frame.accounts_document limits.documentSize consumed expected fun bytes raw =>
          (raw, consumed + bytes.length)
        have hrest (item : RawDocument × Nat) :=
          (ih item.2).bind fun rest => accounts_of_run (run_pure (item.1 :: rest))
        refine (hitem.bind hrest).mono fun documents outputs tail hgiven => ?_
        obtain ⟨_, _, item, rfl, ⟨raw, rfl, rfl⟩, _, _, rest, rfl, rfl, rfl, rfl, rfl⟩ := hgiven
        refine ⟨rfl, ?_⟩
        rw [List.append_nil, List.singleton_append, List.map_cons]
      · cases hitem

/-- A body tells of each of its documents, and where it gives a reply also of that. -/
theorem accounts_readBody (hcode : header.opCode = .commandReply) (hsize : header.bodySize limits = .ok size) :
    Accounts (readBody header limits) limits.documentSize fun documents reply tail =>
      documents = reply.documents.map RawDocument.bytes ∧ tail = [.decoded header reply.returned] := by
  have hdocument (consumed : Nat) : Accounts (Frame.nextWithin limits.documentSize consumed size >>= Frame.keep)
      limits.documentSize fun documents raw tail => tail = [] ∧ documents = [raw.bytes] := by
    have hkept := Frame.accounts_document limits.documentSize consumed size fun _ raw => raw
    simp only [bind_pure] at hkept
    refine hkept.mono fun documents raw tail hgiven => ?_
    obtain ⟨htail, _, rfl, rfl⟩ := hgiven
    exact ⟨htail, rfl⟩
  have hend (commandReply metadata : RawDocument) (outputs : List RawDocument) (source : Source) :
      (record (.decoded header outputs.length) >>= fun _ =>
        pure (ofDocuments header commandReply metadata outputs)).run source =
          ⟨.ok (ofDocuments header commandReply metadata outputs), source, [.decoded header outputs.length]⟩ := rfl
  have hsteps := (hdocument 0).bind fun commandReply => (hdocument commandReply.size).bind fun metadata =>
    (accounts_outputs limits size size (commandReply.size + metadata.size)).bind fun outputs =>
      accounts_of_run (hend commandReply metadata outputs)
  have hstart : ofExcept (header.bodySize limits) = pure size := by
    rw [hsize]
    rfl
  unfold readBody
  rw [if_neg (not_not_intro hcode), hstart, pure_bind]
  refine Accounts.mono hsteps fun documents reply tail hgiven => ?_
  obtain ⟨_, _, commandReply, rfl, rfl, _, _, metadata, rfl, rfl, hgiven⟩ := hgiven
  obtain ⟨_, _, outputs, rfl, rfl, rfl, rfl, rfl⟩ := hgiven
  rw [List.append_nil, List.singleton_append, List.singleton_append]
  exact ⟨rfl, rfl⟩

/-- What is wanted of the outcome of a call on a message whose body has `size` bytes and starts with some documents.
    For each result, the whole log is given line by line, and then as it is written out, with levels and texts. -/
structure Told (limits : Limits) (header : Header) (size : Nat) (documents : List Bytes) (outcome : Outcome Reply) :
    Prop where
  framed : ∀ document ∈ documents, Frame.Framed limits.documentSize document
  lengths : outcome.log.filterMap Event.framedSize? = documents.map List.length
  traced : (outcome.log.filter fun event => event.framedSize?.isSome).map Event.entry = Frame.entries documents
  conserved :
    (outcome.log.filterMap Event.framedSize?).sum + (outcome.log.filterMap Event.skippedCount?).sum = size
  reply : ∀ reply, outcome.result = .ok reply →
    documents = reply.documents.map RawDocument.bytes ∧ documents.length = 2 + reply.returned ∧
      outcome.log = Frame.lines documents ++ [.decoded header reply.returned] ∧
      outcome.log.map Event.entry = Frame.entries documents ++
        [(.debug, "decoded OP_COMMANDREPLY " ++ toString header.requestId.toNat ++ " (response to " ++
          toString header.responseTo.toNat ++ "): " ++ toString header.messageLength.toNat ++ " bytes, " ++
          toString reply.returned ++ " output docs")]
  unreadable : ∀ cause, outcome.result = .error (.malformed cause) →
    ∃ last count, documents.getLast? = some last ∧ RawDocument.ofBytes last = .error cause ∧
      documents.flatten.length + count = size ∧
      outcome.log = Frame.lines documents ++ [.malformed last, .skipped count (.malformed cause)] ∧
      outcome.log.map Event.entry = Frame.entries documents ++
        [(.trace, "malformed document:\n" ++ Hex.dump last),
          (.debug, "skipped " ++ toString count ++ " bytes of unusable message: " ++
            (MessageError.malformed cause).message)]
  foreign : ∀ code, outcome.result = .error (.unexpectedOpCode code) →
    documents = [] ∧ outcome.log = [.skipped size (.unexpectedOpCode code)] ∧
      outcome.log.map Event.entry =
        [(.debug, "skipped " ++ toString size ++ " bytes of unusable message: " ++
          (MessageError.unexpectedOpCode code).message)]

/-- Of a message of another operation, nothing is framed and the whole body is told of as passed over. -/
theorem told_of_foreign (limits : Limits) (header : Header) (size : Nat) (after : Source) :
    Told limits header size []
      ⟨.error (.unexpectedOpCode header.opCode), after, [.skipped size (.unexpectedOpCode header.opCode)]⟩ where
  framed := nofun
  lengths := rfl
  traced := rfl
  conserved := Nat.zero_add size
  reply := nofun
  unreadable := nofun
  foreign := by
    intro code hresult
    cases hresult
    exact ⟨rfl, rfl, rfl⟩

/-- A reply accounts for its body if its documents fill it, in which case nothing is passed over. -/
theorem told_of_reply {reply : Reply} (after : Source)
    (hframed : ∀ raw ∈ reply.documents, Frame.Framed limits.documentSize raw.bytes)
    (hlength : reply.encodeBody.length = size) :
    Told limits header size (reply.documents.map RawDocument.bytes)
      ⟨.ok reply, after, Frame.lines (reply.documents.map RawDocument.bytes) ++ [.decoded header reply.returned]⟩ where
  framed := by
    intro document hdocument
    obtain ⟨raw, hraw, rfl⟩ := List.mem_map.mp hdocument
    exact hframed raw hraw
  lengths := by simp [Event.framedSize?]
  traced := Frame.map_entry_filter_lines_append _ rfl
  conserved := by
    rw [← hlength, encodeBody_eq_flatten, List.length_flatten]
    simp [List.filterMap_cons, Event.framedSize?, Event.skippedCount?]
  reply := by
    intro found hresult
    cases hresult
    refine ⟨rfl, ?_, rfl, ?_⟩
    · rw [List.length_map]
      exact Nat.add_comm _ 2
    · rw [List.map_append, Frame.map_entry_lines]
      rfl
  unreadable := nofun
  foreign := nofun

/-- The unreadable document is framed like those in front of it, so that only what is behind it is passed over. -/
theorem told_of_unreadable {documents : List Bytes} {last : Bytes} {cause : DecodeError} (after : Source)
    (hframed : ∀ document ∈ documents, Frame.Framed limits.documentSize document)
    (hlast : documents.getLast? = some last) (hcause : RawDocument.ofBytes last = .error cause)
    (hwithin : documents.flatten.length ≤ size) :
    Told limits header size documents
      ⟨.error (.malformed cause), after, Frame.lines documents ++ [.malformed last] ++
        [.skipped (size - documents.flatten.length) (.malformed cause)]⟩ where
  framed := hframed
  lengths := by simp [Event.framedSize?]
  traced := by
    rw [List.append_assoc]
    exact Frame.map_entry_filter_lines_append _ rfl
  conserved := by
    rw [List.length_flatten] at hwithin ⊢
    simp [List.filterMap_cons, Event.framedSize?, Event.skippedCount?, hwithin]
  reply := nofun
  unreadable := by
    intro found hresult
    cases hresult
    refine ⟨last, _, hlast, hcause, Nat.add_sub_cancel' hwithin, List.append_assoc _ _ _, ?_⟩
    rw [List.append_assoc, List.map_append, Frame.map_entry_lines]
    rfl
  foreign := nofun

/-- Every byte of a body that is all there is told of, where the body is read or passed over. -/
theorem told_orSkip (hsize : header.bodySize limits = .ok size) (hroom : size ≤ source.ready.length)
    (hresult : ∀ error, (((readBody header limits).orSkip size).run source).result = .error error →
      (∃ cause, error = .malformed cause) ∨ ∃ code, error = .unexpectedOpCode code) :
    ∃ documents, documents.flatten <+: source.ready.take size ∧
      Told limits header size documents (((readBody header limits).orSkip size).run source) := by
  by_cases hcode : header.opCode = .commandReply
  · have haccount := accounts_readBody hcode hsize source
    generalize hbody : (readBody header limits).run source = outcome at haccount
    cases haccount with
    | @lost error after log hlost =>
      have hkept := hresult error (by rw [run_orSkip_of_lost _ hbody hlost])
      obtain ⟨cause, rfl⟩ | ⟨code, rfl⟩ := hkept
      · cases hlost
      · cases hlost
    | @read documents reply after log tail hframed hfront hgiven hafter hlog =>
      obtain ⟨rfl, rfl⟩ := hgiven
      obtain rfl := hlog
      obtain ⟨_, _, ⟨rfl, hcarries⟩, _⟩ := (accepts_body header limits _ reply _).mp ⟨_, hbody⟩
      have hfilled := Except.ok.inj (hcarries.size.symm.trans hsize)
      have hwithin := Nat.le_of_eq hfilled
      rw [encodeBody_eq_flatten] at hwithin
      rw [run_orSkip_of_ok _ hbody]
      exact ⟨_, List.prefix_take_iff.mpr ⟨hfront, hwithin⟩, told_of_reply _ (fun _ => hcarries.framed) hfilled⟩
    | @spoiled documents last cause after log hframed hfront hlast hcause hafter hlog =>
      obtain rfl := hafter
      obtain rfl := hlog
      -- The reading keeps within the body, so the documents that it framed do too.
      obtain ⟨_, count, _, hcount, hsame⟩ := within_readBody hsize source hroom
      have hplace := congrArg (fun outcome => outcome.source.position) (hbody.symm.trans hsame)
      simp only [Source.position_past] at hplace
      have hwithin : documents.flatten.length ≤ size := by omega
      rw [run_orSkip_of_error hbody rfl hwithin hroom]
      exact ⟨documents, List.prefix_take_iff.mpr ⟨hfront, hwithin⟩, told_of_unreadable _ hframed hlast hcause hwithin⟩
  · have hbody : (readBody header limits).run source =
        ⟨.error (.unexpectedOpCode header.opCode), source.past 0, []⟩ := by
      rw [run_readBody_of_foreign hcode, Source.past_zero]
    rw [run_orSkip_of_error hbody rfl (Nat.zero_le _) hroom]
    exact ⟨[], List.nil_prefix, told_of_foreign limits header _ _⟩

/-- Every byte of a message that is all there is told of, where its length is accepted and it is read or passed over.
    The lines about framed documents are traced and give their lengths in order, and with what is passed over these are
    as many bytes as the header declares behind itself. A reply is told of behind its documents. Otherwise one line for
    debugging tells of what is passed over, behind the framed documents, the last of which cannot be read and is traced
    with its bytes in full, or of the whole body of another operation. -/
theorem read_accounts_for_body {limits : Limits} {header : Header} {source : Source} {size : Nat}
    (hheader : header.encode <+: source.ready) (hsize : header.bodySize limits = .ok size)
    (hwhole : header.messageLength.toNat ≤ source.ready.length)
    (hresult : ∀ error, ((read limits).run source).result = .error error →
      (∃ cause, error = .malformed cause) ∨ ∃ code, error = .unexpectedOpCode code) :
    ∃ documents, documents.flatten <+: (source.ready.drop 16).take (header.messageLength.toNat - 16) ∧
      Told limits header (header.messageLength.toNat - 16) documents ((read limits).run source) := by
  have hlength := (Header.bodySize_eq_ok_iff.mp hsize).1
  obtain rfl : size = header.messageLength.toNat - 16 := by omega
  have hready : (source.past Header.size).ready = source.ready.drop 16 := by
    rw [Source.ready_past (by rw [Header.size]; omega), Header.size]
  have hroom : header.messageLength.toNat - 16 ≤ (source.past Header.size).ready.length := by
    rw [hready, List.length_drop]
    omega
  rw [run_read_of_declared hheader hsize] at hresult ⊢
  obtain ⟨documents, hfront, htold⟩ := told_orSkip hsize hroom hresult
  rw [hready] at hfront
  exact ⟨documents, hfront, htold⟩

/-- A reply of which the second document is shorter than it says, in front of a third, with the first byte of the next
    message. The source gives four bytes at a time and is interrupted once. -/
def spoiledCapture : Source :=
  { pending := [31, 0, 0, 0, 7, 0, 0, 0, 8, 0, 0, 0, 219, 7, 0, 0, 5, 0, 0, 0, 0, 5, 0, 0, 0, 1, 5, 0, 0, 0, 0, 9],
    chunk := some 4, interrupts := [20] }

theorem read_accounts_for_body_spoiled :
    (Header.mk 31 7 8 .commandReply).encode <+: spoiledCapture.ready ∧
      (Header.mk 31 7 8 .commandReply).bodySize ⟨64, 64⟩ = .ok 15 ∧
      (31 : UInt32).toNat ≤ spoiledCapture.ready.length ∧
      ((read ⟨64, 64⟩).run spoiledCapture).result = .error (.malformed (.misfit (.unendedDocument 0))) ∧
      ((read ⟨64, 64⟩).run spoiledCapture).log =
        [.framed 5, .framed 5, .malformed [5, 0, 0, 0, 1], .skipped 5 (.malformed (.misfit (.unendedDocument 0)))] ∧
      ((read ⟨64, 64⟩).run spoiledCapture).log.map Event.entry =
        [(.trace, "read document of 5 bytes"), (.trace, "read document of 5 bytes"),
          (.trace, "malformed document:\n0000 | 05 00 00 00 01 "),
          (.debug, "skipped 5 bytes of unusable message: document bytes do not parse as bson: " ++
            "document at offset 0 is not terminated")] ∧
      ∃ documents,
        Told ⟨64, 64⟩ (Header.mk 31 7 8 .commandReply) 15 documents ((read ⟨64, 64⟩).run spoiledCapture) := by
  have hheader : (Header.mk 31 7 8 .commandReply).encode <+: spoiledCapture.ready := by decide
  have hsize : (Header.mk 31 7 8 .commandReply).bodySize ⟨64, 64⟩ = .ok 15 := rfl
  have hwhole : (31 : UInt32).toNat ≤ spoiledCapture.ready.length := by decide
  have hresult : ((read ⟨64, 64⟩).run spoiledCapture).result =
      .error (.malformed (.misfit (.unendedDocument 0))) := by rfl
  obtain ⟨documents, _, htold⟩ := read_accounts_for_body hheader hsize hwhole fun error herror =>
    .inl ⟨_, Except.error.inj (herror.symm.trans hresult)⟩
  exact ⟨hheader, hsize, hwhole, hresult, by rfl, by rfl, documents, htold⟩

end Reply

end ReplyCapture
