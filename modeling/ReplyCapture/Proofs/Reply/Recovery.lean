import ReplyCapture.Error
import ReplyCapture.Proofs.Reply.Capture

namespace ReplyCapture

/-- Errors by whose explanation a caller may go on behind the message. -/
def MessageError.Passable (error : MessageError) : Prop :=
  Error.explanation (.message error) = "message rejected" ∨ Error.explanation (.message error) = "document unreadable"

/-- Of the errors that a body gives, for want of bytes or of itself, the passable ones are those behind which the rest of
    the body is passed over. -/
theorem MessageError.keepsFraming_of_passable {error : MessageError} (hbody : error.IsShortage ∨ error.OfBody)
    (hpassable : error.Passable) : error.keepsFraming = true := by
  cases error <;> simp_all [IsShortage, OfBody, Passable, Error.explanation, keepsFraming]

namespace Reply

open Reading

/-- Behind a body that gives a passable error, wherever in it, the source stands at the body's end. -/
theorem source_orSkip_of_passable {header : Header} {limits : Limits} {size : Nat} {source : Source}
    {error : MessageError} (hsize : header.bodySize limits = .ok size) (hroom : size ≤ source.ready.length)
    (herror : (((readBody header limits).orSkip size).run source).result = .error error) (hpassable : error.Passable) :
    (((readBody header limits).orSkip size).run source).source = source.past size := by
  obtain ⟨result, count, log, hcount, hrun⟩ := within_readBody hsize source hroom
  cases result with
  | ok reply =>
    rw [run_orSkip_of_ok size hrun] at herror
    cases herror
  | error cause =>
    by_cases hkeeps : cause.keepsFraming = true
    · rw [run_orSkip_of_error hrun hkeeps hcount hroom]
    · rw [run_orSkip_of_lost size hrun (Bool.eq_false_iff.mpr hkeeps)] at herror
      obtain rfl := Except.error.inj herror
      have hbody := (stepwise_readBody header limits).isShortage_or (congrArg Outcome.result hrun)
      exact absurd (MessageError.keepsFraming_of_passable hbody hpassable) hkeeps

/-- Behind a message that is all there and declares an accepted length, a passable error leaves the source at the next
    message wherever the last word of the header names an operation. Where it names none, the error is just this, and
    the source is left behind the header. -/
theorem read_resumes_of_passable {limits : Limits} {source : Source}
    {messageLength requestId responseTo opWord : UInt32} {code : OpCode} {size : Nat} {error : MessageError}
    (hfront : Header.words messageLength requestId responseTo opWord <+: source.ready)
    (hsize : (Header.mk messageLength requestId responseTo code).bodySize limits = .ok size)
    (hwhole : messageLength.toNat ≤ source.ready.length)
    (herror : ((read limits).run source).result = .error error) (hpassable : error.Passable) :
    ((OpCode.ofWord? opWord).isSome →
      ((read limits).run source).source.position = source.position + messageLength.toNat ∧
        ((read limits).run source).source.pending = source.pending.drop messageLength.toNat) ∧
    (OpCode.ofWord? opWord = none →
      error = .unknownOpCode opWord ∧
        ((read limits).run source).source.position = source.position + Header.size ∧
        ((read limits).run source).source.pending = source.pending.drop Header.size) := by
  constructor
  · intro hknown
    obtain ⟨known, hknown⟩ := Option.isSome_iff_exists.mp hknown
    obtain rfl := OpCode.ofWord?_eq_some_iff.mp hknown
    have hheader : (Header.mk messageLength requestId responseTo known).encode <+: source.ready := hfront
    have hdeclared : (Header.mk messageLength requestId responseTo known).bodySize limits = .ok size := hsize
    have hlength := (Header.bodySize_eq_ok_iff.mp hdeclared).1
    simp only at hlength
    have hroom : size ≤ (source.past Header.size).ready.length := by
      rw [Source.ready_past (by rw [Header.size]; omega), List.length_drop, Header.size]
      omega
    rw [run_read_of_declared hheader hdeclared] at herror ⊢
    rw [source_orSkip_of_passable hdeclared hroom herror hpassable, Source.past_past, Header.size, ← hlength]
    exact ⟨Source.position_past _ _, Source.pending_past _ _⟩
  · intro hunknown
    rw [run_read_of_unknown hfront hunknown] at herror ⊢
    exact ⟨(Except.error.inj herror).symm, Source.position_past _ _, Source.pending_past _ _⟩

/-- A reply whose second document does not end, which comes four bytes at a time behind three others and with an
    interruption, and one byte of the next message. -/
def unreadableCapture : Source :=
  { pending := [26, 0, 0, 0, 7, 0, 0, 0, 8, 0, 0, 0, 219, 7, 0, 0, 5, 0, 0, 0, 0, 5, 0, 0, 0, 1, 9], position := 3,
    chunk := some 4, interrupts := [20] }

theorem read_resumes_of_passable_unreadable :
    Header.words 26 7 8 2011 <+: unreadableCapture.ready ∧
      (Header.mk 26 7 8 .commandReply).bodySize ⟨64, 64⟩ = .ok 10 ∧
      (26 : UInt32).toNat ≤ unreadableCapture.ready.length ∧
      ((read ⟨64, 64⟩).run unreadableCapture).result = .error (.malformed (.misfit (.unendedDocument 0))) ∧
      (MessageError.malformed (.misfit (.unendedDocument 0))).Passable ∧
      ((read ⟨64, 64⟩).run unreadableCapture).source.position = 29 ∧
      ((read ⟨64, 64⟩).run unreadableCapture).source.pending = [9] := by
  have hfront : Header.words 26 7 8 2011 <+: unreadableCapture.ready := by decide
  have hsize : (Header.mk 26 7 8 .commandReply).bodySize ⟨64, 64⟩ = .ok 10 := rfl
  have hwhole : (26 : UInt32).toNat ≤ unreadableCapture.ready.length := by decide
  have herror : ((read ⟨64, 64⟩).run unreadableCapture).result =
      .error (.malformed (.misfit (.unendedDocument 0))) := by rfl
  have hpassable : (MessageError.malformed (.misfit (.unendedDocument 0))).Passable := .inr rfl
  obtain ⟨hknown, _⟩ := read_resumes_of_passable hfront hsize hwhole herror hpassable
  obtain ⟨hposition, hpending⟩ := hknown rfl
  exact ⟨hfront, hsize, hwhole, herror, hpassable, hposition, hpending⟩

/-- A message of an operation with a reserved number and one empty document. -/
def reservedMessage : Bytes :=
  [21, 0, 0, 0, 7, 0, 0, 0, 8, 0, 0, 0, 211, 7, 0, 0, 5, 0, 0, 0, 0]

/-- The explanation says that the message is rejected, and yet its body is not passed over. -/
theorem read_reserved_stops_early :
    Header.words 21 7 8 2003 <+: (Source.ofBytes reservedMessage).ready ∧
      (∀ code, (Header.mk 21 7 8 code).bodySize Limits.standard = .ok 5) ∧
      (21 : UInt32).toNat ≤ (Source.ofBytes reservedMessage).ready.length ∧
      ((read Limits.standard).run (Source.ofBytes reservedMessage)).result = .error (.unknownOpCode 2003) ∧
      (MessageError.unknownOpCode 2003).Passable ∧
      ((read Limits.standard).run (Source.ofBytes reservedMessage)).source.position ≠
        (Source.ofBytes reservedMessage).position + (21 : UInt32).toNat := by
  refine ⟨by decide, fun _ => rfl, by decide, by rfl, .inl rfl, by decide⟩

end Reply

end ReplyCapture
