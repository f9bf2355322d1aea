import ReplyCapture.Proofs.Reply.Capture

namespace ReplyCapture

namespace Reading

/-- What is passed over behind a reading does not depend on how it comes either. -/
theorem Uniform.orSkip {α : Type} {reading : Reading α} (hreading : Uniform reading) (size : Nat) :
    Uniform (reading.orSkip size) := by
  intro source other halike
  obtain ⟨result, log, after, last, count, hrun, hother, hplace, hstop, hleft⟩ := hreading source other halike
  cases result with
  | ok value =>
    exact ⟨.ok value, log, after, last, count, run_orSkip_of_ok size hrun, run_orSkip_of_ok size hother, hplace, hstop,
      hleft⟩
  | error cause =>
    by_cases hkeeps : cause.keepsFraming = true
    · obtain ⟨bytes, failure, final, ending, hcollect, hcollected, hfinal, hending, halike⟩ :=
        hleft.collect (size - count)
      rw [run_orSkip_of_kept size hrun hkeeps hplace, run_orSkip_of_kept size hother hkeeps hstop]
      simp only [Outcome.skipRest, hcollect, hcollected]
      cases failure with
      | none =>
        exact ⟨.error cause, log ++ [.skipped bytes.length cause], final, ending, count + bytes.length, rfl, rfl,
          by omega, by omega, halike⟩
      | some text =>
        exact ⟨.error (.io text), log, final, ending, count + bytes.length, rfl, rfl, by omega, by omega, halike⟩
    · have hlost : cause.keepsFraming = false := Bool.eq_false_iff.mpr hkeeps
      exact ⟨.error cause, log, after, last, count, run_orSkip_of_lost size hrun hlost,
        run_orSkip_of_lost size hother hlost, hplace, hstop, hleft⟩

end Reading

open Reading

/-- How a message comes makes no difference, whatever is wrong with it. -/
theorem Reply.uniform_read (limits : Limits) : Uniform (read limits) := by
  apply Header.stepwise_read.uniform.bind
  intro header
  have hsize : Stepwise (fun _ => True) (ofExcept (header.bodySize limits)) := stepwise_ofExcept fun _ _ => trivial
  apply hsize.uniform.bind
  intro size
  exact (stepwise_readBody header limits).uniform.orSkip size

namespace Session

/-- Sessions that have come equally far, with the same header in mind, over sources that deliver the same from there. -/
structure Alike (session other : Session) : Prop where
  source : session.source.Alike other.source
  position : session.source.position = other.source.position
  lastHeader : session.lastHeader = other.lastHeader

end Session

/-- What a caller sees of a call: what it gives, how far the source has been read then, and what was logged. -/
def Received.view (received : Received) : Reception × Nat × List Event :=
  (received.reception, received.session.source.position, received.log)

namespace Session

variable {session other : Session}

/-- A reading to which delivery makes no difference is a call to which it makes none. -/
theorem Alike.run {α : Type} (halike : session.Alike other) {reading : Reading α} (huniform : Uniform reading)
    (receive : Except MessageError α → Reception) :
    (session.run reading receive).view = (other.run reading receive).view ∧
      (session.run reading receive).session.Alike (other.run reading receive).session := by
  obtain ⟨result, log, after, last, count, hrun, hother, hplace, hstop, hleft⟩ := huniform _ _ halike.source
  have hsame : after.position = last.position := by
    rw [hplace, hstop, halike.position]
  simp only [Session.run, Received.view, hrun, hother]
  exact ⟨by rw [hsame], hleft, hsame, halike.lastHeader⟩

/-- A call shows the same on sessions alike, and leaves them alike. -/
theorem Alike.call (halike : session.Alike other) (limits : Limits) (call : Call) :
    (session.call limits call).view = (other.call limits call).view ∧
      (session.call limits call).session.Alike (other.call limits call).session := by
  cases call with
  | message => exact halike.run (Reply.uniform_read limits) _
  | header =>
    obtain ⟨result, log, after, last, count, hrun, hother, hplace, hstop, hleft⟩ :=
      Header.stepwise_read.uniform _ _ halike.source
    have hsame : after.position = last.position := by
      rw [hplace, hstop, halike.position]
    simp only [Session.call, Received.view, hrun, hother, halike.lastHeader]
    exact ⟨by rw [hsame], hleft, hsame, rfl⟩
  | body =>
    simp only [Session.call, halike.lastHeader]
    split
    · exact ⟨by simp only [Received.view, halike.position], halike⟩
    · next header _ => exact halike.run (Reply.stepwise_readBody header limits).uniform _
  | document limit => exact halike.run (Frame.stepwise_next limit).uniform _
  | documentWithin limit consumed expected =>
    exact halike.run (Frame.stepwise_nextWithin limit consumed expected).uniform _
  | exactly count => exact halike.run (uniform_exactly count) _
  | exactlyInto count buffer =>
    obtain ⟨bytes, failure, after, last, hcollect, hother, hplace, hstop, hleft⟩ := halike.source.collect count
    have hsame : after.position = last.position := by
      rw [hplace, hstop, halike.position]
    simp only [Session.call, Source.refill, Received.view, hcollect, hother, Delivery.verdict]
    exact ⟨by rw [hsame], hleft, hsame, halike.lastHeader⟩

/-- However many calls of whatever kinds are made, sessions alike show the same of each. -/
theorem Alike.callAll (halike : session.Alike other) (limits : Limits) (calls : List Call) :
    (session.callAll limits calls).map Received.view = (other.callAll limits calls).map Received.view := by
  induction calls generalizing session other with
  | nil => rfl
  | cons call calls ih =>
    obtain ⟨hview, hleft⟩ := halike.call limits call
    simp only [Session.callAll, List.map_cons, hview, ih hleft]

/-- Delivery does not matter. On two sources that hold the same bytes, do not fail and stand at the same place, each
    call of whatever sequence gives the same, stops at the same place and logs the same, in however large pieces either
    source delivers its bytes and wherever its reads are interrupted. -/
theorem callAll_delivery {source other : Source} (hsource : source.Unfailing) (hother : other.Unfailing)
    (hbytes : source.pending = other.pending) (hplace : source.position = other.position) (limits : Limits)
    (lastHeader : Option Header) (calls : List Call) :
    (Session.callAll ⟨source, lastHeader⟩ limits calls).map Received.view =
      (Session.callAll ⟨other, lastHeader⟩ limits calls).map Received.view := by
  have hready : source.ready = other.ready := by rw [hsource.ready, hother.ready, hbytes]
  have hending : source.ending = other.ending := by rw [hsource.ending, hother.ending]
  have halike : Session.Alike ⟨source, lastHeader⟩ ⟨other, lastHeader⟩ := ⟨⟨hready, hending⟩, hplace, rfl⟩
  exact halike.callAll limits calls

/-- A reply of two empty documents, another operation and two bytes more. -/
def deliveredBytes : Bytes :=
  [26, 0, 0, 0, 7, 0, 0, 0, 8, 0, 0, 0, 219, 7, 0, 0, 5, 0, 0, 0, 0, 5, 0, 0, 0, 0,
    18, 0, 0, 0, 7, 0, 0, 0, 8, 0, 0, 0, 221, 7, 0, 0, 1, 2, 3, 4]

/-- One byte at a time, with interruptions in a header, twice in a document, in a body that is passed over and at the
    end. -/
theorem callAll_delivery_trickle :
    (Source.mk deliveredBytes 0 none none []).Unfailing ∧
      (Source.mk deliveredBytes 0 (some 1) none [3, 18, 18, 43, 46]).Unfailing ∧
      ((Session.callAll ⟨⟨deliveredBytes, 0, some 1, none, [3, 18, 18, 43, 46]⟩, none⟩ ⟨64, 64⟩
        [.header, .document 64, .documentWithin 64 5 10, .message, .exactlyInto 3 [9]]).map Received.view).map
          (·.2.1) = [16, 21, 26, 44, 46] := by
  have hwhole : (Source.mk deliveredBytes 0 none none []).Unfailing := ⟨rfl, nofun⟩
  have htrickle : (Source.mk deliveredBytes 0 (some 1) none [3, 18, 18, 43, 46]).Unfailing := ⟨rfl, by decide⟩
  refine ⟨hwhole, htrickle, ?_⟩
  rw [callAll_delivery htrickle hwhole rfl rfl ⟨64, 64⟩ none
    [.header, .document 64, .documentWithin 64 5 10, .message, .exactlyInto 3 [9]]]
  rfl

end Session

end ReplyCapture
