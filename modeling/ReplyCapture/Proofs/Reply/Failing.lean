import ReplyCapture.Proofs.Reply.Delivery
import ReplyCapture.Proofs.Source.Failing

namespace ReplyCapture

/-- A failure among the bytes that are passed over replaces the cause for which they are: what is said to be skipped
    has been skipped. -/
theorem Source.Cut.skipRest {α : Type} {intact failing : Source} {text : String} (hcut : intact.Cut failing text)
    (rest : Nat) (cause : MessageError) (log : List Event) :
    (rest ≤ failing.ready.length ∧
      (Outcome.mk (.error cause : Except MessageError α) intact log).skipRest rest cause =
        ⟨.error cause, intact.past rest, log ++ [.skipped rest cause]⟩ ∧
      (Outcome.mk (.error cause : Except MessageError α) failing log).skipRest rest cause =
        ⟨.error cause, failing.past rest, log ++ [.skipped rest cause]⟩) ∨
    (failing.position + failing.ready.length < (intact.collect rest).source.position ∧
      (Outcome.mk (.error cause : Except MessageError α) failing log).skipRest rest cause =
        ⟨.error (.io text), failing.spent, log⟩) := by
  by_cases hrest : rest ≤ failing.ready.length
  · have hintact := Nat.le_trans hrest (Nat.le_of_lt hcut.fewer)
    refine .inl ⟨hrest, ?_, ?_⟩
    · simp only [Outcome.skipRest, collect_of_le hintact, List.length_take_of_le hintact]
    · simp only [Outcome.skipRest, collect_of_le hrest, List.length_take_of_le hrest]
  · obtain ⟨hcollect, hfurther⟩ := hcut.collect_of_lt (Nat.lt_of_not_le hrest)
    exact .inr ⟨hfurther, by simp only [Outcome.skipRest, hcollect]⟩

namespace Reading

/-- A skip behind a reading does not take the reading back. -/
theorem position_le_orSkip {α : Type} (reading : Reading α) (size : Nat) (source : Source) :
    (reading.run source).source.position ≤ ((reading.orSkip size).run source).source.position := by
  simp only [orSkip]
  split
  · exact Nat.le_refl _
  · split
    · rw [Outcome.source_skipRest]
      exact Source.position_le_collect _ _
    · exact Nat.le_refl _

/-- A reading that heeds a failure still does with a skip behind it. A failure among the skipped bytes takes the place
    of the cause for skipping. -/
theorem Heeds.orSkip {α : Type} {reading : Reading α} (hreading : Heeds reading) (size : Nat) :
    Heeds (reading.orSkip size) := by
  intro intact failing text hcut
  obtain ⟨result, count, log, hcount, hintact, hfailing⟩ | ⟨hfurther, after, log, hfailing, hplace⟩ :=
    hreading intact failing text hcut
  · cases result with
    | ok value =>
      exact .inl ⟨.ok value, count, log, hcount, run_orSkip_of_ok size hintact, run_orSkip_of_ok size hfailing⟩
    | error cause =>
      by_cases hkeeps : cause.keepsFraming = true
      · have hlength := Source.length_ready_past hcount
        have hstart := run_orSkip_of_kept size hintact hkeeps (Source.position_past intact count)
        have hstop := run_orSkip_of_kept size hfailing hkeeps (Source.position_past failing count)
        obtain ⟨hrest, hskipped, hsame⟩ | ⟨hfurther, hfailed⟩ := (hcut.past hcount).skipRest (size - count) cause log
        · rw [hskipped, Source.past_past] at hstart
          rw [hsame, Source.past_past] at hstop
          exact .inl ⟨.error cause, _, _, by omega, hstart, hstop⟩
        · rw [hfailed] at hstop
          rw [Source.position_past, hlength] at hfurther
          refine .inr ⟨?_, (failing.past count).spent, log, hstop, ?_⟩
          · rw [hstart, Outcome.source_skipRest]
            simp only
            omega
          · rw [Source.position_spent, Source.position_past, hlength]
            omega
      · have hlost : cause.keepsFraming = false := Bool.eq_false_iff.mpr hkeeps
        exact .inl ⟨.error cause, count, log, hcount, run_orSkip_of_lost size hintact hlost,
          run_orSkip_of_lost size hfailing hlost⟩
  · refine .inr ⟨?_, after, log, run_orSkip_of_lost size hfailing rfl, hplace⟩
    exact Nat.lt_of_lt_of_le hfurther (position_le_orSkip reading size intact)

end Reading

namespace Reply

open Reading

/-- A call heeds a failure whether it falls into the header, the body or what is passed over. -/
theorem heeds_read (limits : Limits) : Heeds (read limits) := by
  have hbody (header : Header) (size : Nat) : Heeds ((readBody header limits).orSkip size) :=
    (stepwise_readBody header limits).heeds.orSkip size
  have hskip (header : Header) (size : Nat) : Uniform ((readBody header limits).orSkip size) :=
    (stepwise_readBody header limits).uniform.orSkip size
  have hsize (header : Header) : Stepwise (fun _ => True) (ofExcept (header.bodySize limits)) :=
    stepwise_ofExcept fun _ _ => trivial
  refine Header.stepwise_read.heeds.bind (fun header => ?_) fun header => ?_
  · exact (hsize header).heeds.bind (hbody header) (hskip header)
  · exact (hsize header).uniform.bind (hskip header)

/-- A call on a source that fails from some place on, against the same call on the intact source. Where this stops no
    further than that place, both give the same and stop alike. Where it gets further, the failure is what the other
    call gives, and it stops exactly there; so it does where the intact source gives an unreadable document or another
    operation and the failure falls among the bytes that are passed over. -/
theorem read_heeds_failure {source : Source} (hintact : source.Unfailing) {place : Nat}
    (hahead : source.position ≤ place) (hbefore : place < source.position + source.pending.length) (text : String)
    (limits : Limits) :
    (((read limits).run source).source.position ≤ place →
      ((read limits).run (source.failingAt place text)).result = ((read limits).run source).result ∧
        ((read limits).run (source.failingAt place text)).source.position =
          ((read limits).run source).source.position) ∧
    (place < ((read limits).run source).source.position →
      ((read limits).run (source.failingAt place text)).result = .error (.io text) ∧
        ((read limits).run (source.failingAt place text)).source.position = place) := by
  obtain ⟨hcut, hplace⟩ := Source.cut_failingAt hintact hahead hbefore text
  have hposition := hcut.position
  obtain ⟨result, count, log, hcount, hrun, hfailing⟩ | ⟨hfurther, after, log, hfailing, hstop⟩ :=
    heeds_read limits _ _ text hcut
  · rw [hrun, hfailing]
    simp only [Source.position_past, hposition]
    constructor
    · intro _
      exact ⟨trivial, trivial⟩
    · intro hbeyond
      omega
  · rw [hfailing]
    simp only
    constructor
    · intro hwithin
      omega
    · intro _
      exact ⟨trivial, by omega⟩

/-- A message of another operation, which comes four bytes at a time and with an interruption. -/
def foreignCapture : Source :=
  { pending := [26, 0, 0, 0, 7, 0, 0, 0, 8, 0, 0, 0, 221, 7, 0, 0, 1, 2, 3, 4, 5, 6, 7, 8, 9, 10], chunk := some 4,
    interrupts := [18] }

/-- A failure in the middle of the body, which would be passed over. -/
theorem read_heeds_failure_skipped :
    foreignCapture.Unfailing ∧ foreignCapture.position ≤ 22 ∧
      22 < foreignCapture.position + foreignCapture.pending.length ∧
      ((read ⟨64, 64⟩).run foreignCapture).result = .error (.unexpectedOpCode .msg) ∧
      ((read ⟨64, 64⟩).run (foreignCapture.failingAt 22 "injected failure")).result =
        .error (.io "injected failure") ∧
      ((read ⟨64, 64⟩).run (foreignCapture.failingAt 22 "injected failure")).source.position = 22 := by
  have hintact : foreignCapture.Unfailing := ⟨rfl, by decide⟩
  have hahead : foreignCapture.position ≤ 22 := by decide
  have hbefore : 22 < foreignCapture.position + foreignCapture.pending.length := by decide
  obtain ⟨_, hfails⟩ := read_heeds_failure hintact hahead hbefore "injected failure" ⟨64, 64⟩
  obtain ⟨hresult, hposition⟩ := hfails (by decide)
  exact ⟨hintact, hahead, hbefore, rfl, hresult, hposition⟩

end Reply

end ReplyCapture
