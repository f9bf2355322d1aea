import ReplyCapture.Proofs.Source.Stepwise

namespace ReplyCapture

namespace Source

/-- The same place of the same bytes, but with a failure in front of some of them. -/
structure Cut (intact failing : Source) (text : String) : Prop where
  position : failing.position = intact.position
  ready : failing.ready <+: intact.ready
  fewer : failing.ready.length < intact.ready.length
  ending : failing.ending = some text

variable {intact failing : Source} {text : String}

/-- What is cut off stays cut off while both sources are read in front of the failure. -/
theorem Cut.past (hcut : intact.Cut failing text) {count : Nat} (hcount : count ≤ failing.ready.length) :
    (intact.past count).Cut (failing.past count) text := by
  have hfewer := hcut.fewer
  have hintact : count ≤ intact.ready.length := by omega
  obtain ⟨rest, hrest⟩ := hcut.ready
  constructor
  · simp only [position_past, hcut.position]
  · rw [ready_past hcount, ready_past hintact, ← hrest, List.drop_append_of_le_length hcount]
    exact List.prefix_append _ rest
  · rw [length_ready_past hcount, length_ready_past hintact]
    omega
  · rw [ending_past hcount, hcut.ending]

/-- As many bytes as come in front of the failure are the same ones. -/
theorem Cut.take_ready (hcut : intact.Cut failing text) {count : Nat} (hcount : count ≤ failing.ready.length) :
    intact.ready.take count = failing.ready.take count := by
  obtain ⟨rest, hrest⟩ := hcut.ready
  rw [← hrest, List.take_append_of_le_length hcount]

/-- Where more is collected than comes in front of the failure, a source without it is read further. -/
theorem Cut.collect_of_lt (hcut : intact.Cut failing text) {want : Nat} (hwant : failing.ready.length < want) :
    failing.collect want = ⟨failing.ready, some text, failing.spent⟩ ∧
      failing.position + failing.ready.length < (intact.collect want).source.position := by
  constructor
  · rw [Source.collect_of_lt hwant, hcut.ending]
  · have hfewer := hcut.fewer
    have hplace := hcut.position
    by_cases henough : want ≤ intact.ready.length
    · rw [collect_of_le henough, position_past]
      omega
    · rw [Source.collect_of_lt (Nat.lt_of_not_le henough), position_spent]
      omega

/-- The same source, but every read of it fails once it has come to a place. -/
def failingAt (source : Source) (place : Nat) (text : String) : Source :=
  { source with failure := some ⟨place, text⟩ }

/-- A failure that lies ahead, in front of some bytes, cuts these off and only these. -/
theorem cut_failingAt {source : Source} (hintact : source.Unfailing) {place : Nat} (hahead : source.position ≤ place)
    (hbefore : place < source.position + source.pending.length) (text : String) :
    source.Cut (source.failingAt place text) text ∧
      source.position + (source.failingAt place text).ready.length = place := by
  have hready : (source.failingAt place text).ready = source.pending.take (place - source.position) := by
    rw [ready, room, failingAt, if_neg hintact.chunk]
    simp only [if_pos hahead]
  have hlength : (source.failingAt place text).ready.length = place - source.position := by
    rw [hready, List.length_take_of_le]
    omega
  have hplace : place = source.position + (place - source.position) := by omega
  refine ⟨⟨rfl, ?_, ?_, ?_⟩, by rw [hlength, ← hplace]⟩
  · rw [hready, hintact.ready]
    exact List.take_prefix _ _
  · rw [hlength, hintact.ready]
    omega
  · rw [ending, hlength]
    simp only [failingAt, Option.filter_some, ← hplace, decide_true, if_true, Option.map_some]

end Source

namespace Reading

variable {α β : Type}

/-- A failure of the source makes no difference to a reading that does not get as far. A reading that would get further
    stops there and tells of the failure. -/
def Heeds (reading : Reading α) : Prop :=
  ∀ (intact failing : Source) (text : String), intact.Cut failing text →
    (∃ result count log, count ≤ failing.ready.length ∧ reading.run intact = ⟨result, intact.past count, log⟩ ∧
      reading.run failing = ⟨result, failing.past count, log⟩) ∨
    (failing.position + failing.ready.length < (reading.run intact).source.position ∧
      ∃ after log, reading.run failing = ⟨.error (.io text), after, log⟩ ∧
        after.position = failing.position + failing.ready.length)

/-- A reading that leaves every source alone comes to no failure. -/
theorem heeds_of_run {reading : Reading α} {result : Except MessageError α} {log : List Event}
    (hrun : ∀ source, reading.run source = ⟨result, source, log⟩) : Heeds reading := by
  intro intact failing text _
  refine .inl ⟨result, 0, log, Nat.zero_le _, ?_, ?_⟩
  · rw [hrun, Source.past_zero]
  · rw [hrun, Source.past_zero]

/-- Reading so many bytes is done in front of the failure, or would take bytes from behind it. -/
theorem heeds_exactly (count : Nat) : Heeds (exactly count) := by
  intro intact failing text hcut
  by_cases hcount : count ≤ failing.ready.length
  · have hfewer := hcut.fewer
    refine .inl ⟨.ok (failing.ready.take count), count, [], hcount, ?_, run_exactly_of_le hcount⟩
    rw [run_exactly_of_le (by omega), hcut.take_ready hcount]
  · obtain ⟨hcollect, hfurther⟩ := hcut.collect_of_lt (Nat.lt_of_not_le hcount)
    refine .inr ⟨hfurther, failing.spent, [], ?_, Source.position_spent failing⟩
    rw [run_exactly_of_lt (Nat.lt_of_not_le hcount), Source.shortage, hcut.ending]

/-- Errors may be changed as long as a failure keeps its words. -/
theorem Heeds.mapError {reading : Reading α} (hreading : Heeds reading) {change : MessageError → MessageError}
    (hfailure : ∀ text, change (.io text) = .io text) : Heeds (reading.mapError change) := by
  intro intact failing text hcut
  obtain ⟨result, count, log, hcount, hintact, hfailing⟩ | ⟨hfurther, after, log, hfailing, hplace⟩ :=
    hreading intact failing text hcut
  · refine .inl ⟨result.mapError change, count, log, hcount, ?_, ?_⟩
    · simp only [Reading.mapError, hintact]
    · simp only [Reading.mapError, hfailing]
  · have hkept : (Except.error (.io text) : Except MessageError α).mapError change = .error (.io text) :=
      mapError_eq_error_iff.mpr ⟨.io text, rfl, hfailure text⟩
    refine .inr ⟨hfurther, after, log, ?_, hplace⟩
    simp only [Reading.mapError, hfailing, hkept]

/-- The second of two readings must also be uniform: behind a first one that the failure stopped it never runs, and all
    that is known of it without the failure is that it does not go back. -/
theorem Heeds.bind {reading : Reading α} {next : α → Reading β} (hreading : Heeds reading)
    (hnext : ∀ value, Heeds (next value)) (huniform : ∀ value, Uniform (next value)) : Heeds (reading >>= next) := by
  intro intact failing text hcut
  obtain ⟨result, count, log, hcount, hintact, hfailing⟩ | ⟨hfurther, after, log, hfailing, hplace⟩ :=
    hreading intact failing text hcut
  · cases result with
    | error error =>
      exact .inl ⟨.error error, count, log, hcount, run_bind_of_error hintact, run_bind_of_error hfailing⟩
    | ok value =>
      rw [run_bind_of_ok hintact, run_bind_of_ok hfailing]
      have hlength := Source.length_ready_past hcount
      obtain ⟨result, more, lines, hmore, hintact, hfailing⟩ | ⟨hfurther, after, lines, hfailing, hplace⟩ :=
        hnext value _ _ text (hcut.past hcount)
      · refine .inl ⟨result, count + more, log ++ lines, by omega, ?_, ?_⟩
        · rw [hintact, Source.past_past]
        · rw [hfailing, Source.past_past]
      · rw [Source.position_past, hlength] at hfurther hplace
        have hbeyond : failing.position + failing.ready.length <
            ((next value).run (intact.past count)).source.position := by
          omega
        exact .inr ⟨hbeyond, after, log ++ lines, by rw [hfailing], by omega⟩
  · -- What comes behind a reading that got further without the failure does not get back in front of it.
    refine .inr ⟨?_, after, log, run_bind_of_error hfailing, hplace⟩
    rcases hintact : reading.run intact with ⟨error | value, stop, lines⟩
    · rw [run_bind_of_error hintact]
      rwa [hintact] at hfurther
    · rw [run_bind_of_ok hintact]
      rw [hintact] at hfurther
      exact Nat.lt_of_lt_of_le hfurther ((huniform value).position_le stop)

/-- A reading made of steps heeds a failure wherever it falls among them. -/
theorem Stepwise.heeds {reports : MessageError → Prop} {reading : Reading α} (hsteps : Stepwise reports reading) :
    Heeds reading := by
  induction hsteps with
  | still hrun _ => exact heeds_of_run hrun
  | exactly count => exact heeds_exactly count
  | mapError _ hfailure _ _ ih => exact ih.mapError hfailure
  | bind _ hnext ih ihnext => exact ih.bind ihnext fun value => (hnext value).uniform

end Reading

end ReplyCapture
