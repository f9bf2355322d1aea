import ReplyCapture.Proofs.Source.Readings

namespace ReplyCapture

namespace Source

/-- Sources that deliver the same bytes and then the same failure or the end, in whatever pieces and from whatever
    place. -/
structure Alike (source other : Source) : Prop where
  ready : source.ready = other.ready
  ending : source.ending = other.ending

@[simp]
theorem position_spent (source : Source) : source.spent.position = source.position + source.ready.length := rfl

/-- Interruptions aside, a spent source is the source behind all its ready bytes. -/
@[simp]
theorem ready_spent (source : Source) : source.spent.ready = [] := by
  change (source.past source.ready.length).ready = []
  rw [ready_past Nat.le.refl, List.drop_length]

/-- Using up a source does not use up the failure behind it. -/
@[simp]
theorem ending_spent (source : Source) : source.spent.ending = source.ending := by
  change (source.past source.ready.length).ending = source.ending
  rw [ending_past Nat.le.refl]

theorem Alike.refl (source : Source) : Alike source source := ⟨rfl, rfl⟩

/-- Sources alike stay alike while the same number of ready bytes is read off both. -/
theorem Alike.past {source other : Source} (halike : Alike source other) {count : Nat}
    (hcount : count ≤ source.ready.length) : Alike (source.past count) (other.past count) := by
  have hother : count ≤ other.ready.length := halike.ready ▸ hcount
  constructor
  · rw [ready_past hcount, ready_past hother, halike.ready]
  · rw [ending_past hcount, ending_past hother, halike.ending]

/-- And they are spent alike, wherever their interruptions were. -/
theorem Alike.spent {source other : Source} (halike : Alike source other) : Alike source.spent other.spent := by
  constructor
  · rw [ready_spent, ready_spent]
  · rw [ending_spent, ending_spent, halike.ending]

/-- Sources alike deliver the same, go as far, and stay alike. -/
theorem Alike.collect {source other : Source} (halike : Alike source other) (want : Nat) :
    ∃ bytes failure after last, source.collect want = ⟨bytes, failure, after⟩ ∧
      other.collect want = ⟨bytes, failure, last⟩ ∧ after.position = source.position + bytes.length ∧
      last.position = other.position + bytes.length ∧ after.Alike last := by
  by_cases hwant : want ≤ source.ready.length
  · have hother : want ≤ other.ready.length := halike.ready ▸ hwant
    refine ⟨_, _, _, _, collect_of_le hwant, by rw [collect_of_le hother, halike.ready], ?_, ?_, halike.past hwant⟩
    · rw [position_past, List.length_take_of_le hwant]
    · rw [position_past, List.length_take_of_le hwant]
  · have hwant := Nat.lt_of_not_le hwant
    have hother : other.ready.length < want := halike.ready ▸ hwant
    refine ⟨_, _, _, _, collect_of_lt hwant, by rw [collect_of_lt hother, halike.ready, halike.ending], ?_, ?_,
      halike.spent⟩
    · rw [position_spent]
    · rw [position_spent, halike.ready]

/-- No collecting goes back. -/
theorem position_le_collect (source : Source) (want : Nat) : source.position ≤ (source.collect want).source.position := by
  obtain ⟨_, _, after, _, hcollect, _, hplace, _⟩ := (Alike.refl source).collect want
  rw [hcollect, hplace]
  exact Nat.le_add_right _ _

end Source

namespace Reading

variable {α β : Type}

/-- A reading made of takes of so many bytes and of steps that leave the source alone. Shortages aside, its errors
    are among those reported; a failure of the source is told of in its own words. -/
inductive Stepwise (reports : MessageError → Prop) : {α : Type} → Reading α → Prop
  | still {α : Type} {reading : Reading α} {result : Except MessageError α} {log : List Event}
      (hrun : ∀ source, reading.run source = ⟨result, source, log⟩)
      (hreports : ∀ error, result = .error error → reports error) : Stepwise reports reading
  | exactly (count : Nat) : Stepwise reports (exactly count)
  | mapError {α : Type} {reading : Reading α} {change : MessageError → MessageError}
      (hshortage : ∀ error, error.IsShortage → (change error).IsShortage) (hfailure : ∀ text, change (.io text) = .io text)
      (hreports : ∀ error, reports error → reports (change error)) (hreading : Stepwise reports reading) :
      Stepwise reports (reading.mapError change)
  | bind {α β : Type} {reading : Reading α} {next : α → Reading β} (hreading : Stepwise reports reading)
      (hnext : ∀ value, Stepwise reports (next value)) : Stepwise reports (reading >>= next)

section Steps

variable {reports : MessageError → Prop}

theorem stepwise_pure (value : α) : Stepwise reports (pure value) :=
  .still (run_pure value) nofun

theorem stepwise_record (event : Event) : Stepwise reports (record event) :=
  .still (fun _ => rfl) nofun

/-- A result found without reading is one step, if its error is reported. -/
theorem stepwise_ofExcept {result : Except MessageError α} (hreports : ∀ error, result = .error error → reports error) :
    Stepwise reports (ofExcept result) :=
  .still (fun _ => rfl) hreports

theorem stepwise_fail {error : MessageError} (hreports : reports error) : Stepwise reports (fail error : Reading α) := by
  refine .still (fun _ => rfl) ?_
  intro cause hcause
  obtain rfl := Except.error.inj hcause
  exact hreports

/-- A loop is made of steps if each turn of it is. The bound on the turns plays no part. -/
theorem stepwise_many {σ : Type} {step : σ → Option (Reading (α × σ))} (bound : Nat) (place : σ)
    (hstep : ∀ place item, step place = some item → Stepwise reports item) :
    Stepwise reports (many step bound place) := by
  induction bound generalizing place with
  | zero => exact stepwise_pure []
  | succ bound ih =>
    rw [many_succ]
    cases hitem : step place with
    | none => exact stepwise_pure []
    | some item =>
      apply (hstep place item hitem).bind
      intro first
      apply (ih first.2).bind
      intro rest
      exact stepwise_pure (first.1 :: rest)

/-- What a reading made of steps does shows in the bytes it takes. -/
theorem Stepwise.isLocal {reading : Reading α} (hsteps : Stepwise reports reading) : Local reading := by
  induction hsteps with
  | still hrun _ => exact local_of_run hrun
  | exactly count => exact local_exactly count
  | mapError hshortage _ _ _ ih => exact ih.mapError hshortage
  | bind _ _ ih ihnext => exact ih.bind ihnext

/-- An error is a shortage or one that a step reports. -/
theorem Stepwise.isShortage_or {reading : Reading α} (hsteps : Stepwise reports reading) {source : Source}
    {error : MessageError} (herror : (reading.run source).result = .error error) :
    error.IsShortage ∨ reports error := by
  induction hsteps generalizing source error with
  | still hrun hreports =>
    rw [hrun] at herror
    exact .inr (hreports error herror)
  | exactly count =>
    by_cases hcount : count ≤ source.ready.length
    · rw [run_exactly_of_le hcount] at herror
      cases herror
    · rw [run_exactly_of_lt (Nat.lt_of_not_le hcount)] at herror
      obtain rfl := Except.error.inj herror
      exact .inl (source.isShortage_shortage count)
  | mapError hshortage _ hreports _ ih =>
    obtain ⟨cause, hcause, rfl⟩ := mapError_eq_error_iff.mp herror
    exact (ih hcause).imp (hshortage cause) (hreports cause)
  | @bind _ _ reading next _ _ ih ihnext =>
    rcases hrun : reading.run source with ⟨result | value, after, log⟩
    · rw [run_bind_of_error hrun] at herror
      obtain rfl := Except.error.inj herror
      exact ih (congrArg Outcome.result hrun)
    · rw [run_bind_of_ok hrun] at herror
      exact ihnext value herror

/-- On sources alike, a reading gives and logs the same, goes as far, and leaves them alike. -/
def Uniform (reading : Reading α) : Prop :=
  ∀ source other : Source, source.Alike other →
    ∃ result log after last count, reading.run source = ⟨result, after, log⟩ ∧ reading.run other = ⟨result, last, log⟩ ∧
      after.position = source.position + count ∧ last.position = other.position + count ∧ after.Alike last

/-- No reading goes back. -/
theorem Uniform.position_le {reading : Reading α} (hreading : Uniform reading) (source : Source) :
    source.position ≤ (reading.run source).source.position := by
  obtain ⟨_, _, after, _, count, hrun, _, hplace, _⟩ := hreading source source (.refl source)
  rw [hrun, hplace]
  exact Nat.le_add_right _ _

/-- Reading so many bytes sees no difference between sources alike, also where too few come. -/
theorem uniform_exactly (count : Nat) : Uniform (exactly count) := by
  intro source other halike
  obtain ⟨bytes, failure, after, last, hcollect, hother, hplace, hstop, hleft⟩ := halike.collect count
  refine ⟨((Delivery.mk bytes failure source).verdict count).map fun _ => bytes, [], after, last, bytes.length, ?_, ?_,
    hplace, hstop, hleft⟩
  · simp only [exactly, hcollect]
    rfl
  · simp only [exactly, hother]
    rfl

/-- Nothing is asked of how the errors are changed. -/
theorem Uniform.mapError {reading : Reading α} (hreading : Uniform reading) (change : MessageError → MessageError) :
    Uniform (reading.mapError change) := by
  intro source other halike
  obtain ⟨result, log, after, last, count, hrun, hother, hplaces⟩ := hreading source other halike
  refine ⟨result.mapError change, log, after, last, count, ?_, ?_, hplaces⟩
  · simp only [Reading.mapError, hrun]
  · simp only [Reading.mapError, hother]

/-- Sources that the first reading leaves alike are alike to the second. -/
theorem Uniform.bind {reading : Reading α} {next : α → Reading β} (hreading : Uniform reading)
    (hnext : ∀ value, Uniform (next value)) : Uniform (reading >>= next) := by
  intro source other halike
  obtain ⟨result, log, after, last, count, hrun, hother, hplace, hstop, hleft⟩ := hreading source other halike
  cases result with
  | error error =>
    exact ⟨.error error, log, after, last, count, run_bind_of_error hrun, run_bind_of_error hother, hplace, hstop, hleft⟩
  | ok value =>
    obtain ⟨result, lines, ending, final, more, hrun', hother', hplace', hstop', hleft'⟩ := hnext value after last hleft
    refine ⟨result, log ++ lines, ending, final, count + more, ?_, ?_, by omega, by omega, hleft'⟩
    · rw [run_bind_of_ok hrun, hrun']
    · rw [run_bind_of_ok hother, hother']

/-- How the bytes come makes no difference to a reading made of steps. -/
theorem Stepwise.uniform {reading : Reading α} (hsteps : Stepwise reports reading) : Uniform reading := by
  induction hsteps with
  | @still _ reading result log hrun _ =>
    intro source other halike
    exact ⟨result, log, source, other, 0, hrun source, hrun other, rfl, rfl, halike⟩
  | exactly count => exact uniform_exactly count
  | mapError _ _ _ _ ih => exact ih.mapError _
  | bind _ _ ih ihnext => exact ih.bind ihnext

/-- A reading made of steps leaves how the source ends as it is. -/
theorem Stepwise.ending_run {reading : Reading α} (hsteps : Stepwise reports reading) (source : Source) :
    (reading.run source).source.ending = source.ending := by
  induction hsteps generalizing source with
  | still hrun _ => rw [hrun]
  | exactly count =>
    by_cases hcount : count ≤ source.ready.length
    · rw [run_exactly_of_le hcount, Source.ending_past hcount]
    · rw [run_exactly_of_lt (Nat.lt_of_not_le hcount), Source.ending_spent]
  | mapError _ _ _ _ ih => exact ih source
  | @bind _ _ reading next _ _ ih ihnext =>
    have hfirst := ih source
    rcases hrun : reading.run source with ⟨error | value, after, log⟩
    · rw [hrun] at hfirst
      rw [run_bind_of_error hrun, hfirst]
    · rw [hrun] at hfirst
      rw [run_bind_of_ok hrun, ihnext value after, hfirst]

end Steps

end Reading

end ReplyCapture
