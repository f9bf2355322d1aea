import ReplyCapture.Message.Event
import ReplyCapture.Source.Basic

namespace ReplyCapture

/-- What reading from a source leaves behind. -/
structure Outcome (α : Type) where
  result : Except MessageError α
  source : Source
  /-- What was logged, in order. -/
  log : List Event

/-- Reads from a source, may fail, and logs what it did. A failure keeps source and log. -/
structure Reading (α : Type) where
  run : Source → Outcome α

namespace Reading

/-- A reading is what it does to every source. -/
@[ext] theorem ext {α : Type} {reading other : Reading α}
    (hrun : ∀ source, reading.run source = other.run source) : reading = other := by
  cases reading
  cases other
  congr
  funext source
  exact hrun source

protected def pure {α : Type} (value : α) : Reading α :=
  ⟨fun source => ⟨.ok value, source, []⟩⟩

protected def bind {α β : Type} (reading : Reading α) (next : α → Reading β) : Reading β :=
  ⟨fun source =>
    match reading.run source with
    | ⟨.ok value, source, log⟩ =>
      let outcome := (next value).run source
      ⟨outcome.result, outcome.source, log ++ outcome.log⟩
    | ⟨.error error, source, log⟩ => ⟨.error error, source, log⟩⟩

instance : Monad Reading where
  pure := Reading.pure
  bind := Reading.bind

theorem run_pure {α : Type} (value : α) (source : Source) :
    (pure value : Reading α).run source = ⟨.ok value, source, []⟩ := rfl

/-- What follows a success starts where it stopped, and logs after it. -/
theorem run_bind_of_ok {α β : Type} {reading : Reading α} {next : α → Reading β} {source : Source}
    {value : α} {after : Source} {log : List Event} (hok : reading.run source = ⟨.ok value, after, log⟩) :
    (reading >>= next).run source =
      ⟨((next value).run after).result, ((next value).run after).source,
        log ++ ((next value).run after).log⟩ := by
  change (Reading.bind reading next).run source = _
  simp [Reading.bind, hok]

/-- Nothing follows a failure. -/
theorem run_bind_of_error {α β : Type} {reading : Reading α} {next : α → Reading β}
    {source : Source} {error : MessageError} {after : Source} {log : List Event}
    (herror : reading.run source = ⟨.error error, after, log⟩) :
    (reading >>= next).run source = ⟨.error error, after, log⟩ := by
  change (Reading.bind reading next).run source = _
  simp [Reading.bind, herror]

instance : LawfulMonad Reading :=
  LawfulMonad.mk' Reading
    (fun reading => by
      ext source : 1
      rcases hreading : reading.run source with ⟨result | value, after, log⟩
      · exact run_bind_of_error hreading
      · refine (run_bind_of_ok hreading).trans ?_
        simp [Reading.pure])
    (fun value next => by
      ext source : 1
      rw [run_bind_of_ok (run_pure value source)]
      simp)
    (fun reading next last => by
      ext source : 1
      rcases hreading : reading.run source with ⟨result | value, after, log⟩
      · rw [run_bind_of_error hreading, run_bind_of_error (run_bind_of_error hreading)]
      · rw [run_bind_of_ok hreading]
        have hfirst : (reading >>= next).run source = _ := run_bind_of_ok hreading
        rcases hnext : (next value).run after with ⟨result | result, stop, more⟩
        · rw [hnext] at hfirst
          rw [run_bind_of_error hnext, run_bind_of_error hfirst]
        · rw [hnext] at hfirst
          rw [run_bind_of_ok hnext, run_bind_of_ok hfirst]
          simp)

/-- Fails and leaves the source alone. -/
def fail {α : Type} (error : MessageError) : Reading α :=
  ⟨fun source => ⟨.error error, source, []⟩⟩

/-- A result that takes no reading. -/
def ofExcept {α : Type} (result : Except MessageError α) : Reading α :=
  ⟨fun source => ⟨result, source, []⟩⟩

/-- Logs a line. -/
def record (event : Event) : Reading Unit :=
  ⟨fun source => ⟨.ok (), source, [event]⟩⟩

/-- Fails with another error where it fails. -/
def mapError {α : Type} (reading : Reading α) (change : MessageError → MessageError) : Reading α :=
  ⟨fun source =>
    let outcome := reading.run source
    { outcome with result := outcome.result.mapError change }⟩

/-- Reads items until `step` gives none, at most `bound` of them, after those in `done` and the lines
    in `log`, whose last ones come first. -/
def manyOnto {α σ : Type} (step : σ → Option (Reading (α × σ))) (done : List α) (log : List Event) :
    (bound : Nat) → σ → Source → Outcome (List α)
  | 0, _, source => ⟨.ok done.reverse, source, log.reverse⟩
  | bound + 1, place, source =>
    match step place with
    | none => ⟨.ok done.reverse, source, log.reverse⟩
    | some item =>
      match item.run source with
      | ⟨.ok (item, place), source, lines⟩ =>
        manyOnto step (item :: done) (lines.reverse ++ log) bound place source
      | ⟨.error error, source, lines⟩ => ⟨.error error, source, (lines.reverse ++ log).reverse⟩

/-- Reads items until `step` gives none, at most `bound` of them. A step reads an item and tells
    where the next one stands. -/
def many {α σ : Type} (step : σ → Option (Reading (α × σ))) (bound : Nat) (place : σ) :
    Reading (List α) :=
  ⟨manyOnto step [] [] bound place⟩

/-- What has been read before stands in front of what is read now, and so do the lines. -/
theorem manyOnto_eq {α σ : Type} (step : σ → Option (Reading (α × σ))) (done : List α)
    (log : List Event) (bound : Nat) (place : σ) (source : Source) :
    manyOnto step done log bound place source =
      ⟨((many step bound place).run source).result.map (done.reverse ++ ·),
        ((many step bound place).run source).source,
        log.reverse ++ ((many step bound place).run source).log⟩ := by
  unfold many
  induction bound generalizing done log place source with
  | zero => simp [manyOnto, Except.map]
  | succ bound ih =>
    simp only [manyOnto]
    cases step place with
    | none => simp [Except.map]
    | some item =>
      rcases hitem : item.run source with ⟨result | ⟨first, next⟩, after, lines⟩
      · simp [hitem, Except.map]
      · simp only [hitem]
        rw [ih, ih [first]]
        cases (manyOnto step [] [] bound next after).result <;> simp [Except.map]

theorem many_zero {α σ : Type} (step : σ → Option (Reading (α × σ))) (place : σ) :
    many step 0 place = pure [] := rfl

/-- One item and then the others. -/
theorem many_succ {α σ : Type} (step : σ → Option (Reading (α × σ))) (bound : Nat) (place : σ) :
    many step (bound + 1) place =
      match step place with
      | none => pure []
      | some item => do
        let (first, place) ← item
        let rest ← many step bound place
        return first :: rest := by
  ext source : 1
  change manyOnto step [] [] (bound + 1) place source = _
  rw [manyOnto]
  cases step place with
  | none => rfl
  | some item =>
    rcases hitem : item.run source with ⟨result | ⟨first, next⟩, after, lines⟩
    · rw [run_bind_of_error hitem]
      simp [hitem]
    · rw [run_bind_of_ok hitem]
      simp only [hitem, manyOnto_eq step [first]]
      rcases hrest : (many step bound next).run after with ⟨result | rest, last, more⟩
      · rw [run_bind_of_error hrest]
        simp [Except.map]
      · rw [run_bind_of_ok hrest]
        simp [run_pure, Except.map]

end Reading

namespace Delivery

/-- Whether a delivery of `want` bytes came through. -/
def verdict (delivery : Delivery) (want : Nat) : Except MessageError Unit :=
  match delivery.failure with
  | some text => .error (.io text)
  | none =>
    if delivery.bytes.length < want then .error (.truncated want delivery.bytes.length) else .ok ()

end Delivery

namespace Reading

/-- Exactly `count` bytes. -/
def exactly (count : Nat) : Reading Bytes :=
  ⟨fun source =>
    let delivery := source.collect count
    ⟨(delivery.verdict count).map fun _ => delivery.bytes, delivery.source, []⟩⟩

end Reading

/-- A buffer after bytes were read to its end, whether all of them came or not. -/
structure Refill where
  buffer : Bytes
  outcome : Outcome Unit

/-- Reads `count` bytes to the end of a buffer. Those that came before a failure stay there. -/
def Source.refill (source : Source) (buffer : Bytes) (count : Nat) : Refill :=
  let delivery := source.collect count
  ⟨buffer ++ delivery.bytes, ⟨delivery.verdict count, delivery.source, []⟩⟩

end ReplyCapture
