import ReplyCapture.Proofs.Source.Readings

namespace ReplyCapture.Reading

variable {α β : Type} {reading : Reading α} {next : α → Reading β} {room : Nat}

/-- Where `room` bytes are ready, a reading takes some of these and no others, whether it succeeds or not. -/
def Within (reading : Reading α) (room : Nat) : Prop :=
  ∀ source : Source, room ≤ source.ready.length →
    ∃ result count log, count ≤ room ∧ reading.run source = ⟨result, source.past count, log⟩

/-- A reading that leaves every source alone keeps within any room. -/
theorem within_of_run {result : Except MessageError α} {log : List Event}
    (hrun : ∀ source, reading.run source = ⟨result, source, log⟩) (room : Nat) : Within reading room := by
  intro source _
  exact ⟨result, 0, log, Nat.zero_le room, by rw [hrun, Source.past_zero]⟩

theorem within_pure (value : α) (room : Nat) : Within (pure value) room :=
  within_of_run (run_pure value) room

theorem within_ofExcept (result : Except MessageError α) (room : Nat) : Within (ofExcept result) room :=
  within_of_run (fun _ => rfl) room

theorem within_fail (error : MessageError) (room : Nat) : Within (fail error : Reading α) room :=
  within_of_run (fun _ => rfl) room

theorem within_record (event : Event) (room : Nat) : Within (record event) room :=
  within_of_run (fun _ => rfl) room

/-- Reading so many bytes keeps within room for them. It does not come to a shortage there. -/
theorem within_exactly {count : Nat} (hcount : count ≤ room) : Within (exactly count) room := by
  intro source hroom
  exact ⟨.ok (source.ready.take count), count, [], hcount, run_exactly_of_le (Nat.le_trans hcount hroom)⟩

/-- Errors may be changed in any way. -/
theorem Within.mapError (hreading : Within reading room) (change : MessageError → MessageError) :
    Within (reading.mapError change) room := by
  intro source hroom
  obtain ⟨result, count, log, hcount, hrun⟩ := hreading source hroom
  refine ⟨result.mapError change, count, log, hcount, ?_⟩
  simp only [Reading.mapError, hrun]

/-- What the first of two readings accepts leaves the second the rest of the room. -/
theorem Within.bind {accepted : Bytes → α → Prop} (hreading : Within reading room) (haccepts : Accepts reading accepted)
    (hnext : ∀ front value, accepted front value → front.length ≤ room → Within (next value) (room - front.length)) :
    Within (reading >>= next) room := by
  intro source hroom
  obtain ⟨result, count, log, hcount, hrun⟩ := hreading source hroom
  cases result with
  | error error => exact ⟨.error error, count, log, hcount, run_bind_of_error hrun⟩
  | ok value =>
    obtain ⟨front, hfront, haccepted, hafter⟩ := (haccepts source value _).mp ⟨log, hrun⟩
    have hplace := congrArg Source.position hafter
    simp only [Source.position_past] at hplace
    obtain rfl : count = front.length := by omega
    have hleft : room - front.length ≤ (source.past front.length).ready.length := by
      rw [Source.length_ready_past hfront.length_le]
      omega
    obtain ⟨result, more, lines, hmore, hlast⟩ := hnext front value haccepted hcount _ hleft
    refine ⟨result, front.length + more, log ++ lines, by omega, ?_⟩
    rw [run_bind_of_ok hrun, hlast, Source.past_past]

end ReplyCapture.Reading
