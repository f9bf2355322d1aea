import ReplyCapture.Message.Frame
import ReplyCapture.Proofs.Source.Ready

namespace ReplyCapture

namespace Source

/-- The bytes that a source would still give if it did not fail. One that gives nothing at a time has none. -/
def held (source : Source) : Bytes :=
  if source.chunk = some 0 then [] else source.pending

/-- The failure lies in front of one of the next `count` bytes. -/
def FailsWithin (source : Source) (count : Nat) : Prop :=
  ∃ failure, source.failure = some failure ∧ source.position ≤ failure.position ∧
    failure.position < source.position + count

/-- What comes of wanting `want` bytes, told by what a source holds and where it fails: all of them, where the failure
    is in front of none; all that the source holds, where that is less and the failure is not met at its end; or those
    in front of the failure. -/
inductive Supplies (source : Source) (want : Nat) : Bytes → Except MessageError Unit → Prop
  | whole (hheld : want ≤ source.held.length) (hclear : ¬ source.FailsWithin want) :
      Supplies source want (source.held.take want) (.ok ())
  | short (hfewer : source.held.length < want) (hclear : ¬ source.FailsWithin (source.held.length + 1)) :
      Supplies source want source.held (.error (.truncated want source.held.length))
  | failed {failure : Failure} {count : Nat} (hfailure : source.failure = some failure)
      (hplace : failure.position = source.position + count) (hheld : count ≤ source.held.length)
      (hfewer : count < want) : Supplies source want (source.held.take count) (.error (.io failure.text))

variable {source : Source} {want : Nat}

theorem failsWithin_of_place {failure : Failure} {count before : Nat} (hfailure : source.failure = some failure)
    (hplace : failure.position = source.position + before) (hbefore : before < count) : source.FailsWithin count :=
  ⟨failure, hfailure, by omega, by omega⟩

/-- A source supplies one thing only. -/
theorem Supplies.unique {bytes others : Bytes} {verdict other : Except MessageError Unit}
    (hbytes : source.Supplies want bytes verdict) (hothers : source.Supplies want others other) :
    others = bytes ∧ other = verdict := by
  cases hbytes with
  | whole hheld hclear =>
    cases hothers with
    | whole _ _ => exact ⟨rfl, rfl⟩
    | short hfewer _ => exact absurd hheld (Nat.not_le.mpr hfewer)
    | failed hfailure hplace _ hbefore => exact absurd (failsWithin_of_place hfailure hplace hbefore) hclear
  | short hfewer hclear =>
    cases hothers with
    | whole hheld _ => exact absurd hheld (Nat.not_le.mpr hfewer)
    | short _ _ => exact ⟨rfl, rfl⟩
    | failed hfailure hplace hheld _ =>
      exact absurd (failsWithin_of_place hfailure hplace (Nat.lt_succ_of_le hheld)) hclear
  | failed hfailure hplace hheld hbefore =>
    cases hothers with
    | whole _ hclear => exact absurd (failsWithin_of_place hfailure hplace hbefore) hclear
    | short _ hclear => exact absurd (failsWithin_of_place hfailure hplace (Nat.lt_succ_of_le hheld)) hclear
    | failed hsame hthere _ _ =>
      obtain rfl := Option.some.inj (hfailure.symm.trans hsame)
      obtain rfl := Nat.add_left_cancel (hplace.symm.trans hthere)
      exact ⟨rfl, rfl⟩

end Source

/-- The rest of a document comes to the same where it is read to the end of its length's bytes. -/
theorem Frame.run_completed_eq_refill (front : Bytes) (declared : Nat) (source : Source) :
    (completed front declared).run source =
      match source.refill front (declared - lengthSize) with
      | ⟨document, ⟨.ok (), after, _⟩⟩ => ⟨.ok document, after, [.framed declared]⟩
      | ⟨_, ⟨.error error, after, _⟩⟩ => ⟨.error (wholeShortage declared error), after, []⟩ := by
  have hrest : ((Reading.exactly (declared - lengthSize)).mapError (wholeShortage declared)).run source =
      ⟨(((source.collect (declared - lengthSize)).verdict (declared - lengthSize)).map fun _ =>
        (source.collect (declared - lengthSize)).bytes).mapError (wholeShortage declared),
        (source.collect (declared - lengthSize)).source, []⟩ := rfl
  rw [completed, Source.refill]
  cases hverdict : (source.collect (declared - lengthSize)).verdict (declared - lengthSize) with
  | error error =>
    rw [hverdict] at hrest
    exact Reading.run_bind_of_error hrest
  | ok _ =>
    rw [hverdict] at hrest
    exact Reading.run_bind_of_ok hrest

end ReplyCapture
