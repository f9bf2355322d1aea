import ReplyCapture.Proofs.Source.Ready
import ReplyCapture.Proofs.Steps

namespace ReplyCapture

/-- Part of the bytes wanted did not come. Only what is behind them could tell more. -/
def MessageError.IsShortage : MessageError → Prop
  | .truncated _ _ | .io _ => True
  | _ => False

/-- Whether a failure or the end cut the bytes short, it counts as a shortage. -/
theorem Source.isShortage_shortage (source : Source) (want : Nat) : (source.shortage want).IsShortage := by
  unfold shortage
  split <;> trivial

namespace Reading

variable {α β : Type} {reading : Reading α} {next : α → Reading β}

/-- Started on one source, a reading succeeds and leaves the other. -/
def Gives (reading : Reading α) (source : Source) (value : α) (after : Source) : Prop :=
  ∃ log, reading.run source = ⟨.ok value, after, log⟩

/-- A reading succeeds exactly on these bytes, with these values, and takes nothing else. -/
def Accepts (reading : Reading α) (accepted : Bytes → α → Prop) : Prop :=
  ∀ source value after,
    reading.Gives source value after ↔
      ∃ front, front <+: source.ready ∧ accepted front value ∧ after = source.past front.length

/-- Whatever a reading does, it does by the bytes it takes. Only a shortage tells of what is behind them. -/
def Local (reading : Reading α) : Prop :=
  ∀ source,
    (∃ error, (reading.run source).result = .error error ∧ error.IsShortage) ∨
      ∃ front result log, front <+: source.ready ∧
        ∀ other : Source, front <+: other.ready → reading.run other = ⟨result, other.past front.length, log⟩

theorem run_ofExcept {result found : Except MessageError α} (hresult : result = found) (source : Source) :
    (ofExcept result).run source = ⟨found, source, []⟩ := by
  rw [ofExcept, hresult]

/-- Two runs of bytes are ready one behind the other exactly if the second is ready once the first has been read. -/
theorem append_prefix_ready_iff {source : Source} {front back : Bytes} :
    front ++ back <+: source.ready ↔ front <+: source.ready ∧ back <+: (source.past front.length).ready := by
  constructor
  · intro hboth
    have hfront : front <+: source.ready := (List.prefix_append front back).trans hboth
    obtain ⟨rest, hrest⟩ := hboth
    refine ⟨hfront, ?_⟩
    rw [Source.ready_past hfront.length_le, ← hrest, List.append_assoc, List.drop_left]
    exact List.prefix_append back rest
  · intro hparts
    obtain ⟨hfront, hback⟩ := hparts
    rw [Source.ready_past hfront.length_le] at hback
    obtain ⟨tail, htail⟩ := hfront
    rw [← htail, List.drop_left] at hback
    rw [← htail]
    exact (List.prefix_append_right_inj front).mpr hback

/-- A success leaves some source behind, which need not be known. -/
theorem gives_of_result {source : Source} {value : α} (hresult : (reading.run source).result = .ok value) :
    reading.Gives source value (reading.run source).source := by
  refine ⟨(reading.run source).log, ?_⟩
  rw [← hresult]

/-- Two readings succeed in a row exactly if each does, the second from where the first stopped. -/
theorem gives_bind_iff {source after : Source} {result : β} :
    (reading >>= next).Gives source result after ↔
      ∃ value middle, reading.Gives source value middle ∧ (next value).Gives middle result after := by
  constructor
  · intro hboth
    obtain ⟨log, hrun⟩ := hboth
    rcases hreading : reading.run source with ⟨error | value, middle, lines⟩
    · rw [run_bind_of_error hreading] at hrun
      cases hrun
    · rw [run_bind_of_ok hreading] at hrun
      refine ⟨value, middle, ⟨lines, hreading⟩, ((next value).run middle).log, ?_⟩
      injection hrun with hresult hsource
      rw [← hresult, ← hsource]
  · intro hparts
    obtain ⟨value, middle, ⟨lines, hreading⟩, more, hnext⟩ := hparts
    refine ⟨lines ++ more, ?_⟩
    rw [run_bind_of_ok hreading, hnext]

/-- What follows a success gives what it gives from there. -/
theorem result_bind_of_gives {source after : Source} {value : α} (hgives : reading.Gives source value after) :
    ((reading >>= next).run source).result = ((next value).run after).result := by
  obtain ⟨log, hrun⟩ := hgives
  rw [run_bind_of_ok hrun]

/-- The first error of two readings is that of both. Where it left the source does not matter. -/
theorem result_bind_of_error {source : Source} {error : MessageError}
    (herror : (reading.run source).result = .error error) :
    ((reading >>= next).run source).result = .error error := by
  rcases hrun : reading.run source with ⟨result, after, log⟩
  rw [hrun] at herror
  obtain rfl := herror
  rw [run_bind_of_error hrun]

/-- What a reading accepts may be described in other words. -/
theorem Accepts.congr {accepted others : Bytes → α → Prop} (hreading : Accepts reading accepted)
    (hsame : ∀ front value, accepted front value ↔ others front value) : Accepts reading others := by
  intro source value after
  rw [hreading source value after]
  simp only [hsame]

/-- A reading that leaves every source alone accepts no bytes but none. -/
theorem accepts_of_run {result : Except MessageError α} {log : List Event}
    (hrun : ∀ source, reading.run source = ⟨result, source, log⟩) :
    Accepts reading fun front value => front = [] ∧ result = .ok value := by
  intro source value after
  constructor
  · intro hgives
    obtain ⟨lines, hgives⟩ := hgives
    rw [hrun] at hgives
    cases hgives
    exact ⟨[], List.nil_prefix, ⟨rfl, rfl⟩, source.past_zero.symm⟩
  · intro haccepted
    obtain ⟨front, _, ⟨rfl, rfl⟩, rfl⟩ := haccepted
    refine ⟨log, ?_⟩
    rw [hrun, List.length_nil, Source.past_zero]

theorem accepts_pure (value : α) : Accepts (pure value) fun front found => front = [] ∧ found = value := by
  refine (accepts_of_run (run_pure value)).congr fun front found => ?_
  simp only [Except.ok.injEq, eq_comm]

theorem accepts_ofExcept (result : Except MessageError α) :
    Accepts (ofExcept result) fun front value => front = [] ∧ result = .ok value :=
  accepts_of_run fun _ => rfl

theorem accepts_fail (error : MessageError) : Accepts (fail error : Reading α) fun _ _ => False := by
  refine (accepts_of_run fun _ => rfl).congr fun front value => ?_
  simp only [reduceCtorEq, and_false]

/-- Logging takes no bytes, whatever is logged. -/
theorem accepts_record (event : Event) : Accepts (record event) fun front _ => front = [] := by
  refine (accepts_of_run fun _ => rfl).congr fun front value => ?_
  simp only [and_true]

/-- Reading so many bytes accepts any that many, and gives them as they are. -/
theorem accepts_exactly (count : Nat) :
    Accepts (exactly count) fun front value => front = value ∧ front.length = count := by
  intro source value after
  by_cases hcount : count ≤ source.ready.length
  · have hlength : (source.ready.take count).length = count := List.length_take_of_le hcount
    constructor
    · intro hgives
      obtain ⟨log, hgives⟩ := hgives
      rw [run_exactly_of_le hcount] at hgives
      cases hgives
      exact ⟨_, List.take_prefix count source.ready, ⟨rfl, hlength⟩, by rw [hlength]⟩
    · intro haccepted
      obtain ⟨front, hfront, ⟨rfl, rfl⟩, rfl⟩ := haccepted
      refine ⟨[], ?_⟩
      rw [run_exactly_of_le hcount, ← List.prefix_iff_eq_take.mp hfront]
  · constructor
    · intro hgives
      obtain ⟨log, hgives⟩ := hgives
      rw [run_exactly_of_lt (Nat.lt_of_not_le hcount)] at hgives
      cases hgives
    · intro haccepted
      obtain ⟨front, hfront, ⟨_, hlength⟩, _⟩ := haccepted
      exact absurd (hlength ▸ hfront.length_le) hcount

/-- Which error is told of makes no difference to what is accepted. -/
theorem Accepts.mapError {accepted : Bytes → α → Prop} (hreading : Accepts reading accepted)
    (change : MessageError → MessageError) : Accepts (reading.mapError change) accepted := by
  intro source value after
  rw [← hreading source value after]
  simp only [Gives, Reading.mapError, Outcome.mk.injEq, mapError_eq_ok_iff]
  constructor
  · intro hgives
    obtain ⟨log, hresult, hafter, hlog⟩ := hgives
    exact ⟨log, by rw [← hresult, ← hafter, ← hlog]⟩
  · intro hgives
    obtain ⟨log, hrun⟩ := hgives
    exact ⟨log, by rw [hrun], by rw [hrun], by rw [hrun]⟩

/-- One reading after the other accepts the bytes of both. The second need only be known where the first
    accepts something. -/
theorem Accepts.bind_of {accepted : Bytes → α → Prop} {later : α → Bytes → β → Prop}
    (hreading : Accepts reading accepted)
    (hnext : ∀ front value, accepted front value → Accepts (next value) (later value)) :
    Accepts (reading >>= next) fun bytes result =>
      ∃ front back value, bytes = front ++ back ∧ accepted front value ∧ later value back result := by
  intro source result after
  rw [gives_bind_iff]
  constructor
  · intro hparts
    obtain ⟨value, middle, hfirst, hsecond⟩ := hparts
    obtain ⟨front, hfront, haccepted, rfl⟩ := (hreading source value middle).mp hfirst
    obtain ⟨back, hback, hlater, rfl⟩ := (hnext front value haccepted _ result after).mp hsecond
    have hboth := append_prefix_ready_iff.mpr ⟨hfront, hback⟩
    refine ⟨front ++ back, hboth, ⟨front, back, value, rfl, haccepted, hlater⟩, ?_⟩
    rw [Source.past_past, List.length_append]
  · intro hboth
    obtain ⟨bytes, hbytes, ⟨front, back, value, rfl, haccepted, hlater⟩, rfl⟩ := hboth
    obtain ⟨hfront, hback⟩ := append_prefix_ready_iff.mp hbytes
    have hfirst := (hreading source value (source.past front.length)).mpr ⟨front, hfront, haccepted, rfl⟩
    have hsecond := (hnext front value haccepted _ result _).mpr ⟨back, hback, hlater, rfl⟩
    rw [Source.past_past, ← List.length_append] at hsecond
    exact ⟨value, source.past front.length, hfirst, hsecond⟩

/-- The same where the second reading is known behind any value of the first. -/
theorem Accepts.bind {accepted : Bytes → α → Prop} {later : α → Bytes → β → Prop}
    (hreading : Accepts reading accepted) (hnext : ∀ value, Accepts (next value) (later value)) :
    Accepts (reading >>= next) fun bytes result =>
      ∃ front back value, bytes = front ++ back ∧ accepted front value ∧ later value back result :=
  hreading.bind_of fun _ value _ => hnext value

/-- A reading that leaves every source alone depends on none of their bytes. -/
theorem local_of_run {result : Except MessageError α} {log : List Event}
    (hrun : ∀ source, reading.run source = ⟨result, source, log⟩) : Local reading := by
  intro source
  refine .inr ⟨[], result, log, List.nil_prefix, ?_⟩
  intro other _
  rw [hrun, List.length_nil, Source.past_zero]

/-- Two local readings in a row are local: the second starts behind bytes that the first has taken on every source. -/
theorem Local.bind (hreading : Local reading) (hnext : ∀ value, Local (next value)) : Local (reading >>= next) := by
  intro source
  obtain ⟨error, hresult, hshortage⟩ | ⟨front, result, log, hfront, hsame⟩ := hreading source
  · refine .inl ⟨error, ?_, hshortage⟩
    rcases hrun : reading.run source with ⟨result, after, log⟩
    rw [hrun] at hresult
    simp only at hresult
    rw [run_bind_of_error (hresult ▸ hrun)]
  · cases result with
    | error error =>
      refine .inr ⟨front, .error error, log, hfront, ?_⟩
      intro other hother
      exact run_bind_of_error (hsame other hother)
    | ok value =>
      obtain ⟨error, hresult, hshortage⟩ | ⟨back, last, lines, hback, hlast⟩ := hnext value (source.past front.length)
      · refine .inl ⟨error, ?_, hshortage⟩
        rw [run_bind_of_ok (hsame source hfront), hresult]
      · refine .inr ⟨front ++ back, last, log ++ lines, append_prefix_ready_iff.mpr ⟨hfront, hback⟩, ?_⟩
        intro other hother
        obtain ⟨hother, hrest⟩ := append_prefix_ready_iff.mp hother
        rw [run_bind_of_ok (hsame other hother), hlast _ hrest, Source.past_past, List.length_append]

/-- Reading so many bytes depends on these bytes alone, or it runs into a shortage. -/
theorem local_exactly (count : Nat) : Local (exactly count) := by
  intro source
  by_cases hcount : count ≤ source.ready.length
  · have hlength : (source.ready.take count).length = count := List.length_take_of_le hcount
    refine .inr ⟨source.ready.take count, .ok (source.ready.take count), [], List.take_prefix count _, ?_⟩
    intro other hother
    have hfront := List.prefix_iff_eq_take.mp hother
    have hother := hother.length_le
    rw [hlength] at hfront hother
    rw [run_exactly_of_le hother, hlength, hfront]
  · exact .inl ⟨source.shortage count, by rw [run_exactly_of_lt (Nat.lt_of_not_le hcount)],
      source.isShortage_shortage count⟩

/-- A changed error must still count as a shortage where it was one, for only a shortage may depend on what is
    behind. -/
theorem Local.mapError {change : MessageError → MessageError} (hreading : Local reading)
    (hchange : ∀ error, error.IsShortage → (change error).IsShortage) : Local (reading.mapError change) := by
  intro source
  obtain ⟨error, hresult, hshortage⟩ | ⟨front, result, log, hfront, hsame⟩ := hreading source
  · exact .inl ⟨change error, mapError_eq_error_iff.mpr ⟨error, hresult, rfl⟩, hchange error hshortage⟩
  · refine .inr ⟨front, result.mapError change, log, hfront, ?_⟩
    intro other hother
    simp only [Reading.mapError, hsame other hother]

end Reading

end ReplyCapture
