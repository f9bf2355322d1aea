import Mathlib.Algebra.Group.Int.Defs
import ReplyCapture.Calendar.Instant

namespace ReplyCapture.Instant

/-- A second of a day that an instant may lie on. -/
def DayInRange (second : Int) : Prop :=
  firstDay ≤ second / secondsPerDay ∧ second / secondsPerDay ≤ lastDay

/-- An instant that is stored without loss and read back: on a day in range, a whole number of milliseconds and no
    leap second, with a fraction of a second only from the epoch on. -/
structure Storable (instant : Instant) : Prop where
  dayInRange : DayInRange instant.second
  whole : instant.nanosecond % nanosecondsPerMillisecond = 0
  noLeap : instant.nanosecond < nanosecondsPerSecond
  placed : 0 ≤ instant.second ∨ instant.nanosecond = 0

/-- A stored count that is read as the instant it counts to: from the epoch on, or of whole seconds. -/
def Faithful (milliseconds : Int) : Prop :=
  0 ≤ milliseconds ∨ milliseconds % 1000 = 0

theorem toStored_ofMilliseconds (milliseconds : Int) : (ofMilliseconds milliseconds).toStored = milliseconds := by
  simp only [ofMilliseconds, toStored, nanosecondsPerMillisecond]
  omega

/-- An instant is found again from the milliseconds that are stored for it, if it is one that is stored without loss. -/
theorem ofMilliseconds_toStored {instant : Instant} (hstorable : instant.Storable) :
    ofMilliseconds instant.toStored = instant := by
  obtain ⟨second, nanosecond⟩ := instant
  have hwhole := hstorable.whole
  have hleap := hstorable.noLeap
  simp only [nanosecondsPerMillisecond, nanosecondsPerSecond] at hwhole hleap
  simp only [ofMilliseconds, toStored, nanosecondsPerMillisecond, mk.injEq]
  omega

theorem faithful_toStored {instant : Instant} (hstorable : instant.Storable) : Faithful instant.toStored := by
  have hplaced := hstorable.placed
  simp only [Faithful, toStored, nanosecondsPerMillisecond]
  omega

theorem nanosecond_ofMilliseconds_lt (milliseconds : Int) :
    (ofMilliseconds milliseconds).nanosecond < nanosecondsPerSecond := by
  simp only [ofMilliseconds, nanosecondsPerMillisecond, nanosecondsPerSecond]
  omega

/-- Such a count is read as what it counts to, as far as days reach. -/
theorem ofStored?_eq_some_iff {milliseconds : Int} {instant : Instant} (hfaithful : Faithful milliseconds) :
    ofStored? milliseconds = some instant ↔
      instant = ofMilliseconds milliseconds ∧ DayInRange instant.second := by
  have hparts : milliseconds.tdiv 1000 = milliseconds / 1000 ∧ milliseconds.tmod 1000 = milliseconds % 1000 := by
    obtain hlater | hwhole := hfaithful
    · exact ⟨Int.tdiv_eq_ediv_of_nonneg hlater, Int.tmod_eq_emod_of_nonneg hlater⟩
    · have hdvd : 1000 ∣ milliseconds := Int.dvd_of_emod_eq_zero hwhole
      exact ⟨Int.tdiv_eq_ediv_of_dvd hdvd, (Int.tmod_eq_zero_of_dvd hdvd).trans hwhole.symm⟩
  have hremainder : ¬ milliseconds % 1000 < 0 := by omega
  have hcalm := nanosecond_ofMilliseconds_lt milliseconds
  simp only [ofStored?, hparts, if_neg hremainder, ofParts?]
  constructor
  · intro hread
    split at hread
    · next hrange =>
      obtain rfl := Option.some.inj hread
      exact ⟨rfl, hrange.1, hrange.2.1⟩
    · cases hread
  · intro hinstant
    obtain ⟨rfl, hfirst, hlast⟩ := hinstant
    exact if_pos ⟨hfirst, hlast, .inl hcalm⟩

/-- An instant that is stored without loss is read back. -/
theorem ofStored?_toStored {instant : Instant} (hstorable : instant.Storable) :
    ofStored? instant.toStored = some instant :=
  (ofStored?_eq_some_iff (faithful_toStored hstorable)).mpr
    ⟨(ofMilliseconds_toStored hstorable).symm, hstorable.dayInRange⟩

/-- What such a count is read as is stored without loss, as that count. -/
theorem storable_of_ofStored? {milliseconds : Int} {instant : Instant} (hfaithful : Faithful milliseconds)
    (hread : ofStored? milliseconds = some instant) : instant.Storable ∧ instant.toStored = milliseconds := by
  obtain ⟨rfl, hday⟩ := (ofStored?_eq_some_iff hfaithful).mp hread
  refine ⟨⟨hday, ?_, nanosecond_ofMilliseconds_lt milliseconds, ?_⟩, toStored_ofMilliseconds milliseconds⟩
  · exact Nat.mul_mod_left _ _
  · simp only [ofMilliseconds, nanosecondsPerMillisecond]
    simp only [Faithful] at hfaithful
    omega

/-- The count of an instant fits the word it is stored in. -/
theorem toStored_range {instant : Instant} (hstorable : instant.Storable) :
    -2 ^ 63 ≤ instant.toStored ∧ instant.toStored < 2 ^ 63 := by
  have hday := hstorable.dayInRange
  have hleap := hstorable.noLeap
  simp only [DayInRange, firstDay, lastDay, secondsPerDay, nanosecondsPerSecond] at hday hleap
  simp only [toStored, nanosecondsPerMillisecond]
  omega

end ReplyCapture.Instant
