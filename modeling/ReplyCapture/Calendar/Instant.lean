import ReplyCapture.Calendar.Date

namespace ReplyCapture

/-- A point in time: whole seconds since the epoch and nanoseconds into that second. In a leap
    second the nanoseconds run on past a thousand million. -/
structure Instant where
  second : Int
  nanosecond : Nat
deriving DecidableEq, Repr

namespace Instant

/-- A second in nanoseconds. -/
def nanosecondsPerSecond : Nat := 1000000000

/-- A millisecond in nanoseconds. -/
def nanosecondsPerMillisecond : Nat := 1000000

/-- A day in seconds; leap seconds are not counted. -/
def secondsPerDay : Int := 86400

/-- The first day an instant may lie on, 1 January of year -262143. -/
def firstDay : Int := -96465292

/-- The last day an instant may lie on, 31 December of year 262142. -/
def lastDay : Int := 95026236

/-- Seconds and nanoseconds as an instant, when the day is in range and the nanoseconds are those
    of the second. Only the last second of a minute can be a leap second. -/
def ofParts? (second : Int) (nanosecond : Nat) : Option Instant :=
  let day := second / secondsPerDay
  if firstDay ≤ day ∧ day ≤ lastDay ∧
      (nanosecond < nanosecondsPerSecond ∨
        (nanosecond < 2 * nanosecondsPerSecond ∧ second % 60 = 59)) then
    some ⟨second, nanosecond⟩
  else none

/-- The instant that many milliseconds from the epoch. -/
def ofMilliseconds (milliseconds : Int) : Instant :=
  ⟨milliseconds / 1000, (milliseconds % 1000).toNat * nanosecondsPerMillisecond⟩

/-- The instant a stored count of milliseconds is read as. Seconds are cut toward zero, and a
    negative remainder `r` is read as `1000 - r` milliseconds into that second, more than one
    second long; this fits only before a minute's end, where it makes a leap second. -/
def ofStored? (milliseconds : Int) : Option Instant :=
  let remainder := milliseconds.tmod 1000
  let millisecond := if remainder < 0 then 1000 - remainder else remainder
  ofParts? (milliseconds.tdiv 1000) (millisecond.toNat * nanosecondsPerMillisecond)

/-- The count of milliseconds an instant is stored as; those of a leap second count. -/
def toStored (instant : Instant) : Int :=
  instant.second * 1000 + (instant.nanosecond / nanosecondsPerMillisecond : Nat)

/-- The fraction of a second in the fewest of 0, 3, 6 or 9 digits that hold it. -/
def fractionText (nanosecond : Nat) : String :=
  if nanosecond = 0 then ""
  else if nanosecond % 1000000 = 0 then "." ++ Date.padded 3 (nanosecond / 1000000)
  else if nanosecond % 1000 = 0 then "." ++ Date.padded 6 (nanosecond / 1000)
  else "." ++ Date.padded 9 nanosecond

/-- Date, time and zone; a leap second is shown as second sixty. -/
def text (instant : Instant) : String :=
  let secondOfDay := (instant.second % secondsPerDay).toNat
  let second := secondOfDay % 60 + instant.nanosecond / nanosecondsPerSecond
  (Date.ofEpochDays (instant.second / secondsPerDay)).text ++ " " ++
    Date.padded 2 (secondOfDay / 3600) ++ ":" ++ Date.padded 2 (secondOfDay / 60 % 60) ++ ":" ++
    Date.padded 2 second ++ fractionText (instant.nanosecond % nanosecondsPerSecond) ++ " UTC"

end Instant

end ReplyCapture
