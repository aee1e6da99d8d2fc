import Mathlib.Data.List.Sort
import QuokyPlatform.Foundations.Except
import QuokyPlatform.Reminders.Domain

/-! # Wall-clock time and instants

`Intl` is the one part of the host that is not modelled: the time-zone database. It is a parameter,
a function from zone names to readings of instants, with `none` for a name the host rejects. What
is proved about occurrences holds for every such function. -/

namespace QuokyPlatform.Reminders

set_option autoImplicit false
set_option maxHeartbeats 250000

/-- The numbers `formatToParts` prints. -/
structure ZonedParts where
  year : ℤ
  month : ℤ
  day : ℤ
  hour : ℤ
  minute : ℤ
  second : ℤ
deriving DecidableEq, Repr

abbrev Intl := String → Option (ℤ → ZonedParts)

abbrev LocalDate := Date.CivilDate

structure LocalDateTime where
  date : LocalDate
  hour : ℤ
  minute : ℤ
deriving DecidableEq, Repr

structure ZonedDateTime extends LocalDateTime where
  second : ℤ
  weekday : ℤ
deriving DecidableEq, Repr

inductive LocalResolution
  | exact
  | ambiguous
  | nonexistent
deriving DecidableEq, Repr

structure ResolvedInstant where
  epochMs : ℤ
  resolution : LocalResolution
deriving DecidableEq, Repr

section zone

variable (intl : Intl)

def weekdayOf (date : LocalDate) : ℤ :=
  Date.utcDay (Date.utc date.year (date.month - 1) date.day 0 0 0)

/-- The wall-clock reading of an instant. The formatter refuses an unknown zone and an invalid date. -/
def toZonedDateTime (epochMs : ℤ) (timeZone : String) : Except Failure ZonedDateTime :=
  match intl timeZone with
  | none => .error .rangeError
  | some formatter =>
    if -Date.maxTime ≤ epochMs ∧ epochMs ≤ Date.maxTime then
      let parts := formatter epochMs
      let date : LocalDate := { year := parts.year, month := parts.month, day := parts.day }
      .ok { date, hour := parts.hour % 24, minute := parts.minute, second := parts.second,
            weekday := weekdayOf date }
    else .error .rangeError

/-- The zone's UTC offset in minutes, rounded half up. -/
def offsetMinutesAt (epochMs : ℤ) (timeZone : String) : Except Failure ℤ := do
  let z ← toZonedDateTime intl epochMs timeZone
  let asUtc := Date.utc z.date.year (z.date.month - 1) z.date.day z.hour z.minute z.second
  let truncated := epochMs / 1000 * 1000
  return (asUtc - truncated + 30000) / Date.msPerMinute

def addLocalDays (date : LocalDate) (days : ℤ) : LocalDate :=
  Date.utcDate (Date.utc date.year (date.month - 1) (date.day + days) 0 0 0)

/-- The candidates that read back as the wall-clock time, one per distinct offset. -/
def matchingInstants (wall : LocalDateTime) (wallAsUtc : ℤ) (timeZone : String) :
    List ℤ → Except Failure (List ℤ)
  | [] => .ok []
  | offset :: offsets => do
    let candidate := wallAsUtc - offset * Date.msPerMinute
    let reading ← toZonedDateTime intl candidate timeZone
    let rest ← matchingInstants wall wallAsUtc timeZone offsets
    return if reading.toLocalDateTime = wall then candidate :: rest else rest

/-- The instant of a wall-clock time: the earliest candidate, or, in a gap, the reading under the
offset of the day before. -/
def zonedToUtc (wall : LocalDateTime) (timeZone : String) : Except Failure ResolvedInstant := do
  let wallAsUtc :=
    Date.utc wall.date.year (wall.date.month - 1) wall.date.day wall.hour wall.minute 0
  let before ← offsetMinutesAt intl (wallAsUtc - Date.msPerDay) timeZone
  let during ← offsetMinutesAt intl wallAsUtc timeZone
  let after ← offsetMinutesAt intl (wallAsUtc + Date.msPerDay) timeZone
  let found ← matchingInstants intl wall wallAsUtc timeZone [before, during, after].dedup
  match found.insertionSort (· ≤ ·) with
  | earliest :: others =>
    return { epochMs := earliest, resolution := if others.isEmpty then .exact else .ambiguous }
  | [] => return { epochMs := wallAsUtc - before * Date.msPerMinute, resolution := .nonexistent }

/-- The calendar date of an instant that may be `NaN`. -/
def localDateOf (instant : Option ℤ) (timeZone : String) : Except Failure LocalDate :=
  match instant with
  | none => .error .rangeError
  | some epochMs => do return (← toZonedDateTime intl epochMs timeZone).date

end zone

end QuokyPlatform.Reminders
