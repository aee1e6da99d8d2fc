import Mathlib.Data.Int.Notation
import Mathlib.Data.Nat.Notation
import Mathlib.Tactic.Basic

/-! # Time values, timestamp texts and the proleptic calendar

The part of the host's `Date` the programs use. A time value is an integer number of milliseconds
since the epoch; `none` stands for `NaN`, and every comparison with `NaN` is false. A timestamp is
a text that is only ever compared for equality, parsed or written, so it is kept as what
`Date.parse` reads from it. -/

namespace QuokyPlatform

set_option autoImplicit false
set_option maxHeartbeats 250000

/-- A timestamp text: the text `toISOString` writes for an instant, or any other text together with
what `Date.parse` makes of it. -/
inductive IsoTimestamp
  | iso (ms : ℤ)
  | other (text : String) (parsed : Option ℤ)
deriving DecidableEq, Repr

namespace Date

/-- `Date.parse`. -/
def parse : IsoTimestamp → Option ℤ
  | .iso ms => some ms
  | .other _ parsed => parsed

@[simp] theorem parse_iso (ms : ℤ) : parse (.iso ms) = some ms := rfl

/-- The largest time value: 100,000,000 days on either side of the epoch. -/
def maxTime : ℤ := 8640000000000000

/-- `new Date(ms).toISOString()`; `none` is the `RangeError` of an invalid date. -/
def toISOString (ms : ℤ) : Option IsoTimestamp :=
  if -maxTime ≤ ms ∧ ms ≤ maxTime then some (.iso ms) else none

theorem toISOString_eq_some {ms : ℤ} {at' : IsoTimestamp} (h : toISOString ms = some at') :
    at' = .iso ms := by
  unfold toISOString at h
  split at h
  · exact (Option.some.inj h).symm
  · cases h

/-- `a <= b` on numbers that may be `NaN`. -/
def le : Option ℤ → Option ℤ → Bool
  | some a, some b => a ≤ b
  | _, _ => false

theorem le_eq_true {a b : Option ℤ} : le a b = true ↔ ∃ x y, a = some x ∧ b = some y ∧ x ≤ y := by
  cases a <;> cases b <;> simp [le]

/-- `a < b` on numbers that may be `NaN`. -/
def lt : Option ℤ → Option ℤ → Bool
  | some a, some b => a < b
  | _, _ => false

theorem lt_eq_true {a b : Option ℤ} : lt a b = true ↔ ∃ x y, a = some x ∧ b = some y ∧ x < y := by
  cases a <;> cases b <;> simp [lt]

/-! ## The calendar -/

def msPerMinute : ℤ := 60000
def msPerDay : ℤ := 86400000

/-- The day number of a date of the proleptic Gregorian calendar, months 1 to 12. The year starts
in March, so that the leap day is its last one. -/
def daysFromCivil (year month day : ℤ) : ℤ :=
  let y := if month ≤ 2 then year - 1 else year
  let era := y / 400
  let yearOfEra := y - era * 400
  let dayOfYear := (153 * ((month + 9) % 12) + 2) / 5 + day - 1
  era * 146097 + (yearOfEra * 365 + yearOfEra / 4 - yearOfEra / 100 + dayOfYear) - 719468

structure CivilDate where
  year : ℤ
  month : ℤ
  day : ℤ
deriving DecidableEq, Repr

/-- The date of a day number. -/
def civilFromDays (days : ℤ) : CivilDate :=
  let z := days + 719468
  let era := z / 146097
  let dayOfEra := z - era * 146097
  let yearOfEra :=
    (dayOfEra - dayOfEra / 1460 + dayOfEra / 36524 - dayOfEra / 146096) / 365
  let dayOfYear := dayOfEra - (365 * yearOfEra + yearOfEra / 4 - yearOfEra / 100)
  let mp := (5 * dayOfYear + 2) / 153
  let month := if mp < 10 then mp + 3 else mp - 9
  let year := yearOfEra + era * 400
  { year := if month ≤ 2 then year + 1 else year, month := month,
    day := dayOfYear - (153 * mp + 2) / 5 + 1 }

/-- `Date.UTC`: months count from 0 and every argument may overflow into the next one; the years 0
to 99 are read as 1900 to 1999. -/
def utc (year month day hour minute second : ℤ) : ℤ :=
  let fullYear := if 0 ≤ year ∧ year ≤ 99 then 1900 + year else year
  let days := daysFromCivil (fullYear + month / 12) (month % 12 + 1) 1 + day - 1
  days * msPerDay + hour * 3600000 + minute * msPerMinute + second * 1000

/-- `getUTCDay`: 0 is Sunday. Day 0 is a Thursday. -/
def utcDay (ms : ℤ) : ℤ := (ms / msPerDay + 4) % 7

/-- `getUTCFullYear`, `getUTCMonth() + 1` and `getUTCDate`. -/
def utcDate (ms : ℤ) : CivilDate := civilFromDays (ms / msPerDay)

example : utc 2026 5 28 10 0 0 = 1782640800000 := by decide
example : utcDate 1782640800000 = { year := 2026, month := 6, day := 28 } := by decide

end Date

end QuokyPlatform
