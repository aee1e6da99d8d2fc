import QuokyPlatform.Reminders.ZonedTime

/-! # Occurrences and the missed-reminder policy

The searches over eight local days, and what the dispatcher does with a claimed occurrence. The
only facts the dispatcher needs of the calendar are the two bounds proved here: the next occurrence
is strictly later, the latest one is not. -/

namespace QuokyPlatform.Reminders

set_option autoImplicit false
set_option maxHeartbeats 250000

/-- A recurrence repeats at least weekly: eight local days from the first one. -/
def searchDays : List ℤ := [0, 1, 2, 3, 4, 5, 6, 7, 8]

def occursOn (schedule : ReminderSchedule) (date : LocalDate) : Bool :=
  match schedule with
  | .once _ => false
  | .daily _ => true
  | .weekly _ weekdays => weekdays.contains (weekdayOf date)

def scheduleTime : ReminderSchedule → ReminderLocalTime
  | .once _ => { hour := 0, minute := 0 }
  | .daily time => time
  | .weekly time _ => time

section zone

variable (intl : Intl)

def occurrenceOn (schedule : ReminderSchedule) (date : LocalDate) (timeZone : String) :
    Except Failure ℤ := do
  let time := scheduleTime schedule
  return (← zonedToUtc intl { date, hour := time.hour, minute := time.minute } timeZone).epochMs

/-- The first accepted occurrence on the dates, in their order. -/
def searchOccurrence (schedule : ReminderSchedule) (timeZone : String) (accept : ℤ → Bool) :
    List LocalDate → Except Failure (Option ℤ)
  | [] => .ok none
  | date :: dates =>
    if !occursOn schedule date then searchOccurrence schedule timeZone accept dates
    else do
      let instant ← occurrenceOn intl schedule date timeZone
      if accept instant then return some instant
      else searchOccurrence schedule timeZone accept dates

def isoOfFound : Option ℤ → Except Failure (Option IsoTimestamp)
  | none => .ok none
  | some ms => do return some (← isoOf ms)

/-- The first occurrence strictly after an instant. -/
def nextOccurrenceAfter (schedule : ReminderSchedule) (timeZone : String) (after : IsoTimestamp) :
    Except Failure (Option IsoTimestamp) :=
  let afterMs := Date.parse after
  match schedule with
  | .once instant =>
    if Date.lt afterMs (Date.parse instant) then isoOfFound (Date.parse instant) else .ok none
  | _ => do
    let start := addLocalDays (← localDateOf intl afterMs timeZone) (-1)
    isoOfFound (← searchOccurrence intl schedule timeZone
      (fun ms => Date.lt afterMs (some ms)) (searchDays.map fun i => addLocalDays start i))

/-- The latest occurrence at or before an instant. -/
def latestOccurrenceAtOrBefore (schedule : ReminderSchedule) (timeZone : String)
    (atOrBefore : IsoTimestamp) : Except Failure (Option IsoTimestamp) :=
  let limitMs := Date.parse atOrBefore
  match schedule with
  | .once instant =>
    if Date.le (Date.parse instant) limitMs then isoOfFound (Date.parse instant) else .ok none
  | _ => do
    let start := addLocalDays (← localDateOf intl limitMs timeZone) 1
    isoOfFound (← searchOccurrence intl schedule timeZone
      (fun ms => Date.le (some ms) limitMs) (searchDays.map fun i => addLocalDays start (-i)))

inductive MissedOccurrenceDecision
  | deliver (occurrenceAt : IsoTimestamp) (late : Bool)
  | skip (skippedOccurrenceAt nextOccurrenceAt : IsoTimestamp)
deriving DecidableEq, Repr

def isLate (now : IsoTimestamp) (occurrenceMs : ℤ) : Bool :=
  match Date.parse now with
  | none => false
  | some nowMs => lateLabelAfterMs < nowMs - occurrenceMs

/-- A one-shot is delivered once, however late. A recurring reminder is delivered at its latest due
occurrence within the catch-up grace, and skipped beyond it. Every path on which the occurrence or
the clock is `NaN` ends in the `RangeError` of an invalid date. -/
def decideMissedOccurrence (schedule : ReminderSchedule) (timeZone : String)
    (occurrenceAt now : IsoTimestamp) : Except Failure MissedOccurrenceDecision :=
  match Date.parse occurrenceAt with
  | none => .error .rangeError
  | some occurrenceMs =>
    if !isRecurringSchedule schedule then do
      return .deliver (← isoOf occurrenceMs) (isLate now occurrenceMs)
    else do
      let latest ← latestOccurrenceAtOrBefore intl schedule timeZone now
      match Date.parse now with
      | none => .error .rangeError
      | some nowMs =>
        let dueMs := match latest.bind Date.parse with
          | none => occurrenceMs
          | some latestMs => max occurrenceMs latestMs
        if nowMs - dueMs ≤ recurringCatchUpGraceMs then
          return .deliver (← isoOf dueMs) (isLate now dueMs)
        else
          match ← nextOccurrenceAfter intl schedule timeZone now with
          | none => .error .rangeError
          | some next => return .skip (← isoOf dueMs) next

/-! ## The two bounds -/

theorem searchOccurrence_accepted {schedule : ReminderSchedule} {timeZone : String}
    {accept : ℤ → Bool} {found : ℤ} :
    ∀ {dates : List LocalDate},
      searchOccurrence intl schedule timeZone accept dates = .ok (some found) → accept found = true
  | [], h => by cases h
  | date :: dates, h => by
    rw [searchOccurrence] at h
    split at h
    · exact searchOccurrence_accepted h
    · obtain ⟨instant, -, h⟩ := bind_ok.mp h
      split at h
      · rename_i haccept
        cases pure_ok.mp h
        exact haccept
      · exact searchOccurrence_accepted h

theorem isoOfFound_ok {found : Option ℤ} {value : IsoTimestamp}
    (h : isoOfFound found = .ok (some value)) : ∃ ms, found = some ms ∧ value = .iso ms := by
  cases found with
  | none => cases h
  | some ms =>
    obtain ⟨written, hwritten, h⟩ := bind_ok.mp h
    cases pure_ok.mp h
    exact ⟨ms, rfl, isoOf_ok hwritten⟩

theorem nextOccurrenceAfter_later {schedule : ReminderSchedule} {timeZone : String}
    {after next : IsoTimestamp}
    (h : nextOccurrenceAfter intl schedule timeZone after = .ok (some next)) :
    ∃ afterMs nextMs, Date.parse after = some afterMs ∧ Date.parse next = some nextMs ∧
      afterMs < nextMs := by
  suffices hlt : ∃ ms, next = .iso ms ∧ Date.lt (Date.parse after) (some ms) = true by
    obtain ⟨ms, rfl, hlt⟩ := hlt
    obtain ⟨a, b, ha, hb, hab⟩ := Date.lt_eq_true.mp hlt
    exact ⟨a, b, ha, hb, hab⟩
  unfold nextOccurrenceAfter at h
  simp only at h
  split at h
  · split at h
    · rename_i hlt
      obtain ⟨ms, hms, rfl⟩ := isoOfFound_ok h
      rw [hms] at hlt
      exact ⟨ms, rfl, hlt⟩
    · cases h
  · obtain ⟨start, -, h⟩ := bind_ok.mp h
    obtain ⟨found, hfound, h⟩ := bind_ok.mp h
    obtain ⟨ms, rfl, rfl⟩ := isoOfFound_ok h
    exact ⟨ms, rfl, searchOccurrence_accepted intl hfound⟩

theorem latestOccurrenceAtOrBefore_le {schedule : ReminderSchedule} {timeZone : String}
    {limit latest : IsoTimestamp}
    (h : latestOccurrenceAtOrBefore intl schedule timeZone limit = .ok (some latest)) :
    ∃ limitMs latestMs, Date.parse limit = some limitMs ∧ Date.parse latest = some latestMs ∧
      latestMs ≤ limitMs := by
  suffices hle : ∃ ms, latest = .iso ms ∧ Date.le (some ms) (Date.parse limit) = true by
    obtain ⟨ms, rfl, hle⟩ := hle
    obtain ⟨a, b, ha, hb, hab⟩ := Date.le_eq_true.mp hle
    exact ⟨b, a, hb, ha, hab⟩
  unfold latestOccurrenceAtOrBefore at h
  simp only at h
  split at h
  · split at h
    · rename_i hle
      obtain ⟨ms, hms, rfl⟩ := isoOfFound_ok h
      rw [hms] at hle
      exact ⟨ms, rfl, hle⟩
    · cases h
  · obtain ⟨start, -, h⟩ := bind_ok.mp h
    obtain ⟨found, hfound, h⟩ := bind_ok.mp h
    obtain ⟨ms, rfl, rfl⟩ := isoOfFound_ok h
    exact ⟨ms, rfl, searchOccurrence_accepted intl hfound⟩

/-- What a decision about an occurrence that has come says: a delivery is of an occurrence between
the claimed one and the clock, and of the claimed one for a one-shot; a skip moves past both. -/
theorem decideMissedOccurrence_ok {schedule : ReminderSchedule} {timeZone : String}
    {occurrenceAt now : IsoTimestamp} {decision : MissedOccurrenceDecision} {occurrence nowMs : ℤ}
    (hocc : Date.parse occurrenceAt = some occurrence) (hnow : Date.parse now = some nowMs)
    (hcome : occurrence ≤ nowMs)
    (h : decideMissedOccurrence intl schedule timeZone occurrenceAt now = .ok decision) :
    match decision with
    | .deliver deliveredAt _ => ∃ delivered, deliveredAt = .iso delivered ∧
        occurrence ≤ delivered ∧ delivered ≤ nowMs ∧
        (isRecurringSchedule schedule = false → delivered = occurrence)
    | .skip _ nextAt => isRecurringSchedule schedule = true ∧
        ∃ next, Date.parse nextAt = some next ∧ nowMs < next := by
  unfold decideMissedOccurrence at h
  rw [hocc] at h
  simp only at h
  split at h
  · rename_i honce
    obtain ⟨deliveredAt, hdelivered, h⟩ := bind_ok.mp h
    cases pure_ok.mp h
    obtain rfl := isoOf_ok hdelivered
    exact ⟨occurrence, rfl, le_refl _, hcome, fun _ => rfl⟩
  · rename_i hrecurring
    have hrec : isRecurringSchedule schedule = true := by simpa using hrecurring
    obtain ⟨latest, hlatest, h⟩ := bind_ok.mp h
    rw [hnow] at h
    simp only at h
    set due := (match latest.bind Date.parse with
      | none => occurrence
      | some latestMs => max occurrence latestMs) with hdue
    have hbounds : occurrence ≤ due ∧ due ≤ nowMs := by
      cases latest with
      | none => exact ⟨le_refl _, hcome⟩
      | some latestAt =>
        obtain ⟨limitMs, latestMs, hlimit, hms, hle⟩ := latestOccurrenceAtOrBefore_le intl hlatest
        obtain rfl : limitMs = nowMs := Option.some.inj (hlimit.symm.trans hnow)
        rw [Option.bind_some, hms] at hdue
        exact hdue ▸ ⟨le_max_left _ _, max_le hcome hle⟩
    split at h
    · obtain ⟨deliveredAt, hdelivered, h⟩ := bind_ok.mp h
      cases pure_ok.mp h
      obtain rfl := isoOf_ok hdelivered
      exact ⟨due, rfl, hbounds.1, hbounds.2, fun honce => absurd (hrec.symm.trans honce) (by decide)⟩
    · obtain ⟨found, hfound, h⟩ := bind_ok.mp h
      cases found with
      | none => cases h
      | some next =>
        obtain ⟨skippedAt, -, h⟩ := bind_ok.mp h
        cases pure_ok.mp h
        obtain ⟨afterMs, nextMs, hafter, hnext, hlt⟩ := nextOccurrenceAfter_later intl hfound
        obtain rfl : afterMs = nowMs := Option.some.inj (hafter.symm.trans hnow)
        exact ⟨hrec, nextMs, hnext, hlt⟩

end zone

end QuokyPlatform.Reminders
