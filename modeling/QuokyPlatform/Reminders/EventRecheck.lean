import Mathlib.Data.List.Sort
import QuokyPlatform.Reminders.Dispatch

/-! # What became of the event of a reminder

The two bounded calendar reads of a re-check and the verdict made of them. The calendar service is
met through `listEvents` alone: it throws, hangs, or answers the first events of the asked window,
in start order. -/

namespace QuokyPlatform.Reminders

set_option autoImplicit false
set_option maxHeartbeats 250000

/-! ## The calendar -/

structure CalendarEvent where
  id : String
  title : String
  start : IsoTimestamp
  endAt : IsoTimestamp
  allDay : Bool
  calendarName : String
  /-- `Date.parse` answers time values only. -/
  time_value : ∀ ms, Date.parse start = some ms → -Date.maxTime ≤ ms ∧ ms ≤ Date.maxTime
deriving DecidableEq, Repr

/-- How the calendar service lays events on the time line: a timed event where its own instants
say, an all-day event where its dates fall in the zone of the service. -/
structure Placement where
  begins : CalendarEvent → ℤ
  ends : CalendarEvent → ℤ
  timed_begins : ∀ event ms, event.allDay = false → Date.parse event.start = some ms →
    begins event = ms
  timed_ends : ∀ event ms, event.allDay = false → Date.parse event.endAt = some ms →
    ends event = ms

/-- `[from, to)`. -/
structure EventWindow where
  from' : ℤ
  to' : ℤ
deriving DecidableEq, Repr

def Placement.Overlaps (place : Placement) (window : EventWindow) (event : CalendarEvent) : Prop :=
  place.begins event < window.to' ∧ window.from' < place.ends event

instance (place : Placement) (window : EventWindow) :
    DecidablePred (place.Overlaps window) := fun event =>
  inferInstanceAs (Decidable (place.begins event < window.to' ∧ window.from' < place.ends event))

/-- The events of a window in start order. -/
def Placement.inWindow (place : Placement) (events : List CalendarEvent) (window : EventWindow) :
    List CalendarEvent :=
  (events.filter fun event => place.Overlaps window event).insertionSort
    fun a b => place.begins a ≤ place.begins b

inductive ReadEnd
  | answers
  | throws
  | hangs
deriving DecidableEq, Repr

/-- The calendar at one fire, and how each of the two reads of a re-check ends. -/
structure CalendarState where
  events : List CalendarEvent
  narrowRead : ReadEnd := .answers
  wideRead : ReadEnd := .answers
deriving DecidableEq, Repr

def calendarEventsMaxLimit : ℕ := 50

/-- One `listEvents` call inside the time bound of the re-check. -/
def listEvents (place : Placement) (events : List CalendarEvent) (read : ReadEnd)
    (window : EventWindow) : Except Failure (List CalendarEvent) :=
  match read with
  | .answers => .ok ((place.inWindow events window).take calendarEventsMaxLimit)
  | .throws => .error (.error "UNAVAILABLE")
  | .hangs => .error (.error "calendar read timed out")

theorem mem_inWindow {place : Placement} {events : List CalendarEvent} {window : EventWindow}
    {event : CalendarEvent} :
    event ∈ place.inWindow events window ↔ event ∈ events ∧ place.Overlaps window event := by
  rw [Placement.inWindow, List.mem_insertionSort, List.mem_filter, decide_eq_true_eq]

/-! ## The re-check -/

def recheckNarrowMs : ℤ := 12 * 60 * 60000
def recheckWideBeforeMs : ℤ := 24 * 60 * 60000
def recheckWideAfterMs : ℤ := 30 * 24 * 60 * 60000

def narrowWindow (expectedMs : ℤ) : EventWindow :=
  { from' := expectedMs - recheckNarrowMs, to' := expectedMs + recheckNarrowMs }

def wideWindow (nowMs : ℤ) : EventWindow :=
  { from' := nowMs - recheckWideBeforeMs, to' := nowMs + recheckWideAfterMs }

/-- The id, and the calendar name when one is stored. -/
def ReminderEventRef.names (ref : ReminderEventRef) (event : CalendarEvent) : Bool :=
  event.id == ref.eventId && ref.calendarName.all fun name => event.calendarName == name

/-- What tells two events of one id apart. -/
abbrev EventKey := String × String × IsoTimestamp × IsoTimestamp × Bool

def CalendarEvent.key (event : CalendarEvent) : EventKey :=
  (event.calendarName, event.title, event.start, event.endAt, event.allDay)

/-- The loop of `distinctMatches` over the events it has still to read. -/
def distinctFrom (ref : ReminderEventRef) :
    List CalendarEvent → List EventKey → List CalendarEvent
  | [], _ => []
  | event :: rest, seen =>
    if !ref.names event then distinctFrom ref rest seen
    else if seen.contains event.key then distinctFrom ref rest seen
    else event :: distinctFrom ref rest (event.key :: seen)

def distinctMatches (events : List CalendarEvent) (ref : ReminderEventRef) : List CalendarEvent :=
  distinctFrom ref events []

inductive Recheck
  | found (event : CalendarEvent)
  | gone
  | unreadable (duplicate : Bool)
deriving DecidableEq, Repr

/-- What the dispatcher's plan depends on. -/
def Recheck.verdict : Recheck → EventReminderRecheck
  | .found event => .found event.start event.allDay
  | .gone => .gone
  | .unreadable _ => .unreadable

/-- The window of a query: both of its ends are written as timestamps. -/
def queryWindow (window : EventWindow) : Except Failure EventWindow := do
  let _ ← isoOf window.from'
  let _ ← isoOf window.to'
  return window

/-- The pages of the two reads, around the expected start and across the month. -/
def recheckPages (place : Placement) (calendar : CalendarState) (expectedMs nowMs : ℤ) :
    Except Failure (List CalendarEvent × List CalendarEvent) := do
  let narrow ← listEvents place calendar.events calendar.narrowRead
    (← queryWindow (narrowWindow expectedMs))
  let wide ← listEvents place calendar.events calendar.wideRead (← queryWindow (wideWindow nowMs))
  return (narrow, wide)

/-- The verdict on two pages. A full wide page without the event proves nothing. -/
def judgePages (ref : ReminderEventRef) (narrow wide : List CalendarEvent) : Recheck :=
  match distinctMatches (narrow ++ wide) ref with
  | _ :: _ :: _ => .unreadable true
  | [only] => .found only
  | [] => if wide.length < calendarEventsMaxLimit then .gone else .unreadable false

def recheck (place : Placement) (calendar : CalendarState) (ref : ReminderEventRef)
    (expectedStart now : IsoTimestamp) : Recheck :=
  match Date.parse expectedStart, Date.parse now with
  | some expectedMs, some nowMs =>
    match recheckPages place calendar expectedMs nowMs with
    | .ok (narrow, wide) => judgePages ref narrow wide
    | .error _ => .unreadable false
  | _, _ => .unreadable false

/-! ## What the matches are -/

/-- Two events of the stored id with one key are one event. -/
theorem eq_of_key {ref : ReminderEventRef} {a b : CalendarEvent} (ha : ref.names a = true)
    (hb : ref.names b = true) (hkey : a.key = b.key) : a = b := by
  simp only [ReminderEventRef.names, Bool.and_eq_true, beq_iff_eq] at ha hb
  simp only [CalendarEvent.key, Prod.mk.injEq] at hkey
  obtain ⟨hname, htitle, hstart, hend, hallDay⟩ := hkey
  cases a
  cases b
  simp_all

theorem mem_distinctFrom {ref : ReminderEventRef} {event : CalendarEvent} :
    ∀ {events : List CalendarEvent} {seen : List EventKey},
      event ∈ distinctFrom ref events seen ↔
        event ∈ events ∧ ref.names event = true ∧ event.key ∉ seen
  | [], seen => by simp [distinctFrom]
  | first :: rest, seen => by
    rw [distinctFrom]
    split
    · rename_i hnot
      rw [mem_distinctFrom, List.mem_cons]
      refine and_congr_left fun hnamed => ?_
      constructor
      · exact Or.inr
      · rintro (rfl | hrest)
        · simp [hnamed.1] at hnot
        · exact hrest
    · rename_i hnames
      have hfirst : ref.names first = true := by simpa using hnames
      split
      · rename_i hseen
        have hmem : first.key ∈ seen := by simpa using hseen
        rw [mem_distinctFrom, List.mem_cons]
        refine and_congr_left fun hnamed => ?_
        constructor
        · exact Or.inr
        · rintro (rfl | hrest)
          · exact absurd hmem hnamed.2
          · exact hrest
      · rename_i hseen
        have hmem : first.key ∉ seen := by simpa using hseen
        rw [List.mem_cons, mem_distinctFrom, List.mem_cons, List.mem_cons, not_or]
        constructor
        · rintro (rfl | ⟨hrest, hnamed, -, hnew⟩)
          · exact ⟨Or.inl rfl, hfirst, hmem⟩
          · exact ⟨Or.inr hrest, hnamed, hnew⟩
        · rintro ⟨rfl | hrest, hnamed, hnew⟩
          · exact Or.inl rfl
          · by_cases hsame : event.key = first.key
            · exact Or.inl (eq_of_key hnamed hfirst hsame)
            · exact Or.inr ⟨hrest, hnamed, hsame, hnew⟩

theorem nodup_distinctFrom {ref : ReminderEventRef} :
    ∀ {events : List CalendarEvent} {seen : List EventKey}, (distinctFrom ref events seen).Nodup
  | [], _ => List.nodup_nil
  | first :: rest, seen => by
    rw [distinctFrom]
    split
    · exact nodup_distinctFrom
    · split
      · exact nodup_distinctFrom
      · refine List.nodup_cons.mpr ⟨fun hmem => ?_, nodup_distinctFrom⟩
        exact (mem_distinctFrom.mp hmem).2.2 List.mem_cons_self

theorem mem_distinctMatches {ref : ReminderEventRef} {events : List CalendarEvent}
    {event : CalendarEvent} :
    event ∈ distinctMatches events ref ↔ event ∈ events ∧ ref.names event = true := by
  rw [distinctMatches, mem_distinctFrom]
  simp

theorem distinctMatches_eq_nil {ref : ReminderEventRef} {events : List CalendarEvent} :
    distinctMatches events ref = [] ↔ ∀ event ∈ events, ref.names event = false := by
  rw [List.eq_nil_iff_forall_not_mem]
  constructor
  · intro h event hmem
    have hnot := h event
    rw [mem_distinctMatches, not_and, Bool.not_eq_true] at hnot
    exact hnot hmem
  · intro h event hmem
    obtain ⟨hin, hnamed⟩ := mem_distinctMatches.mp hmem
    rw [h event hin] at hnamed
    cases hnamed

/-- The events show exactly one event the reference names. -/
structure ReminderEventRef.NamesOnly (ref : ReminderEventRef) (events : List CalendarEvent)
    (event : CalendarEvent) : Prop where
  shown : event ∈ events
  named : ref.names event = true
  only : ∀ other ∈ events, ref.names other = true → other = event

theorem distinctMatches_eq_singleton {ref : ReminderEventRef} {events : List CalendarEvent}
    {event : CalendarEvent} :
    distinctMatches events ref = [event] ↔ ref.NamesOnly events event := by
  constructor
  · intro h
    have hmem : ∀ other, other ∈ events ∧ ref.names other = true ↔ other = event := by
      intro other
      rw [← mem_distinctMatches, h, List.mem_singleton]
    have hself := (hmem event).mpr rfl
    exact ⟨hself.1, hself.2, fun other hin hnamed => (hmem other).mp ⟨hin, hnamed⟩⟩
  · intro h
    have hmem : event ∈ distinctMatches events ref := mem_distinctMatches.mpr ⟨h.shown, h.named⟩
    have hall : ∀ other ∈ distinctMatches events ref, other = event := by
      intro other hother
      obtain ⟨hin, hnamed⟩ := mem_distinctMatches.mp hother
      exact h.only other hin hnamed
    have hnodup : (distinctMatches events ref).Nodup := nodup_distinctFrom
    revert hmem hall hnodup
    match distinctMatches events ref with
    | [] => exact fun hmem => nomatch hmem
    | [only] => exact fun _ hall _ => by rw [hall only List.mem_cons_self]
    | a :: b :: rest =>
      intro _ hall hnodup
      have hsame : a = b := by
        rw [hall a List.mem_cons_self, hall b (List.mem_cons_of_mem a List.mem_cons_self)]
      exact absurd (hsame ▸ List.mem_cons_self) (List.nodup_cons.mp hnodup).1

/-! ## What a verdict says -/

theorem judgePages_found {ref : ReminderEventRef} {narrow wide : List CalendarEvent}
    {event : CalendarEvent} :
    judgePages ref narrow wide = .found event ↔ ref.NamesOnly (narrow ++ wide) event := by
  rw [← distinctMatches_eq_singleton, judgePages]
  split
  · rename_i h
    simp [h]
  · rename_i only h
    simp [h]
  · rename_i h
    rw [h]
    split <;> simp

theorem judgePages_gone {ref : ReminderEventRef} {narrow wide : List CalendarEvent} :
    judgePages ref narrow wide = .gone ↔
      (∀ event ∈ narrow ++ wide, ref.names event = false) ∧
        wide.length < calendarEventsMaxLimit := by
  rw [← distinctMatches_eq_nil, judgePages]
  split
  · rename_i h
    simp [h]
  · rename_i only h
    simp [h]
  · rename_i h
    rw [h]
    split <;> simp_all

/-- The pages of a re-check whose reads both answer. -/
theorem recheckPages_ok {place : Placement} {calendar : CalendarState} {expectedMs nowMs : ℤ}
    {narrow wide : List CalendarEvent}
    (h : recheckPages place calendar expectedMs nowMs = .ok (narrow, wide)) :
    narrow = (place.inWindow calendar.events (narrowWindow expectedMs)).take
        calendarEventsMaxLimit ∧
      wide = (place.inWindow calendar.events (wideWindow nowMs)).take calendarEventsMaxLimit := by
  have hquery : ∀ {window queried : EventWindow}, queryWindow window = .ok queried →
      queried = window := by
    intro window queried hq
    obtain ⟨_, -, hq⟩ := bind_ok.mp hq
    obtain ⟨_, -, hq⟩ := bind_ok.mp hq
    exact (pure_ok.mp hq).symm
  have hlist : ∀ {read : ReadEnd} {window : EventWindow} {page : List CalendarEvent},
      listEvents place calendar.events read window = .ok page →
      page = (place.inWindow calendar.events window).take calendarEventsMaxLimit := by
    intro read window page hl
    cases read with
    | answers => exact (Except.ok.inj hl).symm
    | throws => cases hl
    | hangs => cases hl
  obtain ⟨first, hfirst, h⟩ := bind_ok.mp h
  obtain ⟨narrowPage, hnarrow, h⟩ := bind_ok.mp h
  obtain ⟨second, hsecond, h⟩ := bind_ok.mp h
  obtain ⟨widePage, hwide, h⟩ := bind_ok.mp h
  cases pure_ok.mp h
  rw [hquery hfirst] at hnarrow
  rw [hquery hsecond] at hwide
  exact ⟨hlist hnarrow, hlist hwide⟩

/-- A page shorter than the limit is the whole window. -/
theorem page_complete {place : Placement} {events : List CalendarEvent} {window : EventWindow}
    {event : CalendarEvent} (hin : event ∈ events) (hoverlaps : place.Overlaps window event)
    (hshort : ((place.inWindow events window).take calendarEventsMaxLimit).length <
      calendarEventsMaxLimit) :
    event ∈ (place.inWindow events window).take calendarEventsMaxLimit := by
  rw [List.length_take] at hshort
  rw [List.take_of_length_le (by omega)]
  exact mem_inWindow.mpr ⟨hin, hoverlaps⟩

end QuokyPlatform.Reminders
