import QuokyPlatform.Reminders.DispatchRuns
import QuokyPlatform.Reminders.EventRecheck

/-! # Dispatching one event-relative reminder

The fire-time answer of an event-relative reminder with the note it carries, and the run of
`dispatchDue` calls over the one reminder a repository stores. -/

namespace QuokyPlatform.Reminders

set_option autoImplicit false
set_option maxHeartbeats 250000

/-! ## The answer to a re-check -/

inductive CancelReason
  | gone
  | allDay
deriving DecidableEq, Repr

/-- `unverified` is the "could not re-check" note. -/
inductive EventNote
  | none
  | unverified
  | movedEarlier
deriving DecidableEq, Repr

/-- What the owner is told, or the completion that moves the reminder with its event. -/
inductive EventAnswer
  | canceled (title : String) (reason : CancelReason)
  | rescheduled (completion : ReminderFiringCompletion)
  | delivered (title : String) (startAt : IsoTimestamp) (note : EventNote) (late : Bool)
deriving DecidableEq, Repr

def EventAnswer.plan (occurrenceAt : IsoTimestamp) : EventAnswer → DispatchPlan
  | .canceled _ _ => .deliver .eventCanceled occurrenceAt
  | .rescheduled completion => .complete completion
  | .delivered _ _ _ _ => .deliver .event occurrenceAt

def ReminderEventRef.offsetMs (ref : ReminderEventRef) : ℤ := ref.offsetMinutes * Date.msPerMinute

/-- `dispatchEventReminder` from the answer of the re-check on, with the texts it chooses. -/
def answerEvent (reminder : Reminder) (ref : ReminderEventRef)
    (now occurrenceAt expectedStart : IsoTimestamp) (late : Bool) (check : Recheck) :
    Except Failure EventAnswer :=
  match check with
  | .gone => .ok (.canceled reminder.body .gone)
  | .unreadable _ => .ok (.delivered reminder.body expectedStart .unverified late)
  | .found event =>
    if event.allDay then .ok (.canceled event.title .allDay)
    else match Date.parse event.start with
      | none => .ok (.delivered reminder.body expectedStart .unverified late)
      | some startMs => do
        let dueMs := startMs - ref.offsetMs
        let startAt ← isoOf startMs
        if some dueMs = Date.parse occurrenceAt then
          return .delivered event.title startAt .none late
        else if Date.lt (Date.parse now) (some dueMs) then
          -- Moved later: the reminder moves with it and nothing is sent at the stale time.
          return .rescheduled (← planEventRescheduleCompletion reminder now (← isoOf dueMs))
        else return .delivered event.title startAt .movedEarlier false

/-- Where a dispatch stands before its first effect: at the re-check of an event, or at a plan that
needs none. -/
inductive DispatchStage
  | event (ref : ReminderEventRef) (occurrenceAt expectedStart : IsoTimestamp) (late : Bool)
  | other (plan : DispatchPlan)
deriving DecidableEq, Repr

def DispatchStage.plan (reminder : Reminder) (now : IsoTimestamp) (check : Recheck) :
    DispatchStage → Except Failure DispatchPlan
  | .event ref occurrenceAt expectedStart late => do
    return (← answerEvent reminder ref now occurrenceAt expectedStart late check).plan occurrenceAt
  | .other plan => .ok plan

section dispatch

variable (intl : Intl)

/-- `dispatchOne` up to the re-check. -/
def dispatchStage (reminder : Reminder) (now : IsoTimestamp) : Except Failure DispatchStage := do
  let decision ← decideMissedOccurrence intl reminder.schedule reminder.timeZone
    (claimedOccurrenceAt reminder now) now
  match decision with
  | .skip skippedOccurrenceAt nextOccurrenceAt =>
    return .other (.complete (← planFiringCompletion reminder (.skippedMissed skippedOccurrenceAt)
      { at' := now, nextOccurrenceAt := some nextOccurrenceAt }))
  | .deliver occurrenceAt late =>
    match reminder.event with
    | none => return .other (.deliver .regular occurrenceAt)
    | some ref =>
      if isEventReminder reminder then
        match Date.parse occurrenceAt with
        | none => .error .rangeError
        | some occurrenceMs =>
          return .event ref occurrenceAt (← isoOf (occurrenceMs + ref.offsetMs)) late
      else return .other (.deliver .regular occurrenceAt)

/-! ## The stored reminder -/

/-- `claimDue` on the reminder a repository stores. -/
def claimIfDue (stored : Reminder) (attemptId : Id) (now : IsoTimestamp) : Option Reminder :=
  if stored.status = .scheduled ∧
      Date.le (stored.nextFireAt.bind Date.parse) (Date.parse now) = true then
    (claimReminder stored attemptId now).toOption
  else none

/-- `completeFiring` on it: only while it is firing under the attempt. -/
def completeIfHeld (stored : Reminder) (attemptId : Id) (completion : ReminderFiringCompletion) :
    Reminder :=
  match applyFiringCompletion stored attemptId completion with
  | .ok next => next
  | .error _ => stored

/-- One `dispatchDue` call: the clock it reads, the calendar it meets (`none` where none is
configured) and what the sink answers (`none` where it never does). -/
structure Tick where
  attemptId : Id
  now : ℤ
  calendar : Option CalendarState
  sink : Option SinkAnswer
deriving DecidableEq, Repr

/-- What a call that re-checked an event made of it; without an answer the dispatch threw. -/
structure Fired where
  claimed : Reminder
  ref : ReminderEventRef
  occurrenceAt : IsoTimestamp
  expectedStart : IsoTimestamp
  check : Recheck
  answer : Option EventAnswer
  tick : Tick
  after : Reminder
deriving DecidableEq, Repr

/-- The re-check of the call; without a calendar every event is unreadable. -/
def Tick.recheck (place : Placement) (tick : Tick) (ref : ReminderEventRef)
    (expectedStart : IsoTimestamp) : Recheck :=
  match tick.calendar with
  | none => .unreadable false
  | some calendar =>
    QuokyPlatform.Reminders.recheck place calendar ref expectedStart (.iso tick.now)

/-- The completion of a plan, when the one send of it has come back. -/
def settle (reminder : Reminder) (now : IsoTimestamp) (sink : Option SinkAnswer) :
    DispatchPlan → Option ReminderFiringCompletion
  | .complete completion => some completion
  | .deliver kind occurrenceAt => do
    (completionAfter intl kind reminder now occurrenceAt (← sink).outcome).toOption

/-- The reminder after a plan; without a completion it stays `FIRING`. -/
def afterPlan (claimed : Reminder) (tick : Tick) (plan : DispatchPlan) : Reminder :=
  match settle intl claimed (.iso tick.now) tick.sink plan with
  | none => claimed
  | some completion => completeIfHeld claimed tick.attemptId completion

/-- One `dispatchDue` over the stored reminder: what became of its event, and what is stored. -/
def fire (place : Placement) (stored : Reminder) (tick : Tick) : Option Fired × Reminder :=
  match claimIfDue stored tick.attemptId (.iso tick.now) with
  | none => (none, stored)
  | some claimed =>
    match dispatchStage intl claimed (.iso tick.now) with
    | .error _ => (none, claimed)
    | .ok (.other plan) => (none, afterPlan intl claimed tick plan)
    | .ok (.event ref occurrenceAt expectedStart late) =>
      let check := tick.recheck place ref expectedStart
      let answer :=
        (answerEvent claimed ref (.iso tick.now) occurrenceAt expectedStart late check).toOption
      let after := match answer with
        | none => claimed
        | some answer => afterPlan intl claimed tick (answer.plan occurrenceAt)
      (some { claimed, ref, occurrenceAt, expectedStart, check, answer, tick, after }, after)

/-- The event answers of a run of `dispatchDue` calls. -/
def firings (place : Placement) : Reminder → List Tick → List Fired
  | _, [] => []
  | stored, tick :: rest =>
    let (fired, after) := fire intl place stored tick
    fired.toList ++ firings place after rest

/-! ## The dispatcher's plan -/

theorem answerEvent_plan {reminder : Reminder} {ref : ReminderEventRef}
    {now occurrenceAt expectedStart : IsoTimestamp} {late : Bool} {occurrenceMs : ℤ}
    (hoccurrence : Date.parse occurrenceAt = some occurrenceMs)
    (hexpected : isoOf (occurrenceMs + ref.offsetMs) = .ok expectedStart) (check : Recheck) :
    (answerEvent reminder ref now occurrenceAt expectedStart late check).map
        (EventAnswer.plan occurrenceAt) =
      dispatchEventReminder reminder ref now occurrenceAt check.verdict := by
  rw [ReminderEventRef.offsetMs] at hexpected
  simp only [answerEvent, dispatchEventReminder, ReminderEventRef.offsetMs, hoccurrence, hexpected,
    bind, Except.bind]
  cases check with
  | gone => rfl
  | unreadable duplicate => rfl
  | found event =>
    simp only [Recheck.verdict]
    cases event.allDay with
    | true => rfl
    | false =>
      simp only [Bool.false_eq_true, if_false]
      cases Date.parse event.start with
      | none => rfl
      | some startMs =>
        simp only
        cases isoOf startMs with
        | error failure => rfl
        | ok startAt =>
          simp only [Option.some.injEq]
          by_cases hsame : startMs - ref.offsetMinutes * Date.msPerMinute = occurrenceMs
          · rw [if_pos hsame, if_pos hsame]
            rfl
          · rw [if_neg hsame, if_neg hsame]
            by_cases hlater : Date.lt (Date.parse now)
                (some (startMs - ref.offsetMinutes * Date.msPerMinute)) = true
            · simp only [hlater, if_true]
              cases isoOf (startMs - ref.offsetMinutes * Date.msPerMinute) with
              | error failure => rfl
              | ok dueAt =>
                simp only
                cases planEventRescheduleCompletion reminder now dueAt with
                | error failure => rfl
                | ok completion => rfl
            · simp only [hlater, Bool.false_eq_true, if_false]
              rfl

/-- The two halves together are `dispatchOne`. -/
theorem dispatchStage_plan (reminder : Reminder) (now : IsoTimestamp) (check : Recheck) :
    dispatchStage intl reminder now >>= DispatchStage.plan reminder now check =
      dispatchOne intl reminder now check.verdict := by
  unfold dispatchStage dispatchOne
  cases decideMissedOccurrence intl reminder.schedule reminder.timeZone
    (claimedOccurrenceAt reminder now) now with
  | error failure => rfl
  | ok decision =>
    cases decision with
    | skip skippedOccurrenceAt nextOccurrenceAt =>
      simp only [bind, Except.bind]
      cases planFiringCompletion reminder (.skippedMissed skippedOccurrenceAt)
          { at' := now, nextOccurrenceAt := some nextOccurrenceAt } with
      | error failure => rfl
      | ok completion => rfl
    | deliver occurrenceAt late =>
      simp only [bind, Except.bind]
      cases reminder.event with
      | none => rfl
      | some ref =>
        simp only
        by_cases hevent : isEventReminder reminder = true
        · rw [if_pos hevent, if_pos hevent]
          cases hoccurrence : Date.parse occurrenceAt with
          | none =>
            rw [dispatchEventReminder, hoccurrence]
          | some occurrenceMs =>
            simp only
            cases hexpected : isoOf (occurrenceMs + ref.offsetMs) with
            | error failure =>
              rw [ReminderEventRef.offsetMs] at hexpected
              simp only [dispatchEventReminder, hoccurrence, hexpected, bind, Except.bind]
            | ok expectedStart =>
              rw [← answerEvent_plan hoccurrence hexpected check]
              simp only [DispatchStage.plan, bind, Except.bind, pure, Except.pure]
              cases answerEvent reminder ref now occurrenceAt expectedStart late check with
              | error failure => rfl
              | ok answer => rfl
        · rw [if_neg hevent, if_neg hevent]
          rfl

end dispatch

end QuokyPlatform.Reminders
