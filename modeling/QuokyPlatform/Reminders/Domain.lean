import QuokyPlatform.Foundations.Date
import QuokyPlatform.Foundations.Text

/-! # The owner reminder

A reminder is a durable, actor-owned record whose only effect is one bounded text at a computed
time. The transitions below are pure: the time of each is an input. They fail as the source throws,
with the transition, code and detail of the error. -/

namespace QuokyPlatform.Reminders

set_option autoImplicit false
set_option maxHeartbeats 250000

inductive ReminderStatus
  | scheduled
  | firing
  | completed
  | canceled
  | failed
  | deliveryUncertain
deriving DecidableEq, Repr

def ReminderStatus.text : ReminderStatus → String
  | .scheduled => "SCHEDULED"
  | .firing => "FIRING"
  | .completed => "COMPLETED"
  | .canceled => "CANCELED"
  | .failed => "FAILED"
  | .deliveryUncertain => "DELIVERY_UNCERTAIN"

inductive ReminderBodyKind
  | text
  | brief
deriving DecidableEq, Repr

structure ReminderLocalTime where
  hour : ℤ
  minute : ℤ
deriving DecidableEq, Repr

/-- `once` at an absolute instant, or a wall-clock recurrence; a weekday is 0 (Sunday) to 6. -/
inductive ReminderSchedule
  | once (instant : IsoTimestamp)
  | daily (time : ReminderLocalTime)
  | weekly (time : ReminderLocalTime) (weekdays : List ℤ)
deriving DecidableEq, Repr

inductive ReminderOccurrenceOutcome
  | sent
  | failed
  | deliveryUncertain
  | skippedMissed
deriving DecidableEq, Repr

inductive NotificationDeliveryVia
  | dm
  | channel
deriving DecidableEq, Repr

inductive NotificationNotSentReason
  | textTooLong
  | notOwner
  | targetNotAdmitted
  | missingAccess
  | unknownTarget
  | rateLimited
  | notConnected
  | emptyText
deriving DecidableEq, Repr

inductive NotificationUncertainReason
  | timeout
  | networkError
  | aborted
  | platformError
  | unclassified
  | interrupted
deriving DecidableEq, Repr

/-- The delivery-outcome contract of `NotificationSink.deliver`. -/
inductive NotificationDeliveryOutcome
  | sent (via : NotificationDeliveryVia)
  | notSent (reason : NotificationNotSentReason) (retryable : Bool)
  | uncertain (reason : NotificationUncertainReason)
deriving DecidableEq, Repr

/-- What ended a claimed occurrence. -/
inductive ReminderFiringResult
  | delivery (outcome : NotificationDeliveryOutcome)
  | skippedMissed (skippedOccurrenceAt : IsoTimestamp)
deriving DecidableEq, Repr

/-- Why the occurrence ended as it did: one of the two reason enumerations of a delivery. -/
inductive OutcomeReason
  | notSent (reason : NotificationNotSentReason)
  | uncertain (reason : NotificationUncertainReason)
deriving DecidableEq, Repr

structure ReminderEventRef where
  eventId : String
  offsetMinutes : ℤ
  calendarName : Option String
deriving DecidableEq, Repr

structure ReminderLastOutcome where
  outcome : ReminderOccurrenceOutcome
  occurrenceAt : IsoTimestamp
  recordedAt : IsoTimestamp
  via : Option NotificationDeliveryVia := none
  reason : Option OutcomeReason := none
deriving DecidableEq, Repr

/-- Where the reminder was created. -/
structure ConversationContext where
  platform : String
  spaceId : Option String
  channelId : String
  threadId : Option String
  userId : String
  direct : Option Bool
deriving DecidableEq, Repr

/-! ## Bounds -/

def maxBodyChars : ℕ := 200
def maxRetries : ℕ := 3
/-- Backoff of retry 1, 2 and 3, in minutes. -/
def retryBackoffMinutes : List ℤ := [1, 5, 15]
def recurringCatchUpGraceMs : ℤ := 60 * 60000
def lateLabelAfterMs : ℤ := 2 * 60000
def maxDeliveriesPerTick : ℤ := 10
def minEventOffsetMinutes : ℤ := 1
def maxEventOffsetMinutes : ℤ := 120
def maxEventIdChars : ℕ := 1024
def maxEventCalendarNameChars : ℕ := 100

/-! ## The aggregate -/

/-- A reminder before the repository has numbered it. -/
structure ReminderDraft where
  id : Id
  actorId : Id
  status : ReminderStatus
  kind : ReminderBodyKind
  body : String
  schedule : ReminderSchedule
  timeZone : String
  origin : ConversationContext
  occurrenceAt : Option IsoTimestamp
  nextFireAt : Option IsoTimestamp
  attempt : ℕ
  firingAttemptId : Option Id := none
  firingStartedAt : Option IsoTimestamp := none
  lastOutcome : Option ReminderLastOutcome := none
  event : Option ReminderEventRef
  createdAt : IsoTimestamp
  updatedAt : IsoTimestamp
deriving DecidableEq, Repr

structure Reminder extends ReminderDraft where
  displayNo : ℕ
deriving DecidableEq, Repr

/-- The states a completion may move a firing reminder to: every status but `firing`. -/
inductive CompletionStatus
  | scheduled
  | completed
  | failed
  | deliveryUncertain
  | canceled
deriving DecidableEq, Repr

def CompletionStatus.toStatus : CompletionStatus → ReminderStatus
  | .scheduled => .scheduled
  | .completed => .completed
  | .failed => .failed
  | .deliveryUncertain => .deliveryUncertain
  | .canceled => .canceled

structure ReminderFiringCompletion where
  status : CompletionStatus
  schedule : Option ReminderSchedule := none
  occurrenceAt : Option IsoTimestamp := none
  nextFireAt : Option IsoTimestamp := none
  attempt : ℕ
  lastOutcome : Option ReminderLastOutcome := none
  updatedAt : IsoTimestamp
deriving DecidableEq, Repr

inductive InvalidReminderCode
  | bodyEmpty
  | bodyTooLong
  | scheduleInvalid
  | fireTimeInvalid
  | eventRefInvalid
deriving DecidableEq, Repr

/-- What the reminder code throws: the two error classes of the domain, a plain `Error` with its
message, and the host's `RangeError` for an invalid date or zone. -/
inductive Failure
  | invalidReminderTransition (source target : String) (detail : Option String)
  | invalidReminder (code : InvalidReminderCode)
  | error (message : String)
  | rangeError
deriving DecidableEq, Repr

/-- `new Date(ms).toISOString()` as a call that may throw. -/
def isoOf (ms : ℤ) : Except Failure IsoTimestamp :=
  match Date.toISOString ms with
  | some value => .ok value
  | none => .error .rangeError

theorem isoOf_ok {ms : ℤ} {value : IsoTimestamp} (h : isoOf ms = .ok value) :
    value = .iso ms := by
  unfold isoOf at h
  split at h
  · rename_i written hwritten
    cases h
    exact Date.toISOString_eq_some hwritten
  · cases h

/-! ## The transition table -/

def transitions : ReminderStatus → List ReminderStatus
  | .scheduled => [.firing, .canceled, .scheduled]
  | .firing => [.completed, .scheduled, .failed, .deliveryUncertain, .canceled]
  | .completed => []
  | .canceled => []
  | .failed => []
  | .deliveryUncertain => []

def canTransitionReminder (source target : ReminderStatus) : Bool :=
  (transitions source).contains target

def isTerminalReminderStatus (status : ReminderStatus) : Bool :=
  (transitions status).length == 0

def isActiveReminderStatus (status : ReminderStatus) : Bool :=
  status == .scheduled || status == .firing

theorem isActive_iff_not_terminal (status : ReminderStatus) :
    isActiveReminderStatus status = !isTerminalReminderStatus status := by
  cases status <;> rfl

def isRecurringSchedule : ReminderSchedule → Bool
  | .once _ => false
  | _ => true

/-! ## Validity -/

/-- Body length in Unicode code points. -/
def reminderBodyLength (body : String) : ℕ := body.toList.length

def isValidLocalTime (time : ReminderLocalTime) : Bool :=
  0 ≤ time.hour && time.hour ≤ 23 && 0 ≤ time.minute && time.minute ≤ 59

def isIsoInstant (value : IsoTimestamp) : Bool := (Date.parse value).isSome

def distinctWeekdays : List ℤ → List ℤ → Bool
  | [], _ => true
  | day :: rest, seen =>
    if day < 0 || 6 < day || seen.contains day then false else distinctWeekdays rest (day :: seen)

def isValidReminderSchedule : ReminderSchedule → Bool
  | .once instant => isIsoInstant instant
  | .daily time => isValidLocalTime time
  | .weekly time weekdays =>
    isValidLocalTime time && !weekdays.isEmpty && distinctWeekdays weekdays []

def isValidReminderEventRef (event : ReminderEventRef) : Bool :=
  0 < utf16Length event.eventId && utf16Length event.eventId ≤ maxEventIdChars &&
    !event.eventId.toList.any isControl &&
    minEventOffsetMinutes ≤ event.offsetMinutes && event.offsetMinutes ≤ maxEventOffsetMinutes &&
    match event.calendarName with
    | none => true
    | some name => utf16Length name ≤ maxEventCalendarNameChars && !name.toList.any isControl

structure NewReminderInput where
  id : Id
  actorId : Id
  kind : ReminderBodyKind
  body : String
  schedule : ReminderSchedule
  timeZone : String
  origin : ConversationContext
  firstFireAt : IsoTimestamp
  createdAt : IsoTimestamp
  event : Option ReminderEventRef
deriving DecidableEq, Repr

def eventRefAllowed (input : NewReminderInput) : Bool :=
  match input.event with
  | none => true
  | some event =>
    isValidReminderEventRef event && !isRecurringSchedule input.schedule && input.kind == .text

/-- A new scheduled draft. -/
def createReminderDraft (input : NewReminderInput) : Except Failure ReminderDraft :=
  let length := reminderBodyLength input.body
  if length == 0 || input.body.toList.all isTrimmed then .error (.invalidReminder .bodyEmpty)
  else if maxBodyChars < length then .error (.invalidReminder .bodyTooLong)
  else if !isValidReminderSchedule input.schedule then .error (.invalidReminder .scheduleInvalid)
  else if !isIsoInstant input.firstFireAt then .error (.invalidReminder .fireTimeInvalid)
  else if !eventRefAllowed input then .error (.invalidReminder .eventRefInvalid)
  else .ok {
    id := input.id, actorId := input.actorId, status := .scheduled, kind := input.kind,
    body := input.body, schedule := input.schedule, timeZone := input.timeZone,
    origin := input.origin, occurrenceAt := some input.firstFireAt,
    nextFireAt := some input.firstFireAt, attempt := 0, event := input.event,
    createdAt := input.createdAt, updatedAt := input.createdAt }

/-! ## Transitions -/

/-- `SCHEDULED → FIRING`. The attempt id is the token the completion must present. -/
def claimReminder (reminder : Reminder) (attemptId : Id) (now : IsoTimestamp) :
    Except Failure Reminder :=
  if canTransitionReminder reminder.status .firing then
    .ok { reminder with status := .firing, firingAttemptId := some attemptId,
                        firingStartedAt := some now, updatedAt := now }
  else .error (.invalidReminderTransition reminder.status.text "FIRING" none)

/-- `SCHEDULED → CANCELED`. A firing reminder cannot be canceled by its owner. -/
def cancelReminder (reminder : Reminder) (now : IsoTimestamp) : Except Failure Reminder :=
  if reminder.status = .scheduled then
    .ok { reminder with occurrenceAt := none, nextFireAt := none, firingAttemptId := none,
                        firingStartedAt := none, status := .canceled, updatedAt := now }
  else .error (.invalidReminderTransition reminder.status.text "CANCELED" none)

def sameScheduleType : ReminderSchedule → ReminderSchedule → Bool
  | .once _, .once _ => true
  | .daily _, .daily _ => true
  | .weekly _ _, .weekly _ _ => true
  | _, _ => false

/-- `CANCELED → SCHEDULED` for the same reminder, the inverse of a cancel. -/
def reactivateReminder (reminder : Reminder) (now nextFireAt : IsoTimestamp)
    (schedule : Option ReminderSchedule) : Except Failure Reminder :=
  if reminder.status ≠ .canceled then
    .error (.invalidReminderTransition reminder.status.text "SCHEDULED" (some "reactivate"))
  else if !isIsoInstant nextFireAt || Date.le (Date.parse nextFireAt) (Date.parse now) then
    .error (.invalidReminder .fireTimeInvalid)
  else
    let nextSchedule := schedule.getD reminder.schedule
    if !isValidReminderSchedule nextSchedule ||
        (schedule.isSome && !sameScheduleType reminder.schedule nextSchedule) then
      .error (.invalidReminder .scheduleInvalid)
    else .ok { reminder with firingAttemptId := none, firingStartedAt := none, status := .scheduled,
                             schedule := nextSchedule, occurrenceAt := some nextFireAt,
                             nextFireAt := some nextFireAt, attempt := 0, updatedAt := now }

structure FiringCompletionContext where
  at' : IsoTimestamp
  nextOccurrenceAt : Option IsoTimestamp := none
  deliveredOccurrenceAt : Option IsoTimestamp := none
deriving DecidableEq, Repr

def addMinutes (iso : IsoTimestamp) (minutes : ℤ) : Except Failure IsoTimestamp :=
  match Date.parse iso with
  | some ms => isoOf (ms + minutes * Date.msPerMinute)
  | none => .error .rangeError

/-- Terminal status of a one-shot reminder; a one-shot is never skipped. -/
def onceFinalStatus : ReminderOccurrenceOutcome → CompletionStatus
  | .sent => .completed
  | .failed => .failed
  | .deliveryUncertain => .deliveryUncertain
  | .skippedMissed => .failed

def finalOccurrenceOutcome (result : ReminderFiringResult) (occurrenceAt recordedAt : IsoTimestamp) :
    ReminderLastOutcome :=
  match result with
  | .delivery (.sent via) => { outcome := .sent, occurrenceAt, recordedAt, via := some via }
  | .delivery (.notSent reason _) =>
    { outcome := .failed, occurrenceAt, recordedAt, reason := some (.notSent reason) }
  | .delivery (.uncertain reason) =>
    { outcome := .deliveryUncertain, occurrenceAt, recordedAt, reason := some (.uncertain reason) }
  | .skippedMissed skippedOccurrenceAt =>
    { outcome := .skippedMissed, occurrenceAt := skippedOccurrenceAt, recordedAt }

/-- The occurrence the reminder was claimed for. -/
def claimedOccurrenceAt (reminder : Reminder) (fallback : IsoTimestamp) : IsoTimestamp :=
  (reminder.occurrenceAt <|> reminder.nextFireAt <|> reminder.firingStartedAt).getD fallback

/-- The occurrence a completion is about: the delivered one, when the catch-up went past the claimed
one (recurring only, never earlier), else the claimed one. -/
def completedOccurrence (reminder : Reminder) (context : FiringCompletionContext) :
    Except Failure IsoTimestamp :=
  let claimed := claimedOccurrenceAt reminder context.at'
  match context.deliveredOccurrenceAt with
  | none => .ok claimed
  | some delivered =>
    if !isRecurringSchedule reminder.schedule || !isIsoInstant delivered ||
        Date.lt (Date.parse delivered) (Date.parse claimed) then
      .error (.invalidReminderTransition reminder.status.text "completion"
        (some "a delivered occurrence is a recurring occurrence at or after the claimed one"))
    else match Date.parse delivered with
      | some ms => isoOf ms
      | none => .error .rangeError

def mayRetry (reminder : Reminder) : ReminderFiringResult → Bool
  | .delivery (.notSent _ retryable) => retryable && reminder.attempt < maxRetries
  | _ => false

/-- Where a firing reminder goes for a firing result. -/
def planFiringCompletion (reminder : Reminder) (result : ReminderFiringResult)
    (context : FiringCompletionContext) : Except Failure ReminderFiringCompletion :=
  if reminder.status ≠ .firing then
    .error (.invalidReminderTransition reminder.status.text "completion"
      (some "reminder is not FIRING"))
  else do
    let occurrenceAt ← completedOccurrence reminder context
    if mayRetry reminder result then
      let backoff := retryBackoffMinutes.getD reminder.attempt 15
      let nextFireAt ← addMinutes context.at' backoff
      return { status := .scheduled, occurrenceAt := some occurrenceAt,
               nextFireAt := some nextFireAt, attempt := reminder.attempt + 1,
               updatedAt := context.at' }
    else
      let outcome := finalOccurrenceOutcome result occurrenceAt context.at'
      if !isRecurringSchedule reminder.schedule then
        match result with
        | .skippedMissed _ => .error (.invalidReminderTransition reminder.status.text "SCHEDULED"
            (some "a ONCE reminder is never skipped"))
        | .delivery _ =>
          return { status := onceFinalStatus outcome.outcome, attempt := reminder.attempt,
                   lastOutcome := some outcome, updatedAt := context.at' }
      else match context.nextOccurrenceAt with
        | none => .error (.invalidReminderTransition reminder.status.text "SCHEDULED"
            (some "recurring completion needs a later next occurrence"))
        | some next =>
          if !isIsoInstant next || Date.le (Date.parse next) (Date.parse occurrenceAt) then
            .error (.invalidReminderTransition reminder.status.text "SCHEDULED"
              (some "recurring completion needs a later next occurrence"))
          else return { status := .scheduled, occurrenceAt := some next, nextFireAt := some next,
                        attempt := 0, lastOutcome := some outcome, updatedAt := context.at' }

/-- Apply a planned completion to a firing reminder that holds the attempt. -/
def applyFiringCompletion (reminder : Reminder) (attemptId : Id)
    (completion : ReminderFiringCompletion) : Except Failure Reminder :=
  let target := completion.status.toStatus
  if !canTransitionReminder reminder.status target then
    .error (.invalidReminderTransition reminder.status.text target.text none)
  else if reminder.status ≠ .firing ∨ reminder.firingAttemptId ≠ some attemptId then
    .error (.invalidReminderTransition reminder.status.text target.text
      (some "stale firing attempt"))
  else if completion.status = .completed ∧ isRecurringSchedule reminder.schedule then
    .error (.invalidReminderTransition reminder.status.text target.text
      (some "a recurring reminder never completes by delivery"))
  else
    let scheduled := completion.status = .scheduled
    .ok { reminder with
      schedule := if scheduled then completion.schedule.getD reminder.schedule else reminder.schedule,
      status := target, attempt := completion.attempt, updatedAt := completion.updatedAt,
      occurrenceAt := if scheduled then completion.occurrenceAt else none,
      nextFireAt := if scheduled then completion.nextFireAt else none,
      firingAttemptId := none, firingStartedAt := none,
      lastOutcome := completion.lastOutcome <|> reminder.lastOutcome }

def assertEventFiring (reminder : Reminder) (target : String) : Except Failure Unit :=
  if reminder.status ≠ .firing ∨ reminder.event = none ∨ isRecurringSchedule reminder.schedule then
    .error (.invalidReminderTransition reminder.status.text target
      (some "an event-relative ONCE reminder must be FIRING"))
  else .ok ()

/-- A moved event: `FIRING → SCHEDULED` at the new due time, strictly forward. -/
def planEventRescheduleCompletion (reminder : Reminder) (now occurrenceAt : IsoTimestamp) :
    Except Failure ReminderFiringCompletion := do
  assertEventFiring reminder "SCHEDULED"
  let nextMs := Date.parse occurrenceAt
  let claimed := reminder.occurrenceAt <|> reminder.nextFireAt
  match nextMs with
  | none => .error (.invalidReminderTransition reminder.status.text "SCHEDULED"
      (some "a reschedule moves the reminder forward"))
  | some ms =>
    if Date.le nextMs (Date.parse now) || (claimed.any fun c => Date.le nextMs (Date.parse c)) then
      .error (.invalidReminderTransition reminder.status.text "SCHEDULED"
        (some "a reschedule moves the reminder forward"))
    else
      let moved ← isoOf ms
      return { status := .scheduled, schedule := some (.once moved), occurrenceAt := some moved,
               nextFireAt := some moved, attempt := 0, updatedAt := now }

/-- A gone event: the cancel note was delivered once and the reminder ends `CANCELED`, unless the
note was confirmed not sent and may be retried. -/
def planEventCanceledCompletion (reminder : Reminder) (outcome : NotificationDeliveryOutcome)
    (now : IsoTimestamp) : Except Failure ReminderFiringCompletion := do
  assertEventFiring reminder "CANCELED"
  let planned ← planFiringCompletion reminder (.delivery outcome) { at' := now }
  if planned.status = .scheduled then return planned
  else return { planned with status := .canceled }

end QuokyPlatform.Reminders
