import QuokyPlatform.Reminders.Schedule
import QuokyPlatform.Reminders.Transitions

/-! # One dispatch of a claimed reminder

The dispatcher decides what a claimed reminder needs, makes at most one delivery for it, and plans
the completion from the answer. The texts it composes are left out: the sink's answer to them is
arbitrary anyway. -/

namespace QuokyPlatform.Reminders

set_option autoImplicit false
set_option maxHeartbeats 250000

/-- What became of the event of an event-relative reminder. -/
inductive EventReminderRecheck
  | found (start : IsoTimestamp) (allDay : Bool)
  | gone
  | unreadable
deriving DecidableEq, Repr

/-- The three sends of the dispatcher; each has its own completion. -/
inductive DeliveryKind
  | regular
  | event
  | eventCanceled
deriving DecidableEq, Repr

/-- A completion without a send, or the one send. -/
inductive DispatchPlan
  | complete (completion : ReminderFiringCompletion)
  | deliver (kind : DeliveryKind) (occurrenceAt : IsoTimestamp)
deriving DecidableEq, Repr

def laterOf (a b : IsoTimestamp) : IsoTimestamp :=
  if Date.le (Date.parse b) (Date.parse a) then a else b

section dispatch

variable (intl : Intl)

def nextOccurrenceContext (reminder : Reminder) (after : IsoTimestamp) :
    Except Failure (Option IsoTimestamp) :=
  if !isRecurringSchedule reminder.schedule then .ok none
  else
    let start := match reminder.occurrenceAt <|> reminder.nextFireAt with
      | none => after
      | some occurrence => laterOf after occurrence
    nextOccurrenceAfter intl reminder.schedule reminder.timeZone start

/-- The fire-time re-check: deliver, reschedule a moved event, or send the cancel note. -/
def dispatchEventReminder (reminder : Reminder) (ref : ReminderEventRef) (now : IsoTimestamp)
    (occurrenceAt : IsoTimestamp) (check : EventReminderRecheck) : Except Failure DispatchPlan :=
  match Date.parse occurrenceAt with
  | none => .error .rangeError
  | some occurrenceMs => do
    let offsetMs := ref.offsetMinutes * Date.msPerMinute
    let _ ← isoOf (occurrenceMs + offsetMs)
    match check with
    | .gone => return .deliver .eventCanceled occurrenceAt
    | .unreadable => return .deliver .event occurrenceAt
    | .found start allDay =>
      if allDay then return .deliver .eventCanceled occurrenceAt
      else match Date.parse start with
        | none => return .deliver .event occurrenceAt
        | some startMs =>
          let dueMs := startMs - offsetMs
          let _ ← isoOf startMs
          if dueMs = occurrenceMs then return .deliver .event occurrenceAt
          else if Date.lt (Date.parse now) (some dueMs) then
            return .complete (← planEventRescheduleCompletion reminder now (← isoOf dueMs))
          else return .deliver .event occurrenceAt

def isEventReminder (reminder : Reminder) : Bool :=
  reminder.event.isSome && reminder.kind == .text && !isRecurringSchedule reminder.schedule

/-- `dispatchOne` up to the delivery. -/
def dispatchOne (reminder : Reminder) (now : IsoTimestamp) (check : EventReminderRecheck) :
    Except Failure DispatchPlan := do
  let decision ← decideMissedOccurrence intl reminder.schedule reminder.timeZone
    (claimedOccurrenceAt reminder now) now
  match decision with
  | .skip skippedOccurrenceAt nextOccurrenceAt =>
    return .complete (← planFiringCompletion reminder (.skippedMissed skippedOccurrenceAt)
      { at' := now, nextOccurrenceAt := some nextOccurrenceAt })
  | .deliver occurrenceAt _ =>
    match reminder.event with
    | none => return .deliver .regular occurrenceAt
    | some ref =>
      if isEventReminder reminder then dispatchEventReminder reminder ref now occurrenceAt check
      else return .deliver .regular occurrenceAt

/-- `dispatchOne` from the answer of the delivery on. -/
def completionAfter (kind : DeliveryKind) (reminder : Reminder) (now occurrenceAt : IsoTimestamp)
    (outcome : NotificationDeliveryOutcome) : Except Failure ReminderFiringCompletion :=
  match kind with
  | .regular => do
    let nextOccurrenceAt ← nextOccurrenceContext intl reminder (laterOf now occurrenceAt)
    planFiringCompletion reminder (.delivery outcome)
      { at' := now, nextOccurrenceAt := nextOccurrenceAt,
        deliveredOccurrenceAt :=
          if isRecurringSchedule reminder.schedule then some occurrenceAt else none }
  | .event => planFiringCompletion reminder (.delivery outcome) { at' := now }
  | .eventCanceled => planEventCanceledCompletion reminder outcome now

/-- What startup recovery makes of a row found firing: uncertain, without a send. -/
def recoveryCompletion (reminder : Reminder) (now : IsoTimestamp) :
    Except Failure ReminderFiringCompletion := do
  let nextOccurrenceAt ← nextOccurrenceContext intl reminder now
  planFiringCompletion reminder (.delivery (.uncertain .interrupted))
    { at' := now, nextOccurrenceAt := nextOccurrenceAt }

/-! ## Where the completions lead -/

/-- The completion schedules this occurrence, with these retries used, for after the clock. -/
def Schedules (completion : ReminderFiringCompletion) (nowMs occurrence : ℤ) (attempt : ℕ) : Prop :=
  completion.attempt = attempt ∧ ∃ nextFire,
    Timed completion.occurrenceAt completion.nextFireAt occurrence nextFire ∧ nowMs < nextFire

/-- What a dispatcher knows of a reminder it claimed. -/
structure Claimed (reminder : Reminder) (nowMs occurrence : ℤ) : Prop where
  occurrence_eq : reminder.occurrenceAt.bind Date.parse = some occurrence
  come : occurrence ≤ nowMs

variable {intl}

theorem laterOf_ge {a b : IsoTimestamp} {x z : ℤ} (ha : Date.parse a = some x)
    (hz : Date.parse (laterOf a b) = some z) : x ≤ z := by
  unfold laterOf at hz
  split at hz
  · exact (Option.some.inj (ha.symm.trans hz)).le
  · rename_i hle
    rw [ha, hz] at hle
    have hlt : ¬ z ≤ x := by simpa [Date.le] using hle
    omega

theorem nextOccurrenceContext_later {reminder : Reminder} {after next : IsoTimestamp} {afterMs : ℤ}
    (hafter : Date.parse after = some afterMs)
    (h : nextOccurrenceContext intl reminder after = .ok (some next)) :
    ∃ nextMs, Date.parse next = some nextMs ∧ afterMs < nextMs := by
  unfold nextOccurrenceContext at h
  split at h
  · cases h
  · obtain ⟨start, nextMs, hstart, hnext, hlt⟩ := nextOccurrenceAfter_later intl h
    refine ⟨nextMs, hnext, lt_of_le_of_lt ?_ hlt⟩
    split at hstart
    · exact (Option.some.inj (hafter.symm.trans hstart)).le
    · exact laterOf_ge hafter hstart

/-- A planned firing that schedules again either retries a delivery confirmed not sent, or moves to
a later occurrence. -/
theorem planFiring_schedules {reminder : Reminder} {result : ReminderFiringResult}
    {completion : ReminderFiringCompletion} {nowMs : ℤ} (context : FiringCompletionContext)
    (occurrence : ℤ) (hnow : Date.parse context.at' = some nowMs)
    (hocc : ∀ occurrenceAt, completedOccurrence reminder context = .ok occurrenceAt →
      Date.parse occurrenceAt = some occurrence)
    (hcome : occurrence ≤ nowMs)
    (hnext : ∀ next nextMs, isRecurringSchedule reminder.schedule = true →
      context.nextOccurrenceAt = some next → Date.parse next = some nextMs → nowMs < nextMs)
    (h : planFiringCompletion reminder result context = .ok completion)
    (hstatus : completion.status = .scheduled) :
    (∃ reason, result = .delivery (.notSent reason true) ∧ reminder.attempt < maxRetries ∧
      Schedules completion nowMs occurrence (reminder.attempt + 1)) ∨
    ∃ later, occurrence < later ∧ nowMs < later ∧ Schedules completion nowMs later 0 := by
  obtain ⟨-, occurrenceAt, hoccurrence, hplan⟩ := planFiringCompletion_ok h
  have hparse := hocc occurrenceAt hoccurrence
  cases hplan with
  | @retry reason backoff ms hresult hattempt hat hbackoff =>
    obtain rfl : ms = nowMs := Option.some.inj (hat.symm.trans hnow)
    refine Or.inl ⟨reason, hresult, hattempt, rfl, ms + backoff * Date.msPerMinute,
      ⟨hparse, rfl, ?_⟩, ?_⟩ <;> rw [Date.msPerMinute] <;> omega
  | once hresult honce =>
    cases hout : (finalOccurrenceOutcome result occurrenceAt context.at').outcome <;>
      simp [hout, onceFinalStatus] at hstatus
  | @next next ms hrecurring hnextAt hms hlater =>
    have hafter := hnext next ms hrecurring hnextAt hms
    exact Or.inr ⟨ms, hlater occurrence hparse, hafter, rfl, ms, Timed.of_same hms, hafter⟩

theorem planFiring_updatedAt {reminder : Reminder} {result : ReminderFiringResult}
    {context : FiringCompletionContext} {completion : ReminderFiringCompletion}
    (h : planFiringCompletion reminder result context = .ok completion) :
    completion.updatedAt = context.at' := by
  obtain ⟨-, occurrenceAt, -, hplan⟩ := planFiringCompletion_ok h
  cases hplan <;> rfl

theorem Claimed.parse_occurrence {reminder : Reminder} {nowMs occurrence : ℤ}
    (h : Claimed reminder nowMs occurrence) (fallback : IsoTimestamp) :
    Date.parse (claimedOccurrenceAt reminder fallback) = some occurrence :=
  claimedOccurrenceAt_parse h.occurrence_eq

/-- Without a delivered occurrence the completion is about the claimed one. -/
theorem completedOccurrence_claimed {reminder : Reminder} {context : FiringCompletionContext}
    {occurrenceAt : IsoTimestamp} (hnone : context.deliveredOccurrenceAt = none)
    (h : completedOccurrence reminder context = .ok occurrenceAt) :
    occurrenceAt = claimedOccurrenceAt reminder context.at' := by
  rcases completedOccurrence_ok h with ⟨-, heq⟩ | ⟨delivered, ms, hd, -⟩
  · exact heq
  · rw [hnone] at hd
    cases hd

/-- A completion without a send schedules the reminder only for a later occurrence. -/
theorem dispatchOne_complete {reminder : Reminder} {now : IsoTimestamp}
    {check : EventReminderRecheck} {completion : ReminderFiringCompletion} {nowMs occurrence : ℤ}
    (hclaimed : Claimed reminder nowMs occurrence) (hnow : Date.parse now = some nowMs)
    (h : dispatchOne intl reminder now check = .ok (.complete completion)) :
    completion.updatedAt = now ∧ (completion.status = .scheduled →
      ∃ later, occurrence < later ∧ Schedules completion nowMs later 0) := by
  obtain ⟨decision, hdecision, h⟩ := bind_ok.mp h
  have hspec := decideMissedOccurrence_ok intl (hclaimed.parse_occurrence now) hnow hclaimed.come
    hdecision
  cases decision with
  | skip skippedAt nextAt =>
    obtain ⟨hrecurring, next, hnext, hlt⟩ := hspec
    obtain ⟨planned, hplanned, h⟩ := bind_ok.mp h
    cases pure_ok.mp h
    refine ⟨planFiring_updatedAt hplanned, fun hstatus => ?_⟩
    have hschedules := planFiring_schedules { at' := now, nextOccurrenceAt := some nextAt } occurrence
      hnow (fun occurrenceAt ho => by
        rw [completedOccurrence_claimed rfl ho]
        exact hclaimed.parse_occurrence now) hclaimed.come
      (fun n ms _ hn hms => by
        cases hn
        rw [hnext] at hms
        exact (Option.some.inj hms) ▸ hlt) hplanned hstatus
    rcases hschedules with ⟨reason, hresult, -⟩ | ⟨later, hlater, -, hs⟩
    · cases hresult
    · exact ⟨later, hlater, hs⟩
  | deliver occurrenceAt late =>
    obtain ⟨delivered, rfl, hle, -, honce⟩ := hspec
    simp only at h
    split at h
    · cases h
    · rename_i ref href
      split at h
      · rename_i hevent
        have hsame : delivered = occurrence :=
          honce (by simp only [isEventReminder, Bool.and_eq_true] at hevent; simpa using hevent.2)
        subst hsame
        unfold dispatchEventReminder at h
        simp only [Date.parse_iso] at h
        obtain ⟨-, -, h⟩ := bind_ok.mp h
        cases check with
        | gone => cases h
        | unreadable => cases h
        | found start allDay =>
          cases allDay with
          | true => cases h
          | false =>
            simp only [Bool.false_eq_true, if_false] at h
            split at h
            · cases h
            · obtain ⟨-, -, h⟩ := bind_ok.mp h
              split at h
              · cases h
              · split at h
                · obtain ⟨moved, hmoved, h⟩ := bind_ok.mp h
                  obtain ⟨planned, hplanned, h⟩ := bind_ok.mp h
                  cases pure_ok.mp h
                  obtain ⟨-, ms, -, hafter, hforward, rfl⟩ := planEventRescheduleCompletion_ok hplanned
                  refine ⟨rfl, fun _ => ⟨ms, ?_, rfl, ms, Timed.of_same rfl, hafter nowMs hnow⟩⟩
                  refine hforward delivered ?_
                  obtain ⟨value, hvalue, hparse⟩ := Option.bind_eq_some_iff.mp hclaimed.occurrence_eq
                  rw [hvalue]
                  exact hparse
                · cases h
      · cases h

/-- The occurrence a dispatch delivers: at or after the claimed one, not after the clock, and the
claimed one itself for every send but the regular send of a recurring reminder. -/
structure Delivers (reminder : Reminder) (nowMs occurrence : ℤ) (kind : DeliveryKind)
    (delivered : ℤ) : Prop where
  after_claimed : occurrence ≤ delivered
  come : delivered ≤ nowMs
  exact : kind ≠ .regular ∨ isRecurringSchedule reminder.schedule = false → delivered = occurrence
  once : kind ≠ .regular → isRecurringSchedule reminder.schedule = false

theorem dispatchEventReminder_deliver {reminder : Reminder} {ref : ReminderEventRef}
    {now occurrenceAt deliveredAt : IsoTimestamp} {check : EventReminderRecheck} {kind : DeliveryKind}
    (h : dispatchEventReminder reminder ref now occurrenceAt check = .ok (.deliver kind deliveredAt)) :
    deliveredAt = occurrenceAt := by
  unfold dispatchEventReminder at h
  split at h
  · cases h
  · obtain ⟨-, -, h⟩ := bind_ok.mp h
    split at h
    · cases h
      rfl
    · cases h
      rfl
    · split at h
      · cases h
        rfl
      · split at h
        · cases h
          rfl
        · obtain ⟨-, -, h⟩ := bind_ok.mp h
          split at h
          · cases h
            rfl
          · split at h
            · obtain ⟨moved, -, h⟩ := bind_ok.mp h
              obtain ⟨planned, -, h⟩ := bind_ok.mp h
              cases h
            · cases h
              rfl

theorem dispatchOne_deliver {reminder : Reminder} {now deliveredAt : IsoTimestamp}
    {check : EventReminderRecheck} {kind : DeliveryKind} {nowMs occurrence : ℤ}
    (hclaimed : Claimed reminder nowMs occurrence) (hnow : Date.parse now = some nowMs)
    (h : dispatchOne intl reminder now check = .ok (.deliver kind deliveredAt)) :
    ∃ delivered, deliveredAt = .iso delivered ∧ Delivers reminder nowMs occurrence kind delivered := by
  obtain ⟨decision, hdecision, h⟩ := bind_ok.mp h
  have hspec := decideMissedOccurrence_ok intl (hclaimed.parse_occurrence now) hnow hclaimed.come
    hdecision
  cases decision with
  | skip skippedAt nextAt =>
    obtain ⟨planned, -, h⟩ := bind_ok.mp h
    cases h
  | deliver occurrenceAt late =>
    obtain ⟨delivered, rfl, hle, hcome, honce⟩ := hspec
    simp only at h
    split at h
    · cases h
      exact ⟨delivered, rfl, hle, hcome, fun h => honce (h.resolve_left fun hk => hk rfl),
        fun hk => absurd rfl hk⟩
    · split at h
      · rename_i hevent
        simp only [isEventReminder, Bool.and_eq_true, Bool.not_eq_true'] at hevent
        obtain rfl := dispatchEventReminder_deliver h
        exact ⟨delivered, rfl, hle, hcome, fun _ => honce hevent.2, fun _ => hevent.2⟩
      · cases h
        exact ⟨delivered, rfl, hle, hcome, fun h => honce (h.resolve_left fun hk => hk rfl),
          fun hk => absurd rfl hk⟩

/-- After its delivery a reminder is scheduled again only to retry a delivery that was confirmed
not sent, or for an occurrence later than the delivered one. -/
theorem completionAfter_ok {kind : DeliveryKind} {reminder : Reminder} {now : IsoTimestamp}
    {outcome : NotificationDeliveryOutcome} {completion : ReminderFiringCompletion}
    {nowMs occurrence delivered : ℤ} (hclaimed : Claimed reminder nowMs occurrence)
    (hnow : Date.parse now = some nowMs) (hdelivers : Delivers reminder nowMs occurrence kind delivered)
    (h : completionAfter intl kind reminder now (.iso delivered) outcome = .ok completion) :
    completion.updatedAt = now ∧ (completion.status = .scheduled →
      (∃ reason, outcome = .notSent reason true ∧ reminder.attempt < maxRetries ∧
        Schedules completion nowMs delivered (reminder.attempt + 1)) ∨
      ∃ later, delivered < later ∧ Schedules completion nowMs later 0) := by
  have hclaimedOcc : ∀ occurrenceAt,
      completedOccurrence reminder { at' := now } = .ok occurrenceAt →
        Date.parse occurrenceAt = some occurrence := by
    intro occurrenceAt ho
    rw [completedOccurrence_claimed rfl ho]
    exact hclaimed.parse_occurrence now
  cases kind with
  | regular =>
    obtain ⟨nextOccurrenceAt, hcontext, h⟩ := bind_ok.mp h
    refine ⟨planFiring_updatedAt h, fun hstatus => ?_⟩
    have hschedules := planFiring_schedules _ delivered hnow ?_ hdelivers.come ?_ h hstatus
    · rcases hschedules with ⟨reason, hresult, hattempt, hs⟩ | ⟨later, hlater, -, hs⟩
      · cases hresult
        exact Or.inl ⟨reason, rfl, hattempt, hs⟩
      · exact Or.inr ⟨later, hlater, hs⟩
    · intro occurrenceAt ho
      rcases completedOccurrence_ok ho with ⟨hnone, rfl⟩ | ⟨value, ms, hvalue, -, hms, rfl, -⟩
      · have honce : isRecurringSchedule reminder.schedule = false := by
          by_contra hrecurring
          rw [Bool.not_eq_false] at hrecurring
          simp [hrecurring] at hnone
        rw [hdelivers.exact (Or.inr honce)]
        exact hclaimed.parse_occurrence now
      · simp only at hvalue
        split at hvalue
        · cases hvalue
          exact hms.symm
        · cases hvalue
    · intro next nextMs _ hnext hms
      simp only at hnext
      subst hnext
      have hlater : Date.parse (laterOf now (.iso delivered)) = some nowMs ∨
          Date.parse (laterOf now (.iso delivered)) = some delivered := by
        unfold laterOf
        split
        · exact Or.inl hnow
        · exact Or.inr rfl
      obtain ⟨start, hstart⟩ : ∃ start, Date.parse (laterOf now (.iso delivered)) = some start := by
        rcases hlater with h | h <;> exact ⟨_, h⟩
      obtain ⟨ms, hparse, hlt⟩ := nextOccurrenceContext_later hstart hcontext
      obtain rfl : ms = nextMs := Option.some.inj (hparse.symm.trans hms)
      exact lt_of_le_of_lt (laterOf_ge hnow hstart) hlt
  | event =>
    have hsame := hdelivers.exact (Or.inl (by decide))
    refine ⟨planFiring_updatedAt h, fun hstatus => ?_⟩
    rcases planFiring_schedules _ _ hnow hclaimedOcc hclaimed.come (fun _ _ _ hn _ => nomatch hn) h hstatus
      with ⟨reason, hresult, hattempt, hs⟩ | ⟨later, hlater, -, hs⟩
    · cases hresult
      exact Or.inl ⟨reason, rfl, hattempt, hsame ▸ hs⟩
    · exact Or.inr ⟨later, hsame ▸ hlater, hs⟩
  | eventCanceled =>
    have hsame := hdelivers.exact (Or.inl (by decide))
    obtain ⟨-, planned, hplanned, rfl⟩ := planEventCanceledCompletion_ok h
    split
    · rename_i hscheduled
      refine ⟨planFiring_updatedAt hplanned, fun _ => ?_⟩
      rcases planFiring_schedules _ _ hnow hclaimedOcc hclaimed.come (fun _ _ _ hn _ => nomatch hn)
        hplanned hscheduled with ⟨reason, hresult, hattempt, hs⟩ | ⟨later, hlater, -, hs⟩
      · cases hresult
        exact Or.inl ⟨reason, rfl, hattempt, hsame ▸ hs⟩
      · exact Or.inr ⟨later, hsame ▸ hlater, hs⟩
    · exact ⟨planFiring_updatedAt hplanned, fun hstatus => nomatch hstatus⟩

/-- Startup recovery schedules a reminder again only for an occurrence after its clock. -/
theorem recoveryCompletion_ok {reminder : Reminder} {now : IsoTimestamp}
    {completion : ReminderFiringCompletion} {nowMs occurrence : ℤ}
    (hclaimed : Claimed reminder nowMs occurrence) (hnow : Date.parse now = some nowMs)
    (h : recoveryCompletion intl reminder now = .ok completion) :
    completion.updatedAt = now ∧ (completion.status = .scheduled →
      ∃ later, nowMs < later ∧ Schedules completion nowMs later 0) := by
  obtain ⟨nextOccurrenceAt, hcontext, h⟩ := bind_ok.mp h
  refine ⟨planFiring_updatedAt h, fun hstatus => ?_⟩
  have hschedules := planFiring_schedules { at' := now, nextOccurrenceAt := nextOccurrenceAt }
    occurrence hnow (fun occurrenceAt ho => by
      rw [completedOccurrence_claimed rfl ho]
      exact hclaimed.parse_occurrence now) hclaimed.come
    (fun next nextMs _ hnext hms => by
      cases hnext
      obtain ⟨ms, hparse, hlt⟩ := nextOccurrenceContext_later hnow hcontext
      exact (Option.some.inj (hparse.symm.trans hms)) ▸ hlt) h hstatus
  rcases hschedules with ⟨reason, hresult, -⟩ | ⟨later, -, hlater, hs⟩
  · cases hresult
  · exact ⟨later, hlater, hs⟩

end dispatch

end QuokyPlatform.Reminders
