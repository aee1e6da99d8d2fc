import QuokyPlatform.Foundations.Except
import QuokyPlatform.Reminders.Domain

/-! # What the transitions guarantee

The optional keys of a reminder come and go with its status. `Shape` says which keys a reminder of
each status carries; every transition of the domain turns a reminder of the right shape into one of
the right shape. -/

namespace QuokyPlatform.Reminders

set_option autoImplicit false
set_option maxHeartbeats 250000

/-! ## Shapes -/

/-- Both times are there and the occurrence is not after the time it may be claimed at. -/
structure Timed (occurrenceAt nextFireAt : Option IsoTimestamp) (occurrence nextFire : ℤ) : Prop where
  occurrence_eq : occurrenceAt.bind Date.parse = some occurrence
  nextFire_eq : nextFireAt.bind Date.parse = some nextFire
  ordered : occurrence ≤ nextFire

/-- A scheduled reminder is timed and holds no firing token. -/
def ScheduledShape (reminder : Reminder) : Prop :=
  (∃ occurrence nextFire, Timed reminder.occurrenceAt reminder.nextFireAt occurrence nextFire) ∧
    reminder.firingAttemptId = none ∧ reminder.firingStartedAt = none

/-- A firing reminder holds a token, and was due when it was claimed. -/
def FiringShape (reminder : Reminder) : Prop :=
  ∃ occurrence nextFire started,
    Timed reminder.occurrenceAt reminder.nextFireAt occurrence nextFire ∧
    reminder.firingAttemptId.isSome ∧
    reminder.firingStartedAt.bind Date.parse = some started ∧ nextFire ≤ started

/-- A terminal reminder has no time left and no token. -/
def TerminalShape (reminder : Reminder) : Prop :=
  reminder.occurrenceAt = none ∧ reminder.nextFireAt = none ∧
    reminder.firingAttemptId = none ∧ reminder.firingStartedAt = none

def Shape (reminder : Reminder) : Prop :=
  match reminder.status with
  | .scheduled => ScheduledShape reminder
  | .firing => FiringShape reminder
  | _ => TerminalShape reminder

theorem Timed.of_same {value : IsoTimestamp} {ms : ℤ} (h : Date.parse value = some ms) :
    Timed (some value) (some value) ms ms :=
  ⟨h, h, Int.le_refl ms⟩

/-! ## The transitions -/

theorem isIsoInstant_iff {value : IsoTimestamp} :
    isIsoInstant value = true ↔ ∃ ms, Date.parse value = some ms := by
  rw [isIsoInstant, Option.isSome_iff_exists]

theorem createReminderDraft_ok {input : NewReminderInput} {draft : ReminderDraft}
    (h : createReminderDraft input = .ok draft) :
    draft = {
      id := input.id, actorId := input.actorId, status := .scheduled, kind := input.kind,
      body := input.body, schedule := input.schedule, timeZone := input.timeZone,
      origin := input.origin, occurrenceAt := some input.firstFireAt,
      nextFireAt := some input.firstFireAt, attempt := 0, event := input.event,
      createdAt := input.createdAt, updatedAt := input.createdAt } ∧
    ∃ ms, Date.parse input.firstFireAt = some ms := by
  unfold createReminderDraft at h
  simp only [ite_error_ok, Except.ok.injEq] at h
  obtain ⟨-, -, -, hinstant, -, rfl⟩ := h
  exact ⟨rfl, isIsoInstant_iff.mp (by simpa using hinstant)⟩

theorem claimReminder_ok {reminder claimed : Reminder} {attemptId : Id} {now : IsoTimestamp}
    (h : claimReminder reminder attemptId now = .ok claimed) :
    reminder.status = .scheduled ∧
    claimed = { reminder with status := .firing, firingAttemptId := some attemptId,
                              firingStartedAt := some now, updatedAt := now } := by
  unfold claimReminder at h
  rw [ite_ok_error, Except.ok.injEq] at h
  refine ⟨?_, h.2.symm⟩
  have hto := h.1
  cases hstatus : reminder.status <;>
    first | rfl | simp [hstatus, canTransitionReminder, transitions] at hto

theorem cancelReminder_ok {reminder canceled : Reminder} {now : IsoTimestamp}
    (h : cancelReminder reminder now = .ok canceled) :
    reminder.status = .scheduled ∧
    canceled = { reminder with occurrenceAt := none, nextFireAt := none, firingAttemptId := none,
                               firingStartedAt := none, status := .canceled, updatedAt := now } := by
  unfold cancelReminder at h
  rw [ite_ok_error, Except.ok.injEq] at h
  exact ⟨h.1, h.2.symm⟩

theorem reactivateReminder_ok {reminder next : Reminder} {now nextFireAt : IsoTimestamp}
    {schedule : Option ReminderSchedule}
    (h : reactivateReminder reminder now nextFireAt schedule = .ok next) :
    reminder.status = .canceled ∧
    (∃ ms, Date.parse nextFireAt = some ms ∧ ∀ n, Date.parse now = some n → n < ms) ∧
    next = { reminder with
      firingAttemptId := none, firingStartedAt := none, status := .scheduled,
      schedule := schedule.getD reminder.schedule, occurrenceAt := some nextFireAt,
      nextFireAt := some nextFireAt, attempt := 0, updatedAt := now } := by
  unfold reactivateReminder at h
  simp only [ite_error_ok, Except.ok.injEq, ne_eq, not_not, Bool.or_eq_true, not_or] at h
  obtain ⟨hstatus, ⟨hinstant, hafter⟩, -, rfl⟩ := h
  obtain ⟨ms, hms⟩ : ∃ ms, Date.parse nextFireAt = some ms :=
    isIsoInstant_iff.mp (by simpa using hinstant)
  refine ⟨hstatus, ⟨ms, hms, fun n hn => ?_⟩, rfl⟩
  rw [hms, hn] at hafter
  simpa [Date.le] using hafter

theorem applyFiringCompletion_ok {reminder next : Reminder} {attemptId : Id}
    {completion : ReminderFiringCompletion}
    (h : applyFiringCompletion reminder attemptId completion = .ok next) :
    reminder.status = .firing ∧ reminder.firingAttemptId = some attemptId ∧
    next = { reminder with
      schedule := if completion.status = .scheduled then completion.schedule.getD reminder.schedule
        else reminder.schedule,
      status := completion.status.toStatus, attempt := completion.attempt,
      updatedAt := completion.updatedAt,
      occurrenceAt := if completion.status = .scheduled then completion.occurrenceAt else none,
      nextFireAt := if completion.status = .scheduled then completion.nextFireAt else none,
      firingAttemptId := none, firingStartedAt := none,
      lastOutcome := completion.lastOutcome <|> reminder.lastOutcome } := by
  unfold applyFiringCompletion at h
  simp only [ite_error_ok, Except.ok.injEq, not_or, ne_eq, not_not] at h
  obtain ⟨-, ⟨hstatus, htoken⟩, -, rfl⟩ := h
  exact ⟨hstatus, htoken, rfl⟩

/-! ## Planned completions -/

/-- A completion that goes back to `SCHEDULED` sets both times, in order. -/
def CompletionShape (completion : ReminderFiringCompletion) : Prop :=
  completion.status = .scheduled →
    ∃ occurrence nextFire, Timed completion.occurrenceAt completion.nextFireAt occurrence nextFire

/-- What a plan for a firing result can be: a retry of the occurrence it is about, the end of a
one-shot, or the next occurrence of a recurring reminder. -/
inductive PlannedFiring (reminder : Reminder) (result : ReminderFiringResult)
    (context : FiringCompletionContext) (occurrenceAt : IsoTimestamp) :
    ReminderFiringCompletion → Prop
  | retry {reason : NotificationNotSentReason} {backoff ms : ℤ}
      (hresult : result = .delivery (.notSent reason true)) (hattempt : reminder.attempt < maxRetries)
      (hat : Date.parse context.at' = some ms) (hbackoff : 1 ≤ backoff) :
      PlannedFiring reminder result context occurrenceAt
        { status := .scheduled, occurrenceAt := some occurrenceAt,
          nextFireAt := some (.iso (ms + backoff * Date.msPerMinute)),
          attempt := reminder.attempt + 1, updatedAt := context.at' }
  | once {outcome : NotificationDeliveryOutcome} (hresult : result = .delivery outcome)
      (honce : isRecurringSchedule reminder.schedule = false) :
      PlannedFiring reminder result context occurrenceAt
        { status := onceFinalStatus
            (finalOccurrenceOutcome result occurrenceAt context.at').outcome,
          attempt := reminder.attempt,
          lastOutcome := some (finalOccurrenceOutcome result occurrenceAt context.at'),
          updatedAt := context.at' }
  | next {next : IsoTimestamp} {ms : ℤ} (hrecurring : isRecurringSchedule reminder.schedule = true)
      (hnext : context.nextOccurrenceAt = some next) (hms : Date.parse next = some ms)
      (hlater : ∀ o, Date.parse occurrenceAt = some o → o < ms) :
      PlannedFiring reminder result context occurrenceAt
        { status := .scheduled, occurrenceAt := some next, nextFireAt := some next, attempt := 0,
          lastOutcome := some (finalOccurrenceOutcome result occurrenceAt context.at'),
          updatedAt := context.at' }

theorem addMinutes_ok {iso value : IsoTimestamp} {minutes : ℤ}
    (h : addMinutes iso minutes = .ok value) :
    ∃ ms, Date.parse iso = some ms ∧ value = .iso (ms + minutes * Date.msPerMinute) := by
  unfold addMinutes at h
  split at h
  · rename_i ms hms
    exact ⟨ms, hms, isoOf_ok h⟩
  · cases h

theorem mayRetry_iff {reminder : Reminder} {result : ReminderFiringResult} :
    mayRetry reminder result = true ↔
      reminder.attempt < maxRetries ∧ ∃ reason, result = .delivery (.notSent reason true) := by
  unfold mayRetry
  split
  · rename_i reason retryable
    simp [and_comm]
  · rename_i hother
    simp only [Bool.false_eq_true, false_iff, not_and, not_exists]
    intro _ reason
    exact hother reason true

theorem one_le_retryBackoff (attempt : ℕ) : 1 ≤ retryBackoffMinutes.getD attempt 15 := by
  match attempt with
  | 0 | 1 | 2 | n + 3 => simp [retryBackoffMinutes]

/-- The occurrence of a completion is the claimed one, or a delivered one not before it. -/
theorem completedOccurrence_ok {reminder : Reminder} {context : FiringCompletionContext}
    {occurrenceAt : IsoTimestamp} (h : completedOccurrence reminder context = .ok occurrenceAt) :
    (context.deliveredOccurrenceAt = none ∧
      occurrenceAt = claimedOccurrenceAt reminder context.at') ∨
    ∃ delivered ms, context.deliveredOccurrenceAt = some delivered ∧
      isRecurringSchedule reminder.schedule = true ∧ Date.parse delivered = some ms ∧
      occurrenceAt = .iso ms ∧
      ∀ c, Date.parse (claimedOccurrenceAt reminder context.at') = some c → c ≤ ms := by
  unfold completedOccurrence at h
  cases hdelivered : context.deliveredOccurrenceAt with
  | none =>
    rw [hdelivered] at h
    exact Or.inl ⟨rfl, (Except.ok.inj h).symm⟩
  | some delivered =>
    rw [hdelivered] at h
    simp only [ite_error_ok, Bool.or_eq_true, not_or] at h
    obtain ⟨⟨⟨hrecurring, hinstant⟩, hlate⟩, h⟩ := h
    split at h
    · rename_i ms hms
      refine Or.inr ⟨delivered, ms, rfl, by simpa using hrecurring, hms, isoOf_ok h, fun c hc => ?_⟩
      rw [hms, hc] at hlate
      simpa [Date.lt] using hlate
    · cases h

theorem planFiringCompletion_ok {reminder : Reminder} {result : ReminderFiringResult}
    {context : FiringCompletionContext} {completion : ReminderFiringCompletion}
    (h : planFiringCompletion reminder result context = .ok completion) :
    reminder.status = .firing ∧ ∃ occurrenceAt,
      completedOccurrence reminder context = .ok occurrenceAt ∧
      PlannedFiring reminder result context occurrenceAt completion := by
  unfold planFiringCompletion at h
  rw [ite_error_ok, bind_ok, ne_eq, not_not] at h
  obtain ⟨hfiring, occurrenceAt, hoccurrence, h⟩ := h
  refine ⟨hfiring, occurrenceAt, hoccurrence, ?_⟩
  split at h
  · rename_i hretry
    obtain ⟨hattempt, reason, hresult⟩ := mayRetry_iff.mp hretry
    obtain ⟨nextFireAt, hnextFire, h⟩ := bind_ok.mp h
    obtain ⟨ms, hms, rfl⟩ := addMinutes_ok hnextFire
    cases pure_ok.mp h
    exact .retry hresult hattempt hms (one_le_retryBackoff _)
  · split at h
    · rename_i honce
      split at h
      · cases h
      · cases pure_ok.mp h
        exact .once rfl (by simpa using honce)
    · rename_i hrecurring
      split at h
      · cases h
      · rename_i next hnext
        simp only [ite_error_ok, Bool.or_eq_true, not_or] at h
        obtain ⟨⟨hinstant, hafter⟩, h⟩ := h
        cases pure_ok.mp h
        obtain ⟨ms, hms⟩ : ∃ ms, Date.parse next = some ms :=
          isIsoInstant_iff.mp (by simpa using hinstant)
        refine .next (by simpa using hrecurring) hnext hms fun o ho => ?_
        rw [hms, ho] at hafter
        simpa [Date.le] using hafter

theorem planEventRescheduleCompletion_ok {reminder : Reminder} {now occurrenceAt : IsoTimestamp}
    {completion : ReminderFiringCompletion}
    (h : planEventRescheduleCompletion reminder now occurrenceAt = .ok completion) :
    reminder.status = .firing ∧ ∃ ms, Date.parse occurrenceAt = some ms ∧
      (∀ n, Date.parse now = some n → n < ms) ∧
      (∀ c, (reminder.occurrenceAt <|> reminder.nextFireAt).bind Date.parse = some c → c < ms) ∧
      completion = { status := .scheduled, schedule := some (.once (.iso ms)),
                     occurrenceAt := some (.iso ms), nextFireAt := some (.iso ms), attempt := 0,
                     updatedAt := now } := by
  unfold planEventRescheduleCompletion assertEventFiring at h
  rw [bind_ok] at h
  obtain ⟨_, hevent, h⟩ := h
  rw [ite_error_ok, not_or, ne_eq, not_not] at hevent
  refine ⟨hevent.1.1, ?_⟩
  simp only at h
  split at h
  · cases h
  · rename_i ms hms
    simp only [ite_error_ok, Bool.or_eq_true, not_or, bind_ok, pure_ok] at h
    obtain ⟨⟨hnow, hclaimed⟩, moved, hmoved, rfl⟩ := h
    obtain rfl := isoOf_ok hmoved
    refine ⟨ms, hms, fun n hn => ?_, fun c hc => ?_, rfl⟩
    · rw [hms, hn] at hnow
      simpa [Date.le] using hnow
    · cases hc' : (reminder.occurrenceAt <|> reminder.nextFireAt) with
      | none => rw [hc'] at hc; cases hc
      | some value =>
        rw [hc'] at hc hclaimed
        rw [Option.bind_some] at hc
        simpa [hms, hc, Date.le] using hclaimed

theorem planEventCanceledCompletion_ok {reminder : Reminder}
    {outcome : NotificationDeliveryOutcome} {now : IsoTimestamp}
    {completion : ReminderFiringCompletion}
    (h : planEventCanceledCompletion reminder outcome now = .ok completion) :
    isRecurringSchedule reminder.schedule = false ∧ ∃ planned,
      planFiringCompletion reminder (.delivery outcome) { at' := now } = .ok planned ∧
      completion = if planned.status = .scheduled then planned
        else { planned with status := .canceled } := by
  unfold planEventCanceledCompletion assertEventFiring at h
  rw [bind_ok] at h
  obtain ⟨_, hevent, h⟩ := h
  rw [ite_error_ok, not_or, not_or, Bool.not_eq_true] at hevent
  obtain ⟨planned, hplanned, h⟩ := bind_ok.mp h
  refine ⟨hevent.1.2.2, planned, hplanned, ?_⟩
  split at h <;> rename_i hstatus <;> cases pure_ok.mp h <;> simp [hstatus]

/-! ## Every transition keeps the shape -/

theorem shape_of_draft {input : NewReminderInput} {draft : ReminderDraft}
    (h : createReminderDraft input = .ok draft) (displayNo : ℕ) :
    ScheduledShape { toReminderDraft := draft, displayNo := displayNo } := by
  obtain ⟨rfl, ms, hms⟩ := createReminderDraft_ok h
  exact ⟨⟨ms, ms, Timed.of_same hms⟩, rfl, rfl⟩

theorem shape_of_claim {reminder claimed : Reminder} {attemptId : Id} {now : IsoTimestamp}
    {started : ℤ} (hshape : ScheduledShape reminder) (h : claimReminder reminder attemptId now = .ok claimed)
    (hnow : Date.parse now = some started)
    (hdue : ∀ nextFire, reminder.nextFireAt.bind Date.parse = some nextFire → nextFire ≤ started) :
    FiringShape claimed := by
  obtain ⟨⟨occurrence, nextFire, htimed⟩, -, -⟩ := hshape
  obtain ⟨-, rfl⟩ := claimReminder_ok h
  exact ⟨occurrence, nextFire, started, ⟨htimed.1, htimed.2, htimed.3⟩, rfl, hnow,
    hdue nextFire htimed.nextFire_eq⟩

theorem shape_of_cancel {reminder canceled : Reminder} {now : IsoTimestamp}
    (h : cancelReminder reminder now = .ok canceled) : TerminalShape canceled := by
  obtain ⟨-, rfl⟩ := cancelReminder_ok h
  exact ⟨rfl, rfl, rfl, rfl⟩

theorem shape_of_reactivate {reminder next : Reminder} {now nextFireAt : IsoTimestamp}
    {schedule : Option ReminderSchedule}
    (h : reactivateReminder reminder now nextFireAt schedule = .ok next) : ScheduledShape next := by
  obtain ⟨-, ⟨ms, hms, -⟩, rfl⟩ := reactivateReminder_ok h
  exact ⟨⟨ms, ms, Timed.of_same hms⟩, rfl, rfl⟩

theorem shape_of_completion {reminder next : Reminder} {attemptId : Id}
    {completion : ReminderFiringCompletion} (hshape : CompletionShape completion)
    (h : applyFiringCompletion reminder attemptId completion = .ok next) : Shape next := by
  obtain ⟨-, -, rfl⟩ := applyFiringCompletion_ok h
  cases hstatus : completion.status with
  | scheduled =>
    obtain ⟨occurrence, nextFire, htimed⟩ := hshape hstatus
    simp only [Shape, CompletionStatus.toStatus, if_true]
    exact ⟨⟨occurrence, nextFire, ⟨htimed.1, htimed.2, htimed.3⟩⟩, rfl, rfl⟩
  | completed | failed | deliveryUncertain | canceled =>
    simp [Shape, CompletionStatus.toStatus, TerminalShape]

/-- A completion is planned in order when it is planned at or after its claim, for an occurrence
that has come by then. -/
def FiringCompletionContext.inOrder (context : FiringCompletionContext) (reminder : Reminder) : Bool :=
  Date.le (reminder.firingStartedAt.bind Date.parse) (Date.parse context.at') &&
    context.deliveredOccurrenceAt.all fun delivered =>
      Date.le (Date.parse delivered) (Date.parse context.at')

theorem claimedOccurrenceAt_parse {reminder : Reminder} {fallback : IsoTimestamp} {occurrence : ℤ}
    (h : reminder.occurrenceAt.bind Date.parse = some occurrence) :
    Date.parse (claimedOccurrenceAt reminder fallback) = some occurrence := by
  cases ho : reminder.occurrenceAt with
  | none => rw [ho] at h; cases h
  | some value =>
    rw [ho, Option.bind_some] at h
    simpa [claimedOccurrenceAt, ho] using h

/-- The completed occurrence of an in-order completion has come. -/
theorem completedOccurrence_le {reminder : Reminder} {context : FiringCompletionContext}
    {occurrenceAt : IsoTimestamp} {now : ℤ} (hshape : FiringShape reminder)
    (hat : Date.parse context.at' = some now) (horder : context.inOrder reminder = true)
    (h : completedOccurrence reminder context = .ok occurrenceAt) :
    ∃ occurrence, Date.parse occurrenceAt = some occurrence ∧ occurrence ≤ now := by
  obtain ⟨occurrence, nextFire, started, htimed, -, hs, hdue⟩ := hshape
  rw [FiringCompletionContext.inOrder, Bool.and_eq_true, hs, hat] at horder
  rcases completedOccurrence_ok h with ⟨-, rfl⟩ | ⟨delivered, ms, hd, -, hms, rfl, -⟩
  · refine ⟨occurrence, claimedOccurrenceAt_parse htimed.occurrence_eq, ?_⟩
    have h1 := htimed.ordered
    have h2 : started ≤ now := by simpa [Date.le] using horder.1
    omega
  · refine ⟨ms, rfl, ?_⟩
    have h2 := horder.2
    rw [hd, Option.all_some, hms] at h2
    simpa [Date.le] using h2

theorem shape_of_planFiring {reminder : Reminder} {result : ReminderFiringResult}
    {context : FiringCompletionContext} {completion : ReminderFiringCompletion}
    (hshape : FiringShape reminder) (horder : context.inOrder reminder = true)
    (h : planFiringCompletion reminder result context = .ok completion) :
    CompletionShape completion := by
  obtain ⟨-, occurrenceAt, hoccurrence, hplan⟩ := planFiringCompletion_ok h
  cases hplan with
  | @retry reason backoff ms hresult hattempt hat hbackoff =>
    intro _
    obtain ⟨occurrence, ho, hle⟩ := completedOccurrence_le hshape hat horder hoccurrence
    refine ⟨occurrence, ms + backoff * Date.msPerMinute, ⟨ho, rfl, ?_⟩⟩
    rw [Date.msPerMinute]
    omega
  | once hresult honce =>
    intro hstatus
    cases hout : (finalOccurrenceOutcome result occurrenceAt context.at').outcome <;>
      simp [hout, onceFinalStatus] at hstatus
  | @next next ms hrecurring hnext hms hlater =>
    intro _
    exact ⟨ms, ms, Timed.of_same hms⟩

theorem shape_of_planEventReschedule {reminder : Reminder} {now occurrenceAt : IsoTimestamp}
    {completion : ReminderFiringCompletion}
    (h : planEventRescheduleCompletion reminder now occurrenceAt = .ok completion) :
    CompletionShape completion := by
  obtain ⟨-, ms, -, -, -, rfl⟩ := planEventRescheduleCompletion_ok h
  exact fun _ => ⟨ms, ms, Timed.of_same rfl⟩

theorem shape_of_planEventCanceled {reminder : Reminder} {outcome : NotificationDeliveryOutcome}
    {now : IsoTimestamp} {completion : ReminderFiringCompletion} (hshape : FiringShape reminder)
    (horder : FiringCompletionContext.inOrder { at' := now } reminder = true)
    (h : planEventCanceledCompletion reminder outcome now = .ok completion) :
    CompletionShape completion := by
  obtain ⟨-, planned, hplanned, rfl⟩ := planEventCanceledCompletion_ok h
  have hkept := shape_of_planFiring hshape horder hplanned
  split
  · exact hkept
  · exact fun hstatus => nomatch hstatus

end QuokyPlatform.Reminders
