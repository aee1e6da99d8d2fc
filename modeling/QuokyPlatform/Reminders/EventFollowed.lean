import QuokyPlatform.Reminders.EventDispatch

/-! # An event reminder follows its event

What a dispatch may say about an event it re-checked: that it is gone only when the calendar holds
no such event near, that it moved to where it is, and nothing without a note that the calendar does
not bear out. One kind of calendar breaks it. A full narrow page hides the event, and only the wide
page is asked whether it was full. -/

namespace QuokyPlatform.Reminders

set_option autoImplicit false
set_option maxHeartbeats 250000

/-! ## The promise -/

/-- The two pages of the re-check name exactly this event. -/
def Fired.FoundOnly (place : Placement) (fired : Fired) (occurrence : ℤ) (event : CalendarEvent) :
    Prop :=
  ∃ calendar narrow wide, fired.tick.calendar = some calendar ∧
    recheckPages place calendar (occurrence + fired.ref.offsetMs) fired.tick.now =
      .ok (narrow, wide) ∧
    fired.ref.NamesOnly (narrow ++ wide) event

/-- What the dispatch of a reminder claimed for an occurrence may do about its event. -/
structure Fired.FollowsFor (place : Placement) (fired : Fired) (occurrence : ℤ) : Prop where
  claimed_for : fired.claimed.occurrenceAt.bind Date.parse = some occurrence
  gone : ∀ title, fired.answer = some (.canceled title .gone) →
    ∀ calendar, fired.tick.calendar = some calendar →
      ∀ event ∈ calendar.events, fired.ref.names event = true →
        ¬ place.Overlaps (wideWindow fired.tick.now) event ∧
        ¬ place.Overlaps (narrowWindow (occurrence + fired.ref.offsetMs)) event
  canceled : fired.after.status = .canceled →
    ∃ title reason, fired.answer = some (.canceled title reason)
  moved : ∀ event startMs, fired.FoundOnly place occurrence event → event.allDay = false →
    Date.parse event.start = some startMs → fired.tick.now < startMs - fired.ref.offsetMs →
    (∃ completion, fired.answer = some (.rescheduled completion)) ∧
      fired.after.status = .scheduled ∧
      fired.after.occurrenceAt = some (.iso (startMs - fired.ref.offsetMs)) ∧
      fired.after.nextFireAt = some (.iso (startMs - fired.ref.offsetMs))
  unnoted : ∀ title startAt note late, fired.answer = some (.delivered title startAt note late) →
    note ≠ .unverified →
    ∃ event startMs, fired.FoundOnly place occurrence event ∧ event.allDay = false ∧
      Date.parse event.start = some startMs ∧
      (note = .none ∧ startMs - fired.ref.offsetMs = occurrence ∨
        note = .movedEarlier ∧ startMs - fired.ref.offsetMs ≤ fired.tick.now)

def Fired.Follows (place : Placement) (fired : Fired) : Prop :=
  ∃ occurrence, fired.FollowsFor place occurrence

/-- Both reads answer, an event with the stored id is on around the expected start, and the re-check
cannot see it: it is past the first page of the narrow window, and the wide window, which holds
none, is not full. -/
structure CalendarState.Hides (place : Placement) (calendar : CalendarState)
    (ref : ReminderEventRef) (expectedMs nowMs : ℤ) : Prop where
  reads : (recheckPages place calendar expectedMs nowMs).isOk = true
  on_narrow : ∃ event ∈ calendar.events,
    ref.names event = true ∧ place.Overlaps (narrowWindow expectedMs) event
  past_page : ∀ event ∈ (place.inWindow calendar.events (narrowWindow expectedMs)).take
    calendarEventsMaxLimit, ref.names event = false
  off_wide : ∀ event ∈ calendar.events, place.Overlaps (wideWindow nowMs) event →
    ref.names event = false
  wide_short : (place.inWindow calendar.events (wideWindow nowMs)).length < calendarEventsMaxLimit

/-- The dispatch met such a calendar. -/
def Fired.Hidden (place : Placement) (fired : Fired) : Prop :=
  ∃ occurrence calendar, fired.claimed.occurrenceAt.bind Date.parse = some occurrence ∧
    fired.tick.calendar = some calendar ∧
    calendar.Hides place fired.ref (occurrence + fired.ref.offsetMs) fired.tick.now

/-- Only a narrow window of more events than a page holds hides one. -/
theorem CalendarState.Hides.crowded {place : Placement} {calendar : CalendarState}
    {ref : ReminderEventRef} {expectedMs nowMs : ℤ}
    (h : calendar.Hides place ref expectedMs nowMs) :
    calendarEventsMaxLimit <
      (place.inWindow calendar.events (narrowWindow expectedMs)).length := by
  obtain ⟨event, hin, hnamed, hoverlaps⟩ := h.on_narrow
  by_contra hshort
  have hpage := h.past_page event (by
    rw [List.take_of_length_le (by omega)]
    exact mem_inWindow.mpr ⟨hin, hoverlaps⟩)
  rw [hnamed] at hpage
  cases hpage

/-! ## The verdict of a re-check -/

section verdict

variable {place : Placement} {calendar : CalendarState} {ref : ReminderEventRef}
  {expectedMs nowMs : ℤ}

theorem recheck_eq_found {event : CalendarEvent} :
    recheck place calendar ref (.iso expectedMs) (.iso nowMs) = .found event ↔
      ∃ narrow wide, recheckPages place calendar expectedMs nowMs = .ok (narrow, wide) ∧
        ref.NamesOnly (narrow ++ wide) event := by
  simp only [recheck, Date.parse_iso]
  cases hpages : recheckPages place calendar expectedMs nowMs with
  | error failure => simp
  | ok pages =>
    obtain ⟨narrow, wide⟩ := pages
    simp only [judgePages_found, Except.ok.injEq, Prod.mk.injEq]
    constructor
    · intro h
      exact ⟨narrow, wide, ⟨rfl, rfl⟩, h⟩
    · rintro ⟨_, _, ⟨rfl, rfl⟩, h⟩
      exact h

/-- A `gone` verdict that a wide page bears out: nothing of the stored id overlaps the wide window,
and around the expected start only what the narrow page did not reach. -/
theorem recheck_eq_gone :
    recheck place calendar ref (.iso expectedMs) (.iso nowMs) = .gone ↔
      (recheckPages place calendar expectedMs nowMs).isOk = true ∧
      (∀ event ∈ (place.inWindow calendar.events (narrowWindow expectedMs)).take
        calendarEventsMaxLimit, ref.names event = false) ∧
      (∀ event ∈ calendar.events, place.Overlaps (wideWindow nowMs) event →
        ref.names event = false) ∧
      (place.inWindow calendar.events (wideWindow nowMs)).length < calendarEventsMaxLimit := by
  simp only [recheck, Date.parse_iso]
  cases hpages : recheckPages place calendar expectedMs nowMs with
  | error failure => simp [Except.isOk, Except.toBool]
  | ok pages =>
    obtain ⟨narrow, wide⟩ := pages
    obtain ⟨rfl, rfl⟩ := recheckPages_ok hpages
    simp only [judgePages_gone, Except.isOk, Except.toBool, true_and]
    constructor
    · rintro ⟨hnone, hshort⟩
      refine ⟨fun event hmem => hnone event (List.mem_append_left _ hmem), fun event hin hon => ?_, ?_⟩
      · exact hnone event (List.mem_append_right _ (page_complete hin hon hshort))
      · rw [List.length_take] at hshort
        omega
    · rintro ⟨hnarrow, hwide, hshort⟩
      refine ⟨fun event hmem => ?_, ?_⟩
      · rcases List.mem_append.mp hmem with hmem | hmem
        · exact hnarrow event hmem
        · obtain ⟨hin, hon⟩ := mem_inWindow.mp (List.mem_of_mem_take hmem)
          exact hwide event hin hon
      · rw [List.length_take]
        omega

end verdict

/-! ## The answer to a verdict -/

/-- What an answered re-check leads to. -/
inductive Answered (reminder : Reminder) (ref : ReminderEventRef)
    (now occurrenceAt expectedStart : IsoTimestamp) (late : Bool) : Recheck → EventAnswer → Prop
  | gone : Answered reminder ref now occurrenceAt expectedStart late .gone
      (.canceled reminder.body .gone)
  | unreadable {duplicate : Bool} :
      Answered reminder ref now occurrenceAt expectedStart late (.unreadable duplicate)
        (.delivered reminder.body expectedStart .unverified late)
  | allDay {event : CalendarEvent} (hallDay : event.allDay = true) :
      Answered reminder ref now occurrenceAt expectedStart late (.found event)
        (.canceled event.title .allDay)
  | timeless {event : CalendarEvent} (htimed : event.allDay = false)
      (hstart : Date.parse event.start = none) :
      Answered reminder ref now occurrenceAt expectedStart late (.found event)
        (.delivered reminder.body expectedStart .unverified late)
  | unchanged {event : CalendarEvent} {startMs : ℤ} (htimed : event.allDay = false)
      (hstart : Date.parse event.start = some startMs)
      (hsame : some (startMs - ref.offsetMs) = Date.parse occurrenceAt) :
      Answered reminder ref now occurrenceAt expectedStart late (.found event)
        (.delivered event.title (.iso startMs) .none late)
  | later {event : CalendarEvent} {startMs : ℤ} {completion : ReminderFiringCompletion}
      (htimed : event.allDay = false) (hstart : Date.parse event.start = some startMs)
      (hplan : planEventRescheduleCompletion reminder now (.iso (startMs - ref.offsetMs)) =
        .ok completion) :
      Answered reminder ref now occurrenceAt expectedStart late (.found event)
        (.rescheduled completion)
  | earlier {event : CalendarEvent} {startMs : ℤ} (htimed : event.allDay = false)
      (hstart : Date.parse event.start = some startMs)
      (hcome : Date.lt (Date.parse now) (some (startMs - ref.offsetMs)) = false) :
      Answered reminder ref now occurrenceAt expectedStart late (.found event)
        (.delivered event.title (.iso startMs) .movedEarlier false)

theorem answerEvent_ok {reminder : Reminder} {ref : ReminderEventRef}
    {now occurrenceAt expectedStart : IsoTimestamp} {late : Bool} {check : Recheck}
    {answer : EventAnswer}
    (h : answerEvent reminder ref now occurrenceAt expectedStart late check = .ok answer) :
    Answered reminder ref now occurrenceAt expectedStart late check answer := by
  unfold answerEvent at h
  cases check with
  | gone =>
    cases h
    exact .gone
  | unreadable duplicate =>
    cases h
    exact .unreadable
  | found event =>
    simp only at h
    split at h
    · rename_i hallDay
      cases h
      exact .allDay hallDay
    · rename_i htimed
      rw [Bool.not_eq_true] at htimed
      split at h
      · rename_i hstart
        cases h
        exact .timeless htimed hstart
      · rename_i startMs hstart
        obtain ⟨startAt, hstartAt, h⟩ := bind_ok.mp h
        obtain rfl := isoOf_ok hstartAt
        split at h
        · rename_i hsame
          cases pure_ok.mp h
          exact .unchanged htimed hstart hsame
        · split at h
          · obtain ⟨dueAt, hdueAt, h⟩ := bind_ok.mp h
            obtain rfl := isoOf_ok hdueAt
            obtain ⟨completion, hplan, h⟩ := bind_ok.mp h
            cases pure_ok.mp h
            exact .later htimed hstart hplan
          · rename_i hcome
            rw [Bool.not_eq_true] at hcome
            cases pure_ok.mp h
            exact .earlier htimed hstart hcome

theorem isoOf_of_range {ms : ℤ} (h : -Date.maxTime ≤ ms ∧ ms ≤ Date.maxTime) :
    isoOf ms = .ok (.iso ms) := by
  rw [isoOf, Date.toISOString, if_pos h]

theorem isoOf_range {ms : ℤ} {value : IsoTimestamp} (h : isoOf ms = .ok value) :
    -Date.maxTime ≤ ms ∧ ms ≤ Date.maxTime := by
  by_contra hnot
  rw [isoOf, Date.toISOString, if_neg hnot] at h
  cases h

/-! ## A claimed event reminder -/

/-- The stored reminder of a run: event-relative, of the shape its status asks for. -/
structure EventRow (ref : ReminderEventRef) (reminder : Reminder) : Prop where
  event_eq : reminder.event = some ref
  isEvent : isEventReminder reminder = true
  offset : 0 ≤ ref.offsetMinutes
  shape : Shape reminder

/-- The reminder as a call holds it after its claim. -/
structure ClaimedRow (ref : ReminderEventRef) (tick : Tick) (occurrence : ℤ)
    (claimed : Reminder) : Prop where
  row : EventRow ref claimed
  firing : claimed.status = .firing
  token : claimed.firingAttemptId = some tick.attemptId
  started : claimed.firingStartedAt = some (.iso tick.now)
  claimed_for : Claimed claimed tick.now occurrence

theorem EventRow.once {ref : ReminderEventRef} {reminder : Reminder} (h : EventRow ref reminder) :
    isRecurringSchedule reminder.schedule = false := by
  have hevent := h.isEvent
  simp only [isEventReminder, Bool.and_eq_true, Bool.not_eq_true'] at hevent
  exact hevent.2

theorem EventRow.offsetMs_nonneg {ref : ReminderEventRef} {reminder : Reminder}
    (h : EventRow ref reminder) : 0 ≤ ref.offsetMs := by
  have hoffset := h.offset
  rw [ReminderEventRef.offsetMs, Date.msPerMinute]
  omega

theorem EventRow.claim {ref : ReminderEventRef} {stored claimed : Reminder} {tick : Tick}
    (h : EventRow ref stored)
    (hclaim : claimIfDue stored tick.attemptId (.iso tick.now) = some claimed) :
    ∃ occurrence, ClaimedRow ref tick occurrence claimed := by
  unfold claimIfDue at hclaim
  split at hclaim
  · rename_i hdue
    have hok := toOption_eq_some.mp hclaim
    have hshape : ScheduledShape stored := by
      have hs := h.shape
      rw [Shape, hdue.1] at hs
      exact hs
    have hcome : ∀ nextFire, stored.nextFireAt.bind Date.parse = some nextFire →
        nextFire ≤ tick.now := by
      intro nextFire hnext
      have hle := hdue.2
      rw [hnext, Date.parse_iso] at hle
      simpa [Date.le] using hle
    have hfiring := shape_of_claim hshape hok (Date.parse_iso tick.now) hcome
    obtain ⟨⟨occurrence, nextFire, htimed⟩, -, -⟩ := hshape
    obtain ⟨-, rfl⟩ := claimReminder_ok hok
    have hle := hcome nextFire htimed.nextFire_eq
    have hordered := htimed.ordered
    exact ⟨occurrence, ⟨h.event_eq, h.isEvent, h.offset, hfiring⟩, rfl, rfl, rfl,
      htimed.occurrence_eq, by omega⟩
  · cases hclaim

theorem ClaimedRow.firingShape {ref : ReminderEventRef} {tick : Tick} {occurrence : ℤ}
    {claimed : Reminder} (h : ClaimedRow ref tick occurrence claimed) : FiringShape claimed := by
  have hshape := h.row.shape
  rw [Shape, h.firing] at hshape
  exact hshape

theorem ClaimedRow.inOrder {ref : ReminderEventRef} {tick : Tick} {occurrence : ℤ}
    {claimed : Reminder} (h : ClaimedRow ref tick occurrence claimed) :
    FiringCompletionContext.inOrder { at' := .iso tick.now } claimed = true := by
  simp [FiringCompletionContext.inOrder, h.started, Date.le]

/-- Its dispatch comes to the re-check of its event, or throws before it. -/
theorem ClaimedRow.stage {intl : Intl} {ref : ReminderEventRef} {tick : Tick} {occurrence : ℤ}
    {claimed : Reminder} {stage : DispatchStage} (h : ClaimedRow ref tick occurrence claimed)
    (hstage : dispatchStage intl claimed (.iso tick.now) = .ok stage) :
    -Date.maxTime ≤ occurrence ∧ ∃ late, stage =
      .event ref (.iso occurrence) (.iso (occurrence + ref.offsetMs)) late := by
  obtain ⟨decision, hdecision, hstage⟩ := bind_ok.mp hstage
  rw [decideMissedOccurrence, h.claimed_for.parse_occurrence, h.row.once] at hdecision
  obtain ⟨occurrenceAt, hat, hdecision⟩ := bind_ok.mp hdecision
  obtain rfl := isoOf_ok hat
  cases pure_ok.mp hdecision
  simp only [h.row.event_eq, h.row.isEvent, if_true, Date.parse_iso] at hstage
  obtain ⟨expectedStart, hexpected, hstage⟩ := bind_ok.mp hstage
  obtain rfl := isoOf_ok hexpected
  exact ⟨(isoOf_range hat).1, _, (pure_ok.mp hstage).symm⟩

/-! ## What is stored after it -/

/-- A completion of an event reminder keeps it one. -/
structure KeepsEvent (completion : ReminderFiringCompletion) : Prop where
  shape : CompletionShape completion
  once : ∀ schedule, completion.schedule = some schedule → isRecurringSchedule schedule = false

theorem ClaimedRow.keeps {ref : ReminderEventRef} {tick : Tick} {occurrence : ℤ}
    {claimed : Reminder} {completion : ReminderFiringCompletion}
    (h : ClaimedRow ref tick occurrence claimed) (hkeeps : KeepsEvent completion) :
    EventRow ref (completeIfHeld claimed tick.attemptId completion) := by
  unfold completeIfHeld
  split
  · rename_i next hnext
    have hshape := shape_of_completion hkeeps.shape hnext
    obtain ⟨-, -, rfl⟩ := applyFiringCompletion_ok hnext
    refine ⟨h.row.event_eq, ?_, h.row.offset, hshape⟩
    have hevent := h.row.isEvent
    simp only [isEventReminder, Bool.and_eq_true, Bool.not_eq_true'] at hevent ⊢
    refine ⟨hevent.1, ?_⟩
    split
    · cases hschedule : completion.schedule with
      | none => exact hevent.2
      | some schedule => exact hkeeps.once schedule hschedule
    · exact hevent.2
  · exact h.row

theorem planFiring_keeps {reminder : Reminder} {result : ReminderFiringResult}
    {context : FiringCompletionContext} {completion : ReminderFiringCompletion}
    (hshape : FiringShape reminder) (horder : context.inOrder reminder = true)
    (h : planFiringCompletion reminder result context = .ok completion) : KeepsEvent completion := by
  refine ⟨shape_of_planFiring hshape horder h, ?_⟩
  obtain ⟨-, occurrenceAt, -, hplan⟩ := planFiringCompletion_ok h
  cases hplan <;> exact fun schedule hschedule => nomatch hschedule

theorem planEventCanceled_keeps {reminder : Reminder} {outcome : NotificationDeliveryOutcome}
    {now : IsoTimestamp} {completion : ReminderFiringCompletion} (hshape : FiringShape reminder)
    (horder : FiringCompletionContext.inOrder { at' := now } reminder = true)
    (h : planEventCanceledCompletion reminder outcome now = .ok completion) :
    KeepsEvent completion := by
  refine ⟨shape_of_planEventCanceled hshape horder h, ?_⟩
  obtain ⟨-, planned, hplanned, rfl⟩ := planEventCanceledCompletion_ok h
  have hkeeps := planFiring_keeps hshape horder hplanned
  split
  · exact hkeeps.once
  · exact hkeeps.once

theorem planEventReschedule_keeps {reminder : Reminder} {now occurrenceAt : IsoTimestamp}
    {completion : ReminderFiringCompletion}
    (h : planEventRescheduleCompletion reminder now occurrenceAt = .ok completion) :
    KeepsEvent completion := by
  refine ⟨shape_of_planEventReschedule h, ?_⟩
  obtain ⟨-, ms, -, -, -, rfl⟩ := planEventRescheduleCompletion_ok h
  rintro schedule hschedule
  cases hschedule
  rfl

/-- Whatever the answer and the sink, an event reminder is stored again. -/
theorem ClaimedRow.after {intl : Intl} {ref : ReminderEventRef} {tick : Tick} {occurrence : ℤ}
    {claimed : Reminder} {answer : EventAnswer} {late : Bool} {check : Recheck}
    {occurrenceAt expectedStart : IsoTimestamp} (h : ClaimedRow ref tick occurrence claimed)
    (hanswer : Answered claimed ref (.iso tick.now) occurrenceAt expectedStart late check answer) :
    EventRow ref (afterPlan intl claimed tick (answer.plan occurrenceAt)) := by
  unfold afterPlan
  split
  · exact h.row
  · rename_i completion hsettle
    apply h.keeps
    have hsent : ∀ kind, kind ≠ .regular →
        settle intl claimed (.iso tick.now) tick.sink (.deliver kind occurrenceAt) =
          some completion → KeepsEvent completion := by
      intro kind hkind hsettle
      obtain ⟨sink, -, hsettle⟩ := Option.bind_eq_some_iff.mp hsettle
      have hcompletion := toOption_eq_some.mp hsettle
      cases kind with
      | regular => exact absurd rfl hkind
      | event => exact planFiring_keeps h.firingShape h.inOrder hcompletion
      | eventCanceled => exact planEventCanceled_keeps h.firingShape h.inOrder hcompletion
    cases hanswer with
    | gone => exact hsent .eventCanceled (by decide) hsettle
    | unreadable => exact hsent .event (by decide) hsettle
    | allDay hallDay => exact hsent .eventCanceled (by decide) hsettle
    | timeless htimed hstart => exact hsent .event (by decide) hsettle
    | unchanged htimed hstart hsame => exact hsent .event (by decide) hsettle
    | later htimed hstart hplan =>
      cases hsettle
      exact planEventReschedule_keeps hplan
    | earlier htimed hstart hcome => exact hsent .event (by decide) hsettle

/-! ## One fire -/

/-- What is known of an event dispatch of a run. -/
structure FiredBy (intl : Intl) (place : Placement) (ref : ReminderEventRef) (tick : Tick)
    (fired : Fired) (occurrence : ℤ) (late : Bool) : Prop where
  row : ClaimedRow ref tick occurrence fired.claimed
  in_time : -Date.maxTime ≤ occurrence
  ref_eq : fired.ref = ref
  tick_eq : fired.tick = tick
  check_eq : fired.check = tick.recheck place ref (.iso (occurrence + ref.offsetMs))
  answer_eq : fired.answer = (answerEvent fired.claimed ref (.iso tick.now) (.iso occurrence)
    (.iso (occurrence + ref.offsetMs)) late fired.check).toOption
  after_eq : fired.after = match fired.answer with
    | none => fired.claimed
    | some answer => afterPlan intl fired.claimed tick (answer.plan (.iso occurrence))

theorem FiredBy.answered {intl : Intl} {place : Placement} {ref : ReminderEventRef} {tick : Tick}
    {fired : Fired} {occurrence : ℤ} {late : Bool} {answer : EventAnswer}
    (h : FiredBy intl place ref tick fired occurrence late) (hanswer : fired.answer = some answer) :
    Answered fired.claimed ref (.iso tick.now) (.iso occurrence)
      (.iso (occurrence + ref.offsetMs)) late fired.check answer := by
  rw [h.answer_eq] at hanswer
  exact answerEvent_ok (toOption_eq_some.mp hanswer)

/-- One call: the stored reminder stays an event reminder, and a dispatch of it is as described. -/
theorem EventRow.fire {intl : Intl} {place : Placement} {ref : ReminderEventRef}
    {stored : Reminder} (h : EventRow ref stored) (tick : Tick) :
    EventRow ref (fire intl place stored tick).2 ∧
      ∀ fired, (fire intl place stored tick).1 = some fired →
        ∃ occurrence late, FiredBy intl place ref tick fired occurrence late := by
  unfold Reminders.fire
  cases hclaim : claimIfDue stored tick.attemptId (.iso tick.now) with
  | none => exact ⟨h, fun fired hfired => nomatch hfired⟩
  | some claimed =>
    obtain ⟨occurrence, hrow⟩ := h.claim hclaim
    simp only
    cases hstage : dispatchStage intl claimed (.iso tick.now) with
    | error failure => exact ⟨hrow.row, fun fired hfired => nomatch hfired⟩
    | ok stage =>
      obtain ⟨hin, late, rfl⟩ := hrow.stage hstage
      simp only
      constructor
      · cases hanswer : answerEvent claimed ref (.iso tick.now) (.iso occurrence)
            (.iso (occurrence + ref.offsetMs)) late
            (tick.recheck place ref (.iso (occurrence + ref.offsetMs))) with
        | error failure => exact hrow.row
        | ok answer => exact hrow.after (answerEvent_ok hanswer)
      · rintro fired hfired
        cases hfired
        exact ⟨occurrence, late, hrow, hin, rfl, rfl, rfl, rfl, rfl⟩

/-- The check of a dispatch that met a calendar. -/
theorem FiredBy.check_of_calendar {intl : Intl} {place : Placement} {ref : ReminderEventRef}
    {tick : Tick} {fired : Fired} {occurrence : ℤ} {late : Bool} {calendar : CalendarState}
    (h : FiredBy intl place ref tick fired occurrence late)
    (hcalendar : tick.calendar = some calendar) :
    fired.check =
      recheck place calendar ref (.iso (occurrence + ref.offsetMs)) (.iso tick.now) := by
  rw [h.check_eq, Tick.recheck, hcalendar]

theorem FiredBy.check_found {intl : Intl} {place : Placement} {ref : ReminderEventRef}
    {tick : Tick} {fired : Fired} {occurrence : ℤ} {late : Bool} {event : CalendarEvent}
    (h : FiredBy intl place ref tick fired occurrence late) :
    fired.check = .found event ↔ fired.FoundOnly place occurrence event := by
  rw [Fired.FoundOnly, h.tick_eq, h.ref_eq]
  cases hcalendar : tick.calendar with
  | none =>
    rw [h.check_eq, Tick.recheck, hcalendar]
    simp
  | some calendar =>
    rw [h.check_of_calendar hcalendar, recheck_eq_found]
    simp

/-! ### Later -/

theorem planEventReschedule_moves {ref : ReminderEventRef} {tick : Tick} {occurrence ms : ℤ}
    {claimed : Reminder} (h : ClaimedRow ref tick occurrence claimed) (hlater : tick.now < ms)
    (hrange : -Date.maxTime ≤ ms ∧ ms ≤ Date.maxTime) :
    planEventRescheduleCompletion claimed (.iso tick.now) (.iso ms) =
      .ok { status := .scheduled, schedule := some (.once (.iso ms)), occurrenceAt := some (.iso ms),
            nextFireAt := some (.iso ms), attempt := 0, updatedAt := .iso tick.now } := by
  have hcome := h.claimed_for.come
  obtain ⟨value, hvalue, hparse⟩ := Option.bind_eq_some_iff.mp h.claimed_for.occurrence_eq
  have hnow : ¬ ms ≤ tick.now := by omega
  have hocc : ¬ ms ≤ occurrence := by omega
  simp [planEventRescheduleCompletion, assertEventFiring, h.firing, h.row.event_eq, h.row.once,
    bind, Except.bind, pure, Except.pure, Date.le, hvalue, hparse, hnow, hocc,
    isoOf_of_range hrange]

theorem completeIfHeld_scheduled {ref : ReminderEventRef} {tick : Tick} {occurrence : ℤ}
    {claimed : Reminder} {completion : ReminderFiringCompletion}
    (h : ClaimedRow ref tick occurrence claimed) (hstatus : completion.status = .scheduled) :
    (completeIfHeld claimed tick.attemptId completion).status = .scheduled ∧
      (completeIfHeld claimed tick.attemptId completion).occurrenceAt = completion.occurrenceAt ∧
      (completeIfHeld claimed tick.attemptId completion).nextFireAt = completion.nextFireAt := by
  have hok : ∃ next, applyFiringCompletion claimed tick.attemptId completion = .ok next := by
    simp [applyFiringCompletion, hstatus, h.firing, h.token, CompletionStatus.toStatus,
      canTransitionReminder, transitions]
  obtain ⟨next, hnext⟩ := hok
  rw [completeIfHeld, hnext]
  obtain ⟨-, -, rfl⟩ := applyFiringCompletion_ok hnext
  simp [hstatus, CompletionStatus.toStatus]

/-- An event found later than its reminder moves the reminder, and nothing is sent. -/
theorem FiredBy.moved {intl : Intl} {place : Placement} {ref : ReminderEventRef} {tick : Tick}
    {fired : Fired} {occurrence startMs : ℤ} {late : Bool} {event : CalendarEvent}
    (h : FiredBy intl place ref tick fired occurrence late) (hcheck : fired.check = .found event)
    (htimed : event.allDay = false) (hstart : Date.parse event.start = some startMs)
    (hlater : tick.now < startMs - ref.offsetMs) :
    (∃ completion, fired.answer = some (.rescheduled completion)) ∧
      fired.after.status = .scheduled ∧
      fired.after.occurrenceAt = some (.iso (startMs - ref.offsetMs)) ∧
      fired.after.nextFireAt = some (.iso (startMs - ref.offsetMs)) := by
  have hvalue := event.time_value startMs hstart
  have hoffset := h.row.row.offsetMs_nonneg
  have hin := h.in_time
  have hcome := h.row.claimed_for.come
  have hrange : -Date.maxTime ≤ startMs - ref.offsetMs ∧ startMs - ref.offsetMs ≤ Date.maxTime := by
    omega
  have hdiffers : ¬ startMs - ref.offsetMs = occurrence := by omega
  have hanswer : fired.answer = some (.rescheduled
      { status := .scheduled, schedule := some (.once (.iso (startMs - ref.offsetMs))),
        occurrenceAt := some (.iso (startMs - ref.offsetMs)),
        nextFireAt := some (.iso (startMs - ref.offsetMs)), attempt := 0,
        updatedAt := .iso tick.now }) := by
    rw [h.answer_eq, hcheck]
    simp [answerEvent, htimed, hstart, isoOf_of_range hvalue, isoOf_of_range hrange, bind,
      Except.bind, pure, Except.pure, hdiffers, Date.lt, hlater,
      planEventReschedule_moves h.row hlater hrange, Except.toOption]
  refine ⟨⟨_, hanswer⟩, ?_⟩
  rw [h.after_eq, hanswer]
  exact completeIfHeld_scheduled h.row rfl

/-! ### Canceled -/

theorem planFiring_not_canceled {reminder : Reminder} {result : ReminderFiringResult}
    {context : FiringCompletionContext} {completion : ReminderFiringCompletion}
    (h : planFiringCompletion reminder result context = .ok completion) :
    completion.status ≠ .canceled := by
  obtain ⟨-, occurrenceAt, -, hplan⟩ := planFiringCompletion_ok h
  cases hplan with
  | retry => exact fun hstatus => nomatch hstatus
  | next => exact fun hstatus => nomatch hstatus
  | once hresult honce =>
    cases (finalOccurrenceOutcome result occurrenceAt context.at').outcome <;>
      simp [onceFinalStatus]

theorem completeIfHeld_canceled {claimed : Reminder} {attemptId : Id}
    {completion : ReminderFiringCompletion} (hfiring : claimed.status = .firing)
    (h : (completeIfHeld claimed attemptId completion).status = .canceled) :
    completion.status = .canceled := by
  unfold completeIfHeld at h
  split at h
  · rename_i next hnext
    obtain ⟨-, -, rfl⟩ := applyFiringCompletion_ok hnext
    cases hstatus : completion.status with
    | canceled => rfl
    | scheduled | completed | failed | deliveryUncertain =>
      simp [hstatus, CompletionStatus.toStatus] at h
  · rw [hfiring] at h
    cases h

/-- Only a cancel note cancels. -/
theorem FiredBy.canceled {intl : Intl} {place : Placement} {ref : ReminderEventRef} {tick : Tick}
    {fired : Fired} {occurrence : ℤ} {late : Bool}
    (h : FiredBy intl place ref tick fired occurrence late)
    (hcanceled : fired.after.status = .canceled) :
    ∃ title reason, fired.answer = some (.canceled title reason) := by
  rw [h.after_eq] at hcanceled
  split at hcanceled
  · rw [h.row.firing] at hcanceled
    cases hcanceled
  · rename_i answer hanswer
    cases answer with
    | canceled title reason => exact ⟨title, reason, hanswer⟩
    | rescheduled completion =>
      have hstatus := completeIfHeld_canceled h.row.firing hcanceled
      have hanswered := h.answered hanswer
      generalize fired.check = check at hanswered
      cases hanswered with
      | later htimed hstart hplan =>
        obtain ⟨-, ms, -, -, -, rfl⟩ := planEventRescheduleCompletion_ok hplan
        cases hstatus
    | delivered title startAt note late =>
      unfold afterPlan at hcanceled
      split at hcanceled
      · rw [h.row.firing] at hcanceled
        cases hcanceled
      · rename_i completion hsettle
        obtain ⟨sink, -, hsettle⟩ := Option.bind_eq_some_iff.mp hsettle
        have hstatus := completeIfHeld_canceled h.row.firing hcanceled
        exact absurd hstatus (planFiring_not_canceled (toOption_eq_some.mp hsettle))

/-! ### Gone -/

theorem FiredBy.gone_iff {intl : Intl} {place : Placement} {ref : ReminderEventRef} {tick : Tick}
    {fired : Fired} {occurrence : ℤ} {late : Bool}
    (h : FiredBy intl place ref tick fired occurrence late) :
    (∃ title, fired.answer = some (.canceled title .gone)) ↔ fired.check = .gone := by
  constructor
  · rintro ⟨title, hanswer⟩
    have hanswered := h.answered hanswer
    generalize fired.check = check at hanswered
    cases hanswered
    rfl
  · intro hcheck
    refine ⟨fired.claimed.body, ?_⟩
    rw [h.answer_eq, hcheck]
    rfl

/-- A dispatch follows its event exactly when the calendar hides none from it. -/
theorem FiredBy.follows_iff {intl : Intl} {place : Placement} {ref : ReminderEventRef}
    {tick : Tick} {fired : Fired} {occurrence : ℤ} {late : Bool}
    (h : FiredBy intl place ref tick fired occurrence late) :
    fired.Follows place ↔ ¬ fired.Hidden place := by
  have hclaimed := h.row.claimed_for.occurrence_eq
  have hsame : ∀ {other}, fired.claimed.occurrenceAt.bind Date.parse = some other →
      other = occurrence := fun hother => Option.some.inj (hother.symm.trans hclaimed)
  constructor
  · rintro ⟨other, hfollows⟩ ⟨another, calendar, hanother, hcalendar, hhides⟩
    obtain rfl := hsame hfollows.claimed_for
    obtain rfl := hsame hanother
    rw [h.tick_eq] at hcalendar hhides
    rw [h.ref_eq] at hhides
    have hgone : fired.check = .gone := by
      rw [h.check_of_calendar hcalendar, recheck_eq_gone]
      exact ⟨hhides.reads, hhides.past_page, hhides.off_wide, hhides.wide_short⟩
    obtain ⟨title, hanswer⟩ := h.gone_iff.mpr hgone
    obtain ⟨event, hin, hnamed, hon⟩ := hhides.on_narrow
    refine (hfollows.gone title hanswer calendar (h.tick_eq ▸ hcalendar) event hin ?_).2 ?_
    · rw [h.ref_eq]
      exact hnamed
    · rw [h.ref_eq]
      exact hon
  · intro hnot
    refine ⟨occurrence, hclaimed, ?_, h.canceled, ?_, ?_⟩
    · intro title hanswer calendar hcalendar event hin hnamed
      have hgone := h.gone_iff.mp ⟨title, hanswer⟩
      rw [h.tick_eq] at hcalendar
      rw [h.ref_eq] at hnamed
      rw [h.check_of_calendar hcalendar] at hgone
      obtain ⟨hreads, hpage, hwide, hshort⟩ := recheck_eq_gone.mp hgone
      rw [h.tick_eq, h.ref_eq]
      constructor
      · intro hon
        have hother := hwide event hin hon
        rw [hnamed] at hother
        cases hother
      · intro hon
        refine hnot ⟨occurrence, calendar, hclaimed, h.tick_eq ▸ hcalendar, ?_⟩
        rw [h.tick_eq, h.ref_eq]
        exact ⟨hreads, ⟨event, hin, hnamed, hon⟩, hpage, hwide, hshort⟩
    · intro event startMs hfound htimed hstart hlater
      rw [h.tick_eq, h.ref_eq] at hlater
      rw [h.ref_eq]
      exact h.moved (h.check_found.mpr hfound) htimed hstart hlater
    · intro title startAt note late' hanswer hnote
      have hanswered := h.answered hanswer
      have hfound : ∀ event, fired.check = .found event → fired.FoundOnly place occurrence event :=
        fun event => h.check_found.mp
      rw [h.tick_eq, h.ref_eq]
      generalize fired.check = check at hanswered hfound
      cases hanswered with
      | unreadable => exact absurd rfl hnote
      | timeless htimed hstart => exact absurd rfl hnote
      | @unchanged event startMs htimed hstart hat =>
        exact ⟨event, startMs, hfound event rfl, htimed, hstart, Or.inl ⟨rfl, Option.some.inj hat⟩⟩
      | @earlier event startMs htimed hstart hcome =>
        refine ⟨event, startMs, hfound event rfl, htimed, hstart, Or.inr ⟨rfl, ?_⟩⟩
        have hle : ¬ tick.now < startMs - ref.offsetMs := by simpa [Date.lt] using hcome
        omega

/-! ## Every run -/

theorem EventRow.firings {intl : Intl} {place : Placement} {ref : ReminderEventRef} :
    ∀ {ticks : List Tick} {stored : Reminder}, EventRow ref stored →
      ∀ fired ∈ firings intl place stored ticks,
        ∃ tick occurrence late, FiredBy intl place ref tick fired occurrence late
  | [], _, _, _, hfired => nomatch hfired
  | tick :: rest, stored, h, fired, hfired => by
    obtain ⟨hafter, hfirst⟩ := @EventRow.fire intl place ref stored h tick
    rw [Reminders.firings, List.mem_append, Option.mem_toList] at hfired
    rcases hfired with hhead | hrest
    · obtain ⟨occurrence, late, hby⟩ := hfirst fired hhead
      exact ⟨tick, occurrence, late, hby⟩
    · exact EventRow.firings hafter fired hrest

theorem eventRow_of_draft {input : NewReminderInput} {draft : ReminderDraft}
    {ref : ReminderEventRef} (hdraft : createReminderDraft input = .ok draft)
    (hevent : input.event = some ref) (displayNo : ℕ) :
    EventRow ref { toReminderDraft := draft, displayNo := displayNo } := by
  have hshape := shape_of_draft hdraft displayNo
  unfold createReminderDraft at hdraft
  simp only [ite_error_ok, Except.ok.injEq] at hdraft
  obtain ⟨-, -, -, -, hallowed, rfl⟩ := hdraft
  rw [eventRefAllowed, hevent] at hallowed
  simp only [Bool.not_eq_true', Bool.and_eq_false_iff, not_or, Bool.not_eq_false] at hallowed
  obtain ⟨⟨hvalid, honce⟩, hkind⟩ := hallowed
  refine ⟨hevent, ?_, ?_, hshape⟩
  · simp only [isEventReminder, hevent, Option.isSome_some, Bool.true_and, Bool.and_eq_true]
    exact ⟨hkind, by rw [honce]; rfl⟩
  · simp only [isValidReminderEventRef, Bool.and_eq_true, decide_eq_true_eq] at hvalid
    have hmin := hvalid.1.1.2
    rw [minEventOffsetMinutes] at hmin
    omega

/-- In every run of an event reminder its dispatches all follow the event exactly when no calendar
they meet hides the event from them. -/
theorem event_followed_iff (intl : Intl) (place : Placement) (input : NewReminderInput)
    (draft : ReminderDraft) (ref : ReminderEventRef) (displayNo : ℕ) (ticks : List Tick)
    (hdraft : createReminderDraft input = .ok draft) (hevent : input.event = some ref) :
    (∀ fired ∈ firings intl place { toReminderDraft := draft, displayNo := displayNo } ticks,
        fired.Follows place) ↔
      ∀ fired ∈ firings intl place { toReminderDraft := draft, displayNo := displayNo } ticks,
        ¬ fired.Hidden place := by
  have hrow := eventRow_of_draft hdraft hevent displayNo
  refine forall₂_congr fun fired hfired => ?_
  obtain ⟨tick, occurrence, late, hby⟩ := hrow.firings fired hfired
  exact hby.follows_iff

/-! ## A crowded day -/

/-- A calendar service for events that carry their own instants. -/
def instantPlacement : Placement where
  begins event := (Date.parse event.start).getD 0
  ends event := (Date.parse event.endAt).getD 0
  timed_begins event ms _ hstart := by simp [hstart]
  timed_ends event ms _ hend := by simp [hend]

def reviewRef : ReminderEventRef :=
  { eventId := "review", offsetMinutes := 10, calendarName := some "team" }

/-- A reminder ten minutes before the review, which starts at the hour 100. -/
def reviewInput : NewReminderInput where
  id := "r1"
  actorId := "owner"
  kind := .text
  body := "Review"
  schedule := .once (.iso 359400000)
  timeZone := "Asia/Seoul"
  origin := { platform := "discord", spaceId := none, channelId := "dm", threadId := none,
              userId := "owner", direct := some true }
  firstFireAt := .iso 359400000
  createdAt := .iso 0
  event := some reviewRef

def reviewEvent : CalendarEvent where
  id := "review"
  title := "Review"
  start := .iso 360000000
  endAt := .iso 363600000
  allDay := false
  calendarName := "team"
  time_value ms h := by cases h; decide

/-- One of fifty short events of the same morning. -/
def standup (slot : Fin 50) : CalendarEvent where
  id := "standup"
  title := "Standup"
  start := .iso (330000000 + 60000 * slot.val)
  endAt := .iso (330060000 + 60000 * slot.val)
  allDay := false
  calendarName := "team"
  time_value ms h := by
    cases h
    have hslot := slot.isLt
    simp only [Date.maxTime]
    omega

/-- The host was off for three days; the review took place. -/
def lateTick : Tick where
  attemptId := "a1"
  now := 619200000
  calendar := some { events := (List.finRange 50).map standup ++ [reviewEvent] }
  sink := some (.returned (.sent .dm))

/-- The fire at the planned time, with the review alone in the calendar. -/
def punctualTick : Tick where
  attemptId := "a1"
  now := 359400000
  calendar := some { events := [reviewEvent] }
  sink := some (.returned (.sent .dm))

def reviewDraft : ReminderDraft where
  id := "r1"
  actorId := "owner"
  status := .scheduled
  kind := .text
  body := "Review"
  schedule := .once (.iso 359400000)
  timeZone := "Asia/Seoul"
  origin := reviewInput.origin
  occurrenceAt := some (.iso 359400000)
  nextFireAt := some (.iso 359400000)
  attempt := 0
  event := some reviewRef
  createdAt := .iso 0
  updatedAt := .iso 0

theorem inWindow_length_le (place : Placement) (events : List CalendarEvent) (window : EventWindow) :
    (place.inWindow events window).length ≤ events.length := by
  rw [Placement.inWindow, List.length_insertionSort]
  exact List.length_filter_le _ events

theorem punctual_review_follows :
    (firings (fun _ => none) instantPlacement
      { toReminderDraft := reviewDraft, displayNo := 1 } [punctualTick]).length = 1 ∧
    ∀ fired ∈ firings (fun _ => none) instantPlacement
      { toReminderDraft := reviewDraft, displayNo := 1 } [punctualTick],
      fired.Follows instantPlacement := by
  refine ⟨by decide +kernel, ?_⟩
  refine (event_followed_iff _ instantPlacement reviewInput reviewDraft reviewRef 1 [punctualTick]
    (by decide +kernel) rfl).mpr ?_
  have htick : (firings (fun _ => none) instantPlacement
      { toReminderDraft := reviewDraft, displayNo := 1 } [punctualTick]).all
      (fun fired => fired.tick == punctualTick) = true := by
    decide +kernel
  rintro fired hfired ⟨occurrence, calendar, -, hcalendar, hhides⟩
  rw [beq_iff_eq.mp (List.all_eq_true.mp htick fired hfired)] at hcalendar
  cases hcalendar
  have hcrowded := hhides.crowded
  have hfew := inWindow_length_le instantPlacement [reviewEvent]
    (narrowWindow (occurrence + fired.ref.offsetMs))
  simp only [calendarEventsMaxLimit] at hcrowded
  simp only [List.length_singleton] at hfew
  omega

/-- Three days late, the fifty standups of that morning fill the narrow page, the month ahead is
empty, and the review is reported as gone. -/
theorem hidden_review_canceled :
    createReminderDraft reviewInput = .ok reviewDraft ∧
    ∃ fired ∈ firings (fun _ => none) instantPlacement
      { toReminderDraft := reviewDraft, displayNo := 1 } [lateTick],
      fired.answer = some (.canceled "Review" .gone) ∧ fired.after.status = .canceled ∧
      ¬ fired.Follows instantPlacement := by
  refine ⟨by decide +kernel, ?_⟩
  have hrun : (firings (fun _ => none) instantPlacement
      { toReminderDraft := reviewDraft, displayNo := 1 } [lateTick]).map
      (fun fired => (fired.answer, fired.after.status, fired.ref, fired.tick,
        fired.claimed.occurrenceAt)) =
      [(some (.canceled "Review" .gone), .canceled, reviewRef, lateTick,
        some (.iso 359400000))] := by
    decide +kernel
  obtain ⟨fired, hfired, hfields⟩ := List.mem_map.mp (hrun ▸ List.mem_singleton_self _)
  simp only [Prod.mk.injEq] at hfields
  obtain ⟨hanswer, hstatus, href, htick, hoccurrence⟩ := hfields
  refine ⟨fired, hfired, hanswer, hstatus, ?_⟩
  rintro ⟨occurrence, hfollows⟩
  have hclaimed := hfollows.claimed_for
  rw [hoccurrence] at hclaimed
  cases hclaimed
  refine (hfollows.gone "Review" hanswer
    { events := (List.finRange 50).map standup ++ [reviewEvent] } (by rw [htick]; rfl) reviewEvent
    (List.mem_append_right _ (List.mem_singleton_self _)) (by rw [href]; decide +kernel)).2 ?_
  rw [href]
  decide +kernel

end QuokyPlatform.Reminders
