import Mathlib.Logic.Relation
import QuokyPlatform.Reminders.Resolution
import QuokyPlatform.Reminders.Schedule

/-! # Recurrences

A recurrence stands for one instant on each of its days, in the order of the days. The searches look
at nine days around the local day of an instant. The latest occurrence is always the right one; the
next one is, unless the only weekday is that of the day after and the clocks were set back across
midnight after they had shown its time. -/

namespace QuokyPlatform.Reminders

set_option autoImplicit false
set_option maxHeartbeats 250000

/-! ## Occurrences -/

/-- Whether the recurrence has an occurrence on a day, by its number; day 0 is a Thursday. -/
def onDay (schedule : ReminderSchedule) (day : ℤ) : Bool :=
  match schedule with
  | .once _ => false
  | .daily _ => true
  | .weekly _ weekdays => weekdays.contains ((day + 4) % 7)

/-- The wall-clock time of the recurrence on a day. -/
def wallOn (schedule : ReminderSchedule) (day : ℤ) : ℤ :=
  wallMs day (scheduleTime schedule).hour (scheduleTime schedule).minute

/-- The instants of a recurrence. -/
def IsOccurrence (z : Zone) (schedule : ReminderSchedule) (t : ℤ) : Prop :=
  ∃ day resolved, onDay schedule day = true ∧ z.Resolves (wallOn schedule day) resolved ∧
    t = resolved.epochMs

/-- The instant on a day. -/
def instantOn (z : Zone) (schedule : ReminderSchedule) (day : ℤ) : ℤ :=
  (resolutionOf z (wallOn schedule day)).epochMs

section schedule

variable {z : Zone} {schedule : ReminderSchedule}

theorem isOccurrence_iff {t : ℤ} :
    IsOccurrence z schedule t ↔ ∃ day, onDay schedule day = true ∧ t = instantOn z schedule day := by
  constructor
  · rintro ⟨day, resolved, hday, hresolved, rfl⟩
    exact ⟨day, hday, resolves_unique hresolved (resolutionOf_resolves _)⟩
  · rintro ⟨day, hday, rfl⟩
    exact ⟨day, _, hday, resolutionOf_resolves _, rfl⟩

theorem instantOn_shownNear (day : ℤ) :
    z.ShownNear (wallOn schedule day) (instantOn z schedule day) :=
  (resolutionOf_resolves _).shownNear

/-- Later days have later instants. -/
theorem instantOn_lt {day day' : ℤ} (h : day < day') :
    instantOn z schedule day < instantOn z schedule day' := by
  refine (instantOn_shownNear day).lt (instantOn_shownNear day') ?_
  simp only [wallOn, wallMs, Date.msPerDay, Date.msPerMinute]
  omega

theorem instantOn_lt_iff {day day' : ℤ} :
    instantOn z schedule day < instantOn z schedule day' ↔ day < day' := by
  refine ⟨fun h => ?_, instantOn_lt⟩
  by_contra hle
  rcases (not_lt.mp hle).lt_or_eq with hlt | rfl
  · exact absurd (instantOn_lt hlt) (not_lt.mpr h.le)
  · exact lt_irrefl _ h

/-! ## Occurrences around an instant -/

/-- The local day of an instant. -/
def localDay (z : Zone) (t : ℤ) : ℤ := z.clock t / Date.msPerDay

/-- A valid time of the day. -/
structure ValidTime (schedule : ReminderSchedule) : Prop where
  hour : 0 ≤ (scheduleTime schedule).hour ∧ (scheduleTime schedule).hour ≤ 23
  minute : 0 ≤ (scheduleTime schedule).minute ∧ (scheduleTime schedule).minute ≤ 59

theorem weekday_range {weekdays seen : List ℤ} (h : distinctWeekdays weekdays seen = true) {weekday : ℤ}
    (hmem : weekday ∈ weekdays) : 0 ≤ weekday ∧ weekday ≤ 6 := by
  induction weekdays generalizing seen with
  | nil => cases hmem
  | cons first rest ih =>
    rw [distinctWeekdays] at h
    split at h
    · cases h
    next hin =>
      simp only [Bool.or_eq_true, decide_eq_true_eq, not_or] at hin
      rcases List.mem_cons.mp hmem with rfl | hmem
      · omega
      · exact ih h hmem

theorem validTime_of_valid (hvalid : isValidReminderSchedule schedule = true) : ValidTime schedule := by
  have htime : ∀ time, isValidLocalTime time = true →
      (0 ≤ time.hour ∧ time.hour ≤ 23) ∧ 0 ≤ time.minute ∧ time.minute ≤ 59 := by
    intro time h
    simp only [isValidLocalTime, Bool.and_eq_true, decide_eq_true_eq] at h
    omega
  cases schedule with
  | once instant =>
    have hzero : (0 : ℤ) ≤ 0 ∧ (0 : ℤ) ≤ 23 ∧ (0 : ℤ) ≤ 59 := by decide
    exact ⟨⟨hzero.1, hzero.2.1⟩, ⟨hzero.1, hzero.2.2⟩⟩
  | daily time => exact ⟨(htime time hvalid).1, (htime time hvalid).2⟩
  | weekly time weekdays =>
    simp only [isValidReminderSchedule, Bool.and_eq_true] at hvalid
    exact ⟨(htime time hvalid.1.1).1, (htime time hvalid.1.1).2⟩

theorem wallOn_day (htime : ValidTime schedule) (day : ℤ) :
    day * Date.msPerDay ≤ wallOn schedule day ∧
      wallOn schedule day + Date.msPerMinute ≤ (day + 1) * Date.msPerDay := by
  have hhour := htime.hour
  have hminute := htime.minute
  simp only [wallOn, wallMs, Date.msPerDay, Date.msPerMinute]
  omega

/-- Two days on, an occurrence is still to come. -/
theorem instantOn_after (htime : ValidTime schedule) {t day : ℤ} (h : localDay z t + 2 ≤ day) :
    t < instantOn z schedule day := by
  refine (Zone.shownNear_clock t).lt (instantOn_shownNear day) ?_
  have hwall := wallOn_day htime day
  simp only [localDay, Date.msPerDay] at *
  omega

/-- Two days before, it has come. -/
theorem instantOn_before (htime : ValidTime schedule) {t day : ℤ} (h : day + 2 ≤ localDay z t) :
    instantOn z schedule day < t := by
  refine (instantOn_shownNear day).lt (Zone.shownNear_clock t) ?_
  have hwall := wallOn_day htime day
  simp only [localDay, Date.msPerDay, Date.msPerMinute] at *
  omega

/-- On the next day it has come just when the clocks were set back after they had shown its time. -/
theorem instantOn_tomorrow (htime : ValidTime schedule) {t : ℤ} :
    instantOn z schedule (localDay z t + 1) ≤ t ↔
      ∃ s, s ≤ t ∧ z.clock s = wallOn schedule (localDay z t + 1) := by
  refine (resolutionOf_resolves _).le_iff_shown ?_
  have hwall := wallOn_day htime (localDay z t + 1)
  simp only [localDay, Date.msPerDay] at *
  omega

/-- On its own day or later an occurrence is shown, never before. -/
theorem localDay_instantOn (htime : ValidTime schedule) (day : ℤ) :
    day ≤ localDay z (instantOn z schedule day) := by
  have hwall := wallOn_day htime day
  have hclock : wallOn schedule day ≤ z.clock (instantOn z schedule day) :=
    (resolutionOf_resolves (wallOn schedule day)).wall_le_clock
  simp only [localDay, Date.msPerDay] at *
  omega

end schedule

/-! ## The searches -/

/-- The instants around which the code can search: `Date` can express every day it looks at. -/
def Searchable (t : ℤ) : Prop :=
  firstPlainMs + 20 * Date.msPerDay ≤ t ∧ t ≤ Date.maxTime - 20 * Date.msPerDay

section search

variable {intl : Intl} {timeZone : String} {z : Zone} {formatter : ℤ → ZonedParts}
  {schedule : ReminderSchedule}

/-- The days a search around an instant looks at. -/
theorem searched_day (htime : ValidTime schedule) {t : ℤ} (ht : Searchable t) {day : ℤ}
    (hlow : localDay z t - 10 ≤ day) (hhigh : day ≤ localDay z t + 10) :
    Date.firstPlainDay ≤ day ∧ Expressible (wallOn schedule day) ∧
      -Date.maxTime ≤ instantOn z schedule day ∧ instantOn z schedule day ≤ Date.maxTime := by
  have hwall := wallOn_day htime day
  have hbounds := z.bounds t
  have hshown : z.ShownNear (wallOn schedule day) (instantOn z schedule day) :=
    instantOn_shownNear day
  obtain ⟨s, hs, hnear, hinstant⟩ := hshown
  have hbounds' := z.bounds s
  have hfirst : Date.firstPlainDay = -683003 := by decide
  simp only [Searchable, Expressible, localDay, Zone.clock, firstPlainMs, hfirst, Date.maxTime,
    Date.msPerDay, Date.msPerMinute] at *
  omega

theorem weekdayOf_civilFromDays {day : ℤ} (h : Date.firstPlainDay ≤ day) :
    weekdayOf (Date.civilFromDays day) = (day + 4) % 7 := by
  have hutc := Date.utc_civilFromDays h 0 0 0 0
  rw [Int.add_zero] at hutc
  rw [weekdayOf, hutc, Date.utcDay]
  simp only [Date.msPerDay, Date.msPerMinute]
  omega

theorem occursOn_eq {day : ℤ} (h : Date.firstPlainDay ≤ day) :
    occursOn schedule (Date.civilFromDays day) = onDay schedule day := by
  cases schedule with
  | once _ => rfl
  | daily _ => rfl
  | weekly time weekdays => rw [occursOn, onDay, weekdayOf_civilFromDays h]

theorem addLocalDays_eq {day : ℤ} (h : Date.firstPlainDay ≤ day) (more : ℤ) :
    addLocalDays (Date.civilFromDays day) more = Date.civilFromDays (day + more) := by
  rw [addLocalDays, Date.utc_civilFromDays h more 0 0 0, Date.utcDate]
  congr 1
  simp only [Date.msPerDay, Date.msPerMinute]
  omega

theorem occurrenceOn_eq (hintl : intl timeZone = some formatter) (hread : z.ReadBy formatter)
    (htime : ValidTime schedule) {day : ℤ} (h : Expressible (wallOn schedule day)) :
    occurrenceOn intl schedule (Date.civilFromDays day) timeZone =
      .ok (instantOn z schedule day) := by
  have hresolved := zonedToUtc_eq hintl hread htime.hour htime.minute h
  unfold occurrenceOn
  rw [wallOf] at hresolved
  simp only [hresolved, bind, Except.bind, pure, Except.pure]
  rfl

/-- A search finds the first of the days that has an accepted instant. -/
theorem searchOccurrence_eq (hintl : intl timeZone = some formatter) (hread : z.ReadBy formatter)
    (htime : ValidTime schedule) (accept : ℤ → Bool) (days : List ℤ)
    (hdays : ∀ day ∈ days, Date.firstPlainDay ≤ day ∧ Expressible (wallOn schedule day)) :
    searchOccurrence intl schedule timeZone accept (days.map Date.civilFromDays) =
      .ok ((days.find? fun day => onDay schedule day && accept (instantOn z schedule day)).map
        (instantOn z schedule)) := by
  induction days with
  | nil => rfl
  | cons day rest ih =>
    obtain ⟨hplain, hexpressible⟩ := hdays day List.mem_cons_self
    have hrest := ih fun other hmem => hdays other (List.mem_cons_of_mem _ hmem)
    rw [List.map_cons, searchOccurrence, occursOn_eq hplain, List.find?_cons]
    cases honDay : onDay schedule day with
    | false => exact hrest
    | true =>
      simp only [Bool.not_true, Bool.false_eq_true, if_false,
        occurrenceOn_eq hintl hread htime hexpressible, bind, Except.bind, pure, Except.pure,
        Bool.true_and]
      cases accept (instantOn z schedule day) with
      | true => rfl
      | false => exact hrest

/-- What is found in a list of days whose order is `before`. -/
theorem find?_first {before : ℤ → ℤ → Prop} {days : List ℤ} (hsorted : days.Pairwise before)
    (hasymm : ∀ a b, before a b → ¬ before b a) {q : ℤ → Bool} {day : ℤ}
    (hfound : days.find? q = some day) :
    q day = true ∧ day ∈ days ∧ ∀ other ∈ days, before other day → q other = false := by
  obtain ⟨hday, earlier, later, hdays, hnone⟩ := List.find?_eq_some_iff_append.mp hfound
  refine ⟨hday, List.mem_of_find?_eq_some hfound, ?_⟩
  intro other hmem hbefore
  rw [hdays] at hmem hsorted
  rcases List.mem_append.mp hmem with hearlier | hlater
  · exact Bool.eq_false_iff.mpr fun h => absurd h (by simpa using hnone other hearlier)
  · rcases List.mem_cons.mp hlater with rfl | hlater
    · exact absurd hbefore (hasymm _ _ hbefore)
    · have hafter := (List.pairwise_cons.mp (List.pairwise_append.mp hsorted).2.1).1 other hlater
      exact absurd hbefore (hasymm _ _ hafter)

theorem isoOfFound_eq {t : ℤ} (hlow : -Date.maxTime ≤ t) (hhigh : t ≤ Date.maxTime) :
    isoOfFound (some t) = .ok (some (.iso t)) := by
  have hiso : Date.toISOString t = some (.iso t) := if_pos ⟨hlow, hhigh⟩
  rw [isoOfFound, isoOf, hiso]
  rfl

/-- The days of a search, from a first day on or backwards. -/
theorem mem_searchDays {start day : ℤ} :
    day ∈ searchDays.map (fun i => start + i) ↔ start ≤ day ∧ day ≤ start + 8 := by
  simp only [searchDays, List.map_cons, List.map_nil, List.mem_cons, List.not_mem_nil, or_false]
  omega

theorem mem_searchDays_back {start day : ℤ} :
    day ∈ searchDays.map (fun i => start + -i) ↔ start - 8 ≤ day ∧ day ≤ start := by
  simp only [searchDays, List.map_cons, List.map_nil, List.mem_cons, List.not_mem_nil, or_false]
  omega

theorem searchDays_increasing (start : ℤ) :
    (searchDays.map (fun i => start + i)).Pairwise (· < ·) := by
  refine List.pairwise_map.mpr ((show searchDays.Pairwise (· < ·) by decide).imp ?_)
  intro a b hab
  omega

theorem searchDays_decreasing (start : ℤ) :
    (searchDays.map (fun i => start + -i)).Pairwise (· > ·) := by
  refine List.pairwise_map.mpr ((show searchDays.Pairwise (· < ·) by decide).imp ?_)
  intro a b hab
  omega

theorem localDateOf_eq (hintl : intl timeZone = some formatter) (hread : z.ReadBy formatter) {t : ℤ}
    (ht : Searchable t) :
    localDateOf intl (some t) timeZone = .ok (Date.civilFromDays (localDay z t)) := by
  have hbounds := z.bounds t
  have hplain : firstPlainMs ≤ z.clock t := by
    unfold Searchable at ht
    simp only [Zone.clock, Date.msPerDay, Date.msPerMinute] at *
    omega
  have hmax : t ≤ Date.maxTime := by
    unfold Searchable at ht
    simp only [Date.msPerDay] at *
    omega
  unfold localDateOf
  simp only [toZonedDateTime_eq hintl hread hplain hmax, bind, Except.bind, pure, Except.pure]
  rfl

/-- The local days of a search. -/
theorem searchedDates (htime : ValidTime schedule) {t : ℤ} (ht : Searchable t) {first : ℤ}
    (hlow : localDay z t - 1 ≤ first) (hhigh : first ≤ localDay z t + 1) (days : List ℤ) :
    days.map (fun i => addLocalDays (Date.civilFromDays first) i) =
      (days.map fun i => first + i).map Date.civilFromDays := by
  obtain ⟨hplain, -⟩ := searched_day (z := z) htime ht (by omega : localDay z t - 10 ≤ first) (by omega)
  rw [List.map_map]
  refine List.map_congr_left fun i _ => ?_
  rw [addLocalDays_eq hplain]
  rfl

theorem nextOccurrenceAfter_eq (hintl : intl timeZone = some formatter) (hread : z.ReadBy formatter)
    (hrecurring : isRecurringSchedule schedule = true) (htime : ValidTime schedule)
    {after : IsoTimestamp} {t : ℤ} (hafter : Date.parse after = some t) (ht : Searchable t) :
    nextOccurrenceAfter intl schedule timeZone after =
      isoOfFound (((searchDays.map fun i => localDay z t - 1 + i).find? fun day =>
        onDay schedule day && decide (t < instantOn z schedule day)).map (instantOn z schedule)) := by
  have htoday : Date.firstPlainDay ≤ localDay z t :=
    (searched_day (z := z) htime ht (by omega) (by omega)).1
  have hsearch := searchOccurrence_eq (z := z) hintl hread htime
    (fun ms => Date.lt (some t) (some ms)) (searchDays.map fun i => localDay z t - 1 + i)
    (fun day hmem => by
      rw [mem_searchDays] at hmem
      have h := searched_day (z := z) htime ht (by omega : localDay z t - 10 ≤ day) (by omega)
      exact ⟨h.1, h.2.1⟩)
  rw [← searchedDates (z := z) htime ht (by omega : localDay z t - 1 ≤ localDay z t - 1)
    (by omega)] at hsearch
  have hstart : addLocalDays (Date.civilFromDays (localDay z t)) (-1) =
      Date.civilFromDays (localDay z t - 1) := addLocalDays_eq htoday (-1)
  unfold nextOccurrenceAfter
  rw [hafter]
  cases schedule with
  | once _ => cases hrecurring
  | daily time =>
    simp only [localDateOf_eq hintl hread ht, hstart, bind, Except.bind, hsearch]
    rfl
  | weekly time weekdays =>
    simp only [localDateOf_eq hintl hread ht, hstart, bind, Except.bind, hsearch]
    rfl

theorem latestOccurrenceAtOrBefore_eq (hintl : intl timeZone = some formatter)
    (hread : z.ReadBy formatter) (hrecurring : isRecurringSchedule schedule = true)
    (htime : ValidTime schedule) {limit : IsoTimestamp} {t : ℤ} (hlimit : Date.parse limit = some t)
    (ht : Searchable t) :
    latestOccurrenceAtOrBefore intl schedule timeZone limit =
      isoOfFound (((searchDays.map fun i => localDay z t + 1 + -i).find? fun day =>
        onDay schedule day && decide (instantOn z schedule day ≤ t)).map (instantOn z schedule)) := by
  have htoday : Date.firstPlainDay ≤ localDay z t :=
    (searched_day (z := z) htime ht (by omega) (by omega)).1
  have hsearch := searchOccurrence_eq (z := z) hintl hread htime
    (fun ms => Date.le (some ms) (some t)) (searchDays.map fun i => localDay z t + 1 + -i)
    (fun day hmem => by
      rw [mem_searchDays_back] at hmem
      have h := searched_day (z := z) htime ht (by omega : localDay z t - 10 ≤ day) (by omega)
      exact ⟨h.1, h.2.1⟩)
  have hdates : (searchDays.map fun i => addLocalDays (Date.civilFromDays (localDay z t + 1)) (-i)) =
      (searchDays.map fun i => localDay z t + 1 + -i).map Date.civilFromDays := by
    have hback := searchedDates (z := z) htime ht (by omega : localDay z t - 1 ≤ localDay z t + 1)
      (by omega) (searchDays.map fun i => -i)
    simpa only [List.map_map, Function.comp_def] using hback
  rw [← hdates] at hsearch
  unfold latestOccurrenceAtOrBefore
  rw [hlimit]
  cases schedule with
  | once _ => cases hrecurring
  | daily time =>
    simp only [localDateOf_eq hintl hread ht, addLocalDays_eq htoday, bind, Except.bind, hsearch]
    rfl
  | weekly time weekdays =>
    simp only [localDateOf_eq hintl hread ht, addLocalDays_eq htoday, bind, Except.bind, hsearch]
    rfl

/-! ## What the searches find -/

/-- The next occurrence, as it should be. -/
def NextCorrect (intl : Intl) (timeZone : String) (z : Zone) (schedule : ReminderSchedule)
    (after : IsoTimestamp) (t : ℤ) : Prop :=
  ∃ next, nextOccurrenceAfter intl schedule timeZone after = .ok (some (.iso next)) ∧ t < next ∧
    IsOccurrence z schedule next ∧ ∀ other, IsOccurrence z schedule other → t < other → next ≤ other

/-- The latest occurrence, as it should be when there is one within reach. -/
def LatestCorrect (intl : Intl) (timeZone : String) (z : Zone) (schedule : ReminderSchedule)
    (limit : IsoTimestamp) (t : ℤ) : Prop :=
  ∃ found, latestOccurrenceAtOrBefore intl schedule timeZone limit = .ok found ∧
    ∀ latest, found = some latest → ∃ ms, latest = .iso ms ∧ ms ≤ t ∧ IsOccurrence z schedule ms ∧
      ∀ other, IsOccurrence z schedule other → other ≤ t → other ≤ ms

/-- The only weekday is that of the day after, and its time has been shown already: the clocks were set
back across midnight since. -/
def SetBackPast (z : Zone) (schedule : ReminderSchedule) (t : ℤ) : Prop :=
  (∃ time weekdays, schedule = .weekly time weekdays ∧
    ∀ weekday ∈ weekdays, weekday = (localDay z t + 1 + 4) % 7) ∧
  ∃ s, s ≤ t ∧ z.clock s = wallOn schedule (localDay z t + 1)

/-- A recurrence that does not have just the weekday of the day after has an occurrence on one of the
six days behind that. -/
theorem exists_onDay (hvalid : isValidReminderSchedule schedule = true)
    (hrecurring : isRecurringSchedule schedule = true) {today : ℤ}
    (h : ¬ ∃ time weekdays, schedule = .weekly time weekdays ∧
      ∀ weekday ∈ weekdays, weekday = (today + 1 + 4) % 7) :
    ∃ day, today + 2 ≤ day ∧ day ≤ today + 7 ∧ onDay schedule day = true := by
  cases schedule with
  | once _ => cases hrecurring
  | daily _ => exact ⟨today + 2, by omega, by omega, rfl⟩
  | weekly time weekdays =>
    have hother : ∃ weekday ∈ weekdays, weekday ≠ (today + 1 + 4) % 7 := by
      by_contra hnone
      push Not at hnone
      exact h ⟨time, weekdays, rfl, hnone⟩
    obtain ⟨weekday, hmem, hne⟩ := hother
    have hrange : 0 ≤ weekday ∧ weekday ≤ 6 := by
      simp only [isValidReminderSchedule, Bool.and_eq_true] at hvalid
      exact weekday_range hvalid.2 hmem
    refine ⟨today + 2 + (weekday - (today + 2 + 4)) % 7, by omega, by omega, ?_⟩
    have hweekday : (today + 2 + (weekday - (today + 2 + 4)) % 7 + 4) % 7 = weekday := by omega
    rw [onDay, hweekday]
    exact List.contains_iff_mem.mpr hmem

end search

end QuokyPlatform.Reminders
