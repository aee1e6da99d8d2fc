import QuokyPlatform.Reminders.Recurrence

/-! # The searches find the right occurrences

All of recurrence arithmetic is right just when the next occurrence is, and that fails in one case
only, which no occurrence itself is in: so going from one occurrence to the next visits them all. -/

namespace QuokyPlatform.Reminders

set_option autoImplicit false
set_option maxHeartbeats 250000

variable {intl : Intl} {timeZone : String} {z : Zone} {formatter : ℤ → ZonedParts}
  {schedule : ReminderSchedule}

/-! ## The next occurrence -/

theorem isoOfFound_instant (htime : ValidTime schedule) {t : ℤ} (ht : Searchable t) {day : ℤ}
    (hlow : localDay z t - 10 ≤ day) (hhigh : day ≤ localDay z t + 10) :
    isoOfFound (some (instantOn z schedule day)) = .ok (some (.iso (instantOn z schedule day))) := by
  obtain ⟨-, -, hmin, hmax⟩ := searched_day htime ht hlow hhigh
  exact isoOfFound_eq hmin hmax

/-- What the search for the next occurrence finds. -/
theorem next_of_find (hintl : intl timeZone = some formatter) (hread : z.ReadBy formatter)
    (hrecurring : isRecurringSchedule schedule = true) (htime : ValidTime schedule)
    {after : IsoTimestamp} {t : ℤ} (hafter : Date.parse after = some t) (ht : Searchable t) {day : ℤ}
    (hfind : (searchDays.map fun i => localDay z t - 1 + i).find? (fun day =>
      onDay schedule day && decide (t < instantOn z schedule day)) = some day) :
    NextCorrect intl timeZone z schedule after t := by
  obtain ⟨hday, hmem, hfirst⟩ := find?_first (searchDays_increasing (localDay z t - 1))
    (fun _ _ h => not_lt.mpr h.le) hfind
  rw [Bool.and_eq_true, decide_eq_true_eq] at hday
  rw [mem_searchDays] at hmem
  have hnext := nextOccurrenceAfter_eq hintl hread hrecurring htime hafter ht
  rw [hfind, Option.map_some, isoOfFound_instant htime ht (by omega) (by omega)] at hnext
  refine ⟨_, hnext, hday.2, isOccurrence_iff.mpr ⟨day, hday.1, rfl⟩, ?_⟩
  intro other hother hlater
  obtain ⟨otherDay, hon, rfl⟩ := isOccurrence_iff.mp hother
  by_contra hlt
  have hbefore : otherDay < day := instantOn_lt_iff.mp (not_le.mp hlt)
  have hrecent : localDay z t - 1 ≤ otherDay := by
    by_contra hearly
    have hpast := instantOn_before (z := z) htime (by omega : otherDay + 2 ≤ localDay z t)
    omega
  have hnone := hfirst otherDay (mem_searchDays.mpr ⟨by omega, by omega⟩) hbefore
  rw [hon, Bool.true_and, decide_eq_false_iff_not] at hnone
  exact hnone hlater

/-- A recurrence with one weekday has occurrences a week apart. -/
theorem onDay_single {time : ReminderLocalTime} {weekdays : List ℤ} {day today : ℤ}
    (honly : ∀ weekday ∈ weekdays, weekday = (today + 1 + 4) % 7)
    (hon : onDay (.weekly time weekdays) day = true) (hlow : today - 1 ≤ day) (hhigh : day ≤ today + 7) :
    day = today + 1 := by
  have hweekday := honly _ (List.contains_iff_mem.mp hon)
  omega

/-- The next occurrence is right unless the clocks were set back past the only one in reach. -/
theorem nextCorrect_iff (hintl : intl timeZone = some formatter) (hread : z.ReadBy formatter)
    (hvalid : isValidReminderSchedule schedule = true)
    (hrecurring : isRecurringSchedule schedule = true) {after : IsoTimestamp} {t : ℤ}
    (hafter : Date.parse after = some t) (ht : Searchable t) :
    NextCorrect intl timeZone z schedule after t ↔ ¬ SetBackPast z schedule t := by
  have htime := validTime_of_valid hvalid
  cases hfind : (searchDays.map fun i => localDay z t - 1 + i).find? fun day =>
      onDay schedule day && decide (t < instantOn z schedule day) with
  | some day =>
    refine ⟨?_, fun _ => next_of_find hintl hread hrecurring htime hafter ht hfind⟩
    rintro - ⟨⟨time, weekdays, rfl, honly⟩, hshown⟩
    obtain ⟨hday, hmem, -⟩ := find?_first (searchDays_increasing (localDay z t - 1))
      (fun _ _ h => not_lt.mpr h.le) hfind
    rw [Bool.and_eq_true, decide_eq_true_eq] at hday
    rw [mem_searchDays] at hmem
    have htomorrow := onDay_single honly hday.1 (by omega) (by omega)
    have hpast := (instantOn_tomorrow htime).mpr hshown
    rw [htomorrow] at hday
    omega
  | none =>
    have hnone : nextOccurrenceAfter intl schedule timeZone after = .ok none := by
      rw [nextOccurrenceAfter_eq hintl hread hrecurring htime hafter ht, hfind]
      rfl
    have hall : ∀ day, localDay z t - 1 ≤ day → day ≤ localDay z t + 7 →
        onDay schedule day = true → instantOn z schedule day ≤ t := by
      intro day hlow hhigh hon
      have hrejected := List.find?_eq_none.mp hfind day (mem_searchDays.mpr ⟨by omega, by omega⟩)
      rw [hon, Bool.true_and, decide_eq_true_eq] at hrejected
      omega
    constructor
    · rintro ⟨next, hnext, -⟩
      rw [hnone] at hnext
      cases hnext
    · intro hnot
      exfalso
      apply hnot
      have hweekdays : ∃ time weekdays, schedule = .weekly time weekdays ∧
          ∀ weekday ∈ weekdays, weekday = (localDay z t + 1 + 4) % 7 := by
        by_contra hother
        obtain ⟨day, hlow, hhigh, hon⟩ := exists_onDay hvalid hrecurring hother
        have hpast := hall day (by omega) hhigh hon
        have hcoming := instantOn_after htime (by omega : localDay z t + 2 ≤ day)
        omega
      refine ⟨hweekdays, (instantOn_tomorrow htime).mp (hall _ (by omega) (by omega) ?_)⟩
      obtain ⟨time, weekdays, rfl, honly⟩ := hweekdays
      cases weekdays with
      | nil =>
        simp only [isValidReminderSchedule, List.isEmpty_nil, Bool.not_true, Bool.and_false,
          Bool.false_and] at hvalid
        cases hvalid
      | cons weekday rest =>
        rw [onDay, ← honly weekday List.mem_cons_self]
        exact List.contains_iff_mem.mpr List.mem_cons_self

/-! ## The latest occurrence -/

theorem latestCorrect (hintl : intl timeZone = some formatter) (hread : z.ReadBy formatter)
    (hvalid : isValidReminderSchedule schedule = true)
    (hrecurring : isRecurringSchedule schedule = true) {limit : IsoTimestamp} {t : ℤ}
    (hlimit : Date.parse limit = some t) (ht : Searchable t) :
    LatestCorrect intl timeZone z schedule limit t := by
  have htime := validTime_of_valid hvalid
  have hlatest := latestOccurrenceAtOrBefore_eq hintl hread hrecurring htime hlimit ht
  cases hfind : (searchDays.map fun i => localDay z t + 1 + -i).find? fun day =>
      onDay schedule day && decide (instantOn z schedule day ≤ t) with
  | none =>
    rw [hfind] at hlatest
    exact ⟨none, hlatest, fun _ h => by cases h⟩
  | some day =>
    obtain ⟨hday, hmem, hfirst⟩ := find?_first (searchDays_decreasing (localDay z t + 1))
      (fun _ _ h => not_lt.mpr h.le) hfind
    rw [Bool.and_eq_true, decide_eq_true_eq] at hday
    rw [mem_searchDays_back] at hmem
    rw [hfind, Option.map_some, isoOfFound_instant htime ht (by omega) (by omega)] at hlatest
    refine ⟨_, hlatest, fun latest hsome => ?_⟩
    cases hsome
    refine ⟨_, rfl, hday.2, isOccurrence_iff.mpr ⟨day, hday.1, rfl⟩, ?_⟩
    intro other hother hpast
    obtain ⟨otherDay, hon, rfl⟩ := isOccurrence_iff.mp hother
    by_contra hlt
    have hafter : day < otherDay := instantOn_lt_iff.mp (not_le.mp hlt)
    have hrecent : otherDay ≤ localDay z t + 1 := by
      by_contra hlate
      have hcoming := instantOn_after (z := z) htime (by omega : localDay z t + 2 ≤ otherDay)
      omega
    have hnone := hfirst otherDay (mem_searchDays_back.mpr ⟨by omega, by omega⟩) hafter
    rw [hon, Bool.true_and, decide_eq_false_iff_not] at hnone
    exact hnone hpast

/-! ## From one occurrence to the next -/

def Steps (intl : Intl) (timeZone : String) (schedule : ReminderSchedule) (current next : ℤ) : Prop :=
  nextOccurrenceAfter intl schedule timeZone (.iso current) = .ok (some (.iso next))

/-- Going from one occurrence to the next leaves none out and comes to none twice. -/
structure VisitsOnce (intl : Intl) (timeZone : String) (z : Zone) (schedule : ReminderSchedule) :
    Prop where
  next : ∀ current next, IsOccurrence z schedule current → Searchable current →
    Steps intl timeZone schedule current next →
    IsOccurrence z schedule next ∧ current < next ∧
      ∀ other, IsOccurrence z schedule other → ¬ (current < other ∧ other < next)
  all : ∀ first last, IsOccurrence z schedule first → IsOccurrence z schedule last →
    Searchable first → Searchable last → first ≤ last →
    Relation.ReflTransGen (Steps intl timeZone schedule) first last

/-- The clocks have not been set back past the next occurrence when one has just come. -/
theorem not_setBackPast_of_occurrence (htime : ValidTime schedule) {t : ℤ}
    (h : IsOccurrence z schedule t) : ¬ SetBackPast z schedule t := by
  obtain ⟨day, -, rfl⟩ := isOccurrence_iff.mp h
  rintro ⟨-, hshown⟩
  have hpast := (instantOn_tomorrow htime).mpr hshown
  have hday := localDay_instantOn (z := z) htime day
  have hlater : instantOn z schedule day <
      instantOn z schedule (localDay z (instantOn z schedule day) + 1) := instantOn_lt (by omega)
  omega

theorem visitsOnce (hintl : intl timeZone = some formatter) (hread : z.ReadBy formatter)
    (hvalid : isValidReminderSchedule schedule = true)
    (hrecurring : isRecurringSchedule schedule = true) : VisitsOnce intl timeZone z schedule := by
  have htime := validTime_of_valid hvalid
  have hnext : ∀ t, IsOccurrence z schedule t → Searchable t →
      NextCorrect intl timeZone z schedule (.iso t) t := fun t hoccurs ht =>
    (nextCorrect_iff hintl hread hvalid hrecurring (Date.parse_iso t) ht).mpr
      (not_setBackPast_of_occurrence htime hoccurs)
  constructor
  · intro current next hoccurs ht hstep
    obtain ⟨found, hfound, hlater, hoccurrence, hleast⟩ := hnext current hoccurs ht
    unfold Steps at hstep
    rw [hfound] at hstep
    cases hstep
    refine ⟨hoccurrence, hlater, ?_⟩
    rintro other hother ⟨hafter, hbefore⟩
    have hle := hleast other hother hafter
    omega
  · intro first last hfirst hlast hsearchFirst hsearchLast hle
    -- The induction is on the number of days up to the last occurrence.
    obtain ⟨lastDay, hlastOn, rfl⟩ := isOccurrence_iff.mp hlast
    obtain ⟨day, hon, rfl⟩ := isOccurrence_iff.mp hfirst
    have hdays : day ≤ lastDay := by
      by_contra hlt
      have hlater : instantOn z schedule lastDay < instantOn z schedule day :=
        instantOn_lt (not_le.mp hlt)
      omega
    obtain ⟨count, hcount⟩ : ∃ count : ℕ, lastDay - day = count := ⟨(lastDay - day).toNat, by omega⟩
    induction count using Nat.strong_induction_on generalizing day with
    | _ count ih =>
      rcases hdays.lt_or_eq with hlt | rfl
      · obtain ⟨next, hstep, hlater, hoccurs, hleast⟩ := hnext _ hfirst hsearchFirst
        have hnextLe := hleast _ hlast (instantOn_lt hlt)
        obtain ⟨nextDay, hnextOn, rfl⟩ := isOccurrence_iff.mp hoccurs
        have hforward : day < nextDay := instantOn_lt_iff.mp hlater
        have hnextDays : nextDay ≤ lastDay := by
          by_contra hgt
          have hpast : instantOn z schedule lastDay < instantOn z schedule nextDay :=
            instantOn_lt (not_le.mp hgt)
          omega
        have hsearchNext : Searchable (instantOn z schedule nextDay) := by
          unfold Searchable at *
          omega
        refine .head hstep (ih (lastDay - nextDay).toNat (by omega) nextDay hnextOn hoccurs hsearchNext
          hnextLe hnextDays (by omega))
      · exact .refl

/-! ## The arithmetic as a whole -/

/-- Everything that is asked of recurrence arithmetic at an instant. -/
structure RecurrenceCorrect (intl : Intl) (timeZone : String) (z : Zone) (schedule : ReminderSchedule)
    (at' : IsoTimestamp) (t : ℤ) : Prop where
  resolves : ∀ day hour minute : ℤ, (0 ≤ hour ∧ hour ≤ 23) → (0 ≤ minute ∧ minute ≤ 59) →
    Expressible (wallMs day hour minute) → ∃ resolved,
      zonedToUtc intl (wallOf day hour minute) timeZone = .ok resolved ∧
      z.Resolves (wallMs day hour minute) resolved
  next : NextCorrect intl timeZone z schedule at' t
  latest : LatestCorrect intl timeZone z schedule at' t
  visits : VisitsOnce intl timeZone z schedule

/-- What the formatter prints of a zone. -/
def Zone.parts (z : Zone) (t : ℤ) : ZonedParts where
  year := (Date.civilFromDays (z.clock t / Date.msPerDay)).year
  month := (Date.civilFromDays (z.clock t / Date.msPerDay)).month
  day := (Date.civilFromDays (z.clock t / Date.msPerDay)).day
  hour := z.clock t % Date.msPerDay / 3600000
  minute := z.clock t % 3600000 / Date.msPerMinute
  second := z.clock t % Date.msPerMinute / 1000

theorem Zone.readBy_parts (z : Zone) : z.ReadBy z.parts := by
  intro t _ _
  refine ⟨rfl, rfl, rfl, ?_, rfl, rfl⟩
  show z.clock t % Date.msPerDay / 3600000 % 24 = z.clock t % Date.msPerDay / 3600000
  simp only [Date.msPerDay]
  omega

/-- 2006-10-29T02:31:00Z, when the clocks of Newfoundland went from 00:01 back to 23:01. -/
def fallBack : ℤ := 1162089060000

def newfoundlandOffset (t : ℤ) : ℤ := if t < fallBack then -150 else -210

theorem newfoundlandOffset_changes {t : ℤ} (h : StepFunction.ChangesAt newfoundlandOffset t) :
    t = fallBack := by
  unfold StepFunction.ChangesAt newfoundlandOffset at h
  by_contra hne
  rcases lt_or_gt_of_ne hne with hlt | hgt
  · exact h (by rw [if_pos (by omega), if_pos hlt])
  · exact h (by rw [if_neg (by omega), if_neg (by omega)])

def newfoundland : Zone where
  offset := newfoundlandOffset
  bounds t := by
    unfold newfoundlandOffset
    split
    · exact ⟨by omega, by omega⟩
    · exact ⟨by omega, by omega⟩
  apart := by
    intro first second hlt hfirst hsecond
    rw [newfoundlandOffset_changes hfirst, newfoundlandOffset_changes hsecond] at hlt
    exact absurd hlt (lt_irrefl _)
  shift t := by
    unfold newfoundlandOffset
    split
    · split
      · exact ⟨by omega, by omega⟩
      · exact ⟨by omega, by omega⟩
    · split
      · exact ⟨by omega, by omega⟩
      · exact ⟨by omega, by omega⟩

def newfoundlandIntl : Intl := fun timeZone =>
  if timeZone = "America/St_Johns" then some newfoundland.parts else none

def weekdayMidnight (weekday : ℤ) : ReminderSchedule := .weekly { hour := 0, minute := 0 } [weekday]

end QuokyPlatform.Reminders
