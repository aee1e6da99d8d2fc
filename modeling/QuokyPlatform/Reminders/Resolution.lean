import Mathlib.Data.List.Dedup
import QuokyPlatform.Reminders.Zones

/-! # Resolving through the formatter

The code only sees a zone through the formatter, at the instants it asks for. From these readings it
recovers the offset, and from the offsets a day before, at and a day after the wall-clock time every
instant that shows it. -/

namespace QuokyPlatform.Reminders

set_option autoImplicit false
set_option maxHeartbeats 250000

open StepFunction (ChangesAt Apart)

/-! ## The formatter of a zone -/

/-- The first wall-clock time that `Date.UTC` reads as itself. -/
def firstPlainMs : ℤ := Date.firstPlainDay * Date.msPerDay

/-- The formatter prints what the clocks of the zone show; midnight may be printed as 24. -/
def Zone.ReadBy (z : Zone) (formatter : ℤ → ZonedParts) : Prop :=
  ∀ t, firstPlainMs ≤ z.clock t → t ≤ Date.maxTime →
    (formatter t).year = (Date.civilFromDays (z.clock t / Date.msPerDay)).year ∧
    (formatter t).month = (Date.civilFromDays (z.clock t / Date.msPerDay)).month ∧
    (formatter t).day = (Date.civilFromDays (z.clock t / Date.msPerDay)).day ∧
    (formatter t).hour % 24 = z.clock t % Date.msPerDay / 3600000 ∧
    (formatter t).minute = z.clock t % 3600000 / Date.msPerMinute ∧
    (formatter t).second = z.clock t % Date.msPerMinute / 1000

/-- A wall-clock time by its day number and the minute of the day. -/
def wallMs (day hour minute : ℤ) : ℤ := day * Date.msPerDay + hour * 3600000 + minute * Date.msPerMinute

def wallOf (day hour minute : ℤ) : LocalDateTime where
  date := Date.civilFromDays day
  hour := hour
  minute := minute

section zone

variable {intl : Intl} {timeZone : String} {z : Zone} {formatter : ℤ → ZonedParts}

theorem toZonedDateTime_eq (hintl : intl timeZone = some formatter) (hread : z.ReadBy formatter) {t : ℤ}
    (hplain : firstPlainMs ≤ z.clock t) (hmax : t ≤ Date.maxTime) :
    toZonedDateTime intl t timeZone = .ok
      { date := Date.civilFromDays (z.clock t / Date.msPerDay)
        hour := z.clock t % Date.msPerDay / 3600000
        minute := z.clock t % 3600000 / Date.msPerMinute
        second := z.clock t % Date.msPerMinute / 1000
        weekday := weekdayOf (Date.civilFromDays (z.clock t / Date.msPerDay)) } := by
  obtain ⟨hyear, hmonth, hday, hhour, hminute, hsecond⟩ := hread t hplain hmax
  have hbounds := z.bounds t
  have hmin : -Date.maxTime ≤ t := by
    have hfirst : firstPlainMs = -59011459200000 := by decide
    simp only [hfirst, Zone.clock, Date.msPerMinute, Date.maxTime] at *
    omega
  unfold toZonedDateTime
  simp only [hintl]
  rw [if_pos ⟨hmin, hmax⟩]
  simp only [hyear, hmonth, hday, hhour, hminute, hsecond]

theorem offsetMinutesAt_eq (hintl : intl timeZone = some formatter) (hread : z.ReadBy formatter)
    {t : ℤ} (hplain : firstPlainMs ≤ z.clock t) (hmax : t ≤ Date.maxTime) :
    offsetMinutesAt intl t timeZone = .ok (z.offset t) := by
  unfold offsetMinutesAt
  rw [toZonedDateTime_eq hintl hread hplain hmax]
  have hday : Date.firstPlainDay ≤ z.clock t / Date.msPerDay := by
    simp only [firstPlainMs, Date.msPerDay] at *
    omega
  have hutc := Date.utc_civilFromDays hday 0 (z.clock t % Date.msPerDay / 3600000)
    (z.clock t % 3600000 / Date.msPerMinute) (z.clock t % Date.msPerMinute / 1000)
  rw [Int.add_zero] at hutc
  simp only [bind, Except.bind, pure, Except.pure, hutc]
  congr 1
  simp only [Zone.clock, Date.msPerDay, Date.msPerMinute]
  omega

/-- A reading shows the wall-clock time to the minute just when the clocks do to the millisecond, as
the instant was made from it by a whole number of minutes. -/
theorem reading_eq_iff {day hour minute offset : ℤ} (hhour : 0 ≤ hour ∧ hour ≤ 23)
    (hminute : 0 ≤ minute ∧ minute ≤ 59) :
    ({ date := Date.civilFromDays
          (z.clock (wallMs day hour minute - offset * Date.msPerMinute) / Date.msPerDay)
       hour := z.clock (wallMs day hour minute - offset * Date.msPerMinute) % Date.msPerDay / 3600000
       minute := z.clock (wallMs day hour minute - offset * Date.msPerMinute) % 3600000 /
          Date.msPerMinute } : LocalDateTime) = wallOf day hour minute ↔
      z.clock (wallMs day hour minute - offset * Date.msPerMinute) = wallMs day hour minute := by
  have hwhole : z.clock (wallMs day hour minute - offset * Date.msPerMinute) =
      wallMs day hour minute +
        (z.offset (wallMs day hour minute - offset * Date.msPerMinute) - offset) * Date.msPerMinute := by
    unfold Zone.clock
    simp only [Date.msPerMinute]
    omega
  generalize z.clock (wallMs day hour minute - offset * Date.msPerMinute) = shown at *
  generalize z.offset (wallMs day hour minute - offset * Date.msPerMinute) = used at *
  constructor
  · intro h
    have hdays := congrArg (fun wall : LocalDateTime =>
      Date.daysFromCivil wall.date.year wall.date.month wall.date.day) h
    have hhours := congrArg LocalDateTime.hour h
    have hminutes := congrArg LocalDateTime.minute h
    simp only [wallOf, Date.daysFromCivil_civilFromDays] at hdays hhours hminutes
    simp only [wallMs, Date.msPerDay, Date.msPerMinute] at *
    omega
  · intro h
    rw [h]
    have hday : wallMs day hour minute / Date.msPerDay = day := by
      simp only [wallMs, Date.msPerDay, Date.msPerMinute]
      omega
    have hhours : wallMs day hour minute % Date.msPerDay / 3600000 = hour := by
      simp only [wallMs, Date.msPerDay, Date.msPerMinute]
      omega
    have hminutes : wallMs day hour minute % 3600000 / Date.msPerMinute = minute := by
      simp only [wallMs, Date.msPerDay, Date.msPerMinute]
      omega
    rw [hday, hhours, hminutes, wallOf]

/-! ## The candidates -/

/-- The wall-clock times the code can resolve: `Date` can express them and the days around them. -/
def Expressible (wall : ℤ) : Prop :=
  firstPlainMs + 3 * Date.msPerDay ≤ wall ∧ wall ≤ Date.maxTime - 3 * Date.msPerDay

theorem candidate_range {wall offset : ℤ} (h : Expressible wall) (hlow : -1440 ≤ offset)
    (hhigh : offset ≤ 1440) : firstPlainMs ≤ z.clock (wall - offset * Date.msPerMinute) ∧
      wall - offset * Date.msPerMinute ≤ Date.maxTime := by
  have hbounds := z.bounds (wall - offset * Date.msPerMinute)
  unfold Expressible at h
  simp only [Zone.clock, Date.msPerDay, Date.msPerMinute] at *
  omega

theorem matchingInstants_eq (hintl : intl timeZone = some formatter) (hread : z.ReadBy formatter)
    {day hour minute : ℤ} (hhour : 0 ≤ hour ∧ hour ≤ 23) (hminute : 0 ≤ minute ∧ minute ≤ 59)
    (hwall : Expressible (wallMs day hour minute)) (offsets : List ℤ)
    (hoffsets : ∀ offset ∈ offsets, -720 ≤ offset ∧ offset ≤ 840) :
    matchingInstants intl (wallOf day hour minute) (wallMs day hour minute) timeZone offsets =
      .ok ((offsets.map fun offset => wallMs day hour minute - offset * Date.msPerMinute).filter
        fun t => z.clock t = wallMs day hour minute) := by
  induction offsets with
  | nil => rfl
  | cons offset rest ih =>
    have hbound := hoffsets offset List.mem_cons_self
    obtain ⟨hplain, hmax⟩ := candidate_range (z := z) hwall (by omega : -1440 ≤ offset) (by omega)
    unfold matchingInstants
    dsimp only
    rw [toZonedDateTime_eq hintl hread hplain hmax]
    rw [ih fun other hmem => hoffsets other (List.mem_cons_of_mem _ hmem)]
    simp only [bind, Except.bind, pure, Except.pure, List.map_cons, List.filter_cons,
      decide_eq_true_eq]
    by_cases hshown : z.clock (wallMs day hour minute - offset * Date.msPerMinute) =
        wallMs day hour minute
    · rw [if_pos ((reading_eq_iff hhour hminute).mpr hshown), if_pos hshown]
    · rw [if_neg fun heq => hshown ((reading_eq_iff hhour hminute).mp heq),
        if_neg hshown]

/-- Every instant that shows a wall-clock time does so under the offset of the day before or of the
day after. -/
theorem offset_of_shown {wall t : ℤ} (h : z.clock t = wall) :
    z.offset t = z.offset (wall - Date.msPerDay) ∨ z.offset t = z.offset (wall + Date.msPerDay) := by
  have hbounds := z.bounds t
  have hlow : wall - Date.msPerDay ≤ t := by
    simp only [Zone.clock, Date.msPerDay, Date.msPerMinute] at *
    omega
  have hhigh : t ≤ wall + Date.msPerDay := by
    simp only [Zone.clock, Date.msPerDay, Date.msPerMinute] at *
    omega
  have hshort : wall + Date.msPerDay - (wall - Date.msPerDay) ≤ 3 * Date.msPerDay := by
    simp only [Date.msPerDay]
    omega
  rcases z.apart.range hshort with hconstant | ⟨change, -, -, -, hbefore, hafter⟩
  · exact .inl (hconstant t hlow hhigh)
  · rcases lt_or_ge t change with hlt | hge
    · exact .inl (hbefore t hlow hlt)
    · exact .inr (hafter t hge hhigh)

/-- When nothing shows the wall-clock time, the clocks skip it at a change around it, and the offset of
the day before is the one before that change. -/
theorem skipped_change {wall : ℤ} (h : ∀ t, z.clock t ≠ wall) : ∃ change,
    ChangesAt z.offset change ∧ z.offset (wall - Date.msPerDay) = z.offset (change - 1) ∧
    change + z.offset (change - 1) * Date.msPerMinute ≤ wall ∧
    wall < change + z.offset change * Date.msPerMinute := by
  have hshort : wall + Date.msPerDay - (wall - Date.msPerDay) ≤ 3 * Date.msPerDay := by
    simp only [Date.msPerDay]
    omega
  have hinside : ∀ offset, -720 ≤ offset → offset ≤ 840 →
      wall - Date.msPerDay ≤ wall - offset * Date.msPerMinute ∧
        wall - offset * Date.msPerMinute ≤ wall + Date.msPerDay := by
    intro offset hlow hhigh
    simp only [Date.msPerDay, Date.msPerMinute]
    omega
  have hclock : ∀ offset, z.offset (wall - offset * Date.msPerMinute) = offset →
      z.clock (wall - offset * Date.msPerMinute) = wall := by
    intro offset hoffset
    rw [Zone.clock, hoffset, Int.sub_add_cancel]
  have hbounds := z.bounds (wall - Date.msPerDay)
  obtain ⟨hlow, hhigh⟩ := hinside _ hbounds.1 hbounds.2
  rcases z.apart.range hshort with hconstant | ⟨change, hafterLow, hbeforeHigh, hchanges, hbefore, hafter⟩
  · exact absurd (hclock _ (hconstant _ hlow hhigh)) (h _)
  · have hold := hbefore (change - 1) (by omega) (by omega)
    have hnew := hafter change (le_refl _) hbeforeHigh
    have hbounds' := z.bounds (wall + Date.msPerDay)
    obtain ⟨hlow', hhigh'⟩ := hinside _ hbounds'.1 hbounds'.2
    refine ⟨change, hchanges, hold.symm, ?_, ?_⟩
    · by_contra hnot
      refine h _ (hclock _ (hbefore _ hlow ?_))
      rw [hold] at hnot
      omega
    · by_contra hnot
      refine h _ (hclock _ (hafter _ ?_ hhigh'))
      rw [hnew] at hnot
      omega

variable (z) in
/-- The offsets the code asks for, each once. -/
def offsetsAround (wall : ℤ) : List ℤ :=
  [z.offset (wall - Date.msPerDay), z.offset wall, z.offset (wall + Date.msPerDay)].dedup

variable (z) in
/-- The candidates that read back as the wall-clock time. -/
def shownCandidates (wall : ℤ) : List ℤ :=
  ((offsetsAround z wall).map fun offset => wall - offset * Date.msPerMinute).filter
    fun t => z.clock t = wall

theorem offsetsAround_bounds (wall : ℤ) :
    ∀ offset ∈ offsetsAround z wall, -720 ≤ offset ∧ offset ≤ 840 := by
  intro offset hmem
  rw [offsetsAround, List.mem_dedup] at hmem
  simp only [List.mem_cons, List.not_mem_nil, or_false] at hmem
  rcases hmem with rfl | rfl | rfl
  · exact z.bounds _
  · exact z.bounds _
  · exact z.bounds _

/-- The candidates that are kept are the instants that show the wall-clock time. -/
theorem mem_shownCandidates {wall t : ℤ} : t ∈ shownCandidates z wall ↔ z.clock t = wall := by
  rw [shownCandidates, List.mem_filter, decide_eq_true_eq]
  constructor
  · exact fun h => h.2
  · intro h
    refine ⟨List.mem_map.mpr ⟨z.offset t, List.mem_dedup.mpr ?_, ?_⟩, h⟩
    · rcases offset_of_shown h with hbefore | hafter
      · exact hbefore ▸ List.mem_cons_self
      · exact hafter ▸ List.mem_cons_of_mem _ (List.mem_cons_of_mem _ List.mem_cons_self)
    · rw [← h, Zone.clock, Int.add_sub_cancel]

theorem shownCandidates_nodup (wall : ℤ) : (shownCandidates z wall).Nodup := by
  refine List.Nodup.filter _ ((List.nodup_dedup _).map ?_)
  intro a b hab
  simp only [Date.msPerMinute] at hab
  omega

variable (z) in
/-- The earliest candidate, or what the offset of the day before makes of the time. -/
def resolutionOf (wall : ℤ) : ResolvedInstant :=
  match (shownCandidates z wall).insertionSort (· ≤ ·) with
  | earliest :: others =>
    { epochMs := earliest, resolution := if others.isEmpty then .exact else .ambiguous }
  | [] =>
    { epochMs := wall - z.offset (wall - Date.msPerDay) * Date.msPerMinute, resolution := .nonexistent }

theorem resolutionOf_resolves (wall : ℤ) : z.Resolves wall (resolutionOf z wall) := by
  have hsorted := List.pairwise_insertionSort (· ≤ ·) (shownCandidates z wall)
  have hperm := List.perm_insertionSort (· ≤ ·) (shownCandidates z wall)
  have hnodup := hperm.nodup_iff.mpr (shownCandidates_nodup wall)
  have hmem : ∀ t, t ∈ (shownCandidates z wall).insertionSort (· ≤ ·) ↔ z.clock t = wall :=
    fun t => hperm.mem_iff.trans mem_shownCandidates
  unfold resolutionOf
  cases hlist : (shownCandidates z wall).insertionSort (· ≤ ·) with
  | nil =>
    rw [hlist] at hmem
    have hskipped : ∀ t, z.clock t ≠ wall := fun t hshown =>
      absurd ((hmem t).mpr hshown) List.not_mem_nil
    obtain ⟨change, hchanges, hoffset, hlow, hhigh⟩ := skipped_change hskipped
    rw [hoffset]
    exact .nonexistent change hskipped hchanges hlow hhigh
  | cons earliest others =>
    rw [hlist] at hmem hsorted hnodup
    have hshown := (hmem earliest).mp List.mem_cons_self
    cases others with
    | nil =>
      refine .exact earliest hshown ?_
      intro s hs
      exact List.mem_singleton.mp ((hmem s).mpr hs)
    | cons next rest =>
      refine .ambiguous earliest hshown ?_ ⟨next, ?_, ?_⟩
      · intro s hs
        rcases List.mem_cons.mp ((hmem s).mpr hs) with rfl | hlater
        · exact le_refl _
        · exact (List.pairwise_cons.mp hsorted).1 s hlater
      · exact (hmem next).mp (List.mem_cons_of_mem _ List.mem_cons_self)
      · rintro rfl
        exact (List.nodup_cons.mp hnodup).1 List.mem_cons_self

/-- Only one change can skip a wall-clock time. -/
theorem skipping_change_unique {wall change change' : ℤ} (h : ChangesAt z.offset change)
    (hlow : change + z.offset (change - 1) * Date.msPerMinute ≤ wall)
    (hhigh : wall < change + z.offset change * Date.msPerMinute) (h' : ChangesAt z.offset change')
    (hlow' : change' + z.offset (change' - 1) * Date.msPerMinute ≤ wall)
    (hhigh' : wall < change' + z.offset change' * Date.msPerMinute) : change = change' := by
  have hbounds := z.bounds change
  have hbounds' := z.bounds change'
  have hbefore := z.bounds (change - 1)
  have hbefore' := z.bounds (change' - 1)
  rcases lt_trichotomy change change' with hlt | heq | hgt
  · have hfar := z.apart change change' hlt h h'
    simp only [Date.msPerDay, Date.msPerMinute] at *
    omega
  · exact heq
  · have hfar := z.apart change' change hgt h' h
    simp only [Date.msPerDay, Date.msPerMinute] at *
    omega

/-- A wall-clock time stands for one instant. -/
theorem resolves_unique {wall : ℤ} {resolved resolved' : ResolvedInstant}
    (h : z.Resolves wall resolved) (h' : z.Resolves wall resolved') :
    resolved.epochMs = resolved'.epochMs := by
  cases h with
  | exact t shown only =>
    cases h' with
    | exact t' shown' only' => exact only' t shown
    | ambiguous t' shown' earliest' again' => exact (only t' shown').symm
    | nonexistent change skipped _ _ _ => exact absurd shown (skipped t)
  | ambiguous t shown earliest again =>
    cases h' with
    | exact t' shown' only' => exact only' t shown
    | ambiguous t' shown' earliest' again' => exact le_antisymm (earliest t' shown') (earliest' t shown)
    | nonexistent change skipped _ _ _ => exact absurd shown (skipped t)
  | nonexistent change skipped changes low high =>
    cases h' with
    | exact t' shown' only' => exact absurd shown' (skipped t')
    | ambiguous t' shown' earliest' again' => exact absurd shown' (skipped t')
    | nonexistent change' skipped' changes' low' high' =>
      rw [skipping_change_unique changes low high changes' low' high']

/-- `zonedToUtc` resolves every wall-clock time as its zone does. -/
theorem zonedToUtc_eq (hintl : intl timeZone = some formatter) (hread : z.ReadBy formatter)
    {day hour minute : ℤ} (hhour : 0 ≤ hour ∧ hour ≤ 23) (hminute : 0 ≤ minute ∧ minute ≤ 59)
    (hwall : Expressible (wallMs day hour minute)) :
    zonedToUtc intl (wallOf day hour minute) timeZone =
      .ok (resolutionOf z (wallMs day hour minute)) := by
  have hday : Date.firstPlainDay ≤ day := by
    unfold Expressible at hwall
    simp only [firstPlainMs, wallMs, Date.msPerDay, Date.msPerMinute] at *
    omega
  have hutc : Date.utc (Date.civilFromDays day).year ((Date.civilFromDays day).month - 1)
      (Date.civilFromDays day).day hour minute 0 = wallMs day hour minute := by
    have h := Date.utc_civilFromDays hday 0 hour minute 0
    rw [Int.add_zero] at h
    rw [h, wallMs, Int.add_zero, Int.zero_mul, Int.add_zero]
  have hat : ∀ days : ℤ, -1 ≤ days → days ≤ 1 →
      offsetMinutesAt intl (wallMs day hour minute + days * Date.msPerDay) timeZone =
        .ok (z.offset (wallMs day hour minute + days * Date.msPerDay)) := by
    intro days hlow hhigh
    have hshift : wallMs day hour minute + days * Date.msPerDay =
        wallMs day hour minute - (-1440 * days) * Date.msPerMinute := by
      simp only [Date.msPerDay, Date.msPerMinute]
      omega
    have hrange := candidate_range (z := z) hwall (by omega : -1440 ≤ -1440 * days) (by omega)
    rw [← hshift] at hrange
    exact offsetMinutesAt_eq hintl hread hrange.1 hrange.2
  have hbefore := hat (-1) (by omega) (by omega)
  have hduring := hat 0 (by omega) (by omega)
  have hafter := hat 1 (by omega) (by omega)
  rw [Int.neg_mul, Int.one_mul, ← Int.sub_eq_add_neg] at hbefore
  rw [Int.zero_mul, Int.add_zero] at hduring
  rw [Int.one_mul] at hafter
  generalize hw : wallMs day hour minute = wall at *
  have hfound := matchingInstants_eq hintl hread hhour hminute (hw ▸ hwall) (offsetsAround z wall)
    (offsetsAround_bounds wall)
  rw [hw] at hfound
  unfold zonedToUtc resolutionOf
  simp only [wallOf] at hfound ⊢
  simp only [hutc, hbefore, hduring, hafter, bind, Except.bind]
  rw [← offsetsAround, hfound]
  dsimp only
  rw [← shownCandidates]
  cases (shownCandidates z wall).insertionSort (· ≤ ·) with
  | nil => rfl
  | cons earliest others => rfl

end zone

end QuokyPlatform.Reminders
