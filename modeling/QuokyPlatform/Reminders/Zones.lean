import QuokyPlatform.Foundations.Calendar
import QuokyPlatform.Foundations.StepFunction
import QuokyPlatform.Reminders.ZonedTime

/-! # Time zones

A zone is how far its clocks are ahead of UTC at each instant. Its offset is a whole number of
minutes, changes are rare and small. A wall-clock time is resolved to the earliest instant at which
the clocks show it, and when they skip it, to the instant they would have shown it. -/

namespace QuokyPlatform.Reminders

set_option autoImplicit false
set_option maxHeartbeats 250000

open StepFunction (ChangesAt Apart)

/-! ## Clocks -/

structure Zone where
  /-- In minutes. -/
  offset : ℤ → ℤ
  bounds : ∀ t, -720 ≤ offset t ∧ offset t ≤ 840
  apart : Apart offset (3 * Date.msPerDay)
  shift : ∀ t, -180 ≤ offset t - offset (t - 1) ∧ offset t - offset (t - 1) ≤ 180

namespace Zone

variable (z : Zone)

/-- What the clocks show, in milliseconds as if it were UTC. -/
def clock (t : ℤ) : ℤ := t + z.offset t * Date.msPerMinute

variable {z}

/-- Over three days the offset moves by one shift at most. -/
theorem offset_near {s t : ℤ} (hst : s ≤ t) (hnear : t - s ≤ 3 * Date.msPerDay) :
    -180 ≤ z.offset t - z.offset s ∧ z.offset t - z.offset s ≤ 180 := by
  rcases z.apart.range hnear with hconstant | ⟨change, hlow, hhigh, -, hbefore, hafter⟩
  · have hsame := hconstant t hst (le_refl t)
    omega
  · have hshift := z.shift change
    have hold := hbefore (change - 1) (by omega) (by omega)
    have hnew := hafter change (le_refl _) hhigh
    omega

theorem offset_near' {s t : ℤ} (h : s - t ≤ 3 * Date.msPerDay) (h' : t - s ≤ 3 * Date.msPerDay) :
    -180 ≤ z.offset t - z.offset s ∧ z.offset t - z.offset s ≤ 180 := by
  rcases le_total s t with hle | hle
  · exact offset_near hle h'
  · have hnear := z.offset_near hle h
    omega

/-- The instant is what the wall-clock time is under an offset that was in force shortly before. -/
def ShownNear (z : Zone) (wall t : ℤ) : Prop :=
  ∃ s, s ≤ t ∧ t - s ≤ 181 * Date.msPerMinute ∧ t = wall - z.offset s * Date.msPerMinute

theorem shownNear_clock (t : ℤ) : z.ShownNear (z.clock t) t := by
  refine ⟨t, le_refl t, ?_, ?_⟩
  · simp only [Date.msPerMinute]
    omega
  · rw [clock, Int.add_sub_cancel]

/-- Wall-clock times a day apart are shown in their order. -/
theorem ShownNear.lt {wall wall' t t' : ℤ} (h : z.ShownNear wall t) (h' : z.ShownNear wall' t')
    (hday : wall + Date.msPerDay ≤ wall') : t < t' := by
  obtain ⟨s, hs, hnear, ht⟩ := h
  obtain ⟨s', hs', hnear', ht'⟩ := h'
  have hbounds := z.bounds s
  have hbounds' := z.bounds s'
  simp only [Date.msPerDay, Date.msPerMinute] at *
  by_contra hle
  have hoffset := z.offset_near' (s := s) (t := s') (by simp only [Date.msPerDay]; omega)
    (by simp only [Date.msPerDay]; omega)
  omega

/-! ## Resolving a wall-clock time -/

/-- What a wall-clock time stands for. -/
inductive Resolves (z : Zone) (wall : ℤ) : ResolvedInstant → Prop
  | exact (t : ℤ) (shown : z.clock t = wall) (only : ∀ s, z.clock s = wall → s = t) :
      Resolves z wall ⟨t, .exact⟩
  | ambiguous (t : ℤ) (shown : z.clock t = wall) (earliest : ∀ s, z.clock s = wall → t ≤ s)
      (again : ∃ s, z.clock s = wall ∧ s ≠ t) : Resolves z wall ⟨t, .ambiguous⟩
  | nonexistent (change : ℤ) (skipped : ∀ s, z.clock s ≠ wall) (changes : ChangesAt z.offset change)
      (low : change + z.offset (change - 1) * Date.msPerMinute ≤ wall)
      (high : wall < change + z.offset change * Date.msPerMinute) :
      Resolves z wall ⟨wall - z.offset (change - 1) * Date.msPerMinute, .nonexistent⟩

theorem Resolves.shownNear {wall : ℤ} {resolved : ResolvedInstant} (h : z.Resolves wall resolved) :
    z.ShownNear wall resolved.epochMs := by
  cases h with
  | exact t shown only => exact shown ▸ shownNear_clock t
  | ambiguous t shown earliest again => exact shown ▸ shownNear_clock t
  | nonexistent change skipped changes low high =>
    have hshift := z.shift change
    refine ⟨change - 1, ?_, ?_, rfl⟩
    · show change - 1 ≤ wall - z.offset (change - 1) * Date.msPerMinute
      omega
    · show wall - z.offset (change - 1) * Date.msPerMinute - (change - 1) ≤ _
      simp only [Date.msPerMinute] at *
      omega

/-- In a gap the clocks show the time moved forward by the gap. -/
theorem clock_of_skipped {wall change : ℤ} (changes : ChangesAt z.offset change)
    (low : change + z.offset (change - 1) * Date.msPerMinute ≤ wall)
    (high : wall < change + z.offset change * Date.msPerMinute) {t : ℤ}
    (hle : wall - z.offset (change - 1) * Date.msPerMinute ≤ t)
    (hnear : t - change < 3 * Date.msPerDay - 1) : z.offset t = z.offset change := by
  have hshort : t - (change - 1) ≤ 3 * Date.msPerDay := by omega
  rcases z.apart.range hshort with hconstant | ⟨other, hlow, hhigh, hother, -, hafter⟩
  · exact absurd (hconstant change (by omega) (by omega)).symm changes
  · have hsame : other = change := by
      rcases lt_trichotomy other change with hlt | heq | hgt
      · omega
      · exact heq
      · have hfar := z.apart change other hgt changes hother
        omega
    subst hsame
    exact (hafter other (le_refl _) hhigh).symm

/-- The clocks never show less than the time that was asked for. -/
theorem Resolves.wall_le_clock {wall : ℤ} {resolved : ResolvedInstant}
    (h : z.Resolves wall resolved) : wall ≤ z.clock resolved.epochMs := by
  cases h with
  | exact t shown only => exact shown.symm.le
  | ambiguous t shown earliest again => exact shown.symm.le
  | nonexistent change skipped changes low high =>
    have hshift := z.shift change
    have hoffset : z.offset (wall - z.offset (change - 1) * Date.msPerMinute) = z.offset change := by
      refine clock_of_skipped changes low high (le_refl _) ?_
      simp only [Date.msPerMinute, Date.msPerDay] at *
      omega
    show wall ≤ z.clock (wall - z.offset (change - 1) * Date.msPerMinute)
    rw [clock, hoffset]
    simp only [Date.msPerMinute] at *
    omega

/-- A time is resolved to an instant that has come just when the clocks have shown it, as long as they
show an earlier time now. -/
theorem Resolves.le_iff_shown {wall t : ℤ} {resolved : ResolvedInstant} (h : z.Resolves wall resolved)
    (hclock : z.clock t < wall) :
    resolved.epochMs ≤ t ↔ ∃ s, s ≤ t ∧ z.clock s = wall := by
  constructor
  · intro hle
    cases h with
    | exact first shown only => exact ⟨first, hle, shown⟩
    | ambiguous first shown earliest again => exact ⟨first, hle, shown⟩
    | nonexistent change skipped changes low high =>
      have hle' : wall - z.offset (change - 1) * Date.msPerMinute ≤ t := hle
      have hbounds := z.bounds t
      have hbounds' := z.bounds (change - 1)
      have hshift := z.shift change
      have hoffset : z.offset t = z.offset change := by
        refine clock_of_skipped changes low high hle' ?_
        simp only [clock, Date.msPerMinute, Date.msPerDay] at *
        omega
      simp only [clock, hoffset, Date.msPerMinute] at *
      omega
  · rintro ⟨s, hs, hshown⟩
    cases h with
    | exact first shown only => exact (only s hshown).symm.le.trans hs
    | ambiguous first shown earliest again => exact (earliest s hshown).trans hs
    | nonexistent change skipped changes low high => exact absurd hshown (skipped s)

end Zone

end QuokyPlatform.Reminders
