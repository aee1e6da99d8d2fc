import Mathlib.Data.Int.Notation
import Mathlib.Data.Int.Init
import Mathlib.Tactic.Common

/-! # Functions of the integers that rarely change

A function changes at a place when it has another value there than at the place before. Between two
changes it is constant, so over a range that is too short for two changes it has one value up to a
place and one from there on. -/

namespace QuokyPlatform.StepFunction

set_option autoImplicit false
set_option maxHeartbeats 250000

variable {α : Type*}

def ChangesAt (f : ℤ → α) (place : ℤ) : Prop := f (place - 1) ≠ f place

/-- A function that does not change in a range has one value there. -/
theorem constant_of_unchanged {f : ℤ → α} {low : ℤ} (high : ℤ)
    (h : ∀ place, low < place → place ≤ high → ¬ ChangesAt f place) {place : ℤ} (hlow : low ≤ place)
    (hhigh : place ≤ high) : f place = f low := by
  induction place, hlow using Int.leInduction with
  | base => rfl
  | succ place hle ih =>
    have hstep := h (place + 1) (by omega) hhigh
    rw [ChangesAt, not_not, Int.add_sub_cancel] at hstep
    rw [← hstep]
    exact ih (by omega)

/-- Any two changes are at least `gap` apart. -/
def Apart (f : ℤ → α) (gap : ℤ) : Prop :=
  ∀ first second, first < second → ChangesAt f first → ChangesAt f second → first + gap ≤ second

/-- What a function is like over a range: it has one value, or two, one before a change and the other
from it on. -/
theorem Apart.range {f : ℤ → α} {gap : ℤ} (h : Apart f gap) {low high : ℤ}
    (hshort : high - low ≤ gap) :
    (∀ place, low ≤ place → place ≤ high → f place = f low) ∨
      ∃ change, low < change ∧ change ≤ high ∧ ChangesAt f change ∧
        (∀ place, low ≤ place → place < change → f place = f low) ∧
        ∀ place, change ≤ place → place ≤ high → f place = f high := by
  by_cases hnone : ∀ place, low < place → place ≤ high → ¬ ChangesAt f place
  · exact .inl fun place hlow hhigh => constant_of_unchanged high hnone hlow hhigh
  · right
    push Not at hnone
    obtain ⟨change, hlow, hhigh, hchange⟩ := hnone
    refine ⟨change, hlow, hhigh, hchange, ?_, ?_⟩
    · intro place hplace hbefore
      refine constant_of_unchanged (change - 1) ?_ hplace (by omega)
      intro other hother hotherLt hotherChange
      have hfar := h other change (by omega) hotherChange hchange
      omega
    · have hafter : ∀ place, change ≤ place → place ≤ high → f place = f change := by
        intro place hplace hbefore
        refine constant_of_unchanged high ?_ hplace hbefore
        intro other hother hotherLe hotherChange
        have hfar := h change other hother hchange hotherChange
        omega
      intro place hplace hbefore
      rw [hafter place hplace hbefore, hafter high hhigh (Int.le_refl _)]

end QuokyPlatform.StepFunction
