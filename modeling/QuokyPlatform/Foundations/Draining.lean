import Mathlib.Algebra.Order.BigOperators.Group.List
import Mathlib.Algebra.Order.Group.Defs
import Mathlib.Tactic.Abel
import Mathlib.Tactic.Common

/-! # Taking an excess from the last amounts first

Each amount has a floor. Going backwards over the list, every amount gives what is still to be taken,
but never goes below its floor. What is left over in the end, and which amounts were touched, follows
from this alone. -/

namespace QuokyPlatform.Draining

set_option autoImplicit false
set_option maxHeartbeats 250000

variable {α : Type*} [AddCommGroup α] [LinearOrder α]

/-- What an amount gives: what is asked for, as far as it stands above its floor. -/
def given (asked current floor : α) : α := max 0 (min asked (current - floor))

/-- The amounts after `excess` has been taken from the last of them backwards, and what nobody gave. -/
def drain (excess : α) : List (α × α) → List α × α
  | [] => ([], excess)
  | (current, floor) :: rest =>
    let (kept, left) := drain excess rest
    ((current - given left current floor) :: kept, left - given left current floor)

@[simp] theorem drain_nil (excess : α) : drain excess [] = ([], excess) := rfl

theorem drain_cons (excess current floor : α) (rest : List (α × α)) :
    drain excess ((current, floor) :: rest) =
      ((current - given (drain excess rest).2 current floor) :: (drain excess rest).1,
        (drain excess rest).2 - given (drain excess rest).2 current floor) := rfl

/-- Nothing is made and nothing lost: what the amounts gave is what is no longer asked for. -/
theorem drain_conserves (excess : α) (amounts : List (α × α)) :
    (drain excess amounts).1.sum + excess =
      (amounts.map Prod.fst).sum + (drain excess amounts).2 := by
  induction amounts with
  | nil => simp
  | cons amount rest ih =>
    obtain ⟨current, floor⟩ := amount
    rw [drain_cons, List.sum_cons, List.map_cons, List.sum_cons]
    have hkept : ∀ g s : α, current - g + s + excess = current - g + (s + excess) :=
      fun g s => add_assoc _ _ _
    have hleft : ∀ g s left : α, current - g + (s + left) = current + s + (left - g) := by
      intro g s left
      abel
    rw [hkept, ih, hleft]

@[simp] theorem drain_length (excess : α) (amounts : List (α × α)) :
    (drain excess amounts).1.length = amounts.length := by
  induction amounts with
  | nil => rfl
  | cons amount rest ih => rw [drain_cons, List.length_cons, List.length_cons, ih]

/-- Nothing is taken when there is no excess. -/
theorem drain_of_nonpos {excess : α} (h : excess ≤ 0) (amounts : List (α × α)) :
    drain excess amounts = (amounts.map Prod.fst, excess) := by
  induction amounts with
  | nil => rfl
  | cons amount rest ih =>
    obtain ⟨current, floor⟩ := amount
    have hgiven : given excess current floor = 0 := max_eq_left (le_trans (min_le_left _ _) h)
    rw [drain_cons, ih, hgiven, sub_zero, sub_zero]
    rfl

theorem given_le_asked {asked current floor : α} (h : 0 ≤ asked) : given asked current floor ≤ asked :=
  max_le h (min_le_left _ _)

variable [IsOrderedAddMonoid α]

theorem given_le_spare {asked current floor : α} (h : floor ≤ current) :
    given asked current floor ≤ current - floor :=
  max_le (sub_nonneg.mpr h) (min_le_right _ _)

/-- Who does not give all that is asked gives everything above the floor. -/
theorem given_eq_spare {asked current floor : α} (h : floor ≤ current)
    (hleft : 0 < asked - given asked current floor) : given asked current floor = current - floor := by
  have hlt : given asked current floor < asked := sub_pos.mp hleft
  unfold given at *
  rcases le_total asked (current - floor) with hle | hle
  · rw [min_eq_left hle] at hlt
    exact absurd (le_max_right 0 asked) (not_le.mpr hlt)
  · rw [min_eq_right hle, max_eq_right (sub_nonneg.mpr h)]

theorem drain_left_nonneg {excess : α} (h : 0 ≤ excess) (amounts : List (α × α)) :
    0 ≤ (drain excess amounts).2 := by
  induction amounts with
  | nil => exact h
  | cons amount rest ih =>
    rw [drain_cons]
    exact sub_nonneg.mpr (given_le_asked ih)

/-- When something is still asked for, every amount is at its floor. -/
theorem drain_floors {excess : α} {amounts : List (α × α)} (hfloors : ∀ a ∈ amounts, a.2 ≤ a.1)
    (hpos : 0 < (drain excess amounts).2) : (drain excess amounts).1 = amounts.map Prod.snd := by
  induction amounts with
  | nil => rfl
  | cons amount rest ih =>
    obtain ⟨current, floor⟩ := amount
    have hfloor : floor ≤ current := hfloors _ List.mem_cons_self
    rw [drain_cons] at hpos ⊢
    have hgiven := given_eq_spare hfloor hpos
    have hrest : 0 < (drain excess rest).2 := by
      have hspare : 0 ≤ given (drain excess rest).2 current floor := le_max_left _ _
      exact lt_of_lt_of_le hpos (sub_le_self _ hspare)
    rw [hgiven, sub_sub_cancel, ih (fun a ha => hfloors a (List.mem_cons_of_mem _ ha)) hrest]
    rfl

/-- No amount goes below its floor. -/
theorem floors_le_drain (excess : α) {amounts : List (α × α)} (hfloors : ∀ a ∈ amounts, a.2 ≤ a.1) :
    (amounts.map Prod.snd).sum ≤ (drain excess amounts).1.sum := by
  induction amounts with
  | nil => exact le_refl _
  | cons amount rest ih =>
    obtain ⟨current, floor⟩ := amount
    have hfloor : floor ≤ current := hfloors _ List.mem_cons_self
    rw [drain_cons, List.map_cons, List.sum_cons, List.sum_cons]
    have hkept : floor ≤ current - given (drain excess rest).2 current floor :=
      le_sub_comm.mp (given_le_spare hfloor)
    exact add_le_add hkept (ih fun a ha => hfloors a (List.mem_cons_of_mem _ ha))

/-- The total comes down by the excess, or to the floors where these do not allow it. -/
theorem drain_total {excess : α} {amounts : List (α × α)} (hexcess : 0 ≤ excess)
    (hfloors : ∀ a ∈ amounts, a.2 ≤ a.1) :
    (drain excess amounts).1.sum =
      max ((amounts.map Prod.fst).sum - excess) (amounts.map Prod.snd).sum := by
  have hconserves := drain_conserves excess amounts
  have htotal : (drain excess amounts).1.sum =
      (amounts.map Prod.fst).sum - excess + (drain excess amounts).2 := by
    rw [eq_sub_of_add_eq hconserves]
    abel
  have hfloor := floors_le_drain excess hfloors
  rcases eq_or_lt_of_le (drain_left_nonneg hexcess amounts) with hzero | hpos
  · rw [← hzero, add_zero] at htotal
    rw [htotal] at hfloor ⊢
    exact (max_eq_left hfloor).symm
  · have hat := drain_floors hfloors hpos
    rw [hat] at htotal ⊢
    refine (max_eq_right ?_).symm
    rw [htotal]
    exact le_add_of_nonneg_right hpos.le

/-- Only when every later amount is at its floor does an amount give anything. -/
theorem drain_later {excess : α} {amounts : List (α × α)} (hfloors : ∀ a ∈ amounts, a.2 ≤ a.1)
    {i : ℕ} (hchanged : (drain excess amounts).1[i]? ≠ (amounts.map Prod.fst)[i]?) {j : ℕ}
    (hij : i < j) : (drain excess amounts).1[j]? = (amounts.map Prod.snd)[j]? := by
  induction amounts generalizing i j with
  | nil => rfl
  | cons amount rest ih =>
    obtain ⟨current, floor⟩ := amount
    have hrest : ∀ a ∈ rest, a.2 ≤ a.1 := fun a ha => hfloors a (List.mem_cons_of_mem _ ha)
    rw [drain_cons] at hchanged ⊢
    obtain ⟨j, rfl⟩ : ∃ k, j = k + 1 := ⟨j - 1, by omega⟩
    rw [List.map_cons, List.getElem?_cons_succ, List.getElem?_cons_succ]
    cases i with
    | zero =>
      simp only [List.map_cons, List.getElem?_cons_zero, ne_eq, Option.some.injEq] at hchanged
      have hpos : 0 < (drain excess rest).2 := by
        by_contra hnone
        have hgiven : given (drain excess rest).2 current floor = 0 :=
          max_eq_left (le_trans (min_le_left _ _) (not_lt.mp hnone))
        exact hchanged (by rw [hgiven, sub_zero])
      rw [drain_floors hrest hpos]
    | succ i =>
      rw [List.map_cons, List.getElem?_cons_succ, List.getElem?_cons_succ] at hchanged
      exact ih hrest hchanged (by omega)

end QuokyPlatform.Draining
