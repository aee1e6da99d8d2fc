import Mathlib.Data.Nat.Find
import Mathlib.Tactic.Common

/-! # Bisection for the last number that passes a test

A search that halves an interval goes right where its midpoint passes and left where it fails. It is
run here on any test, monotone or not. It comes to the last number that passes exactly when every
midpoint left of that number, on the way to it, passes as well. -/

namespace QuokyPlatform.Bisection

set_option autoImplicit false
set_option maxHeartbeats 250000

variable {passes : ℕ → Bool}

/-- The last midpoint found to pass, or `best` when none is. -/
def search (passes : ℕ → Bool) : ℕ → ℕ → ℕ → ℕ → ℕ
  | 0, _, _, best => best
  | fuel + 1, low, high, best =>
    if low ≤ high then
      let middle := (low + high) / 2
      if passes middle then search passes fuel (middle + 1) high middle
      else search passes fuel low (middle - 1) best
    else best

/-- The midpoints left of a target, on the way to it. -/
def way : ℕ → ℕ → ℕ → ℕ → List ℕ
  | 0, _, _, _ => []
  | fuel + 1, low, high, target =>
    if low ≤ high then
      let middle := (low + high) / 2
      if middle < target then middle :: way fuel (middle + 1) high target
      else if target < middle then way fuel low (middle - 1) target
      else []
    else []

theorem way_mem {fuel low high target n : ℕ} (h : n ∈ way fuel low high target) :
    low ≤ n ∧ n < target := by
  induction fuel generalizing low high with
  | zero => cases h
  | succ fuel ih =>
    unfold way at h
    by_cases hle : low ≤ high
    · rw [if_pos hle] at h
      dsimp only at h
      split_ifs at h with hbefore hafter
      · rcases List.mem_cons.mp h with rfl | hrest
        · omega
        · have hbounds := ih hrest
          omega
      · exact ih h
      · cases h
    · rw [if_neg hle] at h
      cases h

/-- What is found lies in the interval, unless nothing is found. -/
theorem search_mem (fuel low high best : ℕ) :
    search passes fuel low high best = best ∨
      low ≤ search passes fuel low high best ∧ search passes fuel low high best ≤ high := by
  induction fuel generalizing low high best with
  | zero => exact .inl rfl
  | succ fuel ih =>
    unfold search
    split
    · rename_i hle
      dsimp only
      split
      · right
        rcases ih ((low + high) / 2 + 1) high ((low + high) / 2) with heq | ⟨hlow, hhigh⟩
        · rw [heq]
          omega
        · omega
      · rcases ih low ((low + high) / 2 - 1) best with heq | ⟨hlow, hhigh⟩
        · exact .inl heq
        · right
          omega
    · exact .inl rfl

/-- Nothing is found where nothing passes. -/
theorem search_none {fuel low high best : ℕ} (hpositive : 0 < low)
    (hnone : ∀ n, low ≤ n → n ≤ high → passes n = false) :
    search passes fuel low high best = best := by
  induction fuel generalizing low high best with
  | zero => rfl
  | succ fuel ih =>
    unfold search
    split
    · rename_i hle
      have hfails := hnone ((low + high) / 2) (by omega) (by omega)
      dsimp only
      rw [hfails]
      exact ih hpositive fun n hlow hhigh => hnone n hlow (by omega)
    · rfl

/-- The search comes to the last number that passes exactly when every midpoint left of it, on the
way to it, passes. -/
theorem search_eq_iff {fuel low high best last : ℕ} (hpositive : 0 < low) (hfuel : high < low + fuel)
    (hlow : low ≤ last) (hhigh : last ≤ high) (hbest : best < low) (hpasses : passes last = true)
    (hlast : ∀ n, last < n → n ≤ high → passes n = false) :
    search passes fuel low high best = last ↔ ∀ n ∈ way fuel low high last, passes n = true := by
  induction fuel generalizing low high best with
  | zero => omega
  | succ fuel ih =>
    have hle : low ≤ high := Nat.le_trans hlow hhigh
    unfold search way
    rw [if_pos hle, if_pos hle]
    dsimp only
    by_cases hbefore : (low + high) / 2 < last
    · rw [if_pos hbefore]
      cases hmiddle : passes ((low + high) / 2) with
      | true =>
        rw [if_pos rfl, ih (by omega) (by omega) (by omega) hhigh (by omega) hlast]
        simp only [List.mem_cons, forall_eq_or_imp, hmiddle, true_and]
      | false =>
        -- The search turns left of the target and cannot come back.
        have hleft : search passes fuel low ((low + high) / 2 - 1) best ≠ last := by
          have hmem : search passes fuel low ((low + high) / 2 - 1) best = best ∨
              low ≤ search passes fuel low ((low + high) / 2 - 1) best ∧
                search passes fuel low ((low + high) / 2 - 1) best ≤ (low + high) / 2 - 1 :=
            search_mem fuel low ((low + high) / 2 - 1) best
          rcases hmem with heq | ⟨hge, hle⟩
          · omega
          · omega
        simp only [Bool.false_eq_true, if_false, List.mem_cons, forall_eq_or_imp, hmiddle,
          false_and, iff_false]
        exact hleft
    · rw [if_neg hbefore]
      by_cases hafter : last < (low + high) / 2
      · have hfails := hlast ((low + high) / 2) hafter (by omega)
        rw [hfails, if_pos hafter]
        exact ih hpositive (by omega) hlow (by omega) hbest fun n hn hle => hlast n hn (by omega)
      · have heq : (low + high) / 2 = last := by omega
        rw [heq, hpasses, if_neg (lt_irrefl last)]
        simp only [if_true, List.not_mem_nil, false_implies, implies_true, iff_true]
        exact search_none (by omega) fun n hge hle => hlast n (by omega) hle

end QuokyPlatform.Bisection
