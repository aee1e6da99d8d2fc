import Mathlib.Data.List.Basic
import Mathlib.Order.Nat
import Mathlib.Tactic.Common

/-!
# Positions that are kept

A list is filtered and the kept elements are counted again from zero. Their new numbers are their
old positions exactly when nothing before a kept element was dropped, and the number of the last one
already decides it.
-/

namespace QuokyPlatform
set_option autoImplicit false
set_option maxHeartbeats 250000

section
variable {α : Type} (keep : α → ℕ → Bool) {xs : List α}

/-- The elements that are kept, each with its position. -/
def kept (xs : List α) : List (α × ℕ) := xs.zipIdx.filter fun entry => keep entry.1 entry.2

variable {keep}

theorem mem_kept {x : α} {i : ℕ} : (x, i) ∈ kept keep xs ↔ xs[i]? = some x ∧ keep x i = true := by
  rw [kept, List.mem_filter, List.mem_zipIdx_iff_getElem?]

/-- The positions increase. -/
theorem kept_increasing : (kept keep xs).Pairwise fun first second => first.2 < second.2 := by
  apply List.Pairwise.filter
  have hpositions : (xs.zipIdx.map Prod.snd).Pairwise (· < ·) := by
    rw [List.zipIdx_map_snd]
    exact List.pairwise_lt_range'
  exact List.pairwise_map.mp hpositions

/-- Positions lie at least as far apart as the numbers they are given. -/
theorem kept_apart {k n : ℕ} {first second : α × ℕ} (hfirst : (kept keep xs)[k]? = some first)
    (hsecond : (kept keep xs)[k + n]? = some second) : first.2 + n ≤ second.2 := by
  induction n generalizing second with
  | zero =>
    rw [Nat.add_zero, hfirst] at hsecond
    rw [Option.some.inj hsecond, Nat.add_zero]
  | succ n ih =>
    obtain ⟨hlt, hget⟩ := List.getElem?_eq_some_iff.mp hsecond
    have hbefore : k + n < (kept keep xs).length := by omega
    have hle := ih (List.getElem?_eq_getElem hbefore)
    have hstep := List.pairwise_iff_getElem.mp kept_increasing (k + n) (k + (n + 1)) hbefore hlt
      (by omega)
    rw [← hget]
    omega

theorem kept_position_ge {k : ℕ} {entry : α × ℕ} (h : (kept keep xs)[k]? = some entry) :
    k ≤ entry.2 := by
  obtain ⟨hlt, -⟩ := List.getElem?_eq_some_iff.mp h
  have hzero := List.getElem?_eq_getElem (show 0 < (kept keep xs).length by omega)
  have hapart := kept_apart hzero (n := k) (by rw [Nat.zero_add]; exact h)
  omega

/-- When the last number is a position, every number is. -/
theorem kept_numbers_of_last {last : α × ℕ}
    (h : (kept keep xs)[(kept keep xs).length - 1]? = some last)
    (hlast : last.2 = (kept keep xs).length - 1) {k : ℕ} {entry : α × ℕ}
    (hentry : (kept keep xs)[k]? = some entry) : entry.2 = k := by
  obtain ⟨hlt, -⟩ := List.getElem?_eq_some_iff.mp hentry
  have hge := kept_position_ge hentry
  have hsum : k + ((kept keep xs).length - 1 - k) = (kept keep xs).length - 1 := by omega
  have hapart := kept_apart hentry (n := (kept keep xs).length - 1 - k) (by rw [hsum]; exact h)
  omega

/-- A filter that keeps nothing behind what it drops keeps a beginning of the list. -/
theorem filter_prefix_of_closed {q : α → Bool}
    (h : xs.Pairwise fun first second => q second = true → q first = true) : xs.filter q <+: xs := by
  induction xs with
  | nil => exact List.prefix_rfl
  | cons x rest ih =>
    rw [List.pairwise_cons] at h
    obtain ⟨hfirst, hrest⟩ := h
    by_cases hx : q x = true
    · rw [List.filter_cons_of_pos hx]
      exact List.cons_prefix_cons.mpr ⟨rfl, ih hrest⟩
    · have hnone : rest.filter q = [] :=
        List.filter_eq_nil_iff.mpr fun other hother hq => hx (hfirst other hother hq)
      rw [List.filter_cons_of_neg hx, hnone]
      exact List.nil_prefix

/-- The numbers are the positions exactly when nothing is dropped before a kept element. -/
theorem kept_numbers_iff :
    (∀ (k : ℕ) (entry : α × ℕ), (kept keep xs)[k]? = some entry → entry.2 = k) ↔
      ∀ (i j : ℕ) (x y : α), i ≤ j → xs[i]? = some x → xs[j]? = some y → keep y j = true →
        keep x i = true := by
  constructor
  · intro hnumbers i j x y hij hx hy hkeep
    obtain ⟨k, hk⟩ := List.mem_iff_getElem?.mp (mem_kept.mpr ⟨hy, hkeep⟩)
    have hj : j = k := hnumbers k (y, j) hk
    obtain ⟨hlt, -⟩ := List.getElem?_eq_some_iff.mp hk
    have hi : i < (kept keep xs).length := by omega
    have hposition := hnumbers i _ (List.getElem?_eq_getElem hi)
    have hmem := List.getElem_mem hi
    rw [show (kept keep xs)[i] = ((kept keep xs)[i].1, i) from Prod.ext rfl hposition, mem_kept,
      hx] at hmem
    rw [Option.some.inj hmem.1]
    exact hmem.2
  · intro hclosed k entry hentry
    have hpairs : xs.zipIdx.Pairwise fun first second =>
        keep second.1 second.2 = true → keep first.1 first.2 = true := by
      rw [List.pairwise_iff_getElem]
      intro i j hi hj hij hkeep
      rw [List.getElem_zipIdx] at hkeep ⊢
      rw [List.length_zipIdx] at hi hj
      rw [Nat.zero_add] at hkeep ⊢
      exact hclosed i j _ _ hij.le (List.getElem?_eq_getElem hi) (List.getElem?_eq_getElem hj) hkeep
    obtain ⟨hlt, hget⟩ := List.getElem?_eq_some_iff.mp hentry
    have hprefix : kept keep xs <+: xs.zipIdx := filter_prefix_of_closed hpairs
    have hsame := hprefix.getElem hlt
    rw [hget, List.getElem_zipIdx, Nat.zero_add] at hsame
    rw [hsame]

end

end QuokyPlatform
