import Mathlib.Algebra.Order.Ring.Nat
import Mathlib.Data.Nat.Bitwise
import Mathlib.Tactic.Ring

/-! # Numbers by groups of bits

A number written as groups of `w` bits, most significant first. Two numbers agree on their first
bits when they agree after division; group by group, this is a comparison of whole groups and then
of one masked group. -/

namespace QuokyPlatform.Prefixes

set_option autoImplicit false
set_option maxHeartbeats 250000

/-- The number a list of groups of `w` bits stands for. -/
def valueOf (w : ℕ) : List ℕ → ℕ
  | [] => 0
  | group :: rest => group * 2 ^ (w * rest.length) + valueOf w rest

variable {w : ℕ}

theorem valueOf_lt {groups : List ℕ} (h : ∀ group ∈ groups, group < 2 ^ w) :
    valueOf w groups < 2 ^ (w * groups.length) := by
  induction groups with
  | nil => exact Nat.one_pos
  | cons group rest ih =>
    have hrest := ih fun other hother => h other (List.mem_cons_of_mem _ hother)
    have hgroup : group + 1 ≤ 2 ^ w := h group List.mem_cons_self
    rw [valueOf, List.length_cons, Nat.mul_succ, Nat.pow_add]
    calc group * 2 ^ (w * rest.length) + valueOf w rest
        < group * 2 ^ (w * rest.length) + 2 ^ (w * rest.length) := Nat.add_lt_add_left hrest _
      _ = (group + 1) * 2 ^ (w * rest.length) := (Nat.succ_mul _ _).symm
      _ ≤ 2 ^ w * 2 ^ (w * rest.length) := Nat.mul_le_mul_right _ hgroup
      _ = 2 ^ (w * rest.length) * 2 ^ w := Nat.mul_comm _ _

theorem valueOf_replicate_zero (w n : ℕ) : valueOf w (List.replicate n 0) = 0 := by
  induction n with
  | zero => rfl
  | succ n ih => rw [List.replicate_succ, valueOf, ih, Nat.zero_mul]

/-! ## Division -/

/-- Dividing into the first group leaves nothing of the groups after it. -/
theorem div_first {group rest n : ℕ} (hrest : rest < 2 ^ n) (k : ℕ) :
    (group * 2 ^ n + rest) / 2 ^ (n + k) = group / 2 ^ k := by
  rw [Nat.pow_add, ← Nat.div_div_eq_div_mul, Nat.add_comm, Nat.add_mul_div_right _ _
    (Nat.two_pow_pos n), Nat.div_eq_of_lt hrest, Nat.zero_add]

/-- Dividing less, the first groups have to agree, and what is left of the others. -/
theorem div_rest {group group' rest rest' n m : ℕ} (hrest : rest < 2 ^ n) (hrest' : rest' < 2 ^ n)
    (hm : m ≤ n) :
    (group * 2 ^ n + rest) / 2 ^ m = (group' * 2 ^ n + rest') / 2 ^ m ↔
      group = group' ∧ rest / 2 ^ m = rest' / 2 ^ m := by
  obtain ⟨k, rfl⟩ := Nat.exists_eq_add_of_le hm
  have hsplit : ∀ g r : ℕ, (g * 2 ^ (m + k) + r) / 2 ^ m = g * 2 ^ k + r / 2 ^ m := by
    intro g r
    have hmul : g * 2 ^ (m + k) + r = r + g * 2 ^ k * 2 ^ m := by
      rw [Nat.pow_add]
      ring
    rw [hmul, Nat.add_mul_div_right _ _ (Nat.two_pow_pos m), Nat.add_comm]
  have hsmall : ∀ r : ℕ, r < 2 ^ (m + k) → r / 2 ^ m < 2 ^ k := by
    intro r hr
    rw [Nat.div_lt_iff_lt_mul (Nat.two_pow_pos m), Nat.mul_comm, ← Nat.pow_add]
    exact hr
  rw [hsplit, hsplit]
  constructor
  · intro h
    have hgroups := congrArg (· / 2 ^ k) h
    simp only [Nat.mul_comm _ (2 ^ k), Nat.mul_add_div (Nat.two_pow_pos k),
      Nat.div_eq_of_lt (hsmall rest hrest), Nat.div_eq_of_lt (hsmall rest' hrest'),
      Nat.add_zero] at hgroups
    rw [hgroups] at h
    exact ⟨hgroups, Nat.add_left_cancel h⟩
  · rintro ⟨rfl, h⟩
    rw [h]

/-! ## Masks -/

/-- The mask that leaves out the last `k` of `w` bits. -/
theorem land_mask {x k : ℕ} (hx : x < 2 ^ w) :
    x &&& (((2 ^ w - 1) <<< k) &&& (2 ^ w - 1)) = (x >>> k) <<< k := by
  refine Nat.eq_of_testBit_eq fun i => ?_
  rw [Nat.testBit_and, Nat.testBit_and, Nat.testBit_shiftLeft, Nat.testBit_shiftLeft,
    Nat.testBit_shiftRight, Nat.testBit_two_pow_sub_one, Nat.testBit_two_pow_sub_one]
  by_cases hi : i < w
  · by_cases hk : k ≤ i
    · have hsub : i - k < w := by omega
      have hadd : k + (i - k) = i := by omega
      simp only [hi, hk, hsub, hadd, decide_true, Bool.and_true, Bool.true_and]
    · simp only [hk, decide_false, Bool.false_and, Bool.and_false]
  · have hzero : x.testBit i = false :=
      Nat.testBit_lt_two_pow (Nat.lt_of_lt_of_le hx (Nat.pow_le_pow_right (by decide) (by omega)))
    by_cases hk : k ≤ i
    · have hadd : k + (i - k) = i := by omega
      rw [hadd, hzero, Bool.false_and, Bool.and_false]
    · simp only [hzero, hk, decide_false, Bool.false_and]

theorem land_mask_eq_iff {x y k : ℕ} (hx : x < 2 ^ w) (hy : y < 2 ^ w) :
    x &&& (((2 ^ w - 1) <<< k) &&& (2 ^ w - 1)) = y &&& (((2 ^ w - 1) <<< k) &&& (2 ^ w - 1)) ↔
      x / 2 ^ k = y / 2 ^ k := by
  rw [land_mask hx, land_mask hy, Nat.shiftLeft_eq, Nat.shiftLeft_eq, Nat.shiftRight_eq_div_pow,
    Nat.shiftRight_eq_div_pow]
  constructor
  · exact fun h => Nat.eq_of_mul_eq_mul_right (Nat.two_pow_pos k) h
  · exact fun h => congrArg (· * 2 ^ k) h

end QuokyPlatform.Prefixes
