import Mathlib.Data.List.Forall2
import Mathlib.Data.List.Sort
import Mathlib.Tactic.Common

/-! # Comparison functions

A comparison function answers with a number: negative when its first argument comes first, zero when
neither does. A consistent one orders its arguments; consistent ones are chained, the next deciding
where the one before does not. What a stable sort by a consistent comparison gives depends only on
which elements it is given, as long as no two of them compare equal. -/

namespace QuokyPlatform

set_option autoImplicit false
set_option maxHeartbeats 250000

abbrev Comparison (α : Type*) := α → α → ℤ

namespace Comparison

variable {α β : Type*}

structure Consistent (cmp : Comparison α) : Prop where
  swap : ∀ a b, cmp a b < 0 ↔ 0 < cmp b a
  trans : ∀ a b c, cmp a b ≤ 0 → cmp b c ≤ 0 → cmp a c ≤ 0

namespace Consistent

variable {cmp : Comparison α}

theorem total (h : cmp.Consistent) (a b : α) : cmp a b ≤ 0 ∨ cmp b a ≤ 0 := by
  have hswap := h.swap b a
  omega

theorem eq_zero (h : cmp.Consistent) {a b : α} (hab : cmp a b ≤ 0) (hba : cmp b a ≤ 0) :
    cmp a b = 0 := by
  have hswap := h.swap a b
  omega

theorem refl (h : cmp.Consistent) (a : α) : cmp a a = 0 := by
  have hswap := h.swap a a
  omega

end Consistent

/-- The comparison of two keys, smaller first. -/
def byKey (key : α → ℤ) : Comparison α := fun a b => key a - key b

/-- The other way round. -/
def reverse (cmp : Comparison α) : Comparison α := fun a b => cmp b a

/-- `first(a, b) || next(a, b)` -/
def orElse (first next : Comparison α) : Comparison α :=
  fun a b => if first a b ≠ 0 then first a b else next a b

def on (cmp : Comparison β) (f : α → β) : Comparison α := fun a b => cmp (f a) (f b)

theorem consistent_byKey (key : α → ℤ) : (byKey key).Consistent := by
  constructor
  · intro a b
    simp only [byKey]
    omega
  · intro a b c hab hbc
    simp only [byKey] at *
    omega

theorem Consistent.reverse {cmp : Comparison α} (h : cmp.Consistent) : cmp.reverse.Consistent :=
  ⟨fun a b => h.swap b a, fun a b c hab hbc => h.trans c b a hbc hab⟩

theorem Consistent.on {cmp : Comparison β} (h : cmp.Consistent) (f : α → β) :
    (cmp.on f).Consistent :=
  ⟨fun a b => h.swap (f a) (f b), fun a b c hab hbc => h.trans (f a) (f b) (f c) hab hbc⟩

theorem Consistent.orElse {first next : Comparison α} (h : first.Consistent)
    (h' : next.Consistent) : (first.orElse next).Consistent := by
  constructor
  · intro a b
    have hswap := h.swap a b
    have hswap' := h.swap b a
    have hnext := h'.swap a b
    simp only [Comparison.orElse]
    split <;> split <;> omega
  · intro a b c hab hbc
    have hab' := h.swap a b
    have hba' := h.swap b a
    have hbc' := h.swap b c
    have hcb' := h.swap c b
    have hac' := h.swap a c
    have hca' := h.swap c a
    have habc := h.trans a b c
    have hcab := h.trans c a b
    have hbca := h.trans b c a
    have hnext := h'.trans a b c
    simp only [Comparison.orElse] at *
    -- where `first` leaves the pair to `next` both ways, the third pair is left to it too
    split at hab <;> split at hbc <;> split <;> omega

theorem orElse_eq_zero {first next : Comparison α} {a b : α} :
    first.orElse next a b = 0 ↔ first a b = 0 ∧ next a b = 0 := by
  simp only [Comparison.orElse]
  by_cases h : first a b = 0 <;> simp [h]

theorem orElse_congr {first next : Comparison α} {first' next' : Comparison β} {a b : α} {a' b' : β}
    (hfirst : first a b = first' a' b') (hnext : next a b = next' a' b') :
    first.orElse next a b = first'.orElse next' a' b' := by
  rw [Comparison.orElse, Comparison.orElse, hfirst, hnext]

/-! ## Lists of keys -/

/-- Position by position; of two lists of which one goes on, the shorter comes first. -/
def lists : Comparison (List ℕ)
  | [], [] => 0
  | [], _ :: _ => -1
  | _ :: _, [] => 1
  | a :: as, b :: bs => if a ≠ b then (a : ℤ) - b else lists as bs

theorem lists_swap (as bs : List ℕ) : lists as bs < 0 ↔ 0 < lists bs as := by
  induction as generalizing bs with
  | nil => cases bs <;> simp [lists]
  | cons a as ih =>
    cases bs with
    | nil => simp [lists]
    | cons b bs =>
      have hrest := ih bs
      simp only [lists]
      split <;> split <;> omega

theorem lists_trans (as bs cs : List ℕ) (hab : lists as bs ≤ 0) (hbc : lists bs cs ≤ 0) :
    lists as cs ≤ 0 := by
  induction as generalizing bs cs with
  | nil => cases cs <;> simp [lists]
  | cons a as ih =>
    cases bs with
    | nil => simp [lists] at hab
    | cons b bs =>
      cases cs with
      | nil => simp [lists] at hbc
      | cons c cs =>
        simp only [lists] at *
        split at hab <;> split at hbc <;> split
        all_goals first | omega | exact ih bs cs hab hbc

theorem consistent_lists : lists.Consistent := ⟨lists_swap, lists_trans⟩

theorem lists_eq_zero {as bs : List ℕ} (h : lists as bs = 0) : as = bs := by
  induction as generalizing bs with
  | nil => cases bs <;> simp_all [lists]
  | cons a as ih =>
    cases bs with
    | nil => simp [lists] at h
    | cons b bs =>
      simp only [lists] at h
      split at h
      · omega
      · rename_i hne
        rw [not_not] at hne
        rw [hne, ih h]

/-! ## Sorting -/

/-- A stable sort. -/
def sort (cmp : Comparison α) (l : List α) : List α := l.insertionSort fun a b => cmp a b ≤ 0

theorem sort_perm (cmp : Comparison α) (l : List α) : (sort cmp l).Perm l :=
  List.perm_insertionSort _ l

@[simp] theorem mem_sort {cmp : Comparison α} {l : List α} {a : α} : a ∈ sort cmp l ↔ a ∈ l :=
  (sort_perm cmp l).mem_iff

theorem Consistent.sort_pairwise {cmp : Comparison α} (h : cmp.Consistent) (l : List α) :
    (sort cmp l).Pairwise fun a b => cmp a b ≤ 0 := by
  have : Std.Total fun a b => cmp a b ≤ 0 := ⟨h.total⟩
  have : IsTrans α fun a b => cmp a b ≤ 0 := ⟨h.trans⟩
  exact List.pairwise_insertionSort _ l

/-- Nothing comes before the first element of a sorted list. -/
theorem Consistent.head_le {cmp : Comparison α} (h : cmp.Consistent) {l rest : List α} {a b : α}
    (hsort : sort cmp l = a :: rest) (hb : b ∈ l) : cmp a b ≤ 0 := by
  have hpairwise := h.sort_pairwise l
  rw [← @mem_sort _ cmp, hsort] at hb
  rw [hsort] at hpairwise
  rcases List.mem_cons.mp hb with rfl | hrest
  · exact (h.refl b).le
  · exact List.rel_of_pairwise_cons hpairwise hrest

/-- The order in which the elements are given does not matter. -/
theorem Consistent.sort_eq {cmp : Comparison α} (h : cmp.Consistent) {l l' : List α}
    (hperm : l.Perm l') (hdistinct : ∀ a ∈ l, ∀ b ∈ l, cmp a b = 0 → a = b) :
    sort cmp l = sort cmp l' := by
  have hall : (sort cmp l).Perm (sort cmp l') :=
    (sort_perm cmp l).trans (hperm.trans (sort_perm cmp l').symm)
  refine hall.eq_of_pairwise (fun a b ha hb hab hba => ?_) (h.sort_pairwise l) (h.sort_pairwise l')
  rw [mem_sort] at ha hb
  exact hdistinct a ha b (hperm.mem_iff.mpr hb) (h.eq_zero hab hba)

/-- Related lists stay related when the comparison does not tell related elements apart. -/
theorem sort_forall₂ {cmp : Comparison α} {cmp' : Comparison β} {R : α → β → Prop}
    (hcmp : ∀ a a' b b', R a a' → R b b' → cmp a b = cmp' a' b') {l : List α} {l' : List β}
    (h : List.Forall₂ R l l') : List.Forall₂ R (sort cmp l) (sort cmp' l') := by
  have hinsert : ∀ {a a'} {l : List α} {l' : List β}, R a a' → List.Forall₂ R l l' →
      List.Forall₂ R (l.orderedInsert (fun x y => cmp x y ≤ 0) a)
        (l'.orderedInsert (fun x y => cmp' x y ≤ 0) a') := by
    intro a a' l l' ha hl
    induction hl with
    | nil => exact .cons ha .nil
    | cons hb hrest ih =>
      simp only [List.orderedInsert, hcmp _ _ _ _ ha hb]
      split
      · exact .cons ha (.cons hb hrest)
      · exact .cons hb ih
  induction h with
  | nil => exact .nil
  | cons ha _ ih => exact hinsert ha ih

end Comparison

end QuokyPlatform
