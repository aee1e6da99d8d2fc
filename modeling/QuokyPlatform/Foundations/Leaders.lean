import Mathlib.Data.Finset.Card
import Mathlib.Data.List.Sublists

/-! # The first of each key

A list read from its front, keeping an entry when its key is new and fewer than `limit` keys came
before it: newest first, this is "the newest of each of the `limit` latest". Entries that are not
kept can be taken out before the list is read again, whatever is put in front of it. -/

namespace QuokyPlatform

set_option autoImplicit false
set_option maxHeartbeats 250000

section Leaders

variable {α κ : Type} [DecidableEq κ] (key : α → κ) (limit : ℕ)

/-- The kept entries of a list, after the keys `seen`. -/
def leaders (seen : Finset κ) : List α → List α
  | [] => []
  | x :: rest =>
    if key x ∈ seen then leaders seen rest
    else if seen.card < limit then x :: leaders (insert (key x) seen) rest
    else leaders (insert (key x) seen) rest

variable {key limit} {seen seen' : Finset κ}

theorem leaders_full {l : List α} (h : limit ≤ seen.card) : leaders key limit seen l = [] := by
  induction l generalizing seen with
  | nil => rfl
  | cons x rest ih =>
    rw [leaders]
    split
    · exact ih h
    · rw [if_neg (Nat.not_lt.mpr h)]
      exact ih (h.trans (Finset.card_le_card (Finset.subset_insert _ _)))

theorem mem_of_mem_leaders {x : α} {l : List α} (h : x ∈ leaders key limit seen l) : x ∈ l := by
  induction l generalizing seen with
  | nil => exact h
  | cons y rest ih =>
    rw [leaders] at h
    split at h
    · exact List.mem_cons_of_mem _ (ih h)
    · split at h
      · rcases List.mem_cons.mp h with rfl | h
        · exact List.mem_cons_self
        · exact List.mem_cons_of_mem _ (ih h)
      · exact List.mem_cons_of_mem _ (ih h)

/-- With fewer keys seen, at least as much is kept. -/
theorem mem_leaders_mono (hseen : seen ⊆ seen') {x : α} {l : List α}
    (h : x ∈ leaders key limit seen' l) : x ∈ leaders key limit seen l := by
  induction l generalizing seen seen' with
  | nil => exact h
  | cons y rest ih =>
    rw [leaders] at h ⊢
    by_cases hy' : key y ∈ seen'
    · rw [if_pos hy'] at h
      by_cases hy : key y ∈ seen
      · rw [if_pos hy]
        exact ih hseen h
      · have hrest := ih (Finset.insert_subset hy' hseen) h
        rw [if_neg hy]
        split
        · exact List.mem_cons_of_mem _ hrest
        · exact hrest
    · rw [if_neg hy'] at h
      rw [if_neg fun hy => hy' (hseen hy)]
      by_cases hroom : seen'.card < limit
      · rw [if_pos hroom] at h
        rw [if_pos (Nat.lt_of_le_of_lt (Finset.card_le_card hseen) hroom)]
        rcases List.mem_cons.mp h with rfl | h
        · exact List.mem_cons_self
        · exact List.mem_cons_of_mem _ (ih (Finset.insert_subset_insert _ hseen) h)
      · rw [if_neg hroom, leaders_full] at h
        · cases h
        · exact (Nat.le_of_not_lt hroom).trans
            (Finset.card_le_card (Finset.subset_insert _ _))

/-- A list without some of the entries that were not kept keeps the same ones, also when more keys
were seen before it. -/
theorem leaders_filter (keep : α → Bool) (hseen : seen ⊆ seen') {l : List α}
    (hkeep : ∀ x ∈ leaders key limit seen l, keep x) :
    leaders key limit seen' (l.filter keep) = leaders key limit seen' l := by
  have hkeep' : ∀ x ∈ leaders key limit seen' l, keep x := fun x hx =>
    hkeep x (mem_leaders_mono hseen hx)
  clear hkeep hseen
  induction l generalizing seen' with
  | nil => rfl
  | cons y rest ih =>
    by_cases hy : key y ∈ seen'
    · have hrest : ∀ x ∈ leaders key limit seen' rest, keep x := by
        intro x hx
        refine hkeep' x ?_
        rw [leaders, if_pos hy]
        exact hx
      have hstep : leaders key limit seen' (y :: rest) = leaders key limit seen' rest := by
        rw [leaders, if_pos hy]
      rw [hstep, ← ih hrest, List.filter_cons]
      split
      · rw [leaders, if_pos hy]
      · rfl
    · by_cases hroom : seen'.card < limit
      · have hstep : leaders key limit seen' (y :: rest) =
            y :: leaders key limit (insert (key y) seen') rest := by
          rw [leaders, if_neg hy, if_pos hroom]
        rw [hstep] at hkeep' ⊢
        rw [List.filter_cons_of_pos (hkeep' y List.mem_cons_self), leaders, if_neg hy,
          if_pos hroom, ih fun x hx => hkeep' x (List.mem_cons_of_mem _ hx)]
      · rw [leaders_full (Nat.le_of_not_lt hroom), leaders_full (Nat.le_of_not_lt hroom)]

/-- The same with any entries put in front of both lists. -/
theorem leaders_append_filter (keep : α → Bool) {front l : List α} (hseen : seen ⊆ seen')
    (hkeep : ∀ x ∈ leaders key limit seen l, keep x) :
    leaders key limit seen' (front ++ l.filter keep) = leaders key limit seen' (front ++ l) := by
  induction front generalizing seen' with
  | nil => exact leaders_filter keep hseen hkeep
  | cons y rest ih =>
    have hinsert := ih (hseen.trans (Finset.subset_insert (key y) seen'))
    rw [List.cons_append, List.cons_append, leaders, leaders, ih hseen, hinsert]

/-- What is kept: the first entry of each key, as long as few enough other keys come before it. -/
theorem mem_leaders_append {before after : List α} {x : α} (hnew : key x ∉ seen)
    (hfirst : ∀ y ∈ before, key y ≠ key x)
    (hroom : (seen ∪ (before.map key).toFinset).card < limit) :
    x ∈ leaders key limit seen (before ++ x :: after) := by
  induction before generalizing seen with
  | nil =>
    rw [List.map_nil, List.toFinset_nil, Finset.union_empty] at hroom
    rw [List.nil_append, leaders, if_neg hnew, if_pos hroom]
    exact List.mem_cons_self
  | cons y rest ih =>
    have hunion : seen ∪ ((y :: rest).map key).toFinset =
        insert (key y) seen ∪ (rest.map key).toFinset := by
      rw [List.map_cons, List.toFinset_cons, Finset.union_insert, Finset.insert_union]
    have hrest : ∀ z ∈ rest, key z ≠ key x := fun z hz => hfirst z (List.mem_cons_of_mem _ hz)
    rw [hunion] at hroom
    rw [List.cons_append, leaders]
    by_cases hy : key y ∈ seen
    · rw [if_pos hy]
      rw [Finset.insert_eq_of_mem hy] at hroom
      exact ih hnew hrest hroom
    · have hnew' : key x ∉ insert (key y) seen := by
        rw [Finset.mem_insert, not_or]
        exact ⟨(hfirst y List.mem_cons_self).symm, hnew⟩
      rw [if_neg hy]
      split
      · exact List.mem_cons_of_mem _ (ih hnew' hrest hroom)
      · exact ih hnew' hrest hroom

end Leaders

/-- The front of a list without some of the entries behind it. -/
theorem take_filter {α : Type} {keep : α → Bool} {n : ℕ} {l : List α}
    (h : ∀ x ∈ l.take n, keep x) : (l.filter keep).take n = l.take n := by
  induction l generalizing n with
  | nil => rfl
  | cons y rest ih =>
    cases n with
    | zero => rfl
    | succ n =>
      rw [List.take_succ_cons] at h
      rw [List.filter_cons_of_pos (h y List.mem_cons_self), List.take_succ_cons,
        List.take_succ_cons, ih fun x hx => h x (List.mem_cons_of_mem _ hx)]

theorem take_append_filter {α : Type} {keep : α → Bool} {n : ℕ} {front l : List α}
    (h : ∀ x ∈ l.take n, keep x) : (front ++ l.filter keep).take n = (front ++ l).take n := by
  have hfewer : ∀ x ∈ l.take (n - front.length), keep x := fun x hx =>
    h x ((List.take_subset_take_left l (Nat.sub_le _ _)) hx)
  rw [List.take_append, List.take_append, take_filter hfewer]

end QuokyPlatform
