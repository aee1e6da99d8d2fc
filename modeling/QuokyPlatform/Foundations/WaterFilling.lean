import Mathlib.Algebra.BigOperators.Group.List.Basic
import Mathlib.Algebra.Order.BigOperators.Group.List
import Mathlib.Tactic.Ring

/-!
# Water filling with whole numbers

Claims are served from the smallest need on: each gets an equal share of the room that is left, or
its need if that is less. A claim that does not need its share leaves the rest of it to those after
it. When some claim is not met, all the room is given, and the claims that are not met get the same up
to one.
-/

namespace QuokyPlatform.WaterFilling
set_option autoImplicit false
set_option maxHeartbeats 250000

variable {α : Type*} (need : α → ℕ)

/-- What every claim is given, in order. -/
def fill (room : ℕ) : List α → List (α × ℕ)
  | [] => []
  | claim :: rest =>
    let given := min (need claim) (room / (rest.length + 1))
    (claim, given) :: fill (room - given) rest

def total (filled : List (α × ℕ)) : ℕ := (filled.map Prod.snd).sum

variable {need} {room : ℕ} {claims : List α}

theorem fill_fst (need : α → ℕ) (room : ℕ) (claims : List α) :
    (fill need room claims).map Prod.fst = claims := by
  induction claims generalizing room with
  | nil => rfl
  | cons claim rest ih => rw [fill, List.map_cons, ih]

theorem given_le_need {entry : α × ℕ} (h : entry ∈ fill need room claims) :
    entry.2 ≤ need entry.1 := by
  induction claims generalizing room with
  | nil => cases h
  | cons claim rest ih =>
    rcases List.mem_cons.mp h with rfl | h
    · exact min_le_left _ _
    · exact ih h

theorem total_cons (entry : α × ℕ) (filled : List (α × ℕ)) :
    total (entry :: filled) = entry.2 + total filled := List.sum_cons

theorem total_le (room : ℕ) (claims : List α) : total (fill need room claims) ≤ room := by
  induction claims generalizing room with
  | nil => exact Nat.zero_le _
  | cons claim rest ih =>
    have hshare : min (need claim) (room / (rest.length + 1)) ≤ room :=
      (min_le_right _ _).trans (Nat.div_le_self _ _)
    have hrest := ih (room - min (need claim) (room / (rest.length + 1)))
    rw [fill, total_cons]
    dsimp only
    omega

/-- What is left after one share of equals is at least the other shares. -/
theorem rest_ge {room level count : ℕ} (h : level * (count + 1) ≤ room) {given : ℕ}
    (hgiven : given ≤ room / (count + 1)) : level * count ≤ room - given := by
  have hlevel : level ≤ room / (count + 1) := (Nat.le_div_iff_mul_le (Nat.succ_pos count)).mpr h
  have hroom : room / (count + 1) * (count + 1) ≤ room := Nat.div_mul_le_self _ _
  have hcount : level * count ≤ room / (count + 1) * count := Nat.mul_le_mul_right _ hlevel
  rw [Nat.mul_succ] at hroom
  omega

/-- No claim gets less than `level`, when all need it and it is there for all. -/
theorem level_le_given {level : ℕ} (hneed : ∀ claim ∈ claims, level ≤ need claim)
    (hroom : level * claims.length ≤ room) {entry : α × ℕ} (h : entry ∈ fill need room claims) :
    level ≤ entry.2 := by
  induction claims generalizing room with
  | nil => cases h
  | cons claim rest ih =>
    rw [List.length_cons] at hroom
    rcases List.mem_cons.mp h with rfl | h
    · exact le_min (hneed claim List.mem_cons_self)
        ((Nat.le_div_iff_mul_le (Nat.succ_pos _)).mpr hroom)
    · exact ih (fun other hother => hneed other (List.mem_cons_of_mem _ hother))
        (rest_ge hroom (min_le_right _ _)) h

/-- Claims of one level: each gets it or one more, and all the room is given. -/
theorem fill_level {level : ℕ} (hneed : ∀ claim ∈ claims, level + 1 ≤ need claim)
    (hlow : level * claims.length ≤ room) (hhigh : room ≤ (level + 1) * claims.length) :
    total (fill need room claims) = room ∧
      ∀ entry ∈ fill need room claims, level ≤ entry.2 ∧ entry.2 ≤ level + 1 := by
  induction claims generalizing room with
  | nil =>
    rw [List.length_nil, Nat.mul_zero, Nat.le_zero] at hhigh
    exact ⟨hhigh.symm, fun entry h => by cases h⟩
  | cons claim rest ih =>
    rw [List.length_cons] at hlow hhigh
    have hshareLow : level ≤ room / (rest.length + 1) :=
      (Nat.le_div_iff_mul_le (Nat.succ_pos _)).mpr hlow
    have hshareHigh : room / (rest.length + 1) ≤ level + 1 := by
      calc room / (rest.length + 1) ≤ (level + 1) * (rest.length + 1) / (rest.length + 1) :=
            Nat.div_le_div_right hhigh
        _ = level + 1 := Nat.mul_div_cancel _ (Nat.succ_pos _)
    have hgiven : min (need claim) (room / (rest.length + 1)) = room / (rest.length + 1) :=
      min_eq_right (hshareHigh.trans (hneed claim List.mem_cons_self))
    have hle : room / (rest.length + 1) ≤ room := Nat.div_le_self _ _
    have hrestLow := rest_ge hlow (le_refl (room / (rest.length + 1)))
    have hrestHigh : room - room / (rest.length + 1) ≤ (level + 1) * rest.length := by
      -- Either the share is the higher level, or the remainder is less than a level for all.
      rcases hshareHigh.lt_or_eq with hlt | heq
      · have hshare : room / (rest.length + 1) = level := by omega
        have hlt := Nat.lt_mul_div_succ room (Nat.succ_pos rest.length)
        rw [Nat.succ_eq_add_one, hshare] at hlt
        rw [hshare]
        have hexpand : (rest.length + 1) * (level + 1) = (level + 1) * rest.length + (level + 1) := by
          ring
        omega
      · rw [heq]
        have hexpand : (level + 1) * (rest.length + 1) = (level + 1) * rest.length + (level + 1) := by
          ring
        omega
    obtain ⟨htotal, hentries⟩ := ih (fun other hother => hneed other (List.mem_cons_of_mem _ hother))
      hrestLow hrestHigh
    rw [fill, hgiven]
    refine ⟨?_, ?_⟩
    · rw [total_cons, htotal]
      omega
    · intro entry h
      rcases List.mem_cons.mp h with rfl | h
      · exact ⟨hshareLow, hshareHigh⟩
      · exact hentries entry h

/-- The claims from the first one on that is not met are claims of one level. -/
theorem fill_unmet {claim : α} {rest : List α}
    (hsorted : ∀ other ∈ rest, need claim ≤ need other)
    (hunmet : room / (rest.length + 1) < need claim) :
    total (fill need room (claim :: rest)) = room ∧
      ∀ entry ∈ fill need room (claim :: rest), room / (rest.length + 1) ≤ entry.2 ∧
        entry.2 ≤ room / (rest.length + 1) + 1 := by
  refine fill_level ?_ ?_ ?_
  · intro other hother
    rcases List.mem_cons.mp hother with rfl | hother
    · exact hunmet
    · exact hunmet.trans_le (hsorted other hother)
  · exact Nat.div_mul_le_self _ _
  · rw [Nat.mul_comm]
    exact (Nat.lt_mul_div_succ room (Nat.succ_pos rest.length)).le

/-- When the room is enough for all needs, every claim is met. -/
theorem all_met (hsorted : claims.Pairwise fun claim other => need claim ≤ need other)
    (hroom : (claims.map need).sum ≤ room) :
    ∀ entry ∈ fill need room claims, entry.2 = need entry.1 := by
  induction claims generalizing room with
  | nil =>
    intro entry h
    cases h
  | cons claim rest ih =>
    rw [List.map_cons, List.sum_cons] at hroom
    rw [List.pairwise_cons] at hsorted
    have hmany : need claim * rest.length ≤ (rest.map need).sum := by
      have hle := List.card_nsmul_le_sum (rest.map need) (need claim) (by
        intro value hvalue
        obtain ⟨other, hother, rfl⟩ := List.mem_map.mp hvalue
        exact hsorted.1 other hother)
      rwa [List.length_map, Nat.nsmul_eq_mul, Nat.mul_comm] at hle
    have hshare : need claim ≤ room / (rest.length + 1) := by
      rw [Nat.le_div_iff_mul_le (Nat.succ_pos _), Nat.mul_succ]
      omega
    rw [fill, min_eq_left hshare]
    intro entry h
    rcases List.mem_cons.mp h with rfl | h
    · rfl
    · exact ih hsorted.2 (by omega) entry h

/-- When some claim is not met, all the room is given. -/
theorem total_of_unmet (hsorted : claims.Pairwise fun claim other => need claim ≤ need other)
    (hunmet : ∃ entry ∈ fill need room claims, entry.2 < need entry.1) :
    total (fill need room claims) = room := by
  induction claims generalizing room with
  | nil =>
    obtain ⟨entry, h, -⟩ := hunmet
    cases h
  | cons claim rest ih =>
    rw [List.pairwise_cons] at hsorted
    by_cases hmet : need claim ≤ room / (rest.length + 1)
    · have hle : need claim ≤ room := hmet.trans (Nat.div_le_self _ _)
      rw [fill, min_eq_left hmet] at hunmet ⊢
      obtain ⟨entry, h, hlt⟩ := hunmet
      rcases List.mem_cons.mp h with rfl | h
      · exact absurd hlt (lt_irrefl _)
      · rw [total_cons, ih hsorted.2 ⟨entry, h, hlt⟩]
        omega
    · exact (fill_unmet hsorted.1 (not_le.mp hmet)).1

/-- A claim that is not met gets at least every met need, up to one. -/
theorem fair (hsorted : claims.Pairwise fun claim other => need claim ≤ need other)
    {entry met : α × ℕ} (hentry : entry ∈ fill need room claims) (hunmet : entry.2 < need entry.1)
    (hother : met ∈ fill need room claims) (hmet : met.2 = need met.1) :
    need met.1 ≤ entry.2 + 1 := by
  induction claims generalizing room with
  | nil => cases hentry
  | cons claim rest ih =>
    rw [List.pairwise_cons] at hsorted
    by_cases hshare : need claim ≤ room / (rest.length + 1)
    · rw [fill, min_eq_left hshare] at hentry hother
      rcases List.mem_cons.mp hentry with rfl | hentry
      · exact absurd hunmet (lt_irrefl _)
      rcases List.mem_cons.mp hother with rfl | hother
      · have hroom : need claim * (rest.length + 1) ≤ room :=
          (Nat.le_div_iff_mul_le (Nat.succ_pos _)).mp hshare
        have hlevel := level_le_given hsorted.1 (rest_ge hroom hshare) hentry
        exact hlevel.trans (Nat.le_succ _)
      · exact ih hsorted.2 hentry hother
    · obtain ⟨-, hlevel⟩ := fill_unmet hsorted.1 (not_le.mp hshare)
      have hlow := (hlevel entry hentry).1
      have hhigh := (hlevel met hother).2
      omega

end QuokyPlatform.WaterFilling
