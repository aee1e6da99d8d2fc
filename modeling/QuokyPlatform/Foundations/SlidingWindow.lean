import Mathlib.Data.List.Induction
import Mathlib.Data.List.TakeWhile
import Mathlib.Data.Int.Order.Basic

/-!
# Sliding windows over a list in order of time

What is recent stands at the end of the list, so a scan from the end finds it, also after old elements
were dropped at the front. When every element saw fewer than its limit in the window before it, no
window holds more than the limit.
-/

namespace QuokyPlatform.SlidingWindow
set_option autoImplicit false
set_option maxHeartbeats 250000

variable {α : Type*} (time : α → ℤ)

def InOrder (xs : List α) : Prop := xs.Pairwise fun a b => time a ≤ time b

/-- Drops what is not after `limit` from the front. -/
def prune (limit : ℤ) (xs : List α) : List α := xs.dropWhile fun a => time a ≤ limit

/-- The elements after `since`, as a scan from the end finds them. -/
def recent (since : ℤ) (xs : List α) : List α := xs.reverse.takeWhile fun a => since < time a

/-- The elements after `since`. -/
def after (since : ℤ) (xs : List α) : List α := xs.filter fun a => since < time a

/-- Only elements that are not after `limit` were dropped, at the front. -/
def Kept (limit : ℤ) (whole kept : List α) : Prop :=
  ∃ dropped, whole = dropped ++ kept ∧ ∀ a ∈ dropped, time a ≤ limit

variable {time}

/-! ## Scans -/

theorem takeWhile_reverse_eq_filter {xs : List α} (h : InOrder time xs) (since : ℤ) :
    recent time since xs = (after time since xs).reverse := by
  unfold recent after
  rw [← List.filter_reverse]
  have horder : xs.reverse.Pairwise fun a b => time b ≤ time a := List.pairwise_reverse.mpr h
  revert horder
  generalize xs.reverse = ys
  intro horder
  induction ys with
  | nil => rfl
  | cons first rest ih =>
    obtain ⟨hfirst, hrest⟩ := List.pairwise_cons.mp horder
    rw [List.takeWhile_cons, List.filter_cons, ih hrest]
    by_cases hafter : since < time first
    · rw [decide_eq_true hafter]
      rfl
    · rw [decide_eq_false hafter]
      refine (List.filter_eq_nil_iff.mpr fun other hother => ?_).symm
      have hle := hfirst other hother
      rw [decide_eq_true_eq]
      omega

namespace Kept

variable {limit : ℤ} {whole kept : List α}

theorem refl (limit : ℤ) (xs : List α) : Kept time limit xs xs :=
  ⟨[], rfl, fun _ h => absurd h List.not_mem_nil⟩

theorem mono (h : Kept time limit whole kept) {later : ℤ} (hle : limit ≤ later) :
    Kept time later whole kept := by
  obtain ⟨dropped, hwhole, hdropped⟩ := h
  exact ⟨dropped, hwhole, fun a ha => le_trans (hdropped a ha) hle⟩

theorem prune (h : Kept time limit whole kept) : Kept time limit whole (prune time limit kept) := by
  obtain ⟨dropped, hwhole, hdropped⟩ := h
  refine ⟨dropped ++ kept.takeWhile fun a => time a ≤ limit, ?_, ?_⟩
  · rw [hwhole, List.append_assoc]
    exact congrArg (dropped ++ ·) (List.takeWhile_append_dropWhile).symm
  · refine List.forall_mem_append.mpr ⟨hdropped, fun a ha => ?_⟩
    exact of_decide_eq_true (List.all_eq_true.mp List.all_takeWhile a ha)

theorem concat (h : Kept time limit whole kept) (a : α) :
    Kept time limit (whole ++ [a]) (kept ++ [a]) := by
  obtain ⟨dropped, hwhole, hdropped⟩ := h
  exact ⟨dropped, by rw [hwhole, List.append_assoc], hdropped⟩

theorem map (h : Kept time limit whole kept) {f : α → α} (hf : ∀ a, time (f a) = time a) :
    Kept time limit (whole.map f) (kept.map f) := by
  obtain ⟨dropped, hwhole, hdropped⟩ := h
  refine ⟨dropped.map f, by rw [hwhole, List.map_append], ?_⟩
  rw [List.forall_mem_map]
  exact fun a ha => (hf a).symm ▸ hdropped a ha

/-- What was dropped is in no window that reaches back no further. -/
theorem recent_eq (h : Kept time limit whole kept) (horder : InOrder time whole) {since : ℤ}
    (hsince : limit ≤ since) : recent time since kept = (after time since whole).reverse := by
  obtain ⟨dropped, rfl, hdropped⟩ := h
  rw [takeWhile_reverse_eq_filter (List.pairwise_append.mp horder).2.1]
  unfold after
  have hnone : dropped.filter (fun a => since < time a) = [] := by
    refine List.filter_eq_nil_iff.mpr fun a ha => ?_
    have hle := hdropped a ha
    rw [decide_eq_true_eq]
    omega
  rw [List.filter_append, hnone, List.nil_append]

end Kept

/-! ## Limits -/

variable (time) in
/-- Every element saw fewer than its limit in the window that ends with it. -/
def Paced (width : ℤ) (limit : α → ℕ) (xs : List α) : Prop :=
  ∀ before a rest, xs = before ++ a :: rest → (after time (time a - width) before).length < limit a

variable {width : ℤ} {limit : α → ℕ}

theorem Paced.nil : Paced time width limit [] := fun before a rest h =>
  absurd h.symm (List.append_ne_nil_of_right_ne_nil before (List.cons_ne_nil a rest))

theorem Paced.concat {xs : List α} (h : Paced time width limit xs) {a : α}
    (ha : (after time (time a - width) xs).length < limit a) : Paced time width limit (xs ++ [a]) := by
  intro before b rest heq
  rcases List.eq_nil_or_concat rest with rfl | ⟨others, last, rfl⟩
  · obtain ⟨hbefore, hlast⟩ := List.append_inj' heq rfl
    rw [← hbefore, ← (List.cons.inj hlast).1]
    exact ha
  · refine h before b others ?_
    rw [List.concat_eq_append, ← List.cons_append, ← List.append_assoc] at heq
    exact (List.append_inj' heq rfl).1

theorem Paced.of_concat {xs : List α} {a : α} (h : Paced time width limit (xs ++ [a])) :
    Paced time width limit xs ∧ (after time (time a - width) xs).length < limit a := by
  refine ⟨fun before b rest heq => h before b (rest ++ [a]) ?_, h xs a [] rfl⟩
  rw [heq, List.append_assoc, List.cons_append]

theorem Paced.map {xs : List α} (h : Paced time width limit xs) {f : α → α}
    (htime : ∀ a, time (f a) = time a) (hlimit : ∀ a, limit (f a) = limit a) :
    Paced time width limit (xs.map f) := by
  intro before b rest heq
  obtain ⟨front, others, rfl, rfl, hothers⟩ := List.map_eq_append_iff.mp heq
  obtain ⟨a, tail, rfl, rfl, rfl⟩ := List.map_eq_cons_iff.mp hothers
  have hlength : (after time (time (f a) - width) (front.map f)).length =
      (after time (time a - width) front).length := by
    unfold after
    rw [List.filter_map, List.length_map, htime]
    simp only [Function.comp_def, htime]
  rw [hlength, hlimit]
  exact h front a tail rfl

/-- No window holds more than the limit of its elements. -/
theorem Paced.window_le {xs : List α} (h : Paced time width limit xs) (start : ℤ) {bound : ℕ}
    (hbound : ∀ a ∈ xs, start ≤ time a → time a < start + width → limit a ≤ bound) :
    (xs.filter fun a => start ≤ time a ∧ time a < start + width).length ≤ bound := by
  induction xs using List.reverseRecOn with
  | nil => exact Nat.zero_le _
  | append_singleton xs a ih =>
    obtain ⟨hxs, ha⟩ := h.of_concat
    rw [List.filter_append, List.length_append]
    by_cases hinside : start ≤ time a ∧ time a < start + width
    · have hsubset : (xs.filter fun b => start ≤ time b ∧ time b < start + width).length ≤
          (after time (time a - width) xs).length := by
        rw [← List.countP_eq_length_filter, after, ← List.countP_eq_length_filter]
        refine List.countP_mono_left fun b _ hb => ?_
        rw [decide_eq_true_eq] at hb ⊢
        omega
      have hlimit := hbound a (List.mem_append_right _ List.mem_cons_self) hinside.1 hinside.2
      rw [List.filter_cons, decide_eq_true hinside]
      show _ + 1 ≤ bound
      omega
    · rw [List.filter_cons, decide_eq_false hinside]
      exact ih hxs fun b hb => hbound b (List.mem_append_left _ hb)

end QuokyPlatform.SlidingWindow
