import Mathlib.Data.List.Infix
import Mathlib.Tactic.Common

/-!
# Markers of three equal marks

A marker is three marks in a row, and a text is read for markers from its start, without overlap.
Text put together has the markers of its parts, unless the parts meet inside a run of marks: then
it may have one more.
-/

namespace QuokyPlatform.Markers
set_option autoImplicit false
set_option maxHeartbeats 250000

variable {α : Type*} [DecidableEq α] {mark : α}

/-- The markers of a text, from its start and without overlap. -/
def count (mark : α) : List α → ℕ
  | first :: second :: third :: after =>
    if first = mark ∧ second = mark ∧ third = mark then count mark after + 1
    else count mark (second :: third :: after)
  | _ => 0

@[simp] theorem count_nil : count mark [] = 0 := rfl

@[simp] theorem count_single (x : α) : count mark [x] = 0 := rfl

@[simp] theorem count_pair (x y : α) : count mark [x, y] = 0 := rfl

theorem count_marker (after : List α) :
    count mark (mark :: mark :: mark :: after) = count mark after + 1 := by
  simp [count]

theorem count_cons_of_ne {x : α} (h : x ≠ mark) (rest : List α) :
    count mark (x :: rest) = count mark rest := by
  match rest with
  | [] => rfl
  | [y] => rfl
  | y :: z :: after =>
    rw [count, if_neg]
    intro hmarks
    exact h hmarks.1

/-- A text is put together at something that is no mark. -/
theorem count_append_cons (front : List α) {x : α} (h : x ≠ mark) (rest : List α) :
    count mark (front ++ x :: rest) = count mark front + count mark rest := by
  induction front using count.induct mark with
  | case1 first second third after hmarks ih =>
    obtain ⟨rfl, rfl, rfl⟩ := hmarks
    simp only [List.cons_append, count_marker]
    rw [ih]
    omega
  | case2 first second third after hmarks ih =>
    show count mark (first :: second :: third :: (after ++ x :: rest)) = _
    rw [count, count, if_neg hmarks, if_neg hmarks]
    exact ih
  | case3 front hshort =>
    match front with
    | [] => rw [List.nil_append, count_cons_of_ne h, count_nil, Nat.zero_add]
    | [y] =>
      rw [count_single, Nat.zero_add]
      match rest with
      | [] => rfl
      | z :: after =>
        show count mark (y :: x :: z :: after) = _
        rw [count, if_neg (fun hmarks => h hmarks.2.1), count_cons_of_ne h]
    | [y, z] =>
      rw [count_pair, Nat.zero_add]
      show count mark (y :: z :: x :: rest) = _
      rw [count, if_neg (fun hmarks => h hmarks.2.2)]
      match rest with
      | [] => rfl
      | w :: after => rw [count, if_neg (fun hmarks => h hmarks.2.1), count_cons_of_ne h]
    | first :: second :: third :: after => exact absurd rfl (hshort first second third after)

theorem count_append_of_head {front rest : List α} (h : rest.head? ≠ some mark) :
    count mark (front ++ rest) = count mark front + count mark rest := by
  cases rest with
  | nil => simp
  | cons x rest =>
    have hx : x ≠ mark := by simpa using h
    rw [count_append_cons front hx, count_cons_of_ne hx]

theorem count_append_of_last {front rest : List α} (h : front.getLast? ≠ some mark) :
    count mark (front ++ rest) = count mark front + count mark rest := by
  rcases List.eq_nil_or_concat front with rfl | ⟨front, x, rfl⟩
  · simp
  · have hx : x ≠ mark := by simpa using h
    rw [List.concat_eq_append, List.append_assoc, List.singleton_append, count_append_cons front hx,
      count_append_cons front hx, count_nil, Nat.add_zero]

theorem count_replicate (n : ℕ) : count mark (List.replicate n mark) = n / 3 := by
  induction n using Nat.strong_induction_on with
  | _ n ih =>
    match n with
    | 0 => rfl
    | 1 => rfl
    | 2 => rfl
    | n + 3 =>
      show count mark (mark :: mark :: mark :: List.replicate n mark) = _
      rw [count_marker, ih n (by omega)]
      omega

/-! ## Runs of marks -/

/-- The marks a text starts with, and the rest. -/
theorem exists_run (mark : α) (text : List α) :
    ∃ n rest, text = List.replicate n mark ++ rest ∧ rest.head? ≠ some mark := by
  induction text with
  | nil => exact ⟨0, [], rfl, by simp⟩
  | cons x text ih =>
    by_cases hx : x = mark
    · obtain ⟨n, rest, htext, hrest⟩ := ih
      refine ⟨n + 1, rest, ?_, hrest⟩
      rw [hx, htext, List.replicate_succ, List.cons_append]
    · exact ⟨0, x :: text, rfl, by simpa using hx⟩

/-- The marks a text ends with, and what comes before them. -/
theorem exists_last_run (mark : α) (text : List α) :
    ∃ front n, text = front ++ List.replicate n mark ∧ front.getLast? ≠ some mark := by
  obtain ⟨n, rest, htext, hrest⟩ := exists_run mark text.reverse
  refine ⟨rest.reverse, n, ?_, by rwa [List.getLast?_reverse]⟩
  rw [← List.reverse_reverse text, htext, List.reverse_append, List.reverse_replicate]

theorem count_around_run (front rest : List α) (n : ℕ) (hfront : front.getLast? ≠ some mark)
    (hrest : rest.head? ≠ some mark) :
    count mark (front ++ (List.replicate n mark ++ rest)) =
      count mark front + n / 3 + count mark rest := by
  rw [count_append_of_last hfront, count_append_of_head hrest, count_replicate]
  omega

/-- Putting two texts together makes at most one marker. -/
theorem count_append (mark : α) (front rest : List α) :
    count mark (front ++ rest) = count mark front + count mark rest ∨
      count mark (front ++ rest) = count mark front + count mark rest + 1 := by
  obtain ⟨before, m, rfl, hbefore⟩ := exists_last_run mark front
  obtain ⟨n, after, rfl, hafter⟩ := exists_run mark rest
  have hwhole : count mark (before ++ List.replicate m mark ++ (List.replicate n mark ++ after)) =
      count mark before + (m + n) / 3 + count mark after := by
    rw [List.append_assoc, ← List.append_assoc (List.replicate m mark), List.replicate_append_replicate,
      count_around_run before after (m + n) hbefore hafter]
  have hfront : count mark (before ++ List.replicate m mark) = count mark before + m / 3 := by
    rw [count_append_of_last hbefore, count_replicate]
  have hrest : count mark (List.replicate n mark ++ after) = n / 3 + count mark after := by
    rw [count_append_of_head hafter, count_replicate]
  rw [hwhole, hfront, hrest]
  omega

/-- The two texts meet inside a marker. -/
def breaks (mark : α) (front rest : List α) : Bool :=
  count mark (front ++ rest) != count mark front + count mark rest

theorem count_append_breaks (mark : α) (front rest : List α) :
    count mark (front ++ rest) =
      count mark front + count mark rest + (breaks mark front rest).toNat := by
  rcases count_append mark front rest with h | h
  · have hbreaks : breaks mark front rest = false := by simp [breaks, h]
    rw [hbreaks, h, Bool.toNat_false, Nat.add_zero]
  · have hbreaks : breaks mark front rest = true := by simp [breaks, h]
    rw [hbreaks, h, Bool.toNat_true]

/-- Two texts that meet inside a marker meet at marks. -/
theorem breaks_eq_false {front rest : List α}
    (h : front.getLast? ≠ some mark ∨ rest.head? ≠ some mark) : breaks mark front rest = false := by
  rcases h with h | h
  · simp [breaks, count_append_of_last h]
  · simp [breaks, count_append_of_head h]

theorem count_markers_append (n : ℕ) (rest : List α) :
    count mark (List.replicate (3 * n) mark ++ rest) = n + count mark rest := by
  induction n with
  | zero => simp
  | succ n ih =>
    show count mark (mark :: mark :: mark :: (List.replicate (3 * n) mark ++ rest)) = _
    rw [count_marker, ih]
    omega

/-- A cut after whole markers breaks none. -/
theorem breaks_markers (n : ℕ) (rest : List α) :
    breaks mark (List.replicate (3 * n) mark) rest = false := by
  unfold breaks
  rw [count_markers_append, count_replicate, Nat.mul_div_cancel_left n (by omega)]
  simp

/-! ## Texts without a marker -/

theorem marker_of_count_pos {text : List α} (h : 0 < count mark text) :
    [mark, mark, mark] <:+: text := by
  induction text using count.induct mark with
  | case1 first second third after hmarks ih =>
    obtain ⟨rfl, rfl, rfl⟩ := hmarks
    exact ⟨[], after, rfl⟩
  | case2 first second third after hmarks ih =>
    rw [count, if_neg hmarks] at h
    exact (ih h).trans (List.suffix_cons first _).isInfix
  | case3 text hshort =>
    match text with
    | [] | [_] | [_, _] => exact absurd h (Nat.lt_irrefl 0)
    | first :: second :: third :: after => exact absurd rfl (hshort first second third after)

theorem count_eq_zero {text part : List α} (h : ¬ [mark, mark, mark] <:+: text)
    (hpart : part <:+: text) : count mark part = 0 :=
  Nat.eq_zero_of_not_pos fun hpos => h ((marker_of_count_pos hpos).trans hpart)

end QuokyPlatform.Markers
