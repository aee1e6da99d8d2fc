import Mathlib.Data.List.DropRight
import Mathlib.Tactic.Common

/-!
# Pieces that occur in a list, one after the other

`OccurInOrder pieces xs` says that the pieces are found in `xs` in their order and without
overlapping, with anything between them. Trimming the end of `xs` keeps pieces that are trimmed.
-/

namespace QuokyPlatform
set_option autoImplicit false
set_option maxHeartbeats 250000

variable {α : Type*}

/-! ## Trimming the end of a concatenation -/

theorem rdropWhile_append (p : α → Bool) (xs ys : List α) :
    (xs ++ ys).rdropWhile p =
      if ys.rdropWhile p = [] then xs.rdropWhile p else xs ++ ys.rdropWhile p := by
  rw [List.rdropWhile, List.reverse_append, List.dropWhile_append]
  by_cases h : ys.reverse.dropWhile p = []
  · simp [List.rdropWhile, h]
  · simp [List.rdropWhile, h]

/-! ## Occurrences -/

inductive OccurInOrder : List (List α) → List α → Prop
  | nil (xs : List α) : OccurInOrder [] xs
  | cons (before piece : List α) {rest : List (List α)} {xs : List α} (h : OccurInOrder rest xs) :
      OccurInOrder (piece :: rest) (before ++ piece ++ xs)

namespace OccurInOrder

theorem append {pieces : List (List α)} {xs : List α} (h : OccurInOrder pieces xs)
    (more : List α) : OccurInOrder pieces (xs ++ more) := by
  induction h with
  | nil xs => exact .nil _
  | cons before piece h ih =>
    rw [List.append_assoc]
    exact .cons before piece ih

theorem behind {pieces : List (List α)} {xs : List α} (before : List α) (h : OccurInOrder pieces xs) :
    OccurInOrder pieces (before ++ xs) := by
  cases h with
  | nil => exact .nil _
  | cons gap piece h =>
    rw [← List.append_assoc, ← List.append_assoc]
    exact .cons (before ++ gap) piece h

/-- One more piece, after a gap. -/
theorem concat {pieces : List (List α)} {xs : List α} (h : OccurInOrder pieces xs)
    (gap piece more : List α) : OccurInOrder (pieces ++ [piece]) (xs ++ gap ++ piece ++ more) := by
  induction h with
  | nil xs => exact .cons (xs ++ gap) piece (.nil more)
  | @cons before first rest xs h ih =>
    have hassoc : before ++ first ++ xs ++ gap ++ piece ++ more =
        before ++ first ++ (xs ++ gap ++ piece ++ more) := by
      simp only [List.append_assoc]
    rw [hassoc]
    exact .cons before first ih

theorem mem_infix {pieces : List (List α)} {xs : List α} (h : OccurInOrder pieces xs) :
    ∀ piece ∈ pieces, piece <:+: xs := by
  induction h with
  | nil xs => simp
  | @cons before piece rest xs h ih =>
    refine List.forall_mem_cons.mpr ⟨⟨before, xs, rfl⟩, fun other hother => ?_⟩
    exact (ih other hother).trans (List.suffix_append _ _).isInfix

/-- Trimming the end keeps pieces that end in nothing to trim. -/
theorem rdropWhile {p : α → Bool} {pieces : List (List α)} {xs : List α}
    (h : OccurInOrder pieces xs) (htrimmed : ∀ piece ∈ pieces, piece.rdropWhile p = piece) :
    OccurInOrder pieces (xs.rdropWhile p) := by
  induction h with
  | nil xs => exact .nil _
  | @cons before piece rest xs h ih =>
    have hrest := ih fun other hother => htrimmed other (List.mem_cons_of_mem _ hother)
    have hpiece := htrimmed piece List.mem_cons_self
    rw [rdropWhile_append]
    split_ifs with hempty
    · -- the pieces behind are empty, so this one may end the list
      rw [hempty] at hrest
      rw [rdropWhile_append, hpiece]
      split_ifs with hnil
      · have hlast := OccurInOrder.cons (before.rdropWhile p) piece hrest
        simpa [hnil] using hlast
      · have hlast := OccurInOrder.cons before piece hrest
        simpa using hlast
    · exact .cons before piece hrest

end OccurInOrder

end QuokyPlatform
