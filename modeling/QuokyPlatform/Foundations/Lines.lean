import Mathlib.Data.List.Basic

/-!
# Texts split at a separator

The pieces of a text have no separator, and pieces without one are the pieces of their join. So a
change of every piece that writes no separator changes the join piece by piece.
-/

namespace QuokyPlatform.Lines
set_option autoImplicit false
set_option maxHeartbeats 250000

variable {α : Type*} [BEq α] [LawfulBEq α] {separator : α}

theorem not_mem_of_mem_splitOn {text piece : List α} (h : piece ∈ text.splitOn separator) :
    separator ∉ piece := by
  induction text generalizing piece with
  | nil =>
    rw [List.splitOn_nil, List.mem_singleton] at h
    rw [h]
    exact List.not_mem_nil
  | cons first rest ih =>
    rw [List.splitOn_cons_eq_if_modifyHead] at h
    split at h
    · rcases List.mem_cons.mp h with rfl | h
      · exact List.not_mem_nil
      · exact ih h
    · rename_i hne
      obtain ⟨head, tail, hpieces⟩ := List.exists_cons_of_ne_nil (List.splitOn_ne_nil separator rest)
      rw [hpieces, List.modifyHead_cons] at h
      rcases List.mem_cons.mp h with rfl | h
      · intro hmem
        rcases List.mem_cons.mp hmem with rfl | hmem
        · exact hne BEq.rfl
        · exact ih (hpieces ▸ List.mem_cons_self) hmem
      · exact ih (hpieces ▸ List.mem_cons_of_mem _ h)

/-- The pieces of a text that was changed piece by piece. -/
theorem splitOn_intercalate_map (change : List α → List α) (text : List α)
    (h : ∀ piece, separator ∉ piece → separator ∉ change piece) :
    ([separator].intercalate ((text.splitOn separator).map change)).splitOn separator =
      (text.splitOn separator).map change := by
  refine List.splitOn_intercalate separator (fun piece hpiece => ?_) ?_
  · obtain ⟨original, horiginal, rfl⟩ := List.mem_map.mp hpiece
    exact h original (not_mem_of_mem_splitOn horiginal)
  · intro hnil
    exact List.splitOn_ne_nil separator text (List.map_eq_nil_iff.mp hnil)

/-! ## Joins of joins -/

section joins

variable {β : Type*} {join : List β}

theorem intercalate_append {pieces more : List (List β)} (h : pieces ≠ []) (h' : more ≠ []) :
    join.intercalate (pieces ++ more) = join.intercalate pieces ++ join ++ join.intercalate more := by
  induction pieces with
  | nil => exact absurd rfl h
  | cons piece pieces ih =>
    cases pieces with
    | nil => rw [List.singleton_append, List.intercalate_cons_of_ne_nil h', List.intercalate_singleton]
    | cons next pieces =>
      have hne : next :: pieces ++ more ≠ [] := List.cons_ne_nil _ _
      rw [List.cons_append, List.intercalate_cons_of_ne_nil hne, ih (List.cons_ne_nil _ _),
        List.intercalate_cons_cons]
      simp only [List.append_assoc]

/-- Pieces that are themselves joined of pieces. -/
theorem intercalate_flatten {groups : List (List (List β))} (h : ∀ group ∈ groups, group ≠ []) :
    join.intercalate groups.flatten = join.intercalate (groups.map join.intercalate) := by
  induction groups with
  | nil => rfl
  | cons group groups ih =>
    have hrest := ih fun other hother => h other (List.mem_cons_of_mem _ hother)
    cases groups with
    | nil => rw [List.flatten_cons, List.flatten_nil, List.append_nil, List.map_singleton,
        List.intercalate_singleton]
    | cons next groups =>
      have hne : (next :: groups).flatten ≠ [] := by
        rw [List.flatten_cons]
        exact List.append_ne_nil_of_left_ne_nil (h next (by simp)) _
      rw [List.flatten_cons, intercalate_append (h group List.mem_cons_self) hne, hrest]
      simp only [List.map_cons, List.intercalate_cons_cons]

theorem infix_of_mem_intercalate (join : List β) {pieces : List (List β)} {piece : List β}
    (h : piece ∈ pieces) : piece <:+: join.intercalate pieces := by
  induction pieces with
  | nil => cases h
  | cons first rest ih =>
    cases rest with
    | nil =>
      obtain rfl := List.mem_singleton.mp h
      exact ⟨[], [], by rw [List.nil_append, List.append_nil, List.intercalate_singleton]⟩
    | cons second more =>
      rw [List.intercalate_cons_cons]
      rcases List.mem_cons.mp h with rfl | h
      · rw [List.append_assoc]
        exact (List.prefix_append _ _).isInfix
      · exact (ih h).trans (List.suffix_append _ _).isInfix

end joins

theorem infix_of_mem_splitOn {text piece : List α} (h : piece ∈ text.splitOn separator) :
    piece <:+: text := by
  have hpiece := infix_of_mem_intercalate [separator] h
  rwa [List.intercalate_splitOn] at hpiece

end QuokyPlatform.Lines
