import Mathlib.Data.List.Infix
import Mathlib.Data.List.Basic

/-!
# Texts broken at a separator text

The separator is found where it occurs first. A text in which no occurrence starts is what stands
before it, whatever stands behind, so joined pieces are found again.
-/

namespace QuokyPlatform.Separators
set_option autoImplicit false
set_option maxHeartbeats 250000

variable {α : Type*}

variable {separator : List α}

/-! ## Where no occurrence starts -/

/-- No occurrence of the separator starts in `before` when it stands behind. -/
def NoEarlier (separator before : List α) : Prop :=
  ∀ suffix, suffix ≠ [] → suffix <:+ before → ¬ separator <+: suffix ++ separator

theorem prefix_behind {suffix rest : List α} :
    separator <+: suffix ++ (separator ++ rest) ↔ separator <+: suffix ++ separator := by
  rw [← List.append_assoc]
  constructor
  · intro h
    refine List.prefix_of_prefix_length_le h (List.prefix_append _ _) ?_
    rw [List.length_append]
    omega
  · exact fun h => h.trans (List.prefix_append _ _)

/-- What stands before the first occurrence has none. -/
theorem not_infix_of_noEarlier {before : List α} (hne : separator ≠ [])
    (h : NoEarlier separator before) : ¬ separator <:+: before := by
  rintro ⟨start, rest, rfl⟩
  refine h (separator ++ rest) ?_ ?_ ?_
  · exact List.append_ne_nil_of_left_ne_nil hne rest
  · rw [List.append_assoc]
    exact List.suffix_append _ _
  · rw [List.append_assoc]
    exact List.prefix_append _ _

theorem noEarlier_of_head {first : α} {others before : List α} (h : first ∉ before) :
    NoEarlier (first :: others) before := by
  intro suffix hne hsuffix hbegins
  cases suffix with
  | nil => exact hne rfl
  | cons head suffix =>
    have hhead := (List.cons_prefix_cons.mp hbegins).1
    rw [hhead] at h
    exact h (hsuffix.subset List.mem_cons_self)

theorem noEarlier_of_last {last : α} {before : List α} (hlast : last ∉ separator)
    (hoccurs : ¬ separator <:+: before ++ [last]) : NoEarlier separator (before ++ [last]) := by
  intro suffix hne hsuffix hbegins
  have hsame : last ∈ suffix := by
    obtain ⟨start, hstart⟩ := hsuffix
    have hgetLast := congrArg List.getLast? hstart
    rw [List.getLast?_append_of_ne_nil _ hne, List.getLast?_concat] at hgetLast
    exact List.mem_of_getLast? hgetLast
  rcases List.prefix_or_prefix_of_prefix hbegins (List.prefix_append suffix separator) with
    hinside | houtside
  · exact hoccurs (hinside.isInfix.trans hsuffix.isInfix)
  · exact hlast (houtside.subset hsame)

/-- An occurrence does not start where its first element does not stand. -/
theorem infix_of_head {first : α} {others front rest : List α} (h : first ∉ front)
    (hoccurs : first :: others <:+: front ++ rest) : first :: others <:+: rest := by
  induction front with
  | nil => exact hoccurs
  | cons head front ih =>
    rw [List.cons_append, List.infix_cons_iff] at hoccurs
    rcases hoccurs with hbegins | hoccurs
    · refine absurd ?_ h
      rw [(List.cons_prefix_cons.mp hbegins).1]
      exact List.mem_cons_self
    · exact ih (fun hmem => h (List.mem_cons_of_mem head hmem)) hoccurs

/-! ## The first occurrence -/

variable [DecidableEq α]

/-- What stands before and after the first occurrence of the separator. -/
def breakAt (separator : List α) : List α → Option (List α × List α)
  | [] => if separator = [] then some ([], []) else none
  | first :: rest =>
    if separator <+: first :: rest then some ([], (first :: rest).drop separator.length)
    else (breakAt separator rest).map fun found => (first :: found.1, found.2)

/-- The pieces between the occurrences, of at most `fuel` breaks. -/
def piecesWithin (separator : List α) : ℕ → List α → List (List α)
  | 0, text => [text]
  | fuel + 1, text =>
    match breakAt separator text with
    | none => [text]
    | some (piece, rest) => piece :: piecesWithin separator fuel rest

/-- The pieces of a text between the occurrences of a separator that is not empty. -/
def splitText (separator text : List α) : List (List α) := piecesWithin separator text.length text

theorem breakAt_separator {rest : List α} : breakAt separator (separator ++ rest) = some ([], rest) := by
  cases hsep : separator with
  | nil =>
    cases rest with
    | nil => rfl
    | cons first rest => exact if_pos List.nil_prefix
  | cons first others =>
    rw [List.cons_append, breakAt, if_pos (List.cons_prefix_cons.mpr ⟨rfl, List.prefix_append _ _⟩),
      ← List.cons_append, List.drop_left]

theorem breakAt_eq_some {before after : List α} (h : NoEarlier separator before) :
    breakAt separator (before ++ (separator ++ after)) = some (before, after) := by
  induction before with
  | nil => exact breakAt_separator
  | cons first before ih =>
    have hfirst := h (first :: before) (List.cons_ne_nil _ _) (List.suffix_refl _)
    rw [← prefix_behind, List.cons_append] at hfirst
    rw [List.cons_append, breakAt, if_neg hfirst, ih fun suffix hne hsuffix =>
      h suffix hne (hsuffix.trans (List.suffix_cons first before))]
    rfl

theorem of_breakAt {text before after : List α} (h : breakAt separator text = some (before, after)) :
    text = before ++ (separator ++ after) ∧ NoEarlier separator before := by
  have hnil : NoEarlier separator [] := fun suffix hne hsuffix =>
    absurd (List.suffix_nil.mp hsuffix) hne
  induction text generalizing before with
  | nil =>
    rw [breakAt] at h
    split at h
    · rename_i hempty
      cases h
      exact ⟨by rw [hempty]; rfl, hnil⟩
    · cases h
  | cons first rest ih =>
    rw [breakAt] at h
    split at h
    · rename_i hbegins
      obtain ⟨others, hothers⟩ := hbegins
      cases h
      rw [← hothers, List.drop_left]
      exact ⟨rfl, hnil⟩
    · rename_i hbegins
      obtain ⟨found, hfound, hpair⟩ := Option.map_eq_some_iff.mp h
      obtain ⟨rfl, rfl⟩ := Prod.mk.inj hpair
      obtain ⟨hrest, hearlier⟩ := ih hfound
      refine ⟨by rw [hrest]; rfl, fun suffix hne hsuffix => ?_⟩
      rcases List.suffix_cons_iff.mp hsuffix with rfl | hsuffix
      · rw [← @prefix_behind _ _ _ found.2, List.cons_append, ← hrest]
        exact hbegins
      · exact hearlier suffix hne hsuffix

theorem breakAt_eq_none {text : List α} : breakAt separator text = none ↔ ¬ separator <:+: text := by
  induction text with
  | nil =>
    rw [breakAt, List.infix_nil]
    by_cases hempty : separator = []
    · rw [if_pos hempty]
      exact iff_of_false (Option.some_ne_none _) (not_not.mpr hempty)
    · rw [if_neg hempty]
      exact iff_of_true rfl hempty
  | cons first rest ih =>
    rw [breakAt, List.infix_cons_iff, not_or]
    by_cases hbegins : separator <+: first :: rest
    · rw [if_pos hbegins]
      exact iff_of_false (Option.some_ne_none _) fun h => h.1 hbegins
    · rw [if_neg hbegins, Option.map_eq_none_iff, ih]
      exact ⟨fun h => ⟨hbegins, h⟩, fun h => h.2⟩

/-! ## The pieces -/

theorem splitText_of_none {text : List α} (h : ¬ separator <:+: text) :
    splitText separator text = [text] := by
  have hnone := breakAt_eq_none.mpr h
  unfold splitText
  cases text.length with
  | zero => rfl
  | succ fuel => rw [piecesWithin, hnone]

theorem piecesWithin_eq (hne : separator ≠ []) {n m : ℕ} {text : List α} (hn : text.length ≤ n)
    (hm : text.length ≤ m) : piecesWithin separator n text = piecesWithin separator m text := by
  induction n generalizing m text with
  | zero =>
    have hnil : text = [] := List.eq_nil_of_length_eq_zero (by omega)
    cases m with
    | zero => rfl
    | succ m => rw [hnil, piecesWithin, piecesWithin, breakAt, if_neg hne]
  | succ n ih =>
    cases m with
    | zero =>
      have hnil : text = [] := List.eq_nil_of_length_eq_zero (by omega)
      rw [hnil, piecesWithin, piecesWithin, breakAt, if_neg hne]
    | succ m =>
      rw [piecesWithin, piecesWithin]
      cases hbreak : breakAt separator text with
      | none => rfl
      | some found =>
        have hlength := congrArg List.length (of_breakAt hbreak).1
        have hpos := List.length_pos_iff.mpr hne
        rw [List.length_append, List.length_append] at hlength
        have hrest : piecesWithin separator n found.2 = piecesWithin separator m found.2 :=
          ih (by omega) (by omega)
        exact congrArg (found.1 :: ·) hrest

theorem splitText_of_some (hne : separator ≠ []) {text before after : List α}
    (h : breakAt separator text = some (before, after)) :
    splitText separator text = before :: splitText separator after := by
  have hlength := congrArg List.length (of_breakAt h).1
  have hpos := List.length_pos_iff.mpr hne
  rw [List.length_append, List.length_append] at hlength
  obtain ⟨fuel, hfuel⟩ := Nat.exists_eq_add_one_of_ne_zero (show text.length ≠ 0 by omega)
  unfold splitText
  rw [hfuel, piecesWithin, h]
  exact congrArg (before :: ·) (piecesWithin_eq hne (by omega) le_rfl)

/-- A text in which no occurrence starts is the first piece before the separator. -/
theorem splitText_append (hne : separator ≠ []) {before after : List α}
    (h : NoEarlier separator before) :
    splitText separator (before ++ (separator ++ after)) = before :: splitText separator after :=
  splitText_of_some hne (breakAt_eq_some h)

/-- The first piece is the text, when it has no separator, or what stands before the first one. -/
theorem head_splitText (hne : separator ≠ []) (text : List α) : ∃ piece,
    (splitText separator text).head? = some piece ∧ ¬ separator <:+: piece ∧ piece <+: text := by
  cases hbreak : breakAt separator text with
  | none =>
    have hoccurs := breakAt_eq_none.mp hbreak
    exact ⟨text, by rw [splitText_of_none hoccurs]; rfl, hoccurs, List.prefix_refl text⟩
  | some found =>
    obtain ⟨htext, hearlier⟩ := of_breakAt hbreak
    exact ⟨found.1, by rw [splitText_of_some hne hbreak]; rfl, not_infix_of_noEarlier hne hearlier,
      _, htext.symm⟩

/-- The first piece of a text whose last element is not of the separator stays with more behind. -/
theorem head_splitText_append (hne : separator ≠ []) {last : α} (hlast : last ∉ separator)
    (before after : List α) :
    (splitText separator (before ++ [last] ++ (separator ++ after))).head? =
      (splitText separator (before ++ [last])).head? := by
  cases hbreak : breakAt separator (before ++ [last]) with
  | none =>
    have hoccurs := breakAt_eq_none.mp hbreak
    rw [splitText_append hne (noEarlier_of_last hlast hoccurs), splitText_of_none hoccurs]
    rfl
  | some found =>
    obtain ⟨htext, hearlier⟩ := of_breakAt hbreak
    rw [htext, splitText_append hne hearlier, List.append_assoc, List.append_assoc,
      splitText_append hne hearlier]
    rfl

end QuokyPlatform.Separators
