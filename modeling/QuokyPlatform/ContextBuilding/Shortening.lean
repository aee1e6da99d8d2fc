import Mathlib.Tactic.Ring
import QuokyPlatform.ContextBuilding.Builder
import QuokyPlatform.Foundations.Draining

/-! # How texts are cut

Every cut leaves the text, or the beginning of it and an ellipsis. A cut to a budget measures at most
what remains, in characters and in tokens alike; compression removes exactly the tokens it means to. -/

namespace QuokyPlatform.ContextBuilding

set_option autoImplicit false
set_option maxHeartbeats 250000

open Chunking (JsString)

/-! ## Cut texts -/

/-- The text itself, or a beginning of it followed by an ellipsis. -/
inductive Cut (original : JsString) : JsString → Prop
  | whole : Cut original original
  | shortened (kept : ℕ) (h : kept < original.length) : Cut original (original.take kept ++ ellipsis)

theorem truncate_cut (text : JsString) (max : ℕ) : Cut text (truncate text max) := by
  unfold truncate
  split
  · next h => exact .shortened max h
  · exact .whole

theorem truncateToBudget_cut (text : JsString) {max : ℤ} (h : 0 < max) :
    Cut text (truncateToBudget text max) := by
  unfold truncateToBudget
  split
  · exact .whole
  next hlong =>
    rw [if_neg (by omega)]
    split
    · exact .shortened 0 (by omega)
    · exact .shortened (max - 1).toNat (by omega)

theorem truncateToBudget_nil {text : JsString} {max : ℤ} (h : max ≤ 0) :
    truncateToBudget text max = [] := by
  unfold truncateToBudget
  split
  · exact List.length_eq_zero_iff.mp (by omega)
  · rfl

/-- A cut that leaves anything leaves the beginning. -/
theorem truncateToBudget_cut_of_ne_nil {text : JsString} {max : ℤ}
    (h : truncateToBudget text max ≠ []) : Cut text (truncateToBudget text max) := by
  refine truncateToBudget_cut text ?_
  by_contra hmax
  exact h (truncateToBudget_nil (by omega))

/-- A text that is too long is cut to the very size. -/
theorem truncateToBudget_length {text : JsString} {max : ℤ} (hlong : max < text.length)
    (hmax : 0 ≤ max) : ((truncateToBudget text max).length : ℤ) = max := by
  unfold truncateToBudget
  rw [if_neg (by omega)]
  split
  · rw [List.length_nil]
    omega
  split
  · next hone => rw [hone]; rfl
  · have hellipsis : ellipsis.length = 1 := rfl
    rw [List.length_append, List.length_take, hellipsis]
    omega

theorem truncateToBudget_length_le {text : JsString} {max : ℤ} (hmax : 0 ≤ max) :
    ((truncateToBudget text max).length : ℤ) ≤ max := by
  rcases lt_or_ge max (text.length : ℤ) with hlong | hshort
  · exact (truncateToBudget_length hlong hmax).le
  · rw [truncateToBudget, if_pos hshort]
    exact hshort

/-- What has been cut once and is cut again is a beginning of the first text all the same. -/
theorem Cut.of_truncate {text content : JsString} {max : ℕ} (h : Cut (truncate text max) content) :
    Cut text content := by
  by_cases hlong : text.length > max
  · have htext : truncate text max = text.take max ++ ellipsis := if_pos hlong
    rw [htext] at h
    have hellipsis : ellipsis.length = 1 := rfl
    have hlength : (text.take max).length = max := by
      rw [List.length_take]
      omega
    cases h with
    | whole => exact .shortened max hlong
    | shortened kept hkept =>
      rw [List.length_append, hlength, hellipsis] at hkept
      have hle : kept ≤ (text.take max).length := by omega
      rw [List.take_append_of_le_length hle, List.take_take, min_eq_left (by omega)]
      exact .shortened kept (by omega)
  · have htext : truncate text max = text := if_neg hlong
    rwa [htext] at h

/-! ## Measures -/

theorem estimateTokenCount_le_iff (text : JsString) {tokens : ℕ} :
    estimateTokenCount text ≤ tokens ↔ text.length ≤ tokens * ESTIMATED_CHARACTERS_PER_TOKEN := by
  unfold estimateTokenCount ESTIMATED_CHARACTERS_PER_TOKEN
  omega

/-- A cut to what remains takes no more than that. -/
def ContextBudget.Fits (budget : ContextBudget) : Prop :=
  ∀ text remaining, 0 ≤ remaining → (budget.measure (budget.truncate text remaining) : ℤ) ≤ remaining

theorem characterBudget_fits (limit : ℤ) : (characterBudget limit).Fits :=
  fun _ _ h => truncateToBudget_length_le h

theorem tokenBudget_fits (limit : ℤ) : (tokenBudget limit).Fits := by
  intro text remaining h
  have hlength : ((truncateToBudget text (remaining * ESTIMATED_CHARACTERS_PER_TOKEN)).length : ℤ) ≤
      remaining * ESTIMATED_CHARACTERS_PER_TOKEN :=
    truncateToBudget_length_le (mul_nonneg h (Int.natCast_nonneg _))
  have htokens : estimateTokenCount
      (truncateToBudget text (remaining * ESTIMATED_CHARACTERS_PER_TOKEN)) ≤ remaining.toNat := by
    rw [estimateTokenCount_le_iff]
    unfold ESTIMATED_CHARACTERS_PER_TOKEN at *
    omega
  show (estimateTokenCount (truncateToBudget text (remaining * ESTIMATED_CHARACTERS_PER_TOKEN)) : ℤ)
    ≤ remaining
  omega

/-- What a budget cuts, it cuts to the beginning. -/
def ContextBudget.Cuts (budget : ContextBudget) : Prop :=
  ∀ text remaining, budget.truncate text remaining ≠ [] → Cut text (budget.truncate text remaining)

theorem characterBudget_cuts (limit : ℤ) : (characterBudget limit).Cuts :=
  fun _ _ h => truncateToBudget_cut_of_ne_nil h

theorem tokenBudget_cuts (limit : ℤ) : (tokenBudget limit).Cuts :=
  fun _ _ h => truncateToBudget_cut_of_ne_nil h

/-! ## Compressing one entry -/

variable {N : Type}

theorem floorTokens_le (minimum : ℤ) (content : JsString) :
    floorTokens minimum content ≤ estimateTokenCount content := by
  unfold floorTokens
  rw [estimateTokenCount_le_iff, List.length_take]
  have hcontent := (estimateTokenCount_le_iff content).mp (le_refl _)
  omega

/-- Cutting an entry down by some of the tokens above its floor removes exactly these. -/
theorem compressed_tokens (content : JsString) {minimum removed : ℤ} (hminimum : 0 ≤ minimum)
    (hpos : 0 < removed)
    (hfloor : removed ≤ estimateTokenCount content - floorTokens minimum content) :
    (estimateTokenCount (truncateToBudget content
      (max (min (content.length : ℤ) minimum)
        ((estimateTokenCount content - removed) * ESTIMATED_CHARACTERS_PER_TOKEN))) : ℤ) =
      estimateTokenCount content - removed := by
  have hkept : min (content.length : ℤ) minimum ≤
      (floorTokens minimum content : ℤ) * ESTIMATED_CHARACTERS_PER_TOKEN := by
    have hle := (estimateTokenCount_le_iff
      (content.take (min (content.length : ℤ) minimum).toNat)).mp (le_refl _)
    rw [List.length_take] at hle
    unfold floorTokens ESTIMATED_CHARACTERS_PER_TOKEN at *
    omega
  have htarget : max (min (content.length : ℤ) minimum)
      ((estimateTokenCount content - removed) * ESTIMATED_CHARACTERS_PER_TOKEN) =
        (estimateTokenCount content - removed) * ESTIMATED_CHARACTERS_PER_TOKEN := by
    refine max_eq_right ?_
    unfold ESTIMATED_CHARACTERS_PER_TOKEN at *
    omega
  have hfloorNat := Int.natCast_nonneg (floorTokens minimum content)
  rw [htarget]
  have hlong : (estimateTokenCount content - removed) * ESTIMATED_CHARACTERS_PER_TOKEN <
      (content.length : ℤ) := by
    unfold estimateTokenCount ESTIMATED_CHARACTERS_PER_TOKEN at *
    omega
  have hlength := truncateToBudget_length hlong (by unfold ESTIMATED_CHARACTERS_PER_TOKEN; omega)
  generalize truncateToBudget content
    ((estimateTokenCount content - removed) * ESTIMATED_CHARACTERS_PER_TOKEN) = cut at hlength ⊢
  generalize (estimateTokenCount content : ℤ) - removed = rest at hlength ⊢
  unfold estimateTokenCount ESTIMATED_CHARACTERS_PER_TOKEN at *
  omega

@[simp] theorem withContent_self (candidate : RankedTranscriptEntry N) :
    candidate.withContent candidate.entry.content = candidate := rfl

/-- What compression leaves of one entry. -/
structure Compressed (minimum asked : ℤ) (candidate : RankedTranscriptEntry N)
    (content : JsString) : Prop where
  cut : Cut candidate.entry.content content ∨ (minimum = 0 ∧ content = [])
  tokens : (estimateTokenCount content : ℤ) = estimateTokenCount candidate.entry.content -
    Draining.given asked (estimateTokenCount candidate.entry.content : ℤ)
      (floorTokens minimum candidate.entry.content)
  /-- A content that was changed takes fewer tokens. -/
  changed : content ≠ candidate.entry.content →
    estimateTokenCount content ≠ estimateTokenCount candidate.entry.content

theorem compressEntry_spec {minimum : ℤ} (hminimum : 0 ≤ minimum) (asked : ℤ)
    (candidate : RankedTranscriptEntry N) : ∃ content,
      Compressed minimum asked candidate content ∧
      compressEntry minimum asked candidate =
        (candidate.withContent content, asked - Draining.given asked
          (estimateTokenCount candidate.entry.content : ℤ)
          (floorTokens minimum candidate.entry.content)) := by
  have hfloor := floorTokens_le minimum candidate.entry.content
  have hnothing : min asked ((estimateTokenCount candidate.entry.content : ℤ) -
      floorTokens minimum candidate.entry.content) ≤ 0 → ∃ content,
      Compressed minimum asked candidate content ∧ (candidate, asked) =
        (candidate.withContent content, asked - Draining.given asked
          (estimateTokenCount candidate.entry.content : ℤ)
          (floorTokens minimum candidate.entry.content)) := by
    intro h
    have hgiven : Draining.given asked (estimateTokenCount candidate.entry.content : ℤ)
        (floorTokens minimum candidate.entry.content) = 0 := max_eq_left h
    refine ⟨candidate.entry.content, ⟨.inl .whole, ?_, fun hne => absurd rfl hne⟩, ?_⟩
    · rw [hgiven, sub_zero]
    · rw [hgiven, sub_zero, withContent_self]
  unfold compressEntry
  split
  swap
  · next hdone => exact hnothing (le_trans (min_le_left _ _) (by omega))
  dsimp only
  split
  · next hnone => exact hnothing hnone
  next hexcess hremove =>
    have hgiven : Draining.given asked (estimateTokenCount candidate.entry.content : ℤ)
        (floorTokens minimum candidate.entry.content) =
        min asked ((estimateTokenCount candidate.entry.content : ℤ) -
          floorTokens minimum candidate.entry.content) := max_eq_right (by omega)
    have htokens := compressed_tokens candidate.entry.content hminimum
      (by omega : 0 < min asked ((estimateTokenCount candidate.entry.content : ℤ) -
        floorTokens minimum candidate.entry.content)) (min_le_right _ _)
    refine ⟨_, ⟨?_, by rw [hgiven]; exact htokens, fun _ => by omega⟩, ?_⟩
    · rcases lt_or_ge 0 (max (min (candidate.entry.content.length : ℤ) minimum)
        ((estimateTokenCount candidate.entry.content -
          min asked ((estimateTokenCount candidate.entry.content : ℤ) -
            floorTokens minimum candidate.entry.content)) * ESTIMATED_CHARACTERS_PER_TOKEN))
        with hpos | hzero
      · exact .inl (truncateToBudget_cut _ hpos)
      · right
        refine ⟨?_, truncateToBudget_nil hzero⟩
        have hlength : candidate.entry.content.length ≠ 0 := by
          intro hempty
          have : estimateTokenCount candidate.entry.content = 0 := by
            unfold estimateTokenCount ESTIMATED_CHARACTERS_PER_TOKEN
            omega
          omega
        have hmin := le_trans (le_max_left _ _) hzero
        omega
    · rw [htokens, hgiven, sub_sub_cancel]

end QuokyPlatform.ContextBuilding
