import QuokyPlatform.Messages.Rendering
import QuokyPlatform.Previews.CanonicalDiff

/-!
# Previews on Discord

A segment of the diff becomes one fenced block. Its own two fences are the only fence markers in it
exactly when the segment holds no marker and does not end with a backtick.
-/

namespace QuokyPlatform.Previews
open Chunking
set_option autoImplicit false
set_option maxHeartbeats 250000

/-- A preview: its texts and the diff. -/
structure PreviewArtifact where
  previewId : String
  header : JsString
  warning : Option JsString
  footer : JsString
  canonicalDiff : JsString
  attachmentFilename : String

/-- What follows the last part: the warning, when there is one, and the footer. -/
def previewTrailer (artifact : PreviewArtifact) : JsString :=
  let warning := artifact.warning.getD []
  (if warning ≠ [] then [NEWLINE] ++ warning else []) ++ [NEWLINE] ++ artifact.footer

def BACKTICK : CodeUnit := 0x60

/-- The marker of a fence: three backticks. -/
def FENCE : JsString := [BACKTICK, BACKTICK, BACKTICK]

/-- The number of a part among several. -/
def partPrefix (index total : ℕ) : JsString :=
  if total > 1 then
    units "[" ++ Messages.decimal index ++ units "/" ++ Messages.decimal total ++ units "]\n"
  else []

namespace Discord

def DISCORD_SAFE_LIMIT : ℤ := 1900
def FILE_ATTACHMENT_CHUNK_THRESHOLD : ℕ := 5
def PREVIEW_WRAPPER_RESERVE : ℤ := 40

def wrapDiffPart (payloadSegment : JsString) (index total : ℕ) : JsString :=
  partPrefix index total ++ FENCE ++ units "diff\n" ++ payloadSegment ++ FENCE

inductive AttachmentReason where
  | oversizedLine
  | partThreshold
  | wrappedOverflow
  | emptyBudget
  deriving DecidableEq, Repr

inductive PreviewPlan where
  | text (parts : List JsString)
  | attachment (reason : AttachmentReason)
  deriving DecidableEq, Repr

/-- The parts of a diff in its segments. -/
def wrapAll (segments : List JsString) : List JsString :=
  segments.mapIdx fun i segment => wrapDiffPart segment (i + 1) segments.length

def planPreviewDelivery (artifact : PreviewArtifact) (safeLimit : ℤ) (partThreshold : ℕ) :
    PreviewPlan :=
  let trailerReserve := (previewTrailer artifact).length
  let payloadBudget := safeLimit - PREVIEW_WRAPPER_RESERVE - trailerReserve
  match splitCanonicalDiff artifact.canonicalDiff payloadBudget with
  | .error .lineExceedsBudget => .attachment .oversizedLine
  | .error .emptyBudget => .attachment .emptyBudget
  | .ok segments =>
    if segments.length > partThreshold then .attachment .partThreshold
    else
      let parts := wrapAll segments
      let lastWithTrailer := (parts.getLast?.map (· ++ previewTrailer artifact)).getD []
      if (parts.any fun p => p.length > safeLimit) || lastWithTrailer.length > safeLimit then
        .attachment .wrappedOverflow
      else .text parts

/-- What a text plan is made of. -/
theorem planPreviewDelivery_text {artifact : PreviewArtifact} {limit : ℤ} {threshold : ℕ}
    {parts : List JsString} (h : planPreviewDelivery artifact limit threshold = .text parts) :
    ∃ segments, splitCanonicalDiff artifact.canonicalDiff
        (limit - PREVIEW_WRAPPER_RESERVE - (previewTrailer artifact).length) = .ok segments ∧
      parts = wrapAll segments ∧ (∀ part ∈ parts, (part.length : ℤ) ≤ limit) ∧
      ∀ part ∈ parts.getLast?, ((part ++ previewTrailer artifact).length : ℤ) ≤ limit := by
  rw [planPreviewDelivery] at h
  split at h
  · cases h
  · cases h
  next segments hsplit =>
    refine ⟨segments, hsplit, ?_⟩
    dsimp only at h
    split at h
    · cases h
    split at h
    · cases h
    next hover =>
      cases h
      simp only [Bool.or_eq_true, List.any_eq_true, decide_eq_true_eq, not_or, not_exists, not_and,
        not_lt] at hover
      refine ⟨rfl, hover.1, ?_⟩
      intro part hpart
      have hlast := hover.2
      rw [Option.mem_def.mp hpart] at hlast
      exact hlast

/-! ## Fence markers -/

/-- A fence marker begins at this place. -/
def FenceAt (text : JsString) (i : ℕ) : Prop := FENCE <+: text.drop i

/-- One fenced block: the only markers are the opening one and the closing one at the end. -/
def WellFenced (part : JsString) : Prop :=
  ∃ opening, opening + 3 < part.length ∧ ∀ i, FenceAt part i ↔ i = opening ∨ i + 3 = part.length

/-- No marker is in the text or arises behind its end. -/
def Clean (text : JsString) : Prop :=
  (∀ i, ¬ FenceAt text i) ∧ text.getLast? ≠ some BACKTICK

theorem fenceAt_iff {text : JsString} {i : ℕ} :
    FenceAt text i ↔ ∀ j < 3, text[i + j]? = some BACKTICK := by
  have hmarker : ∀ j (hj : j < FENCE.length), FENCE[j] = BACKTICK := by
    intro j hj
    have hmem : FENCE[j] ∈ List.replicate 3 BACKTICK := List.getElem_mem hj
    exact List.eq_of_mem_replicate hmem
  rw [FenceAt, List.prefix_iff_getElem?]
  simp only [List.getElem?_drop]
  constructor
  · intro h j hj
    rw [h j hj, hmarker j hj]
  · intro h j hj
    rw [h j hj, hmarker j hj]

theorem FenceAt.lt {text : JsString} {i : ℕ} (h : FenceAt text i) : i + 2 < text.length := by
  have hlast := fenceAt_iff.mp h 2 (by omega)
  exact (List.getElem?_eq_some_iff.mp hlast).1

/-- A marker lies on one side of what ends without a backtick. -/
theorem fenceAt_append {first second : JsString} (hfirst : first.getLast? ≠ some BACKTICK) {i : ℕ} :
    FenceAt (first ++ second) i ↔
      FenceAt first i ∨ first.length ≤ i ∧ FenceAt second (i - first.length) := by
  simp only [fenceAt_iff]
  constructor
  · intro h
    by_cases hi : first.length ≤ i
    · refine .inr ⟨hi, fun j hj => ?_⟩
      have hj' := h j hj
      rw [List.getElem?_append_right (by omega)] at hj'
      rw [show i - first.length + j = i + j - first.length by omega]
      exact hj'
    · left
      by_cases hend : i + 2 < first.length
      · intro j hj
        have hj' := h j hj
        rwa [List.getElem?_append_left (by omega)] at hj'
      · -- the marker would cover the last unit of the first text
        exfalso
        apply hfirst
        have hlast := h (first.length - 1 - i) (by omega)
        rw [List.getElem?_append_left (by omega),
          show i + (first.length - 1 - i) = first.length - 1 by omega] at hlast
        rw [List.getLast?_eq_getElem?]
        exact hlast
  · rintro (h | ⟨hi, h⟩) j hj
    · have hj' := h j hj
      rw [List.getElem?_append_left (List.getElem?_eq_some_iff.mp hj').1]
      exact hj'
    · have hj' := h j hj
      rw [List.getElem?_append_right (by omega),
        show i + j - first.length = i - first.length + j by omega]
      exact hj'

theorem not_fenceAt {text : JsString} (h : BACKTICK ∉ text) (i : ℕ) : ¬ FenceAt text i := by
  intro hfence
  exact h (List.mem_of_getElem? (fenceAt_iff.mp hfence 0 (by omega)))

theorem Clean.nil : Clean [] := by
  refine ⟨fun i hfence => ?_, by simp⟩
  have hlt := hfence.lt
  simp at hlt

/-- A text is clean when the two parts of it are, where a line ends between them. -/
theorem clean_append {first second : JsString} (hfirst : EndsLine first) :
    Clean (first ++ second) ↔ Clean first ∧ Clean second := by
  have hends : first.getLast? ≠ some BACKTICK := by
    rw [hfirst]
    decide
  have hmarks : (∀ i, ¬ FenceAt (first ++ second) i) ↔
      (∀ i, ¬ FenceAt first i) ∧ ∀ i, ¬ FenceAt second i := by
    simp only [fenceAt_append hends, not_or, not_and]
    constructor
    · intro h
      refine ⟨fun i => (h i).1, fun i => ?_⟩
      have hi := (h (first.length + i)).2 (by omega)
      rwa [Nat.add_sub_cancel_left] at hi
    · exact fun h i => ⟨h.1 i, fun _ => h.2 _⟩
  have hlast : (first ++ second).getLast? ≠ some BACKTICK ↔ second.getLast? ≠ some BACKTICK := by
    by_cases hsecond : second = []
    · simp [hsecond, hends]
    · rw [List.getLast?_append_of_ne_nil _ hsecond]
  simp only [Clean, hmarks, hlast]
  tauto

/-- A text is clean when each of its segments is. -/
theorem clean_flatten {segments : List JsString} (h : Terminated segments) :
    Clean segments.flatten ↔ ∀ segment ∈ segments, Clean segment := by
  induction segments with
  | nil => simp [Clean.nil]
  | cons first rest ih =>
    cases rest with
    | nil => simp
    | cons next more =>
      obtain ⟨hfirst, hmore⟩ := terminated_cons.mp h
      rw [List.flatten_cons, clean_append hfirst, ih hmore]
      simp

/-! ## The block around a segment -/

theorem backtick_not_mem_decimal (n : ℕ) : BACKTICK ∉ Messages.decimal n := by
  intro hmem
  have hback : BACKTICK ≠ 0x2D ∧ BACKTICK.toNat = 96 := by decide
  cases Messages.mem_decimal hmem with
  | inl h => exact hback.1 h
  | inr h => omega

theorem not_mem_partPrefix (index total : ℕ) : BACKTICK ∉ partPrefix index total := by
  rw [partPrefix]
  split
  · simp only [List.mem_append, not_or]
    exact ⟨⟨⟨⟨by decide, backtick_not_mem_decimal _⟩, by decide⟩, backtick_not_mem_decimal _⟩,
      by decide⟩
  · simp

/-- The markers of a block are its own two and those that its segment brings about. -/
theorem fenceAt_wrapDiffPart (segment : JsString) (index total i : ℕ) :
    FenceAt (wrapDiffPart segment index total) i ↔
      i = (partPrefix index total).length ∨ (partPrefix index total).length + 8 ≤ i ∧
        FenceAt (segment ++ FENCE) (i - ((partPrefix index total).length + 8)) := by
  have hprefix : (partPrefix index total).getLast? ≠ some BACKTICK := fun h =>
    not_mem_partPrefix index total (List.mem_of_getLast? h)
  have hopening : (FENCE ++ units "diff
").getLast? ≠ some BACKTICK := by decide
  have hown : ∀ k, FenceAt (FENCE ++ units "diff
") k ↔ k = 0 := by
    intro k
    constructor
    · intro hk
      have hlt := hk.lt
      have hcases : ∀ j : Fin 8, FENCE <+: (FENCE ++ units "diff
").drop j → j = 0 := by decide
      have hlen : (FENCE ++ units "diff
").length = 8 := by decide
      exact congrArg Fin.val (hcases ⟨k, by omega⟩ hk)
    · rintro rfl
      exact List.prefix_append _ _
  have hsplit : wrapDiffPart segment index total =
      partPrefix index total ++ (FENCE ++ units "diff
" ++ (segment ++ FENCE)) := by
    simp [wrapDiffPart]
  rw [hsplit, fenceAt_append hprefix, fenceAt_append hopening, hown]
  have hnone := not_fenceAt (not_mem_partPrefix index total) i
  have hlen : (FENCE ++ units "diff
").length = 8 := by decide
  rw [hlen]
  constructor
  · rintro (h | ⟨hle, h | ⟨hle', h⟩⟩)
    · exact absurd h hnone
    · exact .inl (by omega)
    · refine .inr ⟨by omega, ?_⟩
      rwa [Nat.sub_sub] at h
  · rintro (h | ⟨hle, h⟩)
    · exact .inr ⟨by omega, .inl (by omega)⟩
    · exact .inr ⟨by omega, .inr ⟨by omega, by rwa [Nat.sub_sub]⟩⟩

theorem length_wrapDiffPart (segment : JsString) (index total : ℕ) :
    (wrapDiffPart segment index total).length =
      (partPrefix index total).length + 8 + segment.length + 3 := by
  have hlen : (FENCE ++ units "diff
").length = 8 := by decide
  have hfence : FENCE.length = 3 := by decide
  simp only [wrapDiffPart, List.length_append] at hlen ⊢
  omega

/-- A clean segment is closed by the one marker behind it. -/
theorem fenceAt_closed {segment : JsString} :
    Clean segment ↔ ∀ i, FenceAt (segment ++ FENCE) i → i = segment.length := by
  constructor
  · intro h i hi
    rw [fenceAt_append h.2] at hi
    cases hi with
    | inl hinner => exact absurd hinner (h.1 i)
    | inr hafter =>
      have hlt := hafter.2.lt
      simp only [FENCE, List.length_cons, List.length_nil] at hlt
      omega
  · intro h
    constructor
    · intro i hi
      have hlt := hi.lt
      have hat : FenceAt (segment ++ FENCE) i := by
        rw [fenceAt_iff] at hi ⊢
        intro j hj
        rw [List.getElem?_append_left (by omega)]
        exact hi j hj
      have heq := h i hat
      omega
    · intro hlast
      have hne : segment ≠ [] := by
        rintro rfl
        simp at hlast
      have hpos : 0 < segment.length := List.length_pos_iff.mpr hne
      have hat : FenceAt (segment ++ FENCE) (segment.length - 1) := by
        rw [fenceAt_iff]
        intro j hj
        cases j with
        | zero =>
          rw [List.getElem?_append_left (by omega), ← hlast, List.getLast?_eq_getElem?]
          rfl
        | succ j =>
          rw [List.getElem?_append_right (by omega),
            show segment.length - 1 + (j + 1) - segment.length = j by omega]
          have hall : ∀ k : Fin 2, FENCE[k.val]? = some BACKTICK := by decide
          exact hall ⟨j, by omega⟩
      have heq := h _ hat
      omega

/-- A part is one fenced block exactly when its segment is clean. -/
theorem wellFenced_wrapDiffPart {segment : JsString} {index total : ℕ} :
    WellFenced (wrapDiffPart segment index total) ↔ Clean segment := by
  have hlength := length_wrapDiffPart segment index total
  have hclose : FenceAt (segment ++ FENCE) segment.length := by
    show FENCE <+: (segment ++ FENCE).drop segment.length
    exact ⟨[], by simp⟩
  rw [fenceAt_closed]
  constructor
  · rintro ⟨opening, hopening, hmarks⟩ i hi
    have hfirst := (hmarks (partPrefix index total).length).mp
      ((fenceAt_wrapDiffPart segment index total _).mpr (.inl rfl))
    have hinner := (hmarks ((partPrefix index total).length + 8 + i)).mp
      ((fenceAt_wrapDiffPart segment index total _).mpr
        (.inr ⟨by omega, by rwa [Nat.add_sub_cancel_left]⟩))
    omega
  · intro h
    refine ⟨(partPrefix index total).length, by omega, fun i => ?_⟩
    rw [fenceAt_wrapDiffPart]
    constructor
    · rintro (hi | ⟨hle, hi⟩)
      · exact .inl hi
      · have hat := h _ hi
        exact .inr (by omega)
    · rintro (hi | hi)
      · exact .inl hi
      · refine .inr ⟨by omega, ?_⟩
        rwa [show i - ((partPrefix index total).length + 8) = segment.length by omega]

end Discord

end QuokyPlatform.Previews
