import QuokyPlatform.AgentPlans.Steps
import QuokyPlatform.Foundations.Reordering

/-! # Where the summaries stand

`normalizeSummaryPlacement` moves every summary to right after the last read it covers. The plan it
gives is the same plan: each step holds the same numbers under their new names, reading and
summarizing in the new order gives what it gave in the old one, and placing again moves nothing. -/

namespace QuokyPlatform.AgentPlans

set_option autoImplicit false
set_option maxHeartbeats 250000

/-! ## Numbers -/

section numbers

variable {α : Type*} {steps : List α} {number : ℕ} {step : α}

theorem stepAt_eq_some :
    stepAt steps number = some step ↔ 1 ≤ number ∧ steps[number - 1]? = some step := by
  unfold stepAt
  split
  · constructor
    · intro h
      cases h
    · rintro ⟨h, -⟩
      omega
  · exact ⟨fun h => ⟨by omega, h⟩, fun h => h.2⟩

theorem stepAt_succ (index : ℕ) : stepAt steps (index + 1) = steps[index]? := rfl

theorem bounds_of_stepAt (h : stepAt steps number = some step) :
    1 ≤ number ∧ number ≤ steps.length := by
  obtain ⟨hone, hstep⟩ := stepAt_eq_some.mp h
  have := (List.getElem?_eq_some_iff.mp hstep).1
  exact ⟨hone, by omega⟩

theorem exists_stepAt (hone : 1 ≤ number) (hle : number ≤ steps.length) :
    ∃ step, stepAt steps number = some step := by
  refine ⟨steps[number - 1], stepAt_eq_some.mpr ⟨hone, ?_⟩⟩
  exact List.getElem?_eq_getElem (by omega)

end numbers

/-- The numbers a step holds. -/
def ValidatedAgentStep.numbers : ValidatedAgentStep → List ℕ
  | .read step => (step.ref.map ValidatedRef.step).toList
  | .summarize step => step.sources

theorem mem_numbers_read {read : ValidatedRead} {n : ℕ} :
    n ∈ (ValidatedAgentStep.read read).numbers ↔ ∃ ref, read.ref = some ref ∧ ref.step = n := by
  simp [ValidatedAgentStep.numbers]

/-- What the numbers of a plan may name: an earlier read. -/
structure WellNumbered (steps : List ValidatedAgentStep) : Prop where
  ref : ∀ number read ref, stepAt steps number = some (.read read) → read.ref = some ref →
    ref.step < number ∧ ∃ source, stepAt steps ref.step = some (.read source)
  covers : ∀ number summary, stepAt steps number = some (.summarize summary) →
    summary.sources ≠ [] ∧ ∀ source ∈ summary.sources,
      source < number ∧ ∃ read, stepAt steps source = some (.read read)

theorem WellNumbered.named {steps : List ValidatedAgentStep} (h : WellNumbered steps) {number n : ℕ}
    {step : ValidatedAgentStep} (hstep : stepAt steps number = some step) (hn : n ∈ step.numbers) :
    n < number ∧ ∃ read, stepAt steps n = some (.read read) := by
  cases step with
  | read read =>
    obtain ⟨ref, href, rfl⟩ := mem_numbers_read.mp hn
    exact h.ref number read ref hstep href
  | summarize summary => exact (h.covers number summary hstep).2 n hn

theorem WellNumbered.named_getElem {steps : List ValidatedAgentStep} (h : WellNumbered steps) {k n : ℕ}
    {step : ValidatedAgentStep} (hstep : steps[k]? = some step) (hn : n ∈ step.numbers) :
    n < k + 1 ∧ ∃ read, stepAt steps n = some (.read read) :=
  h.named (stepAt_eq_some.mpr ⟨Nat.le_add_left 1 k, hstep⟩) hn

/-- Every summary stands right after its last read, but for others that stand there too. -/
def SummariesPlaced (steps : List ValidatedAgentStep) : Prop :=
  ∀ number summary, stepAt steps number = some (.summarize summary) →
    ∃ last, summary.sources.max? = some last ∧ last < number ∧
      ∀ between, last < between → between < number →
        ∃ other, stepAt steps between = some (.summarize other) ∧ other.sources.max? = some last

/-! ## The order -/

section order

variable {steps : List ValidatedAgentStep}

theorem closesOn_iff {number index : ℕ} :
    closesOn steps number index = true ↔
      ∃ summary, steps[index]? = some (.summarize summary) ∧ summary.sources.max? = some number := by
  unfold closesOn
  split
  · rename_i summary hindex
    simp only [decide_eq_true_eq]
    exact ⟨fun h => ⟨summary, hindex, h⟩, fun ⟨other, hother, h⟩ => by
      rw [hindex] at hother
      cases hother
      exact h⟩
  · rename_i hnone
    constructor
    · intro h
      cases h
    · rintro ⟨summary, hindex, -⟩
      exact absurd hindex (hnone summary)

/-- What a block holds: its read first, then the summaries that close on it. -/
theorem placementBlock_read {index : ℕ} {read : ValidatedRead}
    (h : steps[index]? = some (.read read)) :
    placementBlock steps index =
      index :: (List.range steps.length).filter (closesOn steps (index + 1)) := by
  rw [placementBlock, h]

theorem mem_placementBlock {index k : ℕ} :
    k ∈ placementBlock steps index ↔
      (∃ read, steps[index]? = some (.read read)) ∧
        (k = index ∨ closesOn steps (index + 1) k = true) := by
  unfold placementBlock
  split
  · rename_i read hread
    rw [List.mem_cons, List.mem_filter, List.mem_range]
    constructor
    · rintro (rfl | ⟨-, hk⟩)
      · exact ⟨⟨read, hread⟩, Or.inl rfl⟩
      · exact ⟨⟨read, hread⟩, Or.inr hk⟩
    · rintro ⟨-, rfl | hk⟩
      · exact Or.inl rfl
      · obtain ⟨summary, hsummary, -⟩ := closesOn_iff.mp hk
        exact Or.inr ⟨(List.getElem?_eq_some_iff.mp hsummary).1, hk⟩
  · rename_i hnot
    constructor
    · intro h
      cases h
    · rintro ⟨⟨read, hread⟩, -⟩
      exact absurd hread (hnot read)

/-- The block of a step: that of the read itself, or of the last read the summary covers. -/
theorem WellNumbered.exists_block (h : WellNumbered steps) {k : ℕ} (hk : k < steps.length) :
    ∃ index, index < steps.length ∧ k ∈ placementBlock steps index := by
  have hstep := List.getElem?_eq_getElem hk
  cases hkind : steps[k] with
  | read read =>
    rw [hkind] at hstep
    exact ⟨k, hk, mem_placementBlock.mpr ⟨⟨read, hstep⟩, Or.inl rfl⟩⟩
  | summarize summary =>
    rw [hkind] at hstep
    obtain ⟨hne, hall⟩ := h.covers (k + 1) summary hstep
    obtain ⟨last, hlast⟩ := Option.ne_none_iff_exists'.mp
      (fun hnone => hne (List.max?_eq_none_iff.mp hnone))
    obtain ⟨-, read, hread⟩ := hall last (List.max?_mem hlast)
    obtain ⟨hone, hindex⟩ := stepAt_eq_some.mp hread
    refine ⟨last - 1, (List.getElem?_eq_some_iff.mp hindex).1,
      mem_placementBlock.mpr ⟨⟨read, hindex⟩, Or.inr (closesOn_iff.mpr ⟨summary, hstep, ?_⟩)⟩⟩
    rw [hlast]
    congr 1
    omega

theorem block_unique {i j k : ℕ} (hi : k ∈ placementBlock steps i)
    (hj : k ∈ placementBlock steps j) : i = j := by
  obtain ⟨⟨read, hread⟩, hki⟩ := mem_placementBlock.mp hi
  obtain ⟨⟨other, hother⟩, hkj⟩ := mem_placementBlock.mp hj
  rcases hki with rfl | hki
  · rcases hkj with rfl | hkj
    · rfl
    · obtain ⟨summary, hsummary, -⟩ := closesOn_iff.mp hkj
      rw [hread] at hsummary
      cases hsummary
  · obtain ⟨summary, hsummary, hmax⟩ := closesOn_iff.mp hki
    rcases hkj with rfl | hkj
    · rw [hother] at hsummary
      cases hsummary
    · obtain ⟨summary', hsummary', hmax'⟩ := closesOn_iff.mp hkj
      rw [hsummary] at hsummary'
      cases hsummary'
      rw [hmax] at hmax'
      cases hmax'
      rfl

theorem nodup_placementBlock (index : ℕ) : (placementBlock steps index).Nodup := by
  unfold placementBlock
  split
  · rename_i read hread
    refine List.nodup_cons.mpr ⟨fun hmem => ?_, List.nodup_range.filter _⟩
    obtain ⟨summary, hsummary, -⟩ := closesOn_iff.mp (List.mem_filter.mp hmem).2
    rw [hread] at hsummary
    cases hsummary
  · exact List.nodup_nil

theorem nodup_placementOrder : (placementOrder steps).Nodup := by
  refine List.nodup_flatMap.mpr ⟨fun index _ => nodup_placementBlock index, ?_⟩
  refine List.nodup_range.imp fun {i j} hne => ?_
  exact fun k hi hj => hne (block_unique hi hj)

theorem WellNumbered.perm (h : WellNumbered steps) :
    (placementOrder steps).Perm (List.range steps.length) := by
  refine (List.perm_ext_iff_of_nodup nodup_placementOrder List.nodup_range).mpr fun k => ?_
  rw [placementOrder, List.mem_flatMap, List.mem_range]
  constructor
  · rintro ⟨index, hindex, hk⟩
    obtain ⟨-, rfl | hk⟩ := mem_placementBlock.mp hk
    · exact List.mem_range.mp hindex
    · obtain ⟨summary, hsummary, -⟩ := closesOn_iff.mp hk
      exact (List.getElem?_eq_some_iff.mp hsummary).1
  · intro hk
    obtain ⟨index, hindex, hmem⟩ := h.exists_block hk
    exact ⟨index, List.mem_range.mpr hindex, hmem⟩

/-- The order cut at a block. -/
theorem placementOrder_split {index : ℕ} (h : index < steps.length) :
    ∃ before after, placementOrder steps = before ++ (placementBlock steps index ++ after) ∧
      (∀ i k, i < index → k ∈ placementBlock steps i → k ∈ before) := by
  obtain ⟨d, hd⟩ := Nat.exists_eq_add_of_lt h
  refine ⟨(List.range index).flatMap (placementBlock steps),
    (((List.range d).map (index + 1 + ·)).flatMap (placementBlock steps)), ?_, ?_⟩
  · rw [placementOrder, show steps.length = index + 1 + d by omega, List.range_add,
      List.flatMap_append, List.range_succ, List.flatMap_append, List.append_assoc]
    simp
  · intro i k hi hk
    exact List.mem_flatMap.mpr ⟨i, List.mem_range.mpr hi, hk⟩

theorem idxOf_lt_of_append {before after : List ℕ} {a b : ℕ} (hnodup : (before ++ after).Nodup)
    (ha : a ∈ before) (hb : b ∈ after) : (before ++ after).idxOf a < (before ++ after).idxOf b := by
  have hnot : b ∉ before := fun hmem => (List.nodup_append.mp hnodup).2.2 b hmem b hb rfl
  rw [List.idxOf_append, if_pos ha, List.idxOf_append, if_neg hnot]
  have := List.idxOf_lt_length_of_mem ha
  omega

/-- A step of an earlier block comes first. -/
theorem idxOf_lt_of_block {i j a b : ℕ} (hij : i < j) (ha : a ∈ placementBlock steps i)
    (hb : b ∈ placementBlock steps j) :
    (placementOrder steps).idxOf a < (placementOrder steps).idxOf b := by
  obtain ⟨⟨read, hread⟩, -⟩ := mem_placementBlock.mp hb
  obtain ⟨before, after, horder, hbefore⟩ :=
    placementOrder_split (List.getElem?_eq_some_iff.mp hread).1
  have hnodup : (placementOrder steps).Nodup := nodup_placementOrder
  rw [horder] at hnodup ⊢
  exact idxOf_lt_of_append hnodup (hbefore i a hij ha) (List.mem_append_left _ hb)

/-- A read comes before the summaries that close on it. -/
theorem idxOf_lt_of_closes {index k : ℕ} (hk : k ∈ placementBlock steps index) (hne : k ≠ index) :
    (placementOrder steps).idxOf index < (placementOrder steps).idxOf k := by
  obtain ⟨⟨read, hread⟩, hcloses⟩ := mem_placementBlock.mp hk
  obtain ⟨before, after, horder, -⟩ :=
    placementOrder_split (List.getElem?_eq_some_iff.mp hread).1
  have hnodup : (placementOrder steps).Nodup := nodup_placementOrder
  have hblock := placementBlock_read hread
  rw [hblock] at hk
  rw [hblock, List.cons_append, List.append_cons] at horder
  rw [horder] at hnodup ⊢
  have htail := (List.mem_cons.mp hk).resolve_left hne
  exact idxOf_lt_of_append hnodup (List.mem_append_right _ List.mem_cons_self)
    (List.mem_append_left _ htail)

/-- The last read a summary covers, and the block the summary is put in. -/
theorem WellNumbered.last_read (h : WellNumbered steps) {k : ℕ} {summary : ValidatedSummary}
    (hk : steps[k]? = some (.summarize summary)) :
    ∃ last read, summary.sources.max? = some (last + 1) ∧ last < k ∧
      steps[last]? = some (.read read) ∧ k ∈ placementBlock steps last := by
  obtain ⟨hne, hall⟩ := h.covers (k + 1) summary hk
  obtain ⟨number, hnumber⟩ := Option.ne_none_iff_exists'.mp
    (fun hnone => hne (List.max?_eq_none_iff.mp hnone))
  obtain ⟨hlt, read, hread⟩ := hall number (List.max?_mem hnumber)
  obtain ⟨hone, hindex⟩ := stepAt_eq_some.mp hread
  obtain ⟨last, rfl⟩ := Nat.exists_eq_add_of_le' hone
  exact ⟨last, read, hnumber, by omega, hindex,
    mem_placementBlock.mpr ⟨⟨read, hindex⟩, Or.inr (closesOn_iff.mpr ⟨summary, hk, hnumber⟩)⟩⟩

/-- Every step still comes after those it names. -/
theorem WellNumbered.idxOf_lt (h : WellNumbered steps) {k source : ℕ} {step : ValidatedAgentStep}
    (hk : steps[k]? = some step) (hsource : source + 1 ∈ step.numbers) :
    (placementOrder steps).idxOf source < (placementOrder steps).idxOf k := by
  obtain ⟨hlt, other, hother⟩ := h.named_getElem hk hsource
  have hown : source ∈ placementBlock steps source :=
    mem_placementBlock.mpr ⟨⟨other, hother⟩, Or.inl rfl⟩
  cases step with
  | read read =>
    exact idxOf_lt_of_block (by omega) hown (mem_placementBlock.mpr ⟨⟨read, hk⟩, Or.inl rfl⟩)
  | summarize summary =>
    obtain ⟨last, read, hmax, hlast, hread, hblock⟩ := h.last_read hk
    have hle : source + 1 ≤ last + 1 := (List.max?_eq_some_iff.mp hmax).2 _ hsource
    rcases Nat.lt_or_ge source last with hearlier | hsame
    · exact idxOf_lt_of_block hearlier hown hblock
    · obtain rfl : source = last := by omega
      exact idxOf_lt_of_closes hblock (by omega)

theorem filter_eq_flatMap (p : ℕ → Bool) (indices : List ℕ) :
    indices.filter p = indices.flatMap fun k => if p k then [k] else [] := by
  induction indices with
  | nil => rfl
  | cons k indices ih =>
    rw [List.filter_cons, List.flatMap_cons, ← ih]
    split <;> rfl

/-- The steps that are reads keep their order. -/
theorem filter_placementOrder :
    (placementOrder steps).filter (fun k => (steps[k]?).any ValidatedAgentStep.isRead) =
      (List.range steps.length).filter fun k => (steps[k]?).any ValidatedAgentStep.isRead := by
  rw [placementOrder, List.filter_flatMap, filter_eq_flatMap]
  refine List.flatMap_congr fun index _ => ?_
  unfold placementBlock
  cases hindex : steps[index]? with
  | none => simp
  | some step =>
    cases step with
    | summarize summary => simp [ValidatedAgentStep.isRead]
    | read read =>
      have htail : ((List.range steps.length).filter (closesOn steps (index + 1))).filter
          (fun k => (steps[k]?).any ValidatedAgentStep.isRead) = [] := by
        rw [List.filter_eq_nil_iff]
        intro k hk
        obtain ⟨summary, hsummary, -⟩ := closesOn_iff.mp (List.mem_filter.mp hk).2
        rw [hsummary]
        exact Bool.false_ne_true
      rw [List.filter_cons, htail]
      simp [hindex, ValidatedAgentStep.isRead]

end order

/-! ## The placed plan -/

section placed

variable {steps : List ValidatedAgentStep}

/-- The steps a step names, by position. -/
def ValidatedAgentStep.names (step : ValidatedAgentStep) : List ℕ := step.numbers.map (· - 1)

def relabel (new : ℕ → ℕ) (step : ValidatedAgentStep) : ValidatedAgentStep :=
  step.renumber fun number => new (number - 1) + 1

theorem numbers_renumber (new : ℕ → ℕ) (step : ValidatedAgentStep) :
    (step.renumber new).numbers = step.numbers.map new := by
  cases step with
  | read read => cases hread : read.ref <;> simp [ValidatedAgentStep.renumber,
      ValidatedAgentStep.numbers, hread]
  | summarize summary => rfl

theorem renumber_congr {f g : ℕ → ℕ} {step : ValidatedAgentStep}
    (h : ∀ n ∈ step.numbers, f n = g n) : step.renumber f = step.renumber g := by
  cases step with
  | read read =>
    unfold ValidatedAgentStep.renumber
    cases href : read.ref with
    | none => simp [href]
    | some ref => simp [href, h ref.step (mem_numbers_read.mpr ⟨ref, href, rfl⟩)]
  | summarize summary =>
    have hmap : summary.sources.map f = summary.sources.map g := List.map_congr_left h
    simp [ValidatedAgentStep.renumber, hmap]

theorem renumber_id {f : ℕ → ℕ} {step : ValidatedAgentStep} (h : ∀ n ∈ step.numbers, f n = n) :
    step.renumber f = step := by
  rw [renumber_congr (g := id) h]
  cases step with
  | read read =>
    obtain ⟨entry, args, range, ref⟩ := read
    cases ref <;> rfl
  | summarize summary => simp [ValidatedAgentStep.renumber]

theorem idxOf?_of_mem {order : List ℕ} {k : ℕ} (h : k ∈ order) :
    order.idxOf? k = some (order.idxOf k) := by
  cases hindex : order.idxOf? k with
  | none => exact absurd h (List.idxOf?_eq_none_iff.mp hindex)
  | some i => rw [List.idxOf_eq_getD_idxOf?, hindex, Option.getD_some]

/-- The number of a step after the placement. -/
def newNumber (steps : List ValidatedAgentStep) (number : ℕ) : ℕ :=
  (placementOrder steps).idxOf (number - 1) + 1

theorem WellNumbered.renumber_eq (h : WellNumbered steps) {number : ℕ} (hone : 1 ≤ number)
    (hle : number ≤ steps.length) :
    (normalizeSummaryPlacement steps).renumber number = some (newNumber steps number) := by
  have hlength := h.perm.length_eq
  rw [List.length_range] at hlength
  have hmem : number - 1 ∈ placementOrder steps :=
    h.perm.mem_iff.mpr (List.mem_range.mpr (by omega))
  unfold normalizeSummaryPlacement
  rw [if_neg (fun hne => hne hlength)]
  show (if number = 0 then none else _) = _
  rw [if_neg (by omega), idxOf?_of_mem hmem]
  rfl

theorem WellNumbered.placed_eq (h : WellNumbered steps) :
    (normalizeSummaryPlacement steps).steps =
      Reordering.reorder relabel (placementOrder steps) steps := by
  have hlength := h.perm.length_eq
  rw [List.length_range] at hlength
  have hrenumber : ∀ number, 1 ≤ number → number ≤ steps.length →
      (if number = 0 then none else
        ((placementOrder steps).idxOf? (number - 1)).map (· + 1)) = some (newNumber steps number) := by
    intro number hone hle
    have hmem : number - 1 ∈ placementOrder steps :=
      h.perm.mem_iff.mpr (List.mem_range.mpr (by omega))
    rw [if_neg (by omega), idxOf?_of_mem hmem]
    rfl
  unfold normalizeSummaryPlacement
  rw [if_neg (fun hne => hne hlength)]
  refine List.filterMap_congr fun k _ => ?_
  cases hk : steps[k]? with
  | none => rfl
  | some step =>
    show some _ = some _
    rw [relabel, renumber_congr]
    intro n hn
    obtain ⟨-, read, hread⟩ := h.named_getElem hk hn
    obtain ⟨hone, hle⟩ := bounds_of_stepAt hread
    exact congrArg (fun found => found.getD 0) (hrenumber n hone hle)

theorem WellNumbered.legal (h : WellNumbered steps) :
    Reordering.Legal ValidatedAgentStep.names ValidatedAgentStep.isRead (placementOrder steps)
      steps := by
  have hnamed : ∀ k step, steps[k]? = some step → ∀ n ∈ step.names,
      n < k ∧ (placementOrder steps).idxOf n < (placementOrder steps).idxOf k := by
    intro k step hk n hn
    obtain ⟨number, hnumber, rfl⟩ := List.mem_map.mp hn
    obtain ⟨hlt, read, hread⟩ := h.named_getElem hk hnumber
    obtain ⟨hone, -⟩ := bounds_of_stepAt hread
    obtain ⟨n, rfl⟩ := Nat.exists_eq_add_of_le' hone
    exact ⟨by omega, h.idxOf_lt hk hnumber⟩
  exact ⟨h.perm, filter_placementOrder, fun k step hk n hn => (hnamed k step hk n hn).1,
    fun k step hk n hn => (hnamed k step hk n hn).2⟩

theorem WellNumbered.length_order (h : WellNumbered steps) :
    (placementOrder steps).length = steps.length := by
  rw [h.perm.length_eq, List.length_range]

theorem WellNumbered.idxOf_getElem (h : WellNumbered steps) {k : ℕ} (hk : k < steps.length) :
    (placementOrder steps)[(placementOrder steps).idxOf k]? = some k := by
  have hmem : k ∈ placementOrder steps := h.perm.mem_iff.mpr (List.mem_range.mpr hk)
  rw [List.getElem?_eq_getElem (List.idxOf_lt_length_of_mem hmem), List.getElem_idxOf]

theorem WellNumbered.getElem?_placed (h : WellNumbered steps) {j k : ℕ}
    (hj : (placementOrder steps)[j]? = some k) {step : ValidatedAgentStep}
    (hk : steps[k]? = some step) :
    (normalizeSummaryPlacement steps).steps[j]? = some (step.renumber (newNumber steps)) := by
  rw [h.placed_eq, h.legal.getElem?_reorder, hj, Option.bind_some, hk]
  rfl

/-- Every step is found under its new number, and holds new numbers. -/
theorem WellNumbered.stepAt_placed (h : WellNumbered steps) {number : ℕ} {step : ValidatedAgentStep}
    (hstep : stepAt steps number = some step) :
    stepAt (normalizeSummaryPlacement steps).steps (newNumber steps number) =
      some (step.renumber (newNumber steps)) := by
  obtain ⟨hone, hindex⟩ := stepAt_eq_some.mp hstep
  rw [newNumber, stepAt_succ]
  exact h.getElem?_placed (h.idxOf_getElem (List.getElem?_eq_some_iff.mp hindex).1) hindex

theorem WellNumbered.length_placed (h : WellNumbered steps) :
    (normalizeSummaryPlacement steps).steps.length = steps.length := by
  rw [h.placed_eq, Reordering.reorder]
  have hall : ∀ k ∈ placementOrder steps, ((steps[k]?).map
      (relabel fun n => (placementOrder steps).idxOf n)).isSome = true := by
    intro k hk
    have hlt := List.mem_range.mp (h.perm.mem_iff.mp hk)
    rw [List.getElem?_eq_getElem hlt]
    rfl
  rw [List.length_filterMap_eq_countP, List.countP_eq_length.mpr hall, h.length_order]

theorem WellNumbered.exists_old (h : WellNumbered steps) {new : ℕ} {step : ValidatedAgentStep}
    (hstep : stepAt (normalizeSummaryPlacement steps).steps new = some step) :
    ∃ number old, stepAt steps number = some old ∧ newNumber steps number = new ∧
      step = old.renumber (newNumber steps) := by
  obtain ⟨hone, hle⟩ := bounds_of_stepAt hstep
  rw [h.length_placed, ← h.length_order] at hle
  obtain ⟨j, rfl⟩ := Nat.exists_eq_add_of_le' hone
  have hj : (placementOrder steps)[j]? = some (placementOrder steps)[j] :=
    List.getElem?_eq_getElem (by omega)
  have hmem : (placementOrder steps)[j] ∈ placementOrder steps := List.getElem_mem _
  have hlt := List.mem_range.mp (h.perm.mem_iff.mp hmem)
  have hold : stepAt steps ((placementOrder steps)[j] + 1) = some steps[(placementOrder steps)[j]] :=
    List.getElem?_eq_getElem hlt
  have hnew : newNumber steps ((placementOrder steps)[j] + 1) = j + 1 := by
    rw [newNumber, Nat.add_sub_cancel, List.Nodup.idxOf_getElem nodup_placementOrder]
  refine ⟨_, _, hold, hnew, ?_⟩
  have hfound := h.stepAt_placed hold
  rw [hnew, hstep] at hfound
  exact Option.some.inj hfound

theorem WellNumbered.newNumber_lt (h : WellNumbered steps) {number n : ℕ}
    {step : ValidatedAgentStep} (hstep : stepAt steps number = some step) (hn : n ∈ step.numbers) :
    newNumber steps n < newNumber steps number := by
  obtain ⟨hone, hindex⟩ := stepAt_eq_some.mp hstep
  obtain ⟨-, read, hread⟩ := h.named hstep hn
  obtain ⟨hpos, -⟩ := bounds_of_stepAt hread
  have hnamed : n - 1 + 1 ∈ step.numbers := by rwa [Nat.sub_add_cancel hpos]
  have := h.idxOf_lt hindex hnamed
  unfold newNumber
  omega

/-- The last read a summary covers stays the last one. -/
theorem WellNumbered.max_newNumber (h : WellNumbered steps) {k last : ℕ} {summary : ValidatedSummary}
    (hk : steps[k]? = some (.summarize summary)) (hlast : summary.sources.max? = some (last + 1)) :
    (summary.sources.map (newNumber steps)).max? = some (newNumber steps (last + 1)) := by
  have hmem := List.max?_mem hlast
  refine List.max?_eq_some_iff.mpr ⟨List.mem_map_of_mem hmem, fun new hnew => ?_⟩
  obtain ⟨source, hsource, rfl⟩ := List.mem_map.mp hnew
  obtain ⟨-, read, hread⟩ := (h.covers (k + 1) summary hk).2 source hsource
  obtain ⟨-, other, hother⟩ := (h.covers (k + 1) summary hk).2 (last + 1) hmem
  have hle : source ≤ last + 1 := (List.max?_eq_some_iff.mp hlast).2 _ hsource
  rcases Nat.eq_or_lt_of_le hle with rfl | hlt
  · exact Nat.le_refl _
  · obtain ⟨hone, hindex⟩ := stepAt_eq_some.mp hread
    have := idxOf_lt_of_block (i := source - 1) (j := last) (by omega)
      (mem_placementBlock.mpr ⟨⟨read, hindex⟩, Or.inl rfl⟩)
      (mem_placementBlock.mpr ⟨⟨other, hother⟩, Or.inl rfl⟩)
    rw [newNumber, newNumber, Nat.add_sub_cancel]
    omega

theorem WellNumbered.placed (h : WellNumbered steps) :
    WellNumbered (normalizeSummaryPlacement steps).steps := by
  constructor
  · intro new read ref hread href
    obtain ⟨number, old, hold, rfl, hsame⟩ := h.exists_old hread
    cases old with
    | summarize summary => cases hsame
    | read old =>
      injection hsame with hsame
      rw [hsame] at href
      obtain ⟨oldRef, hoption, rfl⟩ := Option.map_eq_some_iff.mp href
      have hnumber : oldRef.step ∈ (ValidatedAgentStep.read old).numbers :=
        mem_numbers_read.mpr ⟨oldRef, hoption, rfl⟩
      obtain ⟨-, source, hsource⟩ := h.named hold hnumber
      exact ⟨h.newNumber_lt hold hnumber, _, h.stepAt_placed hsource⟩
  · intro new summary hsummary
    obtain ⟨number, old, hold, rfl, hsame⟩ := h.exists_old hsummary
    cases old with
    | read read => cases hsame
    | summarize old =>
      injection hsame with hsame
      obtain ⟨hne, hall⟩ := h.covers number old hold
      rw [hsame]
      refine ⟨by simpa using hne, fun source hsource => ?_⟩
      obtain ⟨n, hn, rfl⟩ := List.mem_map.mp hsource
      obtain ⟨-, read, hread⟩ := hall n hn
      exact ⟨h.newNumber_lt hold hn, _, h.stepAt_placed hread⟩

theorem WellNumbered.summariesPlaced (h : WellNumbered steps) :
    SummariesPlaced (normalizeSummaryPlacement steps).steps := by
  intro new summary hsummary
  obtain ⟨number, old, hold, rfl, hsame⟩ := h.exists_old hsummary
  cases old with
  | read read => cases hsame
  | summarize old =>
    injection hsame with hsame
    obtain ⟨hone, hindex⟩ := stepAt_eq_some.mp hold
    obtain ⟨last, read, hmax, hlt, hread, hblock⟩ := h.last_read hindex
    obtain ⟨before, after, horder, -⟩ :=
      placementOrder_split (List.getElem?_eq_some_iff.mp hread).1
    have hnodup : (placementOrder steps).Nodup := nodup_placementOrder
    rw [placementBlock_read hread] at horder hblock
    have hclosing : number - 1 ∈ (List.range steps.length).filter (closesOn steps (last + 1)) :=
      (List.mem_cons.mp hblock).resolve_left (by omega)
    have hfirst : (placementOrder steps).idxOf last = before.length := by
      rw [horder] at hnodup ⊢
      have hnot : last ∉ before := fun hmem =>
        (List.nodup_append.mp hnodup).2.2 last hmem last (by simp) rfl
      rw [List.idxOf_append, if_neg hnot, List.cons_append, List.idxOf_cons_self, Nat.zero_add]
    have hbound : (placementOrder steps).idxOf (number - 1) < before.length + 1 +
        ((List.range steps.length).filter (closesOn steps (last + 1))).length := by
      rw [horder] at hnodup ⊢
      have hnot : number - 1 ∉ before := fun hmem => (List.nodup_append.mp hnodup).2.2
        (number - 1) hmem (number - 1) (List.mem_append_left _ hblock) rfl
      rw [List.idxOf_append, if_neg hnot, List.idxOf_append, if_pos hblock]
      have := List.idxOf_lt_length_of_mem hblock
      rw [List.length_cons] at this
      omega
    rw [hsame]
    refine ⟨_, h.max_newNumber hindex hmax, ?_, fun between hafter hbefore => ?_⟩
    · exact h.newNumber_lt hold (List.max?_mem hmax)
    · -- What stands between is in the block of the last read.
      unfold newNumber at hafter hbefore
      rw [Nat.add_sub_cancel, hfirst] at hafter
      obtain ⟨d, rfl⟩ : ∃ d, between = before.length + 1 + d + 1 :=
        ⟨between - before.length - 2, by omega⟩
      have hd : d < ((List.range steps.length).filter (closesOn steps (last + 1))).length := by omega
      have hat : (placementOrder steps)[before.length + 1 + d]? =
          some ((List.range steps.length).filter (closesOn steps (last + 1)))[d] := by
        rw [horder, List.getElem?_append_right (by omega), List.cons_append,
          show before.length + 1 + d - before.length = d + 1 by omega, List.getElem?_cons_succ,
          List.getElem?_append_left hd, List.getElem?_eq_getElem hd]
      obtain ⟨other, hother, hothermax⟩ :=
        closesOn_iff.mp (List.mem_filter.mp (List.getElem_mem hd)).2
      exact ⟨_, h.getElem?_placed hat hother, h.max_newNumber hother hothermax⟩

/-! ## Placing again -/

/-- A plan whose summaries are placed is in its own order. -/
theorem WellNumbered.placementOrder_eq (h : WellNumbered steps) (hplaced : SummariesPlaced steps) :
    placementOrder steps = List.range steps.length := by
  have hafter : ∀ i k, closesOn steps (i + 1) k = true → i < k ∧
      ∀ j read, steps[j]? = some (.read read) → i < j → k < j := by
    intro i k hk
    obtain ⟨summary, hsummary, hmax⟩ := closesOn_iff.mp hk
    obtain ⟨last, hlast, hlt, hbetween⟩ := hplaced (k + 1) summary hsummary
    rw [hmax] at hlast
    cases hlast
    refine ⟨by omega, fun j read hread hij => ?_⟩
    by_contra hle
    have hne : j ≠ k := by
      rintro rfl
      rw [hread] at hsummary
      cases hsummary
    obtain ⟨other, hother, -⟩ := hbetween (j + 1) (by omega) (by omega)
    rw [stepAt_succ, hread] at hother
    cases hother
  refine h.perm.eq_of_pairwise (fun a b _ _ hab hba => absurd hab (by omega)) ?_
    List.pairwise_lt_range
  refine List.pairwise_flatMap.mpr ⟨fun index _ => ?_, ?_⟩
  · unfold placementBlock
    split
    · refine List.pairwise_cons.mpr ⟨fun k hk => ?_, List.pairwise_lt_range.filter _⟩
      exact (hafter index k (List.mem_filter.mp hk).2).1
    · exact List.Pairwise.nil
  · refine List.pairwise_lt_range.imp fun {i j} hij a ha b hb => ?_
    obtain ⟨-, ha⟩ := mem_placementBlock.mp ha
    obtain ⟨⟨read, hread⟩, hb⟩ := mem_placementBlock.mp hb
    have haj : a < j := by
      rcases ha with rfl | ha
      · exact hij
      · exact (hafter i a ha).2 j read hread hij
    rcases hb with rfl | hb
    · exact haj
    · exact haj.trans (hafter j b hb).1

theorem WellNumbered.placed_again (h : WellNumbered steps) (hplaced : SummariesPlaced steps) :
    (normalizeSummaryPlacement steps).steps = steps ∧
      ∀ number, 1 ≤ number → number ≤ steps.length →
        (normalizeSummaryPlacement steps).renumber number = some number := by
  have horder := h.placementOrder_eq hplaced
  have hnew : ∀ number, 1 ≤ number → number ≤ steps.length → newNumber steps number = number := by
    intro number hone hle
    have hlt : number - 1 < (List.range steps.length).length := by
      rw [List.length_range]
      omega
    have hindex := List.Nodup.idxOf_getElem (List.nodup_range (n := steps.length)) (number - 1) hlt
    rw [List.getElem_range] at hindex
    rw [newNumber, horder, hindex]
    omega
  constructor
  · refine List.ext_getElem? fun k => ?_
    rcases Nat.lt_or_ge k steps.length with hk | hk
    · have hstep : stepAt steps (k + 1) = some steps[k] := List.getElem?_eq_getElem hk
      have hfound := h.stepAt_placed hstep
      rw [hnew (k + 1) (by omega) hk, stepAt_succ] at hfound
      rw [hfound, renumber_id, List.getElem?_eq_getElem hk]
      intro n hn
      obtain ⟨-, read, hread⟩ := h.named hstep hn
      obtain ⟨hone, hle⟩ := bounds_of_stepAt hread
      exact hnew n hone hle
    · rw [List.getElem?_eq_none (by rw [h.length_placed]; exact hk), List.getElem?_eq_none hk]
  · intro number hone hle
    rw [h.renumber_eq hone hle, hnew number hone hle]

/-! ## What carrying out a plan gives -/

/-- What carries a plan out. A read may find a changed world and change it; a summary is made of what
its steps gave. Neither sees the numbers of the steps. -/
structure Surroundings (World Value : Type*) where
  read : World → ValidatedRead → Option Value → World × Value
  summarize : AgentRuns.AgentSummarySchemaId → List (Option Value) → Value

def ValidatedRead.unnumbered (read : ValidatedRead) : ValidatedRead :=
  { read with ref := read.ref.map fun ref => { ref with step := 0 } }

variable {World Value : Type*}

def Surroundings.act (around : Surroundings World Value) (world : World) :
    ValidatedAgentStep → List (Option Value) → World × Value
  | .read read, values => around.read world read.unnumbered (values.head?.join)
  | .summarize summary, values => (world, around.summarize summary.schema values)

/-- The world the plan leaves and what its steps gave, in the order of the steps. -/
def carryOut (around : Surroundings World Value) (steps : List ValidatedAgentStep) (world : World) :
    World × List Value :=
  Reordering.execute ValidatedAgentStep.names around.act steps world []

theorem movable (around : Surroundings World Value) :
    Reordering.Movable ValidatedAgentStep.names around.act ValidatedAgentStep.isRead relabel := by
  constructor
  · intro step hstep s t values
    cases step with
    | read read => cases hstep
    | summarize summary => rfl
  · intro f step
    rw [ValidatedAgentStep.names, relabel, numbers_renumber, ValidatedAgentStep.names, List.map_map,
      List.map_map]
    rfl
  · intro f world step values
    cases step with
    | read read =>
      obtain ⟨entry, args, range, ref⟩ := read
      cases ref <;> rfl
    | summarize summary => rfl

/-- The placed plan leaves the world the plan leaves, and every step gives what it gave, under its new
number. -/
theorem WellNumbered.carryOut_placed (h : WellNumbered steps) (around : Surroundings World Value)
    (world : World) :
    (carryOut around (normalizeSummaryPlacement steps).steps world).1 =
        (carryOut around steps world).1 ∧
      ∀ number, 1 ≤ number → number ≤ steps.length →
        stepAt (carryOut around (normalizeSummaryPlacement steps).steps world).2
          (newNumber steps number) = stepAt (carryOut around steps world).2 number := by
  obtain ⟨hworld, hvalues⟩ := Reordering.execute_reorder h.legal (movable around) world
  unfold carryOut
  rw [h.placed_eq]
  refine ⟨hworld, fun number hone hle => ?_⟩
  obtain ⟨k, rfl⟩ := Nat.exists_eq_add_of_le' hone
  exact hvalues _ k (h.idxOf_getElem hle)

end placed

end QuokyPlatform.AgentPlans
