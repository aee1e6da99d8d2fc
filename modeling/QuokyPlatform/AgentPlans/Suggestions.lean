import Mathlib.Algebra.Order.BigOperators.Group.List
import QuokyPlatform.AgentPlans.Validator

/-! # Plans derived from a plan

`firstReads` and `clampRefs` take reads away and add none, so a plan within the bounds stays within
them. The validator asks itself about such plans only, which is why it ends. -/

namespace QuokyPlatform.AgentPlans

set_option autoImplicit false
set_option maxHeartbeats 250000

/-! ## The reads of a derived plan -/

section derived

theorem readsOf_append (steps others : List AgentPlanStep) :
    readsOf (steps ++ others) = readsOf steps ++ readsOf others := by
  unfold readsOf
  exact List.filterMap_append

/-- A loop that appends a read it meets, or nothing, keeps the reads in their order. -/
theorem readsOf_foldl_sublist {κ : Type*} (key : ReadStep → κ) {f : Kept → AgentPlanStep × ℕ → Kept}
    (hf : ∀ kept step number, ((readsOf (f kept (step, number)).out).map key).Sublist
      ((readsOf kept.out ++ readsOf [step]).map key)) :
    ∀ (steps : List AgentPlanStep) (first : ℕ) (kept : Kept),
      ((readsOf ((steps.zipIdx first).foldl f kept).out).map key).Sublist
        ((readsOf kept.out ++ readsOf steps).map key)
  | [], _, kept => by
    rw [List.zipIdx_nil, List.foldl_nil]
    exact (List.sublist_append_left _ _).map key
  | step :: rest, first, kept => by
    rw [List.zipIdx_cons, List.foldl_cons]
    refine (readsOf_foldl_sublist key hf rest (first + 1) (f kept (step, first))).trans ?_
    rw [List.map_append, show readsOf (step :: rest) = readsOf [step] ++ readsOf rest from
      readsOf_append [step] rest, ← List.append_assoc, List.map_append]
    exact (hf kept step first).append_right _

/-- A read without the number it names. -/
def ReadStep.unnumbered (step : ReadStep) : ReadStep :=
  { step with ref := step.ref.map fun ref => { ref with step := 0 } }

theorem readsOf_read (step : ReadStep) : readsOf [.read step] = [step] := rfl

theorem readsOf_summarize (step : SummaryStep) : readsOf [.summarize step] = [] := rfl

/-- What one step of the loop of `firstReads` does: it keeps the read it meets, or a summary, or
nothing. -/
theorem firstReadsStep_cases (max : ℕ) (kept : Kept) (step : AgentPlanStep) (number : ℕ) :
    (∃ read other, step = .read read ∧ ReadStep.unnumbered other = read.unnumbered ∧
      kept.reads < max ∧ (firstReadsStep max kept (step, number)).out = kept.out ++ [.read other] ∧
      (firstReadsStep max kept (step, number)).reads = kept.reads + 1) ∨
    (∃ summary other, step = .summarize summary ∧
      (firstReadsStep max kept (step, number)).out = kept.out ++ [.summarize other] ∧
      (firstReadsStep max kept (step, number)).reads = kept.reads) ∨
    ((firstReadsStep max kept (step, number)).out = kept.out ∧
      ((firstReadsStep max kept (step, number)).reads = kept.reads ∨
        kept.reads < max ∧ (firstReadsStep max kept (step, number)).reads = kept.reads + 1)) := by
  cases step with
  | summarize summary =>
    simp only [firstReadsStep]
    split
    · exact Or.inr (Or.inl ⟨summary, _, rfl, rfl, rfl⟩)
    · exact Or.inr (Or.inr ⟨rfl, Or.inl rfl⟩)
  | read read =>
    simp only [firstReadsStep]
    split
    · exact Or.inr (Or.inr ⟨rfl, Or.inl rfl⟩)
    rename_i hroom
    have hroom : kept.reads < max := by omega
    cases href : read.ref with
    | none => exact Or.inl ⟨read, read, rfl, rfl, hroom, rfl, rfl⟩
    | some ref =>
      simp only
      cases kept.numbers ref.step with
      | none => exact Or.inr (Or.inr ⟨rfl, Or.inr ⟨hroom, rfl⟩⟩)
      | some source =>
        refine Or.inl ⟨read, _, rfl, ?_, hroom, rfl, rfl⟩
        unfold ReadStep.unnumbered
        rw [href]
        rfl

/-- The reads of `firstReads` are reads of the plan, but for the numbers they name. -/
theorem firstReads_sublist (steps : List AgentPlanStep) (max : ℕ) :
    ((readsOf (firstReads steps max)).map ReadStep.unnumbered).Sublist
      ((readsOf steps).map ReadStep.unnumbered) := by
  refine readsOf_foldl_sublist ReadStep.unnumbered (fun kept step number => ?_) steps 1 Kept.start
  rcases firstReadsStep_cases max kept step number with
    ⟨read, other, rfl, hsame, -, hout, -⟩ | ⟨summary, other, rfl, hout, -⟩ | ⟨hout, -⟩
  · rw [hout, readsOf_append, readsOf_read, readsOf_read, List.map_append, List.map_append,
      List.map_singleton, List.map_singleton, hsame]
  · rw [hout, readsOf_append, readsOf_summarize, readsOf_summarize]
  · rw [hout]
    exact (List.sublist_append_left _ _).map _

theorem length_readsOf_firstReads (steps : List AgentPlanStep) (max : ℕ) :
    (readsOf (firstReads steps max)).length ≤ max := by
  have hloop : ∀ (steps : List AgentPlanStep) (first : ℕ) (kept : Kept),
      (readsOf kept.out).length ≤ kept.reads → kept.reads ≤ max →
        (readsOf ((steps.zipIdx first).foldl (firstReadsStep max) kept).out).length ≤ max := by
    intro steps
    induction steps with
    | nil => exact fun _ kept hout hmax => hout.trans hmax
    | cons step rest ih =>
      intro first kept hkept hmax
      rw [List.zipIdx_cons, List.foldl_cons]
      rcases firstReadsStep_cases max kept step first with
        ⟨read, other, -, -, hroom, hout, hreads⟩ | ⟨summary, other, -, hout, hreads⟩ |
          ⟨hout, hreads | ⟨hroom, hreads⟩⟩
      · refine ih (first + 1) _ ?_ (by omega)
        rw [hout, hreads, readsOf_append, readsOf_read, List.length_append, List.length_singleton]
        omega
      · refine ih (first + 1) _ ?_ (by omega)
        rw [hout, hreads, readsOf_append, readsOf_summarize, List.append_nil]
        exact hkept
      · exact ih (first + 1) _ (by rw [hout, hreads]; exact hkept) (by omega)
      · exact ih (first + 1) _ (by rw [hout, hreads]; omega) (by omega)
  exact hloop steps 1 Kept.start (Nat.le_refl _) (Nat.zero_le _)

/-- The entries `clampRefs` reads are entries the plan reads, in their order. -/
theorem clampRefs_sublist {steps out : List AgentPlanStep} (h : clampRefs steps = some out) :
    ((readsOf out).map ReadStep.entryId).Sublist ((readsOf steps).map ReadStep.entryId) := by
  unfold clampRefs at h
  simp only at h
  split at h
  · cases h
    refine readsOf_foldl_sublist ReadStep.entryId (fun kept step number => ?_) steps 1 Kept.start
    have hstays : ((readsOf kept.out).map ReadStep.entryId).Sublist
        ((readsOf kept.out ++ readsOf [step]).map ReadStep.entryId) :=
      (List.sublist_append_left _ _).map _
    cases step with
    | summarize step =>
      simp only [clampRefsStep]
      split
      · rw [readsOf_append, readsOf_summarize, readsOf_summarize]
      · exact hstays
    | read step =>
      have hpush : ∀ other : ReadStep, other.entryId = step.entryId →
          ((readsOf (kept.out ++ [.read other])).map ReadStep.entryId).Sublist
            ((readsOf kept.out ++ readsOf [.read step]).map ReadStep.entryId) := by
        intro other hsame
        rw [readsOf_append, readsOf_read, readsOf_read, List.map_append, List.map_append,
          List.map_singleton, List.map_singleton, hsame]
      simp only [clampRefsStep]
      split
      · exact hpush step rfl
      · split
        · exact hstays
        · split
          · exact hstays
          · exact hpush _ rfl
  · cases h

end derived

/-! ## Bounds of a derived plan -/

section bounds

variable {ctx : AgentPlanValidationContext} {reads others : List ReadStep}

theorem periodsOf_unnumbered (reads : List ReadStep) (entryId : String) :
    periodsOf ctx (reads.map ReadStep.unnumbered) entryId = periodsOf ctx reads entryId := by
  unfold periodsOf
  rw [List.filter_map, List.filterMap_map]
  rfl

theorem repeatedEntry_unnumbered (reads : List ReadStep) :
    repeatedEntry ctx (reads.map ReadStep.unnumbered) = repeatedEntry ctx reads := by
  unfold repeatedEntry
  rw [List.filterMap_map]
  simp only [periodsOf_unnumbered]
  rfl

theorem taken_unnumbered (step : ReadStep) : step.unnumbered.taken = step.taken := by
  obtain ⟨entryId, args, ref⟩ := step
  cases ref <;> rfl

/-- Fewer reads name no more periods. -/
theorem repeatedEntry_sublist (h : others.Sublist reads) (hnone : repeatedEntry ctx reads = none) :
    repeatedEntry ctx others = none := by
  refine List.find?_eq_none.mpr fun entry hentry => ?_
  have hmem := (h.filterMap _).subset hentry
  have hfew := List.find?_eq_none.mp hnone entry hmem
  simp only [decide_eq_true_eq, Nat.not_le] at hfew ⊢
  refine lt_of_le_of_lt (List.Subperm.length_le ?_) hfew
  refine (List.nodup_dedup _).subperm fun value hvalue => ?_
  have hmore := (((h.filter fun step => step.entryId = entry.1).filterMap fun step =>
    (periodOf ctx step).map Prod.snd)).subset (List.mem_dedup.mp hvalue)
  exact List.mem_dedup.mpr hmore

theorem unboundedOf_eq_none {steps : List AgentPlanStep} :
    unboundedOf steps ctx = none ↔ repeatedEntry ctx (readsOf steps) = none ∧
      (readsOf steps).length ≤ AGENT_PLAN_MAX_READS ∧
      (∀ step ∈ readsOf steps, step.taken ≤ AGENT_PLAN_MAX_REF_VALUES) ∧
      ((readsOf steps).map ReadStep.taken).sum ≤ AGENT_PLAN_MAX_RUN_REF_VALUES := by
  simp only [unboundedOf]
  cases hrepeated : repeatedEntry ctx (readsOf steps) with
  | some entry => simp
  | none =>
    simp only
    split
    · rename_i hmany
      simp only [reduceCtorEq, true_and, false_iff, not_and]
      exact fun hle => absurd hle (by omega)
    rename_i hfew
    split
    · rename_i hany
      obtain ⟨step, hmem, htake⟩ := List.any_eq_true.mp hany
      simp only [reduceCtorEq, true_and, false_iff, not_and]
      intro _ hall
      have := hall step hmem
      simp only [decide_eq_true_eq] at htake
      omega
    rename_i hnone
    have hall : ∀ step ∈ readsOf steps, step.taken ≤ AGENT_PLAN_MAX_REF_VALUES := by
      intro step hmem
      by_contra htake
      exact hnone (List.any_eq_true.mpr ⟨step, hmem, by simpa using htake⟩)
    split
    · rename_i hsum
      simp only [reduceCtorEq, true_and, false_iff, not_and]
      exact fun _ _ hle => absurd hle (by omega)
    · rename_i hsum
      simp only [true_and, true_iff]
      exact ⟨by omega, hall, by omega⟩

/-- The first reads of a plan within the bounds are within the bounds. -/
theorem unboundedOf_firstReads {steps : List AgentPlanStep} (max : ℕ)
    (h : unboundedOf steps ctx = none) : unboundedOf (firstReads steps max) ctx = none := by
  obtain ⟨hrepeated, hlength, htake, hsum⟩ := unboundedOf_eq_none.mp h
  have hsub := firstReads_sublist steps max
  have htaken : ∀ reads : List ReadStep, reads.map ReadStep.taken =
      (reads.map ReadStep.unnumbered).map ReadStep.taken := by
    intro reads
    rw [List.map_map]
    exact List.map_congr_left fun step _ => (taken_unnumbered step).symm
  have htakes := hsub.map ReadStep.taken
  rw [← htaken, ← htaken] at htakes
  refine unboundedOf_eq_none.mpr ⟨?_, ?_, fun step hstep => ?_, ?_⟩
  · rw [← repeatedEntry_unnumbered] at hrepeated ⊢
    exact repeatedEntry_sublist hsub hrepeated
  · have := hsub.length_le
    rw [List.length_map, List.length_map] at this
    omega
  · have hmem := htakes.subset (List.mem_map_of_mem hstep)
    obtain ⟨other, hother, hsame⟩ := List.mem_map.mp hmem
    rw [← hsame]
    exact htake other hother
  · exact le_trans (htakes.sum_le_sum fun _ _ => Nat.zero_le _) hsum

end bounds

/-! ## The validator ends -/

section ends

variable (text : OwnerText)

/-- An answer that more fuel does not change. -/
def Answers (fuel : ℕ) (plan : AgentPlan) (ctx : AgentPlanValidationContext) : Prop :=
  ∃ answer, ∀ more, fuel ≤ more → validateAgentPlan text more plan ctx = some answer

variable {text} {ctx : AgentPlanValidationContext}

theorem fitToCharge_answers {fuel : ℕ} {steps : List AgentPlanStep} : ∀ (reads : ℕ),
    (∀ max, max ≤ reads → Answers text fuel (.steps .steps (firstReads steps max) .clear none) ctx) →
      ∃ found, ∀ more, fuel ≤ more →
        fitToCharge (validateAgentPlan text more) steps ctx reads = some found
  | 0, _ => ⟨none, fun _ _ => rfl⟩
  | reads + 1, h => by
    obtain ⟨fewer, hfewer⟩ := fitToCharge_answers reads fun max hmax => h max (by omega)
    obtain ⟨answer, hanswer⟩ := h (reads + 1) (Nat.le_refl _)
    cases hany : (firstReads steps (reads + 1)).any AgentPlanStep.isRead with
    | false =>
      refine ⟨fewer, fun more hmore => ?_⟩
      rw [fitToCharge]
      simp only [hany, Bool.not_false, if_true]
      exact hfewer more hmore
    | true =>
      by_cases hrun : ∃ suggestion calls related, answer = .ok (.run .run suggestion calls related)
      · obtain ⟨suggestion, calls, related, rfl⟩ := hrun
        refine ⟨some suggestion, fun more hmore => ?_⟩
        rw [fitToCharge]
        simp only [hany, Bool.not_true, Bool.false_eq_true, if_false, hanswer more hmore]
      · refine ⟨fewer, fun more hmore => ?_⟩
        rw [fitToCharge]
        simp only [hany, Bool.not_true, Bool.false_eq_true, if_false, hanswer more hmore]
        rcases answer with refusal | writeClause | ⟨kind, suggestion, calls, related⟩ | bound
        · exact hfewer more hmore
        · exact hfewer more hmore
        · cases kind with
          | run => exact absurd ⟨suggestion, calls, related, rfl⟩ hrun
          | clarify => exact hfewer more hmore
        · exact hfewer more hmore

/-- A validation, unless it needs its fuel: what a plan whose derived plans are answered gets. -/
theorem validateSteps_answers {fuel : ℕ} {form : PlanForm} {steps : List AgentPlanStep}
    {ambiguity : NlAmbiguity} {related : Option ℕ}
    (hask : ∀ unbounded, unboundedOf steps ctx = some unbounded → ∃ answer, ∀ more, fuel ≤ more →
      askUnbounded text (validateAgentPlan text more) steps unbounded ctx = some answer)
    (hfit : unboundedOf steps ctx = none → ∃ found, ∀ more, fuel ≤ more →
      fitToCharge (validateAgentPlan text more) steps ctx ((readsOf steps).length - 1) = some found) :
    ∃ answer, ∀ more, fuel ≤ more →
      validateSteps text (validateAgentPlan text more) form steps ambiguity related ctx =
        some answer := by
  unfold validateSteps
  split
  · exact ⟨_, fun _ _ => rfl⟩
  split
  · exact ⟨_, fun _ _ => rfl⟩
  split
  · exact ⟨_, fun _ _ => rfl⟩
  split
  · exact ⟨_, fun _ _ => rfl⟩
  split
  · exact ⟨_, fun _ _ => rfl⟩
  split
  · exact ⟨_, fun _ _ => rfl⟩
  cases hbound : unboundedOf steps ctx with
  | some unbounded => exact hask unbounded hbound
  | none =>
    simp only
    split
    · exact ⟨_, fun _ _ => rfl⟩
    · split
      · obtain ⟨found, hfound⟩ := hfit hbound
        cases found with
        | none =>
          refine ⟨.error (refuse .overBound none), fun more hmore => ?_⟩
          rw [hfound more hmore]
          rfl
        | some fitted =>
          refine ⟨.ok (.ask .calls fitted), fun more hmore => ?_⟩
          rw [hfound more hmore]
          rfl
      · split
        · exact ⟨_, fun _ _ => rfl⟩
        · exact ⟨_, fun _ _ => rfl⟩

theorem validateAgentPlan_answers {fuel : ℕ} {form : PlanForm} {steps : List AgentPlanStep}
    {ambiguity : NlAmbiguity} {related : Option ℕ}
    (h : ∃ answer, ∀ more, fuel ≤ more →
      validateSteps text (validateAgentPlan text more) form steps ambiguity related ctx =
        some answer) : Answers text (fuel + 1) (.steps form steps ambiguity related) ctx := by
  obtain ⟨answer, hanswer⟩ := h
  by_cases hdirect : ctx.direct = true
  · refine ⟨answer, fun more hmore => ?_⟩
    obtain ⟨more, rfl⟩ := Nat.exists_eq_add_of_le' (show 1 ≤ more by omega)
    rw [validateAgentPlan, hdirect]
    exact hanswer more (by omega)
  · refine ⟨.error (refuse .notDm none), fun more hmore => ?_⟩
    obtain ⟨more, rfl⟩ := Nat.exists_eq_add_of_le' (show 1 ≤ more by omega)
    rw [Bool.not_eq_true] at hdirect
    rw [validateAgentPlan, hdirect]
    rfl

/-- A plan within the bounds is answered with one more fuel than it has reads. -/
theorem answers_of_bounded (form : PlanForm) (ambiguity : NlAmbiguity) (related : Option ℕ) :
    ∀ (reads : ℕ) (steps : List AgentPlanStep), unboundedOf steps ctx = none →
      (readsOf steps).length ≤ reads →
        Answers text (reads + 1) (.steps form steps ambiguity related) ctx := by
  intro reads
  induction reads generalizing form ambiguity related with
  | zero =>
    intro steps hbounded hreads
    refine validateAgentPlan_answers (validateSteps_answers (fun unbounded hsome => ?_) fun _ => ?_)
    · rw [hbounded] at hsome
      cases hsome
    · rw [show (readsOf steps).length - 1 = 0 by omega]
      exact ⟨none, fun _ _ => rfl⟩
  | succ reads ih =>
    intro steps hbounded hreads
    refine validateAgentPlan_answers (validateSteps_answers (fun unbounded hsome => ?_) fun _ => ?_)
    · rw [hbounded] at hsome
      cases hsome
    · refine fitToCharge_answers _ fun max hmax => ?_
      exact ih .steps .clear none _ (unboundedOf_firstReads max hbounded)
        ((length_readsOf_firstReads steps max).trans (by omega))

theorem askUnbounded_answers (steps : List AgentPlanStep) (unbounded : Unbounded) :
    ∃ answer, ∀ more, AGENT_PLAN_MAX_READS + 1 ≤ more →
      askUnbounded text (validateAgentPlan text more) steps unbounded ctx = some answer := by
  simp only [askUnbounded]
  split
  · exact ⟨_, fun _ _ => rfl⟩
  split
  · exact ⟨_, fun _ _ => rfl⟩
  rename_i suggestion check _
  cases hbounded : unboundedOf suggestion check with
  | some bound => exact ⟨.error (refuse unbounded.refusal none), fun _ _ => rfl⟩
  | none =>
    obtain ⟨found, hfound⟩ : ∃ found, ∀ more, AGENT_PLAN_MAX_READS + 1 ≤ more →
        fitToCharge (validateAgentPlan text more) suggestion check (readsOf suggestion).length =
          some found :=
      fitToCharge_answers _ fun max hmax =>
        answers_of_bounded .steps .clear none _ _ (unboundedOf_firstReads max hbounded)
          ((length_readsOf_firstReads suggestion max).trans
            (hmax.trans (unboundedOf_eq_none.mp hbounded).2.1))
    cases found with
    | none =>
      refine ⟨.error (refuse unbounded.refusal none), fun more hmore => ?_⟩
      simp only [Option.isSome_none, Bool.false_eq_true, if_false, hfound more hmore]
    | some fitted =>
      refine ⟨.ok (.ask unbounded.bound fitted), fun more hmore => ?_⟩
      simp only [Option.isSome_none, Bool.false_eq_true, if_false, hfound more hmore]

variable (text ctx) in
/-- Six levels are enough for every plan. -/
theorem answers (plan : AgentPlan) : Answers text (AGENT_PLAN_MAX_READS + 2) plan ctx := by
  cases plan with
  | none =>
    refine ⟨if ctx.direct then .ok (.none false) else .error (refuse .notDm none), fun more hmore => ?_⟩
    obtain ⟨more, rfl⟩ := Nat.exists_eq_add_of_le' (show 1 ≤ more by omega)
    rw [validateAgentPlan]
    cases ctx.direct <;> rfl
  | steps form steps ambiguity related =>
    refine validateAgentPlan_answers (validateSteps_answers (fun unbounded _ => ?_) fun hbounded => ?_)
    · exact askUnbounded_answers steps unbounded
    · refine fitToCharge_answers _ fun max hmax => ?_
      exact answers_of_bounded .steps .clear none _ _ (unboundedOf_firstReads max hbounded)
        ((length_readsOf_firstReads steps max).trans
          (hmax.trans ((Nat.sub_le _ _).trans (unboundedOf_eq_none.mp hbounded).2.1)))

end ends

end QuokyPlatform.AgentPlans
