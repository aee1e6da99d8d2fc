import QuokyPlatform.AgentPlans.Finished
import QuokyPlatform.AgentPlans.Suggestions

/-! # What the validator accepts

Whatever the planner asked for and whatever the owner's words say, the validator answers, and what it
lets run, or suggests in place of a plan over a bound, keeps every rule: the plans it derives itself
are plans of the planner's own reads. -/

namespace QuokyPlatform.AgentPlans
open AgentRuns (NlWave1EntryId AGENT_READ_SOURCES AgentSummarySchemaId AgentPlanKind)

set_option autoImplicit false
set_option maxHeartbeats 250000

/-! ## The mix of the steps -/

section mix

variable {steps : List AgentPlanStep}

theorem firstRefusal_eq_none {check : ℕ → AgentPlanStep → Option Refusal}
    (h : firstRefusal steps check = none) {number : ℕ} {step : AgentPlanStep}
    (hstep : stepAt steps number = some step) : check number step = none := by
  obtain ⟨hone, hindex⟩ := stepAt_eq_some.mp hstep
  refine List.findSome?_eq_none_iff.mp h (step, number) ?_
  refine List.mem_of_getElem? (i := number - 1) ?_
  rw [List.getElem?_zipIdx, hindex, Option.map_some, show 1 + (number - 1) = number by omega]

theorem mem_readsOf {read : ReadStep} :
    read ∈ readsOf steps ↔ ∃ number, stepAt steps number = some (.read read) := by
  unfold readsOf
  rw [List.mem_filterMap]
  constructor
  · rintro ⟨step, hmem, hstep⟩
    obtain ⟨index, hindex⟩ := List.getElem?_of_mem hmem
    cases step with
    | summarize summary => cases hstep
    | read other =>
      cases hstep
      exact ⟨index + 1, hindex⟩
  · rintro ⟨number, hnumber⟩
    obtain ⟨-, hindex⟩ := stepAt_eq_some.mp hnumber
    exact ⟨.read read, List.mem_of_getElem? hindex, rfl⟩

/-- A read that comes first among its like, for each of them: there is one at most. -/
theorem countP_le_one_of_first {p : ReadStep → Bool}
    (h : ∀ number read, stepAt steps number = some (.read read) → p read = true →
      (readsOf (steps.take (number - 1))).countP p = 0) : (readsOf steps).countP p ≤ 1 := by
  induction steps using List.reverseRecOn with
  | nil => exact Nat.zero_le _
  | append_singleton rest last ih =>
    have hrest : (readsOf rest).countP p ≤ 1 := by
      refine ih fun number read hread hp => ?_
      obtain ⟨hone, hle⟩ := bounds_of_stepAt hread
      obtain ⟨-, hindex⟩ := stepAt_eq_some.mp hread
      have hfirst := h number read (stepAt_eq_some.mpr ⟨hone, by
        rw [List.getElem?_append_left (by omega), hindex]⟩) hp
      rwa [List.take_append_of_le_length (by omega)] at hfirst
    rw [readsOf_append, List.countP_append]
    cases last with
    | summarize summary => exact hrest
    | read read =>
      rw [readsOf_read, List.countP_singleton]
      split
      · rename_i hp
        have hfirst := h (rest.length + 1) read (by
          rw [stepAt_succ, List.getElem?_concat_length]) hp
        rw [Nat.add_sub_cancel, List.take_left'] at hfirst
        · omega
        · rfl
      · exact hrest

/-- Rule 2, as the validator has checked it when it looks at the bounds. -/
structure MixHolds (steps : List AgentPlanStep) : Prop where
  size : steps.length ≤ AGENT_PLAN_MAX_STEPS
  some_read : 1 ≤ (readsOf steps).length
  summaries : steps.length ≤ (readsOf steps).length + AGENT_PLAN_MAX_SUMMARIES
  alone : 1 < steps.length → ∀ read ∈ readsOf steps, read.entryId ≠ "help.topic"
  brief : (readsOf steps).countP (fun read => read.entryId = "brief.today") ≤ 1

theorem mixRefusal_eq_none (h : mixRefusal steps = none) :
    (1 < steps.length → ∀ read ∈ readsOf steps, read.entryId ≠ "help.topic") ∧
      (readsOf steps).countP (fun read => read.entryId = "brief.today") ≤ 1 := by
  unfold mixRefusal at h
  split at h
  · rename_i hshort
    refine ⟨fun hlong => absurd hlong (by omega), ?_⟩
    refine List.countP_le_length.trans ((List.length_filterMap_le _ _).trans hshort)
  · have hpassed : ∀ number read, stepAt steps number = some (.read read) →
        read.entryId ≠ "help.topic" ∧ (read.entryId = "brief.today" →
          (readsOf (steps.take (number - 1))).countP (fun other => other.entryId = "brief.today") =
            0) := by
      intro number read hread
      have hnone := firstRefusal_eq_none h hread
      simp only at hnone
      split at hnone
      · cases hnone
      split at hnone
      · cases hnone
      rename_i hhelp
      split at hnone
      · cases hnone
      · rename_i hbrief
        refine ⟨hhelp, fun hid => ?_⟩
        by_contra hcount
        exact hbrief ⟨hid, Nat.one_le_iff_ne_zero.mpr hcount⟩
    refine ⟨fun _ read hread => ?_, ?_⟩
    · obtain ⟨number, hnumber⟩ := mem_readsOf.mp hread
      exact (hpassed number read hnumber).1
    · refine countP_le_one_of_first fun number read hread hp => ?_
      exact (hpassed number read hread).2 (by simpa using hp)

end mix

/-! ## Inversions -/

section inversions

variable {text : OwnerText} {ctx : AgentPlanValidationContext}
  {validate : AgentPlan → AgentPlanValidationContext → Option AgentPlanValidation}

/-- A plan that fits is one the validator lets run. -/
theorem fitToCharge_some {steps : List AgentPlanStep} {fitted : List ValidatedAgentStep} :
    ∀ {reads : ℕ}, fitToCharge validate steps ctx reads = some (some fitted) →
      ∃ max calls related, validate (.steps .steps (firstReads steps max) .clear none) ctx =
        some (.ok (.run .run fitted calls related))
  | 0, h => nomatch h
  | reads + 1, h => by
    rw [fitToCharge] at h
    split at h
    · exact fitToCharge_some h
    · split at h
      · cases h
      · rename_i suggestion calls related hvalidate
        cases h
        exact ⟨reads + 1, calls, related, hvalidate⟩
      · exact fitToCharge_some h

theorem suggestionOf_some {steps suggestion : List AgentPlanStep} {unbounded : Unbounded}
    {check : AgentPlanValidationContext}
    (h : suggestionOf text steps unbounded ctx = some (suggestion, check)) :
    check.offered = ctx.offered ∧ check.briefConnectorCalls = ctx.briefConnectorCalls ∧
      ((readsOf suggestion).map ReadStep.entryId).Sublist ((readsOf steps).map ReadStep.entryId) := by
  unfold suggestionOf at h
  split at h
  · rename_i entryId rangeArg _
    obtain ⟨⟨found, period⟩, hfound, hsame⟩ := Option.map_eq_some_iff.mp h
    cases hsame
    refine ⟨rfl, rfl, ?_⟩
    unfold perPeriodSuggestion at hfound
    simp only at hfound
    split at hfound
    · cases hfound
    · rename_i first number rest hrepeated
      cases hfound
      have hids : ∀ (c : Prop) [Decidable c] (read : ReadStep) (summary : SummaryStep),
          readsOf (.read read :: if c then [.summarize summary] else []) = [read] := by
        intro c _ read summary
        split <;> rfl
      rw [hids, List.map_singleton]
      have hmem : (first, number) ∈ (first, number) :: rest := List.mem_cons_self
      rw [← hrepeated] at hmem
      obtain ⟨⟨step, index⟩, hzip, hstep⟩ := List.mem_filterMap.mp hmem
      cases step with
      | summarize summary => cases hstep
      | read read =>
        simp only at hstep
        split at hstep
        · rename_i hid
          cases hstep
          refine List.singleton_sublist.mpr (List.mem_map.mpr ⟨first, ?_, hid⟩)
          exact List.mem_filterMap.mpr ⟨_, List.fst_mem_of_mem_zipIdx hzip, rfl⟩
        · cases hstep
  · obtain ⟨found, hfound, hsame⟩ := Option.map_eq_some_iff.mp h
    cases hsame
    refine ⟨rfl, rfl, (clampRefs_sublist hfound).trans ?_⟩
    split
    · have := (firstReads_sublist steps AGENT_PLAN_MAX_READS).map ReadStep.entryId
      rw [List.map_map, List.map_map] at this
      exact this
    · exact List.Sublist.refl _

theorem askUnbounded_ok {steps : List AgentPlanStep} {unbounded : Unbounded}
    {plan : ValidatedAgentPlan}
    (h : askUnbounded text validate steps unbounded ctx = some (.ok plan)) :
    ∃ suggestion check fitted, suggestionOf text steps unbounded ctx = some (suggestion, check) ∧
      fitToCharge validate suggestion check (readsOf suggestion).length = some (some fitted) ∧
      plan = .ask unbounded.bound fitted := by
  simp only [askUnbounded] at h
  split at h
  · cases h
  split at h
  · cases h
  rename_i suggestion check hsuggestion
  split at h
  · cases h
  split at h
  · cases h
  · cases h
  · rename_i fitted hfitted
    cases h
    exact ⟨suggestion, check, fitted, hsuggestion, hfitted, rfl⟩

/-- What an accepted plan of steps came from. -/
theorem validateSteps_ok {form : PlanForm} {steps : List AgentPlanStep} {ambiguity : NlAmbiguity}
    {related : Option ℕ} {plan : ValidatedAgentPlan}
    (h : validateSteps text validate form steps ambiguity related ctx = some (.ok plan)) :
    MixHolds steps ∧
      ((∃ unbounded, askUnbounded text validate steps unbounded ctx = some (.ok plan)) ∨
      (unboundedOf steps ctx = none ∧ ∃ validated, checkSteps text steps ctx = .ok validated ∧
        ((∃ fitted reads, fitToCharge validate steps ctx reads = some (some fitted) ∧
          plan = .ask .calls fitted) ∨
        plan = .none true ∨
        agentPlanConnectorCharge ctx.briefConnectorCalls validated ≤ AGENT_RUN_MAX_CONNECTOR_CALLS ∧
          plan = .run (if ambiguity = .needsClarification then .clarify else .run)
            (normalizeSummaryPlacement (withClauseGroundedFlags text validated)).steps
            (agentPlanConnectorCharge ctx.briefConnectorCalls validated)
            ((if form = .steps then related.bind (relatedStep validated) else none).bind
              (normalizeSummaryPlacement (withClauseGroundedFlags text validated)).renumber)))) := by
  unfold validateSteps at h
  split at h
  · cases h
  split at h
  · cases h
  split at h
  · cases h
  rename_i hsize
  split at h
  · cases h
  rename_i hread
  split at h
  · cases h
  rename_i hsummaries
  split at h
  · cases h
  rename_i hmix
  obtain ⟨halone, hbrief⟩ := mixRefusal_eq_none hmix
  refine ⟨⟨by omega, by omega, by omega, halone, hbrief⟩, ?_⟩
  split at h
  · rename_i unbounded _
    exact Or.inl ⟨unbounded, h⟩
  rename_i hbounded
  refine Or.inr ⟨hbounded, ?_⟩
  split at h
  · cases h
  rename_i validated hvalidated
  refine ⟨validated, hvalidated, ?_⟩
  simp only at h
  split at h
  · obtain ⟨found, hfound, hsame⟩ := Option.map_eq_some_iff.mp h
    cases found with
    | none => cases hsame
    | some fitted =>
      cases hsame
      exact Or.inl ⟨fitted, _, hfound, rfl⟩
  rename_i hcharge
  split at h
  · cases h
    exact Or.inr (Or.inl rfl)
  · cases h
    exact Or.inr (Or.inr ⟨by omega, rfl⟩)

end inversions

/-! ## Accepted plans -/

/-- The read a plan relates the others to, when some read has another source. -/
def RelatedWithin (steps : List ValidatedAgentStep) (number : ℕ) : Prop :=
  ∃ read entryId other otherId, stepAt steps number = some (.read read) ∧
    wave1EntryId read.entry.id = some entryId ∧ other ∈ validatedReads steps ∧
    wave1EntryId other.entry.id = some otherId ∧
    (AGENT_READ_SOURCES otherId).source ≠ (AGENT_READ_SOURCES entryId).source

/-- Every rule of a plan that may run. -/
structure Rules (ctx : AgentPlanValidationContext) (steps : List ValidatedAgentStep) : Prop where
  bounds : WithinBounds ctx.offered ctx.briefConnectorCalls steps
  linked : Linked steps
  placed : SummariesPlaced steps

def AgentPlan.planned : AgentPlan → List AgentPlanStep
  | .none => []
  | .steps _ planned _ _ => planned

/-- What an answer promises: a plan to run is the planner's, and a suggestion has no other reads than
the planner's. -/
def Accepted (plan : AgentPlan) (ctx : AgentPlanValidationContext) : ValidatedAgentPlan → Prop
  | .none _ => True
  | .run _ steps connectorCalls related =>
    Rules ctx steps ∧
      (validatedReads steps).map (·.entry.id) = (readsOf plan.planned).map ReadStep.entryId ∧
      connectorCalls = agentPlanConnectorCharge ctx.briefConnectorCalls steps ∧
      ∀ number, related = some number → RelatedWithin steps number
  | .ask _ suggestion =>
    Rules ctx suggestion ∧ ((validatedReads suggestion).map (·.entry.id)).Sublist
      ((readsOf plan.planned).map ReadStep.entryId)

section accepted

variable {text : OwnerText} {ctx check : AgentPlanValidationContext}

theorem Rules.of_offered {steps : List ValidatedAgentStep} (h : Rules check steps)
    (hoffered : check.offered = ctx.offered)
    (hbrief : check.briefConnectorCalls = ctx.briefConnectorCalls) : Rules ctx steps :=
  ⟨by rw [← hoffered, ← hbrief]; exact h.bounds, h.linked, h.placed⟩

theorem relatedStep_spec {steps : List ValidatedAgentStep} {related number : ℕ}
    (h : relatedStep steps related = some number) : number = related ∧ RelatedWithin steps number := by
  unfold relatedStep at h
  split at h
  · rename_i read hread
    split at h
    · cases h
    · rename_i entryId hid
      split at h
      · rename_i hany
        cases h
        obtain ⟨other, hmem, hother⟩ := List.any_eq_true.mp hany
        cases hotherId : wave1EntryId other.entry.id with
        | none =>
          rw [hotherId] at hother
          cases hother
        | some otherId =>
          rw [hotherId, Option.any_some, decide_eq_true_eq] at hother
          exact ⟨rfl, read, entryId, other, otherId, hread, hid, hmem, hotherId, hother⟩
      · cases h
  · cases h

/-- The bounds of a plan that passed every check. -/
theorem PlanChecked.withinBounds {steps : List AgentPlanStep} {validated : List ValidatedAgentStep}
    (h : PlanChecked steps ctx validated) (hmix : MixHolds steps)
    (hbounded : unboundedOf steps ctx = none)
    (hcharge : agentPlanConnectorCharge ctx.briefConnectorCalls validated ≤
      AGENT_RUN_MAX_CONNECTOR_CALLS) :
    WithinBounds ctx.offered ctx.briefConnectorCalls validated := by
  have hlength : (validatedReads validated).length = (readsOf steps).length := by
    rw [← List.length_map (f := (·.entry.id)), h.ids, List.length_map]
  refine ⟨by rw [h.length]; exact hmix.size, by rw [hlength]; exact hmix.some_read,
    by rw [hlength]; exact (unboundedOf_eq_none.mp hbounded).2.1,
    by rw [h.length, hlength]; exact hmix.summaries, h.entry, fun hlong read hread => ?_, ?_, h.taken,
    hcharge⟩
  · have hmem : read.entry.id ∈ (validatedReads validated).map (·.entry.id) :=
      List.mem_map_of_mem hread
    rw [h.ids] at hmem
    obtain ⟨step, hstep, hid⟩ := List.mem_map.mp hmem
    rw [← hid]
    exact hmix.alone (by rw [← h.length]; exact hlong) step hstep
  · have hcount : (validatedReads validated).countP (fun read => read.entry.id = "brief.today") =
        ((validatedReads validated).map (·.entry.id)).countP fun id => id = "brief.today" := by
      rw [List.countP_map]
      rfl
    rw [hcount, h.ids, List.countP_map]
    exact hmix.brief

theorem Linked.related_placed {steps : List ValidatedAgentStep} (h : Linked steps) {number new : ℕ}
    (hrelated : RelatedWithin steps number)
    (hnew : (normalizeSummaryPlacement steps).renumber number = some new) :
    RelatedWithin (normalizeSummaryPlacement steps).steps new := by
  obtain ⟨read, entryId, other, otherId, hread, hid, hother, hotherId, hne⟩ := hrelated
  obtain ⟨hone, hle⟩ := bounds_of_stepAt hread
  rw [h.wellNumbered.renumber_eq hone hle] at hnew
  cases hnew
  refine ⟨_, entryId, other.renumber (newNumber steps), otherId, h.wellNumbered.stepAt_placed hread,
    hid, ?_, hotherId, hne⟩
  rw [h.wellNumbered.validatedReads_placed]
  exact List.mem_map_of_mem hother

theorem validateAgentPlan_accepted : ∀ (fuel : ℕ) (plan : AgentPlan) (ctx : AgentPlanValidationContext)
    (answer : ValidatedAgentPlan), validateAgentPlan text fuel plan ctx = some (.ok answer) →
      Accepted plan ctx answer
  | 0, _, _, _, h => nomatch h
  | fuel + 1, plan, ctx, answer, h => by
    -- A plan that fits is a plan the validator lets run, with one level less.
    have hfits : ∀ {steps : List AgentPlanStep} {check : AgentPlanValidationContext} {reads : ℕ}
        {fitted : List ValidatedAgentStep},
        fitToCharge (validateAgentPlan text fuel) steps check reads = some (some fitted) →
          Rules check fitted ∧ ((validatedReads fitted).map (·.entry.id)).Sublist
            ((readsOf steps).map ReadStep.entryId) := by
      intro steps check reads fitted hfit
      obtain ⟨max, calls, related, hvalidate⟩ := fitToCharge_some hfit
      obtain ⟨hrules, hids, -⟩ := validateAgentPlan_accepted fuel _ check _ hvalidate
      refine ⟨hrules, ?_⟩
      rw [hids]
      have := (firstReads_sublist steps max).map ReadStep.entryId
      rw [List.map_map, List.map_map] at this
      exact this
    rw [validateAgentPlan.eq_def] at h
    simp only at h
    split at h
    · cases h
    split at h
    · cases h
      trivial
    · rename_i form steps ambiguity related
      obtain ⟨hmix, ⟨unbounded, hask⟩ | ⟨hbounded, validated, hchecked, hcase⟩⟩ := validateSteps_ok h
      · obtain ⟨suggestion, check, fitted, hsuggestion, hfitted, rfl⟩ := askUnbounded_ok hask
        obtain ⟨hoffered, hbrief, hids⟩ := suggestionOf_some hsuggestion
        obtain ⟨hrules, hreads⟩ := hfits hfitted
        exact ⟨hrules.of_offered hoffered hbrief, hreads.trans hids⟩
      · rcases hcase with ⟨fitted, reads, hfitted, rfl⟩ | rfl | ⟨hcharge, rfl⟩
        · exact hfits hfitted
        · trivial
        · have hplan := checkSteps_spec hchecked
          have hbounds := hplan.withinBounds hmix hbounded hcharge
          obtain ⟨args, hflags⟩ := withClauseGroundedFlags_eq text validated
          rw [hflags]
          have hlinked : Linked (validated.map (ValidatedAgentStep.withArgs args)) :=
            hplan.linked.withArgs
          have hnumbered := hlinked.wellNumbered
          have hreads : ∀ {α : Type} (f : ValidatedRead → α), (∀ read args,
              f { read with args := args } = f read) → (∀ read new, f (read.renumber new) = f read) →
              (validatedReads (normalizeSummaryPlacement
                (validated.map (ValidatedAgentStep.withArgs args))).steps).map f =
                (validatedReads validated).map f := by
            intro α f hargs hnew
            rw [hnumbered.validatedReads_placed, validatedReads_withArgs, List.map_map, List.map_map]
            refine List.map_congr_left fun read _ => ?_
            show f (ValidatedRead.renumber _ _) = _
            rw [hnew, hargs]
          refine ⟨⟨hbounds.withArgs.placed hnumbered, hlinked.placed, hnumbered.summariesPlaced⟩, ?_,
            ?_, fun number hnumber => ?_⟩
          · rw [hreads (·.entry.id) (fun _ _ => rfl) (fun _ _ => rfl)]
            exact hplan.ids
          · unfold agentPlanConnectorCharge
            rw [hreads (ValidatedRead.charge _) (fun _ _ => rfl) fun read new => ?_]
            obtain ⟨entry, args, range, ref⟩ := read
            cases ref <;> rfl
          · obtain ⟨old, hold, hnew⟩ := Option.bind_eq_some_iff.mp hnumber
            split at hold
            · obtain ⟨wanted, -, hrelated⟩ := Option.bind_eq_some_iff.mp hold
              obtain ⟨-, read, entryId, other, otherId, hread, hid, hmem, hotherId, hne⟩ :=
                relatedStep_spec hrelated
              refine hlinked.related_placed ⟨{ read with args := args read }, entryId,
                { other with args := args other }, otherId, ?_, hid, ?_, hotherId, hne⟩ hnew
              · rw [stepAt_map, hread]
                rfl
              · rw [validatedReads_withArgs]
                exact List.mem_map_of_mem (f := fun read => { read with args := args read }) hmem
            · cases hold

end accepted

/-- The validator answers every plan, in a context and over words of any kind, and its answer keeps
every rule. -/
theorem validated_plan_within_rules (text : OwnerText) (plan : AgentPlan)
    (ctx : AgentPlanValidationContext) :
    ∃ answer, (∀ fuel, AGENT_PLAN_MAX_READS + 2 ≤ fuel →
        validateAgentPlan text fuel plan ctx = some answer) ∧
      ∀ accepted, answer = .ok accepted → Accepted plan ctx accepted := by
  obtain ⟨answer, hanswer⟩ := answers text ctx plan
  refine ⟨answer, hanswer, ?_⟩
  rintro accepted rfl
  exact validateAgentPlan_accepted _ plan ctx accepted (hanswer _ (Nat.le_refl _))

/-! ## The plan the planner meant -/

/-- Carrying out a plan that may run leaves what the planner's own order of its steps leaves, and gives
at every step what that gives; placing its summaries again moves nothing. -/
theorem run_means_as_planned (text : OwnerText) (fuel : ℕ) (form : PlanForm)
    (steps : List AgentPlanStep) (ambiguity : NlAmbiguity) (related : Option ℕ)
    (ctx : AgentPlanValidationContext) (kind : AgentPlanKind) (placed : List ValidatedAgentStep)
    (connectorCalls : ℕ) (relatedTo : Option ℕ)
    (h : validateAgentPlan text fuel (.steps form steps ambiguity related) ctx =
      some (.ok (.run kind placed connectorCalls relatedTo))) :
    ∃ asked, (checkSteps text steps ctx).map (withClauseGroundedFlags text) = .ok asked ∧
      (∀ (World Value : Type) (around : Surroundings World Value) (world : World),
        (carryOut around placed world).1 = (carryOut around asked world).1 ∧
        ∀ number, 1 ≤ number → number ≤ asked.length →
          ∃ new, (normalizeSummaryPlacement asked).renumber number = some new ∧
            stepAt (carryOut around placed world).2 new =
              stepAt (carryOut around asked world).2 number) ∧
      (normalizeSummaryPlacement placed).steps = placed := by
  cases fuel with
  | zero => cases h
  | succ fuel =>
    rw [validateAgentPlan] at h
    split at h
    · cases h
    obtain ⟨-, ⟨unbounded, hask⟩ | ⟨-, validated, hchecked, hcase⟩⟩ := validateSteps_ok h
    · obtain ⟨suggestion, check, fitted, -, -, hsame⟩ := askUnbounded_ok hask
      cases hsame
    · rcases hcase with ⟨fitted, reads, -, hsame⟩ | hsame | ⟨-, hsame⟩
      · cases hsame
      · cases hsame
      · cases hsame
        obtain ⟨args, hflags⟩ := withClauseGroundedFlags_eq text validated
        have hlinked : Linked (withClauseGroundedFlags text validated) := by
          rw [hflags]
          exact (checkSteps_spec hchecked).linked.withArgs
        have hnumbered := hlinked.wellNumbered
        refine ⟨_, by rw [hchecked]; rfl, fun World Value around world => ?_,
          (hnumbered.placed.placed_again hnumbered.summariesPlaced).1⟩
        obtain ⟨hworld, hvalues⟩ := hnumbered.carryOut_placed around world
        exact ⟨hworld, fun number hone hle =>
          ⟨_, hnumbered.renumber_eq hone hle, hvalues number hone hle⟩⟩

/-- Words that ground every value and claim nothing. -/
def plainWords : OwnerText where
  isPastStatement := false
  readNotRequest _ := none
  absoluteDatesGrounded _ := true
  stepTemporalTexts _ _ := none
  validateSelection _ check := .ok (check.args, none)
  clauseGrounded _ _ _ := true
  positionClause _ _ _ _ := none
  clauseClaimsWrite _ := false
  leavesWriteClause _ := false
  clauseGroundedArgs _ read := read.args
  insideThisWeek _ := true

/-- Every read entry is offered. -/
def everyEntryOffered : AgentPlanValidationContext where
  offered id := (wave1EntryId id).map fun _ => ⟨id, .read, []⟩
  offered_id id entry h := by
    obtain ⟨_, -, rfl⟩ := Option.map_eq_some_iff.mp h
    rfl
  previousArgs := none
  direct := true
  briefConnectorCalls := none

/-- A release and the mail are read, then the release is summarized, then both. -/
def lateSummaries : List AgentPlanStep :=
  [.read ⟨"jira.release", .empty, none⟩, .read ⟨"mail.list", .empty, none⟩,
    .summarize ⟨[1], "digest.v1", by decide⟩, .summarize ⟨[2, 1], "digest.v1", by decide⟩]

/-- The numbers that the steps of an accepted plan read. -/
def plannedNumbers : AgentPlanValidation → Option (List (List ℕ))
  | .ok (.run .run placed _ _) => some (placed.map ValidatedAgentStep.numbers)
  | _ => none

/-- The summary of the release moves up to it. -/
theorem run_means_as_planned_late_summaries :
    ∃ placed connectorCalls relatedTo,
      validateAgentPlan plainWords 6 (.steps .steps lateSummaries .clear none) everyEntryOffered =
        some (.ok (.run .run placed connectorCalls relatedTo)) ∧
      placed.map ValidatedAgentStep.numbers = [[], [1], [], [3, 1]] ∧
      (normalizeSummaryPlacement placed).steps = placed := by
  have hnumbers : ((validateAgentPlan plainWords 6 (.steps .steps lateSummaries .clear none)
      everyEntryOffered).bind plannedNumbers) = some [[], [1], [], [3, 1]] := by
    decide +kernel
  obtain ⟨answer, hanswer, hplaced⟩ := Option.bind_eq_some_iff.mp hnumbers
  unfold plannedNumbers at hplaced
  split at hplaced
  · rename_i placed connectorCalls relatedTo
    obtain ⟨-, -, -, hagain⟩ := run_means_as_planned plainWords 6 .steps lateSummaries .clear none
      everyEntryOffered .run placed connectorCalls relatedTo hanswer
    exact ⟨placed, connectorCalls, relatedTo, hanswer, Option.some.inj hplaced, hagain⟩
  · cases hplaced

end QuokyPlatform.AgentPlans
