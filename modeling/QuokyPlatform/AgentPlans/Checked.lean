import QuokyPlatform.AgentPlans.Placement
import QuokyPlatform.AgentPlans.Validator
import QuokyPlatform.Foundations.Except

/-! # What the checks of a plan establish

Each check of the validator is inverted once: what a step that passed it is, and what a plan whose
steps all passed is. The rules a plan keeps do not depend on the order of its steps or on its flags, so
they hold of the placed plan as well. -/

namespace QuokyPlatform.AgentPlans
open AgentRuns (NlWave1EntryId AGENT_READ_SOURCES AgentSummarySchemaId AgentPlanKind)

set_option autoImplicit false
set_option maxHeartbeats 250000

/-! ## Rules -/

/-- The values the references of a plan take. -/
def takenBy (steps : List ValidatedAgentStep) : ℕ := (steps.map fun step => step.take.getD 0).sum

/-- A reference names an earlier read of the same source, by the id field that read projects; one with
a position takes one item, and a later summary covers it. -/
structure RefWithin (steps : List ValidatedAgentStep) (number : ℕ) (read : ValidatedRead)
    (ref : ValidatedRef) : Prop where
  earlier : ref.step < number
  source : ∃ source, stepAt steps ref.step = some (.read source) ∧
    wave1EntryId source.entry.id = some ref.entryId
  bound : ∃ target, wave1EntryId read.entry.id = some target ∧
    (AGENT_READ_SOURCES ref.entryId).source = (AGENT_READ_SOURCES target).source ∧
    (AGENT_READ_SOURCES ref.entryId).origin = (AGENT_READ_SOURCES target).origin ∧
    ref.origin = (AGENT_READ_SOURCES target).origin
  field : (AGENT_READ_SOURCES ref.entryId).refField = some ref.field
  position : ∀ position, ref.position = some position →
    ref.take = 1 ∧ position ≤ AGENT_PLAN_MAX_REF_VALUES ∧
      (AGENT_READ_SOURCES ref.entryId).itemEntry = wave1EntryId read.entry.id ∧
      ∃ later summary, number < later ∧ stepAt steps later = some (.summarize summary) ∧
        number ∈ summary.sources

structure SummaryWithin (steps : List ValidatedAgentStep) (number : ℕ) (summary : ValidatedSummary) :
    Prop where
  nonempty : summary.sources ≠ []
  distinct : summary.sources.Nodup
  covers : ∀ source ∈ summary.sources, source < number ∧
    ∃ read, stepAt steps source = some (.read read) ∧ read.entry.id ≠ "brief.today"

/-- How the steps of a plan hang together. -/
structure Linked (steps : List ValidatedAgentStep) : Prop where
  ref : ∀ number read ref, stepAt steps number = some (.read read) → read.ref = some ref →
    RefWithin steps number read ref
  summary : ∀ number summary, stepAt steps number = some (.summarize summary) →
    SummaryWithin steps number summary

/-- What the steps of a plan are, in whatever order. -/
structure WithinBounds (offered : String → Option NlCatalogEntry) (briefConnectorCalls : Option ℕ)
    (steps : List ValidatedAgentStep) : Prop where
  size : steps.length ≤ AGENT_PLAN_MAX_STEPS
  some_read : 1 ≤ (validatedReads steps).length
  reads : (validatedReads steps).length ≤ AGENT_PLAN_MAX_READS
  summaries : steps.length ≤ (validatedReads steps).length + AGENT_PLAN_MAX_SUMMARIES
  entry : ∀ read ∈ validatedReads steps, offered read.entry.id = some read.entry ∧
    read.entry.risk = .read ∧ (wave1EntryId read.entry.id).isSome = true
  alone : 1 < steps.length → ∀ read ∈ validatedReads steps, read.entry.id ≠ "help.topic"
  brief : (validatedReads steps).countP (fun read => read.entry.id = "brief.today") ≤ 1
  taken : takenBy steps ≤ AGENT_PLAN_MAX_RUN_REF_VALUES
  charge : agentPlanConnectorCharge briefConnectorCalls steps ≤ AGENT_RUN_MAX_CONNECTOR_CALLS

theorem Linked.wellNumbered {steps : List ValidatedAgentStep} (h : Linked steps) :
    WellNumbered steps := by
  constructor
  · intro number read ref hread href
    obtain ⟨source, hsource, -⟩ := (h.ref number read ref hread href).source
    exact ⟨(h.ref number read ref hread href).earlier, source, hsource⟩
  · intro number summary hsummary
    refine ⟨(h.summary number summary hsummary).nonempty, fun source hsource => ?_⟩
    obtain ⟨hlt, read, hread, -⟩ := (h.summary number summary hsummary).covers source hsource
    exact ⟨hlt, read, hread⟩

/-! ## The checks of one step -/

section checks

variable {text : OwnerText} {steps : List AgentPlanStep} {ctx : AgentPlanValidationContext}
  {number : ℕ}

theorem positionRefHolds_spec {position take : ℕ} {list : ReadStep} {listEntry target : NlWave1EntryId}
    (h : positionRefHolds text position take list listEntry target number steps ctx = true) :
    take = 1 ∧ position ≤ AGENT_PLAN_MAX_REF_VALUES ∧
      (AGENT_READ_SOURCES listEntry).itemEntry = some target ∧
      ∃ later summary, number < later ∧ stepAt steps later = some (.summarize summary) ∧
        number ∈ summary.sources := by
  unfold positionRefHolds at h
  simp only at h
  split at h
  · cases h
  rename_i hshape
  split at h
  · cases h
  rename_i hitem
  split at h
  · cases h
  rename_i hcovered
  simp only [not_or, not_not, Nat.not_lt] at hshape hitem
  refine ⟨hshape.1, hshape.2.1, hitem, ?_⟩
  simp only [Bool.not_eq_true', Bool.not_eq_false] at hcovered
  obtain ⟨⟨other, later⟩, hmem, hother⟩ := List.any_eq_true.mp hcovered
  obtain ⟨hlow, hhigh, hat⟩ := List.mem_zipIdx hmem
  cases other with
  | read read => cases hother
  | summarize summary =>
    simp only [Bool.and_eq_true, decide_eq_true_eq, List.contains_iff_mem] at hother
    refine ⟨later, summary, hother.1, stepAt_eq_some.mpr ⟨hlow, ?_⟩, hother.2⟩
    rw [List.getElem?_eq_getElem (by omega), ← hat]

/-- What a checked read is. -/
structure ReadChecked (steps : List AgentPlanStep) (ctx : AgentPlanValidationContext) (number : ℕ)
    (step : ReadStep) (checked : ValidatedRead) : Prop where
  id : checked.entry.id = step.entryId
  offered : ctx.offered step.entryId = some checked.entry
  risk : checked.entry.risk = .read
  wave1 : (wave1EntryId step.entryId).isSome = true
  take : checked.ref.map ValidatedRef.take = step.ref.map AgentPlanRef.take
  ref : ∀ ref, checked.ref = some ref → ref.step < number ∧
    (∃ source, stepAt steps ref.step = some (.read source) ∧
      wave1EntryId source.entryId = some ref.entryId) ∧
    (∃ target, wave1EntryId step.entryId = some target ∧
      (AGENT_READ_SOURCES ref.entryId).source = (AGENT_READ_SOURCES target).source ∧
      (AGENT_READ_SOURCES ref.entryId).origin = (AGENT_READ_SOURCES target).origin ∧
      ref.origin = (AGENT_READ_SOURCES target).origin) ∧
    (AGENT_READ_SOURCES ref.entryId).refField = some ref.field ∧
    ∀ position, ref.position = some position →
      ref.take = 1 ∧ position ≤ AGENT_PLAN_MAX_REF_VALUES ∧
        (AGENT_READ_SOURCES ref.entryId).itemEntry = wave1EntryId step.entryId ∧
        ∃ later summary, number < later ∧ stepAt steps later = some (.summarize summary) ∧
          number ∈ summary.sources

theorem checkRef_spec {step : ReadStep} {base checked : ValidatedRead} (hid : base.entry.id = step.entryId)
    (hoffered : ctx.offered step.entryId = some base.entry) (hrisk : base.entry.risk = .read)
    (hwave : (wave1EntryId step.entryId).isSome = true) (hbase : base.ref = none)
    (h : checkRef text step number steps ctx base = .ok checked) :
    ReadChecked steps ctx number step checked := by
  obtain ⟨target, htarget⟩ := Option.isSome_iff_exists.mp hwave
  unfold checkRef at h
  cases href : step.ref with
  | none =>
    rw [href] at h
    cases h
    refine ⟨hid, hoffered, hrisk, hwave, by rw [hbase, href]; rfl, fun ref hsome => ?_⟩
    rw [hbase] at hsome
    cases hsome
  | some ref =>
    simp only [href, htarget] at h
    split at h
    · cases h
    rename_i hearlier
    split at h
    · rename_i source hsource
      cases hlist : wave1EntryId source.entryId with
      | none =>
        rw [hlist] at h
        cases h
      | some listEntry =>
        simp only [hlist] at h
        split at h
        · cases h
        split at h
        · cases h
        rename_i hcross
        split at h
        · cases h
        rename_i hfield
        split at h
        · cases h
        split at h
        · cases h
        rename_i hposition
        cases h
        simp only [not_or, not_not] at hcross hfield
        refine ⟨hid, hoffered, hrisk, hwave, by rw [href]; rfl, fun found hfound => ?_⟩
        cases hfound
        refine ⟨Nat.lt_of_not_le hearlier, ⟨source, hsource, hlist⟩,
          ⟨target, htarget, hcross.1, hcross.2, hcross.2⟩, hfield, fun position hsome => ?_⟩
        have hsome' : ref.position = some position := hsome
        rw [hsome'] at hposition
        simp only [Option.any_some, Bool.not_eq_true', Bool.not_eq_false] at hposition
        obtain ⟨htake, hle, hitem, hcovered⟩ := positionRefHolds_spec hposition
        exact ⟨htake, hle, hitem.trans htarget.symm, hcovered⟩
    · cases h

theorem checkRead_spec {step : ReadStep} {temporal : Option StepTemporal} {checked : ValidatedRead}
    (h : checkRead text step number steps ctx temporal = .ok checked) :
    ReadChecked steps ctx number step checked := by
  unfold checkRead at h
  split at h
  · cases h
  split at h
  · cases h
  rename_i hwave
  have hwave : (wave1EntryId step.entryId).isSome = true := by
    simpa [Option.isSome_iff_ne_none] using hwave
  cases hoffered : ctx.offered step.entryId with
  | none =>
    simp only [hoffered] at h
    cases h
  | some entry =>
    simp only [hoffered] at h
    split at h
    · cases h
    rename_i hrisk
    rw [not_not] at hrisk
    have hid := ctx.offered_id _ _ hoffered
    split at h
    · cases h
    split at h
    · cases h
    split at h
    · split at h
      · cases h
      · exact checkRef_spec hid hoffered hrisk hwave rfl h
    · split at h
      · cases h
      · split at h
        · cases h
        · exact checkRef_spec hid hoffered hrisk hwave rfl h

theorem checkSummary_spec {step : SummaryStep} {checked : ValidatedSummary}
    (h : checkSummary step number steps = .ok checked) :
    checked.sources = step.sources ∧ step.sources.Nodup ∧ ∀ source ∈ step.sources, source < number ∧
      ∃ read, stepAt steps source = some (.read read) ∧ read.entryId ≠ "brief.today" := by
  unfold checkSummary at h
  split at h
  · cases h
  split at h
  · cases h
  rename_i hnodup
  rw [not_not] at hnodup
  split at h
  · cases h
  rename_i hnone
  cases h
  refine ⟨rfl, hnodup, fun source hsource => ?_⟩
  have hpassed := List.findSome?_eq_none_iff.mp hnone source hsource
  unfold sourceRefusal at hpassed
  split at hpassed
  · rename_i read hread
    split at hpassed
    · cases hpassed
    · rename_i hlt
      split at hpassed
      · cases hpassed
      · rename_i hbrief
        exact ⟨by omega, read, hread, hbrief⟩
  · cases hpassed

/-- What a checked step is. -/
def StepChecked (steps : List AgentPlanStep) (ctx : AgentPlanValidationContext) (number : ℕ) :
    AgentPlanStep → ValidatedAgentStep → Prop
  | .read step, .read checked => ReadChecked steps ctx number step checked
  | .summarize step, .summarize checked => checked.sources = step.sources ∧ step.sources.Nodup ∧
    ∀ source ∈ step.sources, source < number ∧
      ∃ read, stepAt steps source = some (.read read) ∧ read.entryId ≠ "brief.today"
  | _, _ => False

theorem map_ok {ε α β : Type*} {f : α → β} {x : Except ε α} {b : β} :
    x.map f = .ok b ↔ ∃ a, x = .ok a ∧ f a = b := by
  cases x <;> simp [Except.map]

theorem checkStep_spec {step : AgentPlanStep} {temporal : Option StepTemporal}
    {checked : ValidatedAgentStep} (h : checkStep text step number steps ctx temporal = .ok checked) :
    StepChecked steps ctx number step checked := by
  cases step with
  | read step =>
    obtain ⟨read, hread, rfl⟩ := map_ok.mp h
    exact checkRead_spec hread
  | summarize step =>
    obtain ⟨summary, hsummary, rfl⟩ := map_ok.mp h
    exact checkSummary_spec hsummary

/-! ## The loop -/

/-- What the loop over the steps from `first` on leaves. -/
structure LoopChecked (steps : List AgentPlanStep) (ctx : AgentPlanValidationContext) (first : ℕ)
    (refValues : ℕ) (rest : List AgentPlanStep) (checked : List ValidatedAgentStep) : Prop where
  length : checked.length = rest.length
  step : ∀ (index : ℕ) planned found, rest[index]? = some planned → checked[index]? = some found →
    StepChecked steps ctx (first + index) planned found
  ids : (validatedReads checked).map (·.entry.id) = (readsOf rest).map ReadStep.entryId
  taken : refValues ≤ AGENT_PLAN_MAX_RUN_REF_VALUES →
    refValues + takenBy checked ≤ AGENT_PLAN_MAX_RUN_REF_VALUES

theorem checkStepsFrom_spec {temporal : Option StepTemporal} :
    ∀ (rest : List AgentPlanStep) (first refValues : ℕ) (checked : List ValidatedAgentStep),
      checkStepsFrom text steps ctx temporal first refValues rest = .ok checked →
      LoopChecked steps ctx first refValues rest checked
  | [], first, refValues, checked, h => by
    cases h
    exact ⟨rfl, (fun _ _ _ h => nomatch h), rfl, fun h => h⟩
  | planned :: rest, first, refValues, checked, h => by
    rw [checkStepsFrom] at h
    cases hstep : checkStep text planned first steps ctx temporal with
    | error refusal =>
      rw [hstep] at h
      cases h
    | ok found =>
      simp only [hstep] at h
      split at h
      · cases h
      rename_i hfits
      obtain ⟨others, hothers, rfl⟩ := map_ok.mp h
      have ih := checkStepsFrom_spec rest (first + 1) _ others hothers
      have hspec := checkStep_spec hstep
      refine ⟨by rw [List.length_cons, List.length_cons, ih.length], ?_, ?_, ?_⟩
      · intro index step other hplanned hfound
        cases index with
        | zero =>
          cases hplanned
          cases hfound
          exact hspec
        | succ index =>
          rw [List.getElem?_cons_succ] at hplanned hfound
          rw [show first + (index + 1) = first + 1 + index by omega]
          exact ih.step index step other hplanned hfound
      · cases planned with
        | read step =>
          cases found with
          | summarize summary => cases hspec
          | read read =>
            show read.entry.id :: (validatedReads others).map (·.entry.id) =
              step.entryId :: (readsOf rest).map ReadStep.entryId
            rw [ih.ids, ReadChecked.id hspec]
        | summarize step =>
          cases found with
          | read read => cases hspec
          | summarize summary => exact ih.ids
      · intro hle
        have htotal : takenBy (found :: others) = found.take.getD 0 + takenBy others := rfl
        have hnext : refValues + found.take.getD 0 ≤ AGENT_PLAN_MAX_RUN_REF_VALUES := by
          cases htake : found.take with
          | none => exact hle
          | some take =>
            rw [htake] at hfits
            simp only [Option.any_some, decide_eq_true_eq, Nat.not_lt] at hfits
            exact hfits
        have := ih.taken hnext
        omega

/-- A plan whose steps all passed, in the planner's order. -/
structure PlanChecked (steps : List AgentPlanStep) (ctx : AgentPlanValidationContext)
    (checked : List ValidatedAgentStep) : Prop where
  length : checked.length = steps.length
  linked : Linked checked
  entry : ∀ read ∈ validatedReads checked, ctx.offered read.entry.id = some read.entry ∧
    read.entry.risk = .read ∧ (wave1EntryId read.entry.id).isSome = true
  ids : (validatedReads checked).map (·.entry.id) = (readsOf steps).map ReadStep.entryId
  taken : takenBy checked ≤ AGENT_PLAN_MAX_RUN_REF_VALUES

theorem mem_validatedReads {steps : List ValidatedAgentStep} {read : ValidatedRead} :
    read ∈ validatedReads steps ↔ ∃ number, stepAt steps number = some (.read read) := by
  unfold validatedReads
  rw [List.mem_filterMap]
  constructor
  · rintro ⟨step, hmem, hstep⟩
    obtain ⟨index, hindex⟩ := List.getElem?_of_mem hmem
    cases step with
    | summarize summary => cases hstep
    | read other =>
      cases hstep
      exact ⟨index + 1, hindex⟩
  · rintro ⟨number, hnumber⟩
    obtain ⟨-, hindex⟩ := stepAt_eq_some.mp hnumber
    exact ⟨.read read, List.mem_of_getElem? hindex, rfl⟩

theorem checkSteps_spec {checked : List ValidatedAgentStep}
    (h : checkSteps text steps ctx = .ok checked) : PlanChecked steps ctx checked := by
  have hloop := checkStepsFrom_spec _ _ _ _ h
  have hplanned : ∀ number found, stepAt checked number = some found →
      ∃ planned, stepAt steps number = some planned ∧ StepChecked steps ctx number planned found := by
    intro number found hfound
    obtain ⟨hone, hle⟩ := bounds_of_stepAt hfound
    rw [hloop.length] at hle
    obtain ⟨planned, hplanned⟩ := exists_stepAt hone hle
    refine ⟨planned, hplanned, ?_⟩
    have hstep := hloop.step (number - 1) planned found (stepAt_eq_some.mp hplanned).2
      (stepAt_eq_some.mp hfound).2
    rwa [show 1 + (number - 1) = number by omega] at hstep
  have hread : ∀ number step, stepAt steps number = some (.read step) →
      ∃ read, stepAt checked number = some (.read read) ∧ read.entry.id = step.entryId := by
    intro number step hstep
    obtain ⟨hone, hle⟩ := bounds_of_stepAt hstep
    have hchecked : number ≤ checked.length := hloop.length ▸ hle
    obtain ⟨found, hfound⟩ := exists_stepAt hone hchecked
    obtain ⟨planned, hplan, hspec⟩ := hplanned number found hfound
    rw [hstep] at hplan
    cases hplan
    cases found with
    | summarize summary => cases hspec
    | read read => exact ⟨read, hfound, ReadChecked.id hspec⟩
  have hsummary : ∀ number step, stepAt steps number = some (.summarize step) →
      ∃ summary, stepAt checked number = some (.summarize summary) ∧
        summary.sources = step.sources := by
    intro number step hstep
    obtain ⟨hone, hle⟩ := bounds_of_stepAt hstep
    have hchecked : number ≤ checked.length := hloop.length ▸ hle
    obtain ⟨found, hfound⟩ := exists_stepAt hone hchecked
    obtain ⟨planned, hplan, hspec⟩ := hplanned number found hfound
    rw [hstep] at hplan
    cases hplan
    cases found with
    | read read => cases hspec
    | summarize summary => exact ⟨summary, hfound, And.left hspec⟩
  refine ⟨hloop.length, ⟨?_, ?_⟩, ?_, hloop.ids, ?_⟩
  · intro number read ref hfound href
    obtain ⟨planned, hplan, hspec⟩ := hplanned number _ hfound
    cases planned with
    | summarize step => cases hspec
    | read step =>
      obtain ⟨hlt, ⟨source, hsource, hlist⟩, hbound, hfield, hposition⟩ :=
        ReadChecked.ref hspec ref href
      have hid := ReadChecked.id hspec
      obtain ⟨read', hread', hid'⟩ := hread _ source hsource
      refine ⟨hlt, ⟨read', hread', by rw [hid', hlist]⟩, by rw [hid]; exact hbound, hfield, ?_⟩
      intro position hsome
      obtain ⟨htake, hle, hitem, later, summary, hlater, hat, hmem⟩ := hposition position hsome
      obtain ⟨found, hfound', hsources⟩ := hsummary later summary hat
      exact ⟨htake, hle, by rw [hid]; exact hitem, later, found, hlater, hfound',
        by rw [hsources]; exact hmem⟩
  · intro number summary hfound
    obtain ⟨planned, hplan, hspec⟩ := hplanned number _ hfound
    cases planned with
    | read step => cases hspec
    | summarize step =>
      obtain ⟨hsources, hnodup, hcovers⟩ := hspec
      refine ⟨by rw [hsources]; exact step.nonempty, by rw [hsources]; exact hnodup, ?_⟩
      intro source hsource
      rw [hsources] at hsource
      obtain ⟨hlt, read, hat, hbrief⟩ := hcovers source hsource
      obtain ⟨read', hread', hid⟩ := hread source read hat
      exact ⟨hlt, read', hread', by rw [hid]; exact hbrief⟩
  · intro read hmem
    obtain ⟨number, hnumber⟩ := mem_validatedReads.mp hmem
    obtain ⟨planned, hplan, hspec⟩ := hplanned number _ hnumber
    cases planned with
    | summarize step => cases hspec
    | read step =>
      rw [ReadChecked.id hspec]
      exact ⟨ReadChecked.offered hspec, ReadChecked.risk hspec, ReadChecked.wave1 hspec⟩
  · have := hloop.taken (Nat.zero_le _)
    omega

end checks

end QuokyPlatform.AgentPlans
