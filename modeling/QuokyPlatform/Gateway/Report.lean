import QuokyPlatform.Foundations.Except
import QuokyPlatform.Gateway.Execution

/-! # The report of an execution

On a plan of the right shape an execution always returns. It calls at most two providers, the first
one the primary, the second one only where the outcome of the first allows the hop, each with the
live binding of the plan and within the time that is left. What it reports is what was called and
what the answers came to. -/

namespace QuokyPlatform.Gateway

open Routing Script

set_option autoImplicit false
set_option maxHeartbeats 250000

/-! ## Nothing throws on the way -/

theorem isOfClass_ok (failureClass : RoutingFailureClass) (code : RoutingFailureCode) :
    ∃ policy, failurePolicy code = .ok policy ∧
      isOfClass failureClass code = .ok (decide (policy.failureClass = failureClass)) := by
  obtain ⟨policy, hpolicy, -⟩ := failurePolicy_ok code
  refine ⟨policy, hpolicy, ?_⟩
  unfold isOfClass
  rw [hpolicy]
  rfl

theorem findM?_isOfClass_ok (failureClass : RoutingFailureClass) (codes : List RoutingFailureCode) :
    ∃ found, codes.findM? (isOfClass failureClass) = .ok found := by
  induction codes with
  | nil => exact ⟨none, rfl⟩
  | cons code rest ih =>
    obtain ⟨policy, -, hclass⟩ := isOfClass_ok failureClass code
    rw [List.findM?, hclass]
    cases decide (policy.failureClass = failureClass) with
    | true => exact ⟨some code, rfl⟩
    | false => exact ih

/-- Every validation is classified, as no failure only where it accepts without a reason. -/
theorem classifyValidationFailure_ok (validation : RuntimeValidationResult) :
    ∃ failure, classifyValidationFailure validation = .ok failure ∧
      (failure = none → validation.disposition = .accept ∧ validation.reasonCodes = []) := by
  unfold classifyValidationFailure
  by_cases haccept : validation.disposition = .accept ∧ validation.reasonCodes.length = 0
  · exact ⟨none, if_pos haccept, fun _ => ⟨haccept.1, List.length_eq_zero_iff.mp haccept.2⟩⟩
  · rw [if_neg haccept]
    obtain ⟨safe, hsafe⟩ := findM?_isOfClass_ok .safety (validation.reasonCodes.map REASONS)
    obtain ⟨oper, hoper⟩ := findM?_isOfClass_ok .operational (validation.reasonCodes.map REASONS)
    simp only [hsafe, hoper]
    cases safe with
    | some code => exact ⟨some code, rfl, fun h => by cases h⟩
    | none =>
      cases oper with
      | some code => exact ⟨some code, rfl, fun h => by cases h⟩
      | none => exact ⟨some _, rfl, fun h => by cases h⟩

theorem terminalStatus_ok (code : RoutingFailureCode) :
    ∃ status, terminalStatus code = .ok status ∧ status ≠ .accepted := by
  unfold terminalStatus
  split_ifs
  · exact ⟨_, rfl, by decide⟩
  · exact ⟨_, rfl, by decide⟩
  · obtain ⟨policy, hpolicy, -⟩ := failurePolicy_ok code
    simp only [hpolicy, bind, Except.bind]
    split_ifs <;> exact ⟨_, rfl, by decide⟩

theorem humanReviewCandidate_ok (failureCode : Option ProviderGatewayFailureCode) :
    ∃ candidate, humanReviewCandidate failureCode = .ok candidate := by
  cases failureCode with
  | none => exact ⟨false, rfl⟩
  | some code =>
    simp only [humanReviewCandidate]
    split_ifs with hbinding
    · exact ⟨false, rfl⟩
    · cases code with
      | routing code =>
        obtain ⟨policy, hpolicy, -⟩ := failurePolicy_ok code
        exact ⟨policy.humanReviewCandidate, by simp only [hpolicy]; rfl⟩
      | binding code =>
        refine absurd ?_ hbinding
        show decide _ = true
        rw [decide_eq_true_iff]
        cases code <;> simp only [bindingFailureCodes, List.map_cons, List.map_nil,
          ProviderGatewayFailureCode.name, List.mem_cons, true_or, or_true]

/-- A response that is classified as a risk for safety leads to no other provider. -/
theorem no_hop_of_safety {code : RoutingFailureCode} {policy : RoutingFailurePolicy}
    (h : failurePolicy code = .ok policy) (hsafety : policy.failureClass = .safety) :
    policy.fallbackAllowed = false ∧ policy.escalationAllowed = false := by
  cases code <;> cases h <;> first | exact ⟨rfl, rfl⟩ | cases hsafety

section

variable {world : World} {plan : ProviderExecutionPlan} {request : AiRequest}
  {validationFacts : Option ProviderRoutingValidationFacts}

theorem validate_ok {profile : ValidationProfileDefinition}
    (hprofile : world.profiles.resolve plan.validationProfile = .ok profile)
    (result : AiExecutionResult) :
    validate world (inputView plan request validationFacts result) =
      .ok (validateUnder world profile (inputView plan request validationFacts result)) :=
  bind_ok.mpr ⟨profile, hprofile, rfl⟩

/-- What was accepted has a projection. -/
theorem project_ok {profile : ValidationProfileDefinition} {input : RuntimeValidationInputView}
    (haccept : (validateUnder world profile input).disposition = .accept) :
    ∃ output, projectBoundedProviderOutput world.sha256 input.result
      (validateUnder world profile input) = .ok output := by
  unfold projectBoundedProviderOutput
  rw [if_neg (fun h => h haccept)]
  unfold validateUnder at haccept ⊢
  cases hcanonical : canonicalOutput input.result with
  | error message =>
    simp only [hcanonical] at haccept
    cases haccept
  | ok output =>
    simp only [hcanonical] at haccept ⊢
    cases hcodes : reasonCodesOf (breaks world profile input output) profile.rules with
    | none =>
      simp only [hcodes] at haccept
      cases haccept
    | some reasonCodes =>
      exact ⟨⟨output.text, output.artifacts, _, _⟩, if_neg (fun h => h.elim (· rfl) (· rfl))⟩

end

/-! ## What is to hold of calls and attempts -/

section

variable (world : World) (plan : ProviderExecutionPlan) (request : AiRequest)
  (validationFacts : Option ProviderRoutingValidationFacts)
  (profile : ValidationProfileDefinition) (budget : DeadlineBounds)

/-- The checks before the first attempt are passed, with this profile and these bounds. -/
structure Passed : Prop where
  policyVersion : isVersion world.deadlinePolicy.version
  registryVersion : plan.registryVersion = (world.bindings 0).registryVersion
  registryDigest :
    plan.registryConfigurationDigest = (world.bindings 0).registryConfigurationDigest
  resolved : world.profiles.resolve plan.validationProfile = .ok profile
  profileVersion : profile.version = plan.validationProfileVersion
  profileDigest : profile.configurationDigest = plan.validationProfileConfigurationDigest
  bindings : ∀ target ∈ plan.targets, bindingFailure (world.bindings 0) target = none
  bounds : (world.deadlinePolicy.resolve plan.deadlineClass).bind DeadlineBudget.bounds = some budget

/-- The deadline counts from the first reading of the clock. -/
def deadlineAt : ℚ := world.clock 0 + budget.overallBudgetMs

/-- What is left at a reading of the clock. -/
def timeLeft (reading : ℕ) : ℚ := deadlineAt world budget - world.clock reading

/-- A call goes to the live binding its target has in the plan, while the least attempt and the
reserve fit into the time that is left, and ends the reserve before the deadline. -/
structure Admitted (call : Call) : Prop where
  live : (world.bindings (call.admittedAt + 1)).get call.target.providerId = some call.binding
  provider : call.binding.provider = call.target.providerId
  version : call.binding.identity.bindingVersion = call.target.bindingIdentity.bindingVersion
  digest : call.binding.identity.bindingDigest = call.target.bindingIdentity.bindingDigest
  time : budget.minimumAttemptBudgetMs + budget.validationReserveMs ≤
    timeLeft world budget call.admittedAt
  timeout : ∃ timeoutMs : ℚ, call.request = { request with timeoutMs := some (.finite timeoutMs) } ∧
    timeoutMs ≤ timeLeft world budget call.admittedAt - budget.validationReserveMs

/-- The outcome of a call is a failure. -/
def Failed (call : Call) (code : RoutingFailureCode) : Prop :=
  match call.answer with
  | .error error => code = failureOf error
  | .ok result => classifyValidationFailure
      (validateUnder world profile (inputView plan request validationFacts result)) = .ok (some code)

/-- The outcome of a first call allows a hop: to the fallback of the plan, where the row of its
failure allows one, or to the escalation, where the validation escalates and row and profile allow
it. -/
inductive Hop (first : Call) (target : ProviderExecutionTarget) : Prop where
  | fallback (code : RoutingFailureCode) (policy : RoutingFailurePolicy)
      (htarget : plan.operationalFallback = some target)
      (hfailed : Failed world plan request validationFacts profile first code)
      (hpolicy : failurePolicy code = .ok policy) (hallowed : policy.fallbackAllowed = true)
  | escalation (result : AiExecutionResult) (code : RoutingFailureCode)
      (policy : RoutingFailurePolicy) (htarget : plan.semanticEscalation = some target)
      (hanswer : first.answer = .ok result)
      (hescalate : (validateUnder world profile
        (inputView plan request validationFacts result)).disposition = .escalate)
      (hfailed : Failed world plan request validationFacts profile first code)
      (hpolicy : failurePolicy code = .ok policy) (hallowed : policy.escalationAllowed = true)
      (hprofile : profile.escalationEnabled = true)

/-- Which target a provider is to be called for after these calls. -/
inductive Awaits : List Call → ProviderExecutionTarget → Prop where
  | first : Awaits [] plan.primary
  | hop (first : Call) (target : ProviderExecutionTarget) (hfirst : first.target = plan.primary)
      (hhop : Hop world plan request validationFacts profile first target) : Awaits [first] target

/-- What the audit of an attempt tells of its call. -/
def Told (call : Call) (audit : ProviderAttemptAudit) : Prop :=
  let attempt (response : Except RoutingFailureCode AiExecutionResult) : AttemptResult :=
    ⟨call.target, response, ⌊timeLeft world budget call.admittedAt - budget.validationReserveMs⌋,
      max 0 (world.clock (call.admittedAt + 2) - world.clock (call.admittedAt + 1))⟩
  match call.answer with
  | .error error => audit = failedAttempt call.target (attempt (.error (failureOf error)))
      audit.attemptIndex (failureOf error)
  | .ok result => ∃ failure,
      classifyValidationFailure
        (validateUnder world profile (inputView plan request validationFacts result)) = .ok failure ∧
      audit = validatedAttempt call.target (attempt (.ok result)) audit.attemptIndex
        (validateUnder world profile (inputView plan request validationFacts result)) failure

/-- The calls so far, and the attempts that tell of them. -/
structure Recounted (run : Run) : Prop where
  admitted : ∀ call ∈ run.calls, Admitted world request budget call
  told : List.Forall₂ (Told world plan request validationFacts profile budget) run.calls run.attempts
  numbered : run.attempts.map (·.attemptIndex) = List.range' 1 run.attempts.length
  traced : run.machine.Traced

/-- The state an attempt starts in. -/
def readyState : ExecutionTargetPurpose → RoutingExecutionState
  | .primary => .primaryReady
  | .fallback => .fallbackReady
  | .escalation => .escalationReady

def pathOf : ExecutionTargetPurpose → ProviderExecutionPath
  | .primary => .primaryOnly
  | .fallback => .fallback
  | .escalation => .escalation

/-- A run before an attempt for a target. -/
structure Ready (target : ProviderExecutionTarget) (run : Run) : Prop where
  recounted : Recounted world plan request validationFacts profile budget run
  awaits : Awaits world plan request validationFacts profile run.calls target
  state : run.machine.state = readyState target.purpose
  path : run.path = pathOf target.purpose

/-- A result tells where the run that gave it has come. -/
structure Ended (status : ProviderGatewayTerminalStatus)
    (failureCode : Option ProviderGatewayFailureCode) (output : Option BoundedProviderOutput)
    (before : Run) (result : ProviderGatewayResult) (run : Run) : Prop where
  kept : run = { before with machine := run.machine }
  traced : run.machine.Traced
  terminal : run.machine.state = .terminal
  audit : result.audit = auditOf world plan status failureCode output run
  status : result.status = status
  failureCode : result.failureCode = failureCode
  output : result.output = output

/-- A run whose last target this is, whether it was called or not. -/
structure Reached (target : ProviderExecutionTarget) (run : Run) : Prop where
  recounted : Recounted world plan request validationFacts profile budget run
  calls : Awaits world plan request validationFacts profile run.calls target ∨
    ∃ before call, run.calls = before ++ [call] ∧ call.target = target ∧
      Awaits world plan request validationFacts profile before target
  finalTarget : run.finalTarget = some target
  path : run.path = pathOf target.purpose

/-- The last call was answered by what was accepted, with a reading of the clock after it that is
before the deadline. -/
def Earned (output : BoundedProviderOutput) (run : Run) : Prop :=
  ∃ before call result reading,
    run.calls = before ++ [call] ∧ call.answer = .ok result ∧
    (validateUnder world profile (inputView plan request validationFacts result)).disposition =
      .accept ∧
    (validateUnder world profile (inputView plan request validationFacts result)).reasonCodes = [] ∧
    projectBoundedProviderOutput world.sha256 result
      (validateUnder world profile (inputView plan request validationFacts result)) = .ok output ∧
    call.admittedAt + 2 < reading ∧ world.clock reading < deadlineAt world budget

/-- Where the call was a risk for safety, the run is blocked for it. -/
def BlockedFor (call : Call) (status : ProviderGatewayTerminalStatus)
    (failureCode : Option ProviderGatewayFailureCode) : Prop :=
  ∀ code policy, Failed world plan request validationFacts profile call code →
    failurePolicy code = .ok policy → policy.failureClass = .safety →
      status = .safetyBlocked ∧ failureCode = some (.routing code)

/-- Whatever call was a risk for safety is the last one, and the run is blocked for it. -/
def Blocked (status : ProviderGatewayTerminalStatus)
    (failureCode : Option ProviderGatewayFailureCode) (run : Run) : Prop :=
  ∀ call ∈ run.calls, ∀ code policy,
    Failed world plan request validationFacts profile call code → failurePolicy code = .ok policy →
      policy.failureClass = .safety →
        run.calls.getLast? = some call ∧ status = .safetyBlocked ∧
          failureCode = some (.routing code)

/-- The result of a run that came to a target, and what it tells. -/
structure Reported (target : ProviderExecutionTarget) (result : ProviderGatewayResult) (run : Run) :
    Prop where
  reached : Reached world plan request validationFacts profile budget target run
  terminal : run.machine.state = .terminal
  audit : result.audit =
    auditOf world plan result.status result.failureCode result.output run
  blocked : Blocked world plan request validationFacts profile result.status result.failureCode run
  accepted : result.status = .accepted ↔ result.output.isSome = true
  earned : ∀ output, result.output = some output →
    Earned world plan request validationFacts profile budget output run

end

end QuokyPlatform.Gateway
