import QuokyPlatform.Foundations.Ensures
import QuokyPlatform.Gateway.Contracts

/-! # The execution of a plan

One run of the gateway is a script over what it keeps: the state machine, the audit of its attempts,
and the calls it makes. Clock, live bindings and the answers of the providers come from a world that
is free to give any: the clock by its readings, the bindings by the readings made so far, the
answers by the calls made so far. -/

namespace QuokyPlatform.Gateway

open Routing

set_option autoImplicit false
set_option maxHeartbeats 250000

/-! ## Requests, answers and the report -/

structure ContextFile where
  content : String
  deriving DecidableEq

/-- What the gateway reads of a request; the rest is passed on as it is. -/
structure AiRequest where
  capability : Capability
  prompt : String
  contextFiles : Option (List ContextFile)
  timeoutMs : Option Number
  deriving DecidableEq

/-- `contextCorpus` is there with a value, there as `undefined`, or not there. -/
structure ProviderRoutingValidationFacts where
  recencyFact : Option String
  currentUserTurn : Option String
  contextCorpus : Option (Option (List String))
  deriving DecidableEq

structure RuntimeValidationInputView where
  validationProfile : String
  prompt : String
  recencyFact : Option String
  currentUserTurn : Option String
  contextCorpus : Option (List String)
  result : AiExecutionResult
  deriving DecidableEq

/-- What is thrown: an `AiProviderError`, of a kind there is or of none, or something else. -/
inductive Thrown where
  | aiProviderError (kind : Option AiFailureKind)
  | other (message : String)
  deriving DecidableEq

inductive ProviderGatewayTerminalStatus where
  | accepted | rejected | humanReviewRequired | executionFailed | safetyBlocked | configurationFailed
  deriving DecidableEq

inductive ProviderAttemptOutcome where
  | providerFailed | validationAccepted | validationRejected
  deriving DecidableEq

structure ProviderAttemptAudit where
  attemptIndex : ℕ
  purpose : ExecutionTargetPurpose
  providerId : String
  bindingDigest : String
  outcome : ProviderAttemptOutcome
  failureCode : Option RoutingFailureCode
  validationDisposition : Option ValidationDisposition
  validationReasonCodes : List ResponseValidationReasonCode
  validationSucceeded : Bool
  responseSha256 : Option String
  responseByteCount : Option ℕ
  providerBudgetMs : ℤ
  durationMs : ℚ
  deriving DecidableEq

inductive ProviderExecutionPath where
  | primaryOnly | fallback | escalation
  deriving DecidableEq

structure ProviderExecutionAudit where
  executionId : String
  decisionId : String
  planDigest : String
  executionConfigurationDigest : String
  deadlinePolicyVersion : String
  capability : Capability
  validationProfile : String
  matchedPolicyId : String
  policyVersion : String
  registryVersion : String
  registryConfigurationDigest : String
  policyConfigurationDigest : String
  configurationDigest : String
  path : ProviderExecutionPath
  attemptCount : ℕ
  attempts : List ProviderAttemptAudit
  transitions : List RoutingTransitionAudit
  terminalStatus : ProviderGatewayTerminalStatus
  terminalCode : Option ProviderGatewayFailureCode
  finalProviderId : Option String
  finalPurpose : Option ExecutionTargetPurpose
  acceptedResponseSha256 : Option String
  deriving DecidableEq

structure ProviderGatewayResult where
  status : ProviderGatewayTerminalStatus
  failureCode : Option ProviderGatewayFailureCode
  humanReviewRequired : Bool
  output : Option BoundedProviderOutput
  audit : ProviderExecutionAudit
  deriving DecidableEq

/-! ## The world and the run -/

structure World where
  /-- The `n`-th reading of the clock. -/
  clock : ℕ → ℚ
  /-- The bindings as they are after `n` readings of the clock. -/
  bindings : ℕ → ProviderBindingRegistry
  profiles : ValidationProfileRegistry
  deadlinePolicy : ProviderDeadlinePolicy
  /-- How the `n`-th call of a provider ends. -/
  answer : ℕ → Except Thrown AiExecutionResult
  sha256 : List Char → String
  /-- Whether a response breaks a rule, where the test does not throw. -/
  check : RuntimeValidationRule → RuntimeValidationInputView → CanonicalProviderOutput → Option Bool

/-- A call of a provider: the target it is made for, the binding that is called, with what, at which
reading of the clock it was admitted, and how it ended. -/
structure Call where
  target : ProviderExecutionTarget
  binding : ValidatedExecutableProviderBinding
  request : AiRequest
  admittedAt : ℕ
  answer : Except Thrown AiExecutionResult

structure Run where
  machine : RoutingExecutionStateMachine
  attempts : List ProviderAttemptAudit
  path : ProviderExecutionPath
  finalTarget : Option ProviderExecutionTarget
  reads : ℕ
  calls : List Call

def Run.start : Run := ⟨.new, [], .primaryOnly, none, 0, []⟩

abbrev Execution (α : Type) := Script Run Thrown α

def orThrow {α : Type} : Except String α → Execution α
  | .ok a => pure a
  | .error message => throw (.other message)

/-! ## The shape of a plan -/

/-- `^[a-f0-9]{64}$` -/
def isSha256 (value : String) : Bool :=
  value.toList.length = 64 &&
    value.toList.all fun c => ('a' ≤ c && c ≤ 'f') || ('0' ≤ c && c ≤ '9')

def ProviderExecutionTarget.wellFormed (target : ProviderExecutionTarget) : Bool :=
  isRoutingIdentifier target.providerId && target.bindingIdentity.providerId = target.providerId &&
    isVersion target.bindingIdentity.bindingVersion && isSha256 target.bindingIdentity.bindingDigest

/-- The targets that are there. -/
def ProviderExecutionPlan.targets (plan : ProviderExecutionPlan) : List ProviderExecutionTarget :=
  plan.primary :: (plan.operationalFallback.toList ++ plan.semanticEscalation.toList)

def validatePlanShape (sha256 : List Char → String) (plan : ProviderExecutionPlan)
    (request : AiRequest) : Option ProviderBindingFailureCode :=
  if !isRoutingIdentifier plan.matchedPolicyId ||
      !isVersion plan.policyVersion ||
      !isVersion plan.registryVersion ||
      !isSha256 plan.registryConfigurationDigest ||
      !isSha256 plan.policyConfigurationDigest ||
      !isSha256 plan.configurationDigest ||
      !isSha256 plan.validationProfileConfigurationDigest ||
      !isSha256 plan.executionConfigurationDigest ||
      !isSha256 plan.decisionId ||
      !isSha256 plan.planDigest ||
      !isVersion plan.validationProfileVersion ||
      !isRoutingIdentifier plan.validationProfile ||
      !isRoutingIdentifier plan.executionId ||
      request.timeoutMs.any fun value => !value.isPositive then
    some .routingConfigurationMismatch
  else if plan.configurationDigest ≠ combinedRoutingConfigurationDigest sha256
        plan.registryConfigurationDigest plan.policyConfigurationDigest ∨
      plan.primary.purpose ≠ .primary ∨
      (plan.operationalFallback.any fun target => target.purpose ≠ .fallback) ∨
      (plan.semanticEscalation.any fun target => target.purpose ≠ .escalation) ∨
      (plan.operationalFallback.any fun target => target.providerId = plan.primary.providerId) ∨
      (plan.semanticEscalation.any fun target => target.providerId = plan.primary.providerId) ∨
      (plan.operationalFallback.any fun fallback => plan.semanticEscalation.any fun escalation =>
        fallback.providerId = escalation.providerId) ∨
      (plan.targets.any fun target => !target.wellFormed) ∨
      plan.failureMatrixVersion ≠ ROUTING_FAILURE_MATRIX_VERSION ∨
      plan.maxAttempts ≠ MAX_PROVIDER_ATTEMPTS ∨
      plan.maxAdditionalHops ≠ MAX_ADDITIONAL_PROVIDER_HOPS ∨
      plan.executionConfigurationDigest ≠ computeProviderExecutionConfigurationDigest sha256 plan ∨
      plan.planDigest ≠ computeProviderExecutionPlanDigest sha256 plan.decisionId
        plan.executionConfigurationDigest ∨
      request.capability ≠ plan.capability then
    some .routingConfigurationMismatch
  else none

def bindingFailure (bindings : ProviderBindingRegistry) (target : ProviderExecutionTarget) :
    Option ProviderBindingFailureCode :=
  match bindings.get target.providerId with
  | none => some .providerBindingNotFound
  | some binding =>
    if binding.providerId ≠ target.providerId ∨
        binding.identity.providerId ≠ target.providerId ∨
        binding.provider ≠ target.providerId ∨
        binding.identity.bindingVersion ≠ target.bindingIdentity.bindingVersion ∨
        binding.identity.bindingDigest ≠ target.bindingIdentity.bindingDigest then
      some .providerBindingMismatch
    else none

def terminalStatus (code : RoutingFailureCode) : Except String ProviderGatewayTerminalStatus :=
  if (ProviderGatewayFailureCode.routing code).isBindingFailure then .ok .configurationFailed
  else if code = .semanticValidationUnresolved ∨ code = .structuralValidationUnresolved then
    .ok .humanReviewRequired
  else do
    let policy ← failurePolicy code
    if policy.failureClass = .safety then return .safetyBlocked
    else if policy.failureClass = .configuration then return .configurationFailed
    else if code = .emptyOutput ∨ code = .outputLimitViolation ∨ policy.failureClass = .validation then
      return .rejected
    else return .executionFailed

/-! ## The validator -/

def artifactFields (artifact : BoundedProviderArtifact) : List (String × Json) :=
  let optional (key : String) (value : Option String) : List (String × Json) :=
    value.toList.map fun text => (key, .str text)
  [("id", .str artifact.id)] ++ optional "taskId" artifact.taskId ++
    optional "taskRunId" artifact.taskRunId ++
    [("kind", .str artifact.kind), ("title", .str artifact.title)] ++
    optional "content" artifact.content ++ optional "mimeType" artifact.mimeType

structure OutputIdentity where
  responseSha256 : String
  byteCount : ℕ
  deriving DecidableEq

def outputIdentity (sha256 : List Char → String) (output : CanonicalProviderOutput) :
    OutputIdentity :=
  let boundedOutput := Json.stringify (.obj [("text", .str output.text), ("artifacts", .arr
    (output.artifacts.map fun artifact =>
      .obj (artifactFields artifact ++ [("createdAt", .str artifact.createdAt)])))])
  let responseIdentity := Json.stringify (.obj [("text", .str output.text), ("artifacts", .arr
    (output.artifacts.map fun artifact => .obj (artifactFields artifact)))])
  ⟨sha256 responseIdentity, (String.ofList boundedOutput).utf8ByteSize⟩

def disposition (reasonCodes : List ResponseValidationReasonCode) (escalationEnabled : Bool) :
    ValidationDisposition :=
  if reasonCodes.any fun code => code ∈ [ResponseValidationReasonCode.promptLeak, .multiEntryEcho,
      .secretExposureRisk, .validatorInternalFailure] then .reject
  else if escalationEnabled && reasonCodes.any fun code =>
      code ∈ [ResponseValidationReasonCode.authorityScopeViolation,
        .recencyGroundingViolation] then .escalate
  else if reasonCodes.length = 0 then .accept
  else .reject

/-- Whether a response breaks a rule. The limit is on its bytes; the other rules read its text. -/
def breaks (world : World) (profile : ValidationProfileDefinition)
    (input : RuntimeValidationInputView) (output : CanonicalProviderOutput) :
    RuntimeValidationRule → Option Bool
  | .outputLimit => some ((outputIdentity world.sha256 output).byteCount > profile.outputLimitBytes)
  | rule => world.check rule input output

/-- What the rules of a profile report, in their order, unless one of the tests throws. -/
def reasonCodesOf (broken : RuntimeValidationRule → Option Bool) :
    List RuntimeValidationRule → Option (List ResponseValidationReasonCode)
  | [] => some []
  | rule :: rules =>
    match broken rule, reasonCodesOf broken rules with
    | some true, some codes => some (reasonOf rule :: codes)
    | some false, some codes => some codes
    | _, _ => none

/-- What the validation reports when something throws within. -/
def internalFailure (sha256 : List Char → String) : RuntimeValidationResult :=
  let identity := outputIdentity sha256 ⟨"", []⟩
  ⟨.reject, [.validatorInternalFailure], identity.responseSha256, identity.byteCount⟩

/-- The validation of a response under a profile. -/
def validateUnder (world : World) (profile : ValidationProfileDefinition)
    (input : RuntimeValidationInputView) : RuntimeValidationResult :=
  match canonicalOutput input.result with
  | .error _ => internalFailure world.sha256
  | .ok output =>
    match reasonCodesOf (breaks world profile input output) profile.rules with
    | none => internalFailure world.sha256
    | some reasonCodes =>
      let identity := outputIdentity world.sha256 output
      ⟨disposition reasonCodes profile.escalationEnabled, reasonCodes, identity.responseSha256,
        identity.byteCount⟩

def validate (world : World) (input : RuntimeValidationInputView) :
    Except String RuntimeValidationResult := do
  let profile ← world.profiles.resolve input.validationProfile
  return validateUnder world profile input

def projectBoundedProviderOutput (sha256 : List Char → String) (result : AiExecutionResult)
    (validation : RuntimeValidationResult) : Except String BoundedProviderOutput :=
  if validation.disposition ≠ .accept then
    .error "Only accepted Provider output can be projected"
  else do
    let output ← canonicalOutput result
    let identity := outputIdentity sha256 output
    if identity.responseSha256 ≠ validation.responseSha256 ∨
        identity.byteCount ≠ validation.byteCount then
      throw "Provider output does not match validation identity"
    return ⟨output.text, output.artifacts, identity.responseSha256, identity.byteCount⟩

/-! ## The gateway -/

/-- `'0'.repeat(64)` -/
def noDigest : String := String.ofList (List.replicate 64 '0')

/-- The bounds of a budget that can be a deadline. -/
structure DeadlineBounds where
  overallBudgetMs : ℚ
  validationReserveMs : ℚ
  minimumAttemptBudgetMs : ℚ

def DeadlineBudget.bounds (budget : DeadlineBudget) : Option DeadlineBounds :=
  match budget.overallBudgetMs, budget.validationReserveMs, budget.minimumAttemptBudgetMs with
  | .finite overall, .finite reserve, .finite minimum =>
    if (0 < overall ∧ 0 < reserve ∧ 0 < minimum) ∧ ¬ reserve + minimum > overall then
      some ⟨overall, reserve, minimum⟩
    else none
  | _, _, _ => none

/-- The states of an attempt: while it executes, and while it is validated. -/
def statesOf : ExecutionTargetPurpose → RoutingExecutionState × RoutingExecutionState
  | .primary => (.primaryExecuting, .primaryValidating)
  | .fallback => (.fallbackExecuting, .fallbackValidating)
  | .escalation => (.escalationExecuting, .escalationValidating)

structure AttemptResult where
  target : ProviderExecutionTarget
  /-- The result of the provider, or what its failure is classified as. -/
  response : Except RoutingFailureCode AiExecutionResult
  providerBudgetMs : ℤ
  durationMs : ℚ

/-- What follows a turn of the loop: another one, or the end. -/
inductive Turn where
  | again (target : ProviderExecutionTarget)
  | done (result : ProviderGatewayResult)

section

variable (world : World) (plan : ProviderExecutionPlan) (request : AiRequest)
  (validationFacts : Option ProviderRoutingValidationFacts)

def nowMs : Execution ℚ := do
  let reads := (← get).reads
  modify fun run => { run with reads := reads + 1 }
  return world.clock reads

def transition (target : RoutingExecutionState) (cause : String) : Execution Unit := do
  let machine ← orThrow ((← get).machine.transition target cause)
  modify fun run => { run with machine }

def auditOf (status : ProviderGatewayTerminalStatus) (failureCode : Option ProviderGatewayFailureCode)
    (output : Option BoundedProviderOutput) (run : Run) : ProviderExecutionAudit :=
  let digest (value : String) : String := if isSha256 value then value else noDigest
  let version (value : String) : String := if isVersion value then value else "invalid"
  { executionId := if isRoutingIdentifier plan.executionId then plan.executionId
      else "invalid-execution"
    decisionId := digest plan.decisionId
    planDigest := digest plan.planDigest
    executionConfigurationDigest := digest plan.executionConfigurationDigest
    deadlinePolicyVersion := version world.deadlinePolicy.version
    capability := plan.capability
    validationProfile := if isRoutingIdentifier plan.validationProfile then plan.validationProfile
      else "invalid-profile"
    matchedPolicyId := if isRoutingIdentifier plan.matchedPolicyId then plan.matchedPolicyId
      else "invalid-policy"
    policyVersion := version plan.policyVersion
    registryVersion := version plan.registryVersion
    registryConfigurationDigest := digest plan.registryConfigurationDigest
    policyConfigurationDigest := digest plan.policyConfigurationDigest
    configurationDigest := digest plan.configurationDigest
    path := run.path
    attemptCount := run.attempts.length
    attempts := run.attempts
    transitions := run.machine.transitions
    terminalStatus := status
    terminalCode := failureCode
    finalProviderId := run.finalTarget.map (·.providerId)
    finalPurpose := run.finalTarget.map (·.purpose)
    acceptedResponseSha256 := output.map (·.responseSha256) }

/-- The matrix is asked for the codes that are no binding failures. -/
def humanReviewCandidate : Option ProviderGatewayFailureCode → Except String Bool
  | none => .ok false
  | some code =>
    if code.isBindingFailure then .ok false
    else match code with
      | .routing code => do return (← failurePolicy code).humanReviewCandidate
      | .binding _ => .error "Routing failure code is absent from the matrix"

def finish (status : ProviderGatewayTerminalStatus) (failureCode : Option ProviderGatewayFailureCode)
    (output : Option BoundedProviderOutput) : Execution ProviderGatewayResult := do
  if (← get).machine.state ≠ .terminal then
    transition .terminal ((failureCode.map (·.name)).getD "ACCEPTED")
  let audit := auditOf world plan status failureCode output (← get)
  let humanReviewRequired ←
    if status = .humanReviewRequired then pure true else orThrow (humanReviewCandidate failureCode)
  return ⟨status, failureCode, humanReviewRequired, output, audit⟩

/-- What a thrown error of a provider is classified as. -/
def failureOf : Thrown → RoutingFailureCode
  | .aiProviderError (some kind) => classifyProviderFailure kind
  | .aiProviderError none | .other _ => classifyProviderFailure .executionFailed

/-- The call of a provider, with its record. -/
def callProvider (target : ProviderExecutionTarget) (binding : ValidatedExecutableProviderBinding)
    (providerBudgetMs : ℤ) (admittedAt : ℕ) : Execution AiExecutionResult := do
  let answer := world.answer (← get).calls.length
  let timeoutMs := some (effectiveProviderTimeoutMs request.timeoutMs providerBudgetMs)
  modify fun run => { run with
    calls := run.calls ++ [⟨target, binding, { request with timeoutMs }, admittedAt, answer⟩] }
  match answer with
  | .ok result => return result
  | .error error => throw error

/-- The guarded part of an attempt: the call, and the transition after it. -/
def dispatch (target : ProviderExecutionTarget) (binding : ValidatedExecutableProviderBinding)
    (providerBudgetMs : ℤ) (admittedAt : ℕ) (startedAt : ℚ) : Execution AttemptResult :=
  tryCatch
    (do
      let result ← callProvider world request target binding providerBudgetMs admittedAt
      let durationMs := max 0 ((← nowMs world) - startedAt)
      transition (statesOf target.purpose).2 "PROVIDER_RETURNED"
      pure ⟨target, .ok result, providerBudgetMs, durationMs⟩)
    fun error => do
      let durationMs := max 0 ((← nowMs world) - startedAt)
      pure ⟨target, .error (failureOf error), providerBudgetMs, durationMs⟩

def runAttempt (deadlineAt : ℚ) (budget : DeadlineBounds) (target : ProviderExecutionTarget) :
    Execution (AttemptResult ⊕ ProviderGatewayResult) := do
  let admittedAt := (← get).reads
  let remaining := deadlineAt - (← nowMs world)
  let providerBudgetMs := ⌊remaining - budget.validationReserveMs⌋
  if providerBudgetMs < budget.minimumAttemptBudgetMs then
    modify fun run => { run with finalTarget := some target }
    return .inr (← finish world plan .executionFailed (some (.routing .deadlineExhausted)) none)
  let bindings := world.bindings (← get).reads
  match bindingFailure bindings target with
  | some code =>
    modify fun run => { run with finalTarget := some target }
    return .inr (← finish world plan .configurationFailed (some (.binding code)) none)
  | none =>
    transition (statesOf target.purpose).1 "ATTEMPT_DISPATCHED"
    match bindings.get target.providerId with
    | none => throw (.other "Cannot read properties of undefined (reading 'provider')")
    | some binding =>
      let startedAt ← nowMs world
      return .inl (← dispatch world request target binding providerBudgetMs admittedAt startedAt)

/-- The audit of an attempt whose provider failed. -/
def failedAttempt (target : ProviderExecutionTarget) (attempt : AttemptResult) (attemptIndex : ℕ)
    (code : RoutingFailureCode) : ProviderAttemptAudit :=
  ⟨attemptIndex, target.purpose, target.providerId, target.bindingIdentity.bindingDigest,
    .providerFailed, some code, none, [], false, none, none, attempt.providerBudgetMs,
    attempt.durationMs⟩

/-- The audit of an attempt whose response was validated. -/
def validatedAttempt (target : ProviderExecutionTarget) (attempt : AttemptResult)
    (attemptIndex : ℕ) (validation : RuntimeValidationResult)
    (validationFailure : Option RoutingFailureCode) : ProviderAttemptAudit :=
  ⟨attemptIndex, target.purpose, target.providerId, target.bindingIdentity.bindingDigest,
    if validationFailure.isNone then .validationAccepted else .validationRejected,
    validationFailure, some validation.disposition, validation.reasonCodes,
    validationFailure.isNone, some validation.responseSha256, some validation.byteCount,
    attempt.providerBudgetMs, attempt.durationMs⟩

def pushAttempt (audit : ProviderAttemptAudit) : Execution Unit :=
  modify fun run => { run with attempts := run.attempts ++ [audit] }

/-- The next turn goes to another target. -/
def goTo (path : ProviderExecutionPath) (target : ProviderExecutionTarget)
    (state : RoutingExecutionState) (code : RoutingFailureCode) : Execution Turn := do
  modify fun run => { run with path }
  transition state code.name
  return .again target

/-- `contextCorpus` of the facts goes before the request's files, even where it is `undefined`. -/
def inputView (result : AiExecutionResult) : RuntimeValidationInputView :=
  { validationProfile := plan.validationProfile
    prompt := request.prompt
    recencyFact := validationFacts.bind (·.recencyFact)
    currentUserTurn := validationFacts.bind (·.currentUserTurn)
    contextCorpus := match validationFacts.bind (·.contextCorpus) with
      | some contextCorpus => contextCorpus
      | none => request.contextFiles.map fun files => files.map (·.content)
    result }

def afterFailure (target : ProviderExecutionTarget) (attempt : AttemptResult)
    (code : RoutingFailureCode) : Execution Turn := do
  pushAttempt (failedAttempt target attempt ((← get).attempts.length + 1) code)
  let policy ← orThrow (failurePolicy code)
  let attempts := (← get).attempts.length
  let fallback :=
    if target.purpose = .primary ∧ policy.fallbackAllowed ∧ attempts < MAX_PROVIDER_ATTEMPTS then
      plan.operationalFallback
    else none
  match fallback with
  | some fallback => goTo .fallback fallback .fallbackReady code
  | none =>
    return .done (← finish world plan (← orThrow (terminalStatus code)) (some (.routing code)) none)

/-- Where a response that is not accepted leads when no other target is left. -/
def unresolved (validationFailure : RoutingFailureCode) : Execution Turn := do
  if validationFailure = .semanticValidationFailed ∨
      validationFailure = .structuralValidationFailed then
    let code : RoutingFailureCode :=
      if validationFailure = .semanticValidationFailed then .semanticValidationUnresolved
      else .structuralValidationUnresolved
    return .done (← finish world plan .humanReviewRequired (some (.routing code)) none)
  return .done (← finish world plan (← orThrow (terminalStatus validationFailure))
    (some (.routing validationFailure)) none)

/-- Where a response that is not accepted leads. -/
def afterRejection (profile : ValidationProfileDefinition) (target : ProviderExecutionTarget)
    (validation : RuntimeValidationResult) (validationFailure : RoutingFailureCode) :
    Execution Turn := do
  let policy ← orThrow (failurePolicy validationFailure)
  let attempts := (← get).attempts.length
  let fallback :=
    if target.purpose = .primary ∧ policy.fallbackAllowed ∧ attempts < MAX_PROVIDER_ATTEMPTS then
      plan.operationalFallback
    else none
  let escalation :=
    if target.purpose = .primary ∧ validation.disposition = .escalate ∧ policy.escalationAllowed ∧
        profile.escalationEnabled ∧ attempts < MAX_PROVIDER_ATTEMPTS then
      plan.semanticEscalation
    else none
  match fallback, escalation with
  | some fallback, _ => goTo .fallback fallback .fallbackReady validationFailure
  | none, some escalation => goTo .escalation escalation .escalationReady validationFailure
  | none, none => unresolved world plan validationFailure

def afterResponse (deadlineAt : ℚ) (profile : ValidationProfileDefinition)
    (target : ProviderExecutionTarget) (attempt : AttemptResult) (result : AiExecutionResult) :
    Execution Turn := do
  let validation ← orThrow (validate world (inputView plan request validationFacts result))
  let validationFailure ← orThrow (classifyValidationFailure validation)
  pushAttempt (validatedAttempt target attempt ((← get).attempts.length + 1) validation
    validationFailure)
  match validationFailure with
  | none =>
    if deadlineAt ≤ (← nowMs world) then
      return .done (← finish world plan .executionFailed (some (.routing .deadlineExhausted)) none)
    let output ← orThrow (projectBoundedProviderOutput world.sha256 result validation)
    return .done (← finish world plan .accepted none (some output))
  | some code =>
    if ← orThrow (isOfClass .safety code) then
      return .done (← finish world plan .safetyBlocked (some (.routing code)) none)
    if deadlineAt ≤ (← nowMs world) then
      return .done (← finish world plan .executionFailed (some (.routing .deadlineExhausted)) none)
    afterRejection world plan profile target validation code

/-- One turn of the loop. -/
def turn (deadlineAt : ℚ) (budget : DeadlineBounds) (profile : ValidationProfileDefinition)
    (target : ProviderExecutionTarget) : Execution Turn := do
  modify fun run => { run with finalTarget := some target }
  match ← runAttempt world plan request deadlineAt budget target with
  | .inr result => return .done result
  | .inl attempt =>
    match attempt.response with
    | .error code => afterFailure world plan target attempt code
    | .ok result =>
      afterResponse world plan request validationFacts deadlineAt profile target attempt result

/-- The loop; `fuel` bounds its turns. -/
def attemptLoop (deadlineAt : ℚ) (budget : DeadlineBounds) (profile : ValidationProfileDefinition) :
    ℕ → ProviderExecutionTarget → Execution ProviderGatewayResult
  | 0, _ => throw (.other "out of fuel")
  | fuel + 1, target => do
    if (← get).attempts.length < MAX_PROVIDER_ATTEMPTS then
      match ← turn world plan request validationFacts deadlineAt budget profile target with
      | .again next => attemptLoop deadlineAt budget profile fuel next
      | .done result => return result
    else finish world plan .executionFailed (some (.routing .providerExecutionFailed)) none

def execute : Execution ProviderGatewayResult := do
  let refuse (code : ProviderGatewayFailureCode) : Execution ProviderGatewayResult :=
    finish world plan .configurationFailed (some code) none
  let bindings := world.bindings (← get).reads
  match validatePlanShape world.sha256 plan request with
  | some code => refuse (.binding code)
  | none =>
    if !isVersion world.deadlinePolicy.version ∨ plan.registryVersion ≠ bindings.registryVersion ∨
        plan.registryConfigurationDigest ≠ bindings.registryConfigurationDigest then
      refuse (.binding .routingConfigurationMismatch)
    else match world.profiles.resolve plan.validationProfile with
      | .error _ => refuse (.routing .unknownValidationProfile)
      | .ok profile =>
        if profile.version ≠ plan.validationProfileVersion ∨
            profile.configurationDigest ≠ plan.validationProfileConfigurationDigest then
          refuse (.binding .routingConfigurationMismatch)
        else match plan.targets.findSome? (bindingFailure bindings) with
          | some failure => refuse (.binding failure)
          | none =>
            match (world.deadlinePolicy.resolve plan.deadlineClass).bind DeadlineBudget.bounds with
            | none => refuse (.binding .routingConfigurationMismatch)
            | some budget => do
              let deadlineAt := (← nowMs world) + budget.overallBudgetMs
              transition .primaryReady "PREFLIGHT_PASSED"
              attemptLoop world plan request validationFacts deadlineAt budget profile
                (MAX_PROVIDER_ATTEMPTS + 1) plan.primary

end

end QuokyPlatform.Gateway
