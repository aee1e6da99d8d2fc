import Mathlib.Data.Rat.Floor
import QuokyPlatform.Foundations.JsonText
import QuokyPlatform.Routing.Contracts

/-! # What the provider gateway works with

The failure matrix and the classification of failures, validation profiles, executable bindings,
execution plans with their digests, deadlines, and the transition table of an execution. -/

namespace QuokyPlatform.Gateway

open Routing

set_option autoImplicit false
set_option maxHeartbeats 250000

/-! ## Failures -/

inductive RoutingFailureClass where
  | configuration | operational | validation | safety
  deriving DecidableEq

inductive RoutingFailureCode where
  | routingConfigurationMismatch | bindingMismatch | providerBindingNotFound | providerDisabled
  | unknownValidationProfile | providerUnavailable | providerAuthRequired | providerTimeout
  | providerExecutionFailed | providerSpawnFailed | emptyOutput | outputLimitViolation
  | structuralValidationFailed | semanticValidationFailed | semanticValidationUnresolved
  | structuralValidationUnresolved | deadlineExhausted | promptLeak | multiEntryEcho
  | secretExposureRisk | containmentFailure | modelDownloadDetected | validatorInternalFailure
  deriving DecidableEq

def RoutingFailureCode.name : RoutingFailureCode → String
  | .routingConfigurationMismatch => "ROUTING_CONFIGURATION_MISMATCH"
  | .bindingMismatch => "BINDING_MISMATCH"
  | .providerBindingNotFound => "PROVIDER_BINDING_NOT_FOUND"
  | .providerDisabled => "PROVIDER_DISABLED"
  | .unknownValidationProfile => "UNKNOWN_VALIDATION_PROFILE"
  | .providerUnavailable => "PROVIDER_UNAVAILABLE"
  | .providerAuthRequired => "PROVIDER_AUTH_REQUIRED"
  | .providerTimeout => "PROVIDER_TIMEOUT"
  | .providerExecutionFailed => "PROVIDER_EXECUTION_FAILED"
  | .providerSpawnFailed => "PROVIDER_SPAWN_FAILED"
  | .emptyOutput => "EMPTY_OUTPUT"
  | .outputLimitViolation => "OUTPUT_LIMIT_VIOLATION"
  | .structuralValidationFailed => "STRUCTURAL_VALIDATION_FAILED"
  | .semanticValidationFailed => "SEMANTIC_VALIDATION_FAILED"
  | .semanticValidationUnresolved => "SEMANTIC_VALIDATION_UNRESOLVED"
  | .structuralValidationUnresolved => "STRUCTURAL_VALIDATION_UNRESOLVED"
  | .deadlineExhausted => "DEADLINE_EXHAUSTED"
  | .promptLeak => "PROMPT_LEAK"
  | .multiEntryEcho => "MULTI_ENTRY_ECHO"
  | .secretExposureRisk => "SECRET_EXPOSURE_RISK"
  | .containmentFailure => "CONTAINMENT_FAILURE"
  | .modelDownloadDetected => "MODEL_DOWNLOAD_DETECTED"
  | .validatorInternalFailure => "VALIDATOR_INTERNAL_FAILURE"

inductive ProviderBindingFailureCode where
  | invalidProviderBinding | duplicateProviderBinding | unknownProviderBinding
  | providerBindingNotFound | providerBindingMismatch | providerDisabled
  | routingConfigurationMismatch
  deriving DecidableEq

def ProviderBindingFailureCode.name : ProviderBindingFailureCode → String
  | .invalidProviderBinding => "INVALID_PROVIDER_BINDING"
  | .duplicateProviderBinding => "DUPLICATE_PROVIDER_BINDING"
  | .unknownProviderBinding => "UNKNOWN_PROVIDER_BINDING"
  | .providerBindingNotFound => "PROVIDER_BINDING_NOT_FOUND"
  | .providerBindingMismatch => "PROVIDER_BINDING_MISMATCH"
  | .providerDisabled => "PROVIDER_DISABLED"
  | .routingConfigurationMismatch => "ROUTING_CONFIGURATION_MISMATCH"

/-- `Object.values(ProviderBindingFailureCode)` -/
def bindingFailureCodes : List String :=
  [ProviderBindingFailureCode.invalidProviderBinding, .duplicateProviderBinding,
    .unknownProviderBinding, .providerBindingNotFound, .providerBindingMismatch, .providerDisabled,
    .routingConfigurationMismatch].map (·.name)

inductive ProviderGatewayFailureCode where
  | routing (code : RoutingFailureCode)
  | binding (code : ProviderBindingFailureCode)
  deriving DecidableEq

namespace ProviderGatewayFailureCode

def name : ProviderGatewayFailureCode → String
  | .routing code => code.name
  | .binding code => code.name

/-- The texts of the two enumerations overlap, and the test is on texts. -/
def isBindingFailure (code : ProviderGatewayFailureCode) : Bool := code.name ∈ bindingFailureCodes

end ProviderGatewayFailureCode

structure RoutingFailurePolicy where
  code : RoutingFailureCode
  failureClass : RoutingFailureClass
  fallbackAllowed : Bool
  escalationAllowed : Bool
  humanReviewCandidate : Bool
  deriving DecidableEq

def configuration (code : RoutingFailureCode) : RoutingFailurePolicy :=
  ⟨code, .configuration, false, false, false⟩

def operational (code : RoutingFailureCode) (fallbackAllowed : Bool) : RoutingFailurePolicy :=
  ⟨code, .operational, fallbackAllowed, false, false⟩

def validation (code : RoutingFailureCode) : RoutingFailurePolicy :=
  ⟨code, .validation, false, true, false⟩

def safety (code : RoutingFailureCode) : RoutingFailurePolicy :=
  ⟨code, .safety, false, false, true⟩

def terminalUnresolvedValidation (code : RoutingFailureCode) : RoutingFailurePolicy :=
  ⟨code, .validation, false, false, true⟩

def contextualDeadline : RoutingFailurePolicy := ⟨.deadlineExhausted, .operational, false, false, false⟩

def ROUTING_FAILURE_MATRIX : List RoutingFailurePolicy := [
  configuration .routingConfigurationMismatch,
  configuration .bindingMismatch,
  configuration .providerBindingNotFound,
  configuration .providerDisabled,
  configuration .unknownValidationProfile,
  operational .providerUnavailable true,
  operational .providerAuthRequired true,
  operational .providerTimeout true,
  operational .providerExecutionFailed true,
  operational .providerSpawnFailed true,
  operational .emptyOutput true,
  operational .outputLimitViolation false,
  validation .structuralValidationFailed,
  validation .semanticValidationFailed,
  terminalUnresolvedValidation .semanticValidationUnresolved,
  terminalUnresolvedValidation .structuralValidationUnresolved,
  contextualDeadline,
  safety .promptLeak,
  safety .multiEntryEcho,
  safety .secretExposureRisk,
  safety .containmentFailure,
  safety .modelDownloadDetected,
  safety .validatorInternalFailure]

def ROUTING_FAILURE_MATRIX_VERSION : String := "routing-failure-matrix-v4"

def failurePolicy (code : RoutingFailureCode) : Except String RoutingFailurePolicy :=
  match ROUTING_FAILURE_MATRIX.find? fun candidate => candidate.code = code with
  | some policy => .ok policy
  | none => .error "Routing failure code is absent from the matrix"

/-- Every code has its row. -/
theorem failurePolicy_ok (code : RoutingFailureCode) :
    ∃ policy, failurePolicy code = .ok policy ∧ policy.code = code := by
  cases code <;> exact ⟨_, rfl, rfl⟩

inductive AiFailureKind where
  | unavailable | authRequired | timeout | executionFailed | emptyOutput
  deriving DecidableEq

def classifyProviderFailure : AiFailureKind → RoutingFailureCode
  | .unavailable => .providerUnavailable
  | .authRequired => .providerAuthRequired
  | .timeout => .providerTimeout
  | .executionFailed => .providerExecutionFailed
  | .emptyOutput => .emptyOutput

/-! ## Validation -/

inductive ValidationDisposition where
  | accept | escalate | reject
  deriving DecidableEq

inductive RuntimeValidationRule where
  | nonEmpty | outputLimit | promptLeak | multiEntryEcho | secretExposureRisk | recencyGrounding
  | authoritySemanticScope
  deriving DecidableEq

inductive ResponseValidationReasonCode where
  | emptyOutput | outputLimitViolation | promptLeak | multiEntryEcho | secretExposureRisk
  | recencyGroundingViolation | authorityScopeViolation | validatorInternalFailure
  deriving DecidableEq

/-- What a response that breaks a rule is reported for. -/
def reasonOf : RuntimeValidationRule → ResponseValidationReasonCode
  | .nonEmpty => .emptyOutput
  | .outputLimit => .outputLimitViolation
  | .promptLeak => .promptLeak
  | .multiEntryEcho => .multiEntryEcho
  | .secretExposureRisk => .secretExposureRisk
  | .recencyGrounding => .recencyGroundingViolation
  | .authoritySemanticScope => .authorityScopeViolation

def REASONS : ResponseValidationReasonCode → RoutingFailureCode
  | .promptLeak => .promptLeak
  | .multiEntryEcho => .multiEntryEcho
  | .secretExposureRisk => .secretExposureRisk
  | .validatorInternalFailure => .validatorInternalFailure
  | .emptyOutput => .emptyOutput
  | .outputLimitViolation => .outputLimitViolation
  | .authorityScopeViolation => .semanticValidationFailed
  | .recencyGroundingViolation => .semanticValidationFailed

structure RuntimeValidationResult where
  disposition : ValidationDisposition
  reasonCodes : List ResponseValidationReasonCode
  responseSha256 : String
  byteCount : ℕ
  deriving DecidableEq

def isOfClass (failureClass : RoutingFailureClass) (code : RoutingFailureCode) :
    Except String Bool := do
  return (← failurePolicy code).failureClass = failureClass

/-- Safety > response-operational > semantic > generic validation. -/
def classifyValidationFailure (validation : RuntimeValidationResult) :
    Except String (Option RoutingFailureCode) :=
  if validation.disposition = .accept ∧ validation.reasonCodes.length = 0 then .ok none
  else do
    let mapped := validation.reasonCodes.map REASONS
    match ← mapped.findM? (isOfClass .safety) with
    | some code => return some code
    | none =>
      match ← mapped.findM? (isOfClass .operational) with
      | some code => return some code
      | none =>
        return some ((mapped.find? (· = .semanticValidationFailed)).getD .structuralValidationFailed)

structure BoundedProviderArtifact where
  id : String
  taskId : Option String
  taskRunId : Option String
  kind : String
  title : String
  content : Option String
  mimeType : Option String
  createdAt : String
  deriving DecidableEq

structure CanonicalProviderOutput where
  text : String
  artifacts : List BoundedProviderArtifact
  deriving DecidableEq

structure BoundedProviderOutput where
  text : String
  artifacts : List BoundedProviderArtifact
  responseSha256 : String
  byteCount : ℕ
  deriving DecidableEq

/-- A result of a provider: one with a canonical form, or one the validator cannot read. -/
inductive AiExecutionResult where
  | readable (output : CanonicalProviderOutput)
  | malformed
  deriving DecidableEq

def canonicalOutput : AiExecutionResult → Except String CanonicalProviderOutput
  | .readable output => .ok output
  | .malformed => .error "Invalid Provider output shape"

structure ValidationProfileDefinition where
  profileId : String
  version : String
  rules : List RuntimeValidationRule
  outputLimitBytes : ℕ
  escalationEnabled : Bool
  configurationDigest : String
  deriving DecidableEq

abbrev ValidationProfileRegistry := List ValidationProfileDefinition

def ValidationProfileRegistry.resolve (profiles : ValidationProfileRegistry) (id : String) :
    Except String ValidationProfileDefinition :=
  match profiles.find? fun candidate => candidate.profileId = id with
  | some definition => .ok definition
  | none => .error "Unknown validation profile"

/-! ## Bindings and plans -/

structure ProviderBindingIdentity where
  providerId : String
  bindingVersion : String
  bindingDigest : String
  deriving DecidableEq

/-- A binding, with the id its provider goes by. -/
structure ValidatedExecutableProviderBinding where
  providerId : String
  identity : ProviderBindingIdentity
  provider : String
  deriving DecidableEq

structure ProviderBindingRegistry where
  registryVersion : String
  registryConfigurationDigest : String
  bindings : List ValidatedExecutableProviderBinding
  deriving DecidableEq

def ProviderBindingRegistry.get (registry : ProviderBindingRegistry) (id : String) :
    Option ValidatedExecutableProviderBinding :=
  registry.bindings.find? fun binding => binding.providerId = id

inductive DeadlineClass where
  | interactive | standard | extended
  deriving DecidableEq

def DeadlineClass.name : DeadlineClass → String
  | .interactive => "INTERACTIVE"
  | .standard => "STANDARD"
  | .extended => "EXTENDED"

inductive ExecutionTargetPurpose where
  | primary | fallback | escalation
  deriving DecidableEq

def ExecutionTargetPurpose.name : ExecutionTargetPurpose → String
  | .primary => "PRIMARY"
  | .fallback => "FALLBACK"
  | .escalation => "ESCALATION"

structure ProviderExecutionTarget where
  purpose : ExecutionTargetPurpose
  providerId : String
  bindingIdentity : ProviderBindingIdentity
  deriving DecidableEq

def MAX_PROVIDER_ATTEMPTS : ℕ := 2

def MAX_ADDITIONAL_PROVIDER_HOPS : ℕ := 1

structure ProviderExecutionPlan where
  registryConfigurationDigest : String
  policyConfigurationDigest : String
  validationProfileConfigurationDigest : String
  failureMatrixVersion : String
  maxAttempts : ℕ
  maxAdditionalHops : ℕ
  deadlineClass : DeadlineClass
  capability : Capability
  validationProfile : String
  matchedPolicyId : String
  primary : ProviderExecutionTarget
  operationalFallback : Option ProviderExecutionTarget
  semanticEscalation : Option ProviderExecutionTarget
  validationProfileVersion : String
  decisionId : String
  executionId : String
  executionConfigurationDigest : String
  planDigest : String
  policyVersion : String
  registryVersion : String
  configurationDigest : String
  deriving DecidableEq

section

variable (sha256 : List Char → String)

def combinedRoutingConfigurationDigest (registryDigest policyDigest : String) : String :=
  sha256 (Json.obj [("registryDigest", .str registryDigest),
    ("policyDigest", .str policyDigest)]).stringify

def targetDigestShape : Option ProviderExecutionTarget → Json
  | none => .null
  | some target => .obj [("purpose", .str target.purpose.name), ("providerId", .str target.providerId),
      ("bindingDigest", .str target.bindingIdentity.bindingDigest)]

def computeProviderExecutionConfigurationDigest (plan : ProviderExecutionPlan) : String :=
  sha256 (Json.obj [
    ("registryConfigurationDigest", .str plan.registryConfigurationDigest),
    ("policyConfigurationDigest", .str plan.policyConfigurationDigest),
    ("validationProfileConfigurationDigest", .str plan.validationProfileConfigurationDigest),
    ("failureMatrixVersion", .str plan.failureMatrixVersion),
    ("maxAttempts", .num plan.maxAttempts),
    ("maxAdditionalHops", .num plan.maxAdditionalHops),
    ("deadlineClass", .str plan.deadlineClass.name),
    ("capability", .str (Named.name plan.capability)),
    ("validationProfile", .str plan.validationProfile),
    ("matchedPolicyId", .str plan.matchedPolicyId),
    ("primary", targetDigestShape (some plan.primary)),
    ("operationalFallback", targetDigestShape plan.operationalFallback),
    ("semanticEscalation", targetDigestShape plan.semanticEscalation)]).stringify

def computeProviderExecutionPlanDigest (decisionId executionConfigurationDigest : String) : String :=
  sha256 (Json.obj [("decisionId", .str decisionId),
    ("executionConfigurationDigest", .str executionConfigurationDigest)]).stringify

end

/-! ## Deadlines -/

/-- A number that may be none a deadline can be. -/
inductive Number where
  | finite (value : ℚ)
  | infinity | negativeInfinity | notANumber
  deriving DecidableEq

/-- `Number.isFinite(value) && value > 0` -/
def Number.isPositive : Number → Bool
  | .finite value => 0 < value
  | _ => false

structure DeadlineBudget where
  overallBudgetMs : Number
  validationReserveMs : Number
  minimumAttemptBudgetMs : Number
  deriving DecidableEq

/-- `resolve` may throw. -/
structure ProviderDeadlinePolicy where
  version : String
  resolve : DeadlineClass → Option DeadlineBudget

def effectiveProviderTimeoutMs (requestTimeoutMs : Option Number) (providerBudgetMs : ℤ) : Number :=
  match requestTimeoutMs with
  | none | some .infinity => .finite (max 0 providerBudgetMs)
  | some (.finite value) => .finite (max 0 (min value providerBudgetMs))
  | some .negativeInfinity => .finite 0
  | some .notANumber => .notANumber

/-! ## Execution states -/

inductive RoutingExecutionState where
  | initial | primaryReady | primaryExecuting | primaryValidating | fallbackReady | fallbackExecuting
  | fallbackValidating | escalationReady | escalationExecuting | escalationValidating | terminal
  deriving DecidableEq

def MAX_ROUTING_TRANSITIONS : ℕ := 7

def ALLOWED : RoutingExecutionState → List RoutingExecutionState
  | .initial => [.primaryReady, .terminal]
  | .primaryReady => [.primaryExecuting, .terminal]
  | .primaryExecuting => [.primaryValidating, .fallbackReady, .terminal]
  | .primaryValidating => [.fallbackReady, .escalationReady, .terminal]
  | .fallbackReady => [.fallbackExecuting, .terminal]
  | .fallbackExecuting => [.fallbackValidating, .terminal]
  | .fallbackValidating => [.terminal]
  | .escalationReady => [.escalationExecuting, .terminal]
  | .escalationExecuting => [.escalationValidating, .terminal]
  | .escalationValidating => [.terminal]
  | .terminal => []

structure RoutingTransitionAudit where
  sequence : ℕ
  source : RoutingExecutionState
  target : RoutingExecutionState
  cause : String
  deriving DecidableEq

/-- A state machine so far: where it is and its records. -/
structure RoutingExecutionStateMachine where
  state : RoutingExecutionState
  transitions : List RoutingTransitionAudit
  deriving DecidableEq

namespace RoutingExecutionStateMachine

def new : RoutingExecutionStateMachine := ⟨.initial, []⟩

def transition (machine : RoutingExecutionStateMachine) (target : RoutingExecutionState)
    (cause : String) : Except String RoutingExecutionStateMachine :=
  if target ∉ ALLOWED machine.state ∨ machine.transitions.length ≥ MAX_ROUTING_TRANSITIONS then
    .error "Invalid or excessive routing state transition"
  else
    .ok ⟨target, machine.transitions ++
      [⟨machine.transitions.length + 1, machine.state, target, cause⟩]⟩

/-- How many transitions lead to a state at most. -/
def depth : RoutingExecutionState → ℕ
  | .initial => 0
  | .primaryReady => 1
  | .primaryExecuting => 2
  | .primaryValidating => 3
  | .fallbackReady => 4
  | .escalationReady => 4
  | .fallbackExecuting => 5
  | .escalationExecuting => 5
  | .fallbackValidating => 6
  | .escalationValidating => 6
  | .terminal => 7

theorem depth_lt {source target : RoutingExecutionState} (h : target ∈ ALLOWED source) :
    depth source < depth target := by
  cases source <;> simp only [ALLOWED, List.mem_cons, List.not_mem_nil, or_false] at h <;>
    rcases h with rfl | rfl | rfl <;> decide

theorem depth_le (state : RoutingExecutionState) : depth state ≤ MAX_ROUTING_TRANSITIONS := by
  cases state <;> decide

/-- The records lead from one state to another, by allowed transitions only. -/
def Leads (source : RoutingExecutionState) : List RoutingTransitionAudit → RoutingExecutionState → Prop
  | [], target => source = target
  | record :: rest, target =>
    record.source = source ∧ record.target ∈ ALLOWED source ∧ Leads record.target rest target

theorem Leads.concat {source middle target : RoutingExecutionState}
    {records : List RoutingTransitionAudit} (h : Leads source records middle)
    (htarget : target ∈ ALLOWED middle) (sequence : ℕ) (cause : String) :
    Leads source (records ++ [⟨sequence, middle, target, cause⟩]) target := by
  induction records generalizing source with
  | nil =>
    cases h
    exact ⟨rfl, htarget, rfl⟩
  | cons record rest ih => exact ⟨h.1, h.2.1, ih h.2.2⟩

/-- There are no longer ways than the depth of the state they lead to. -/
theorem Leads.length_le {source target : RoutingExecutionState}
    {records : List RoutingTransitionAudit} (h : Leads source records target) :
    records.length + depth source ≤ depth target := by
  induction records generalizing source with
  | nil =>
    cases h
    simp
  | cons record rest ih =>
    have hlt := depth_lt h.2.1
    have hrest := ih h.2.2
    rw [List.length_cons]
    omega

/-- The records tell how the machine came where it is. -/
structure Traced (machine : RoutingExecutionStateMachine) : Prop where
  leads : Leads .initial machine.transitions machine.state
  numbered : machine.transitions.map (·.sequence) = List.range' 1 machine.transitions.length

theorem new_traced : new.Traced := ⟨rfl, rfl⟩

theorem Traced.length_le {machine : RoutingExecutionStateMachine} (h : machine.Traced) :
    machine.transitions.length ≤ MAX_ROUTING_TRANSITIONS := by
  have hlength := h.leads.length_le
  have hdepth := depth_le machine.state
  omega

/-- An allowed transition is made: there is always room for one more. -/
theorem Traced.transition {machine : RoutingExecutionStateMachine} (h : machine.Traced)
    {target : RoutingExecutionState} (htarget : target ∈ ALLOWED machine.state) (cause : String) :
    ∃ next, machine.transition target cause = .ok next ∧ next.state = target ∧ next.Traced := by
  have hlt := depth_lt htarget
  have hle := depth_le target
  have hlength := h.leads.length_le
  have hguard : ¬ (target ∉ ALLOWED machine.state ∨
      machine.transitions.length ≥ MAX_ROUTING_TRANSITIONS) := by
    rintro (hnot | hmax)
    · exact hnot htarget
    · omega
  refine ⟨_, if_neg hguard, rfl, h.leads.concat htarget _ _, ?_⟩
  show List.map _ (_ ++ [_]) = List.range' 1 (_ ++ [_]).length
  rw [List.map_append, h.numbered, List.length_append, List.length_singleton, List.range'_concat]
  simp only [List.map_cons, List.map_nil, Nat.one_mul, Nat.add_comm 1]

end RoutingExecutionStateMachine

end QuokyPlatform.Gateway
