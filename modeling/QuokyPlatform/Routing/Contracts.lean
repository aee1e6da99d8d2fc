import Mathlib.Tactic.Common
import QuokyPlatform.Foundations.Comparator
import QuokyPlatform.Foundations.Text

/-! # What provider routing is configured with

The closed values, the routing context, the descriptors of the providers and the policies. The
enumerations that a configuration digest covers are `Named`: their texts tell their values apart. -/

namespace QuokyPlatform.Routing

set_option autoImplicit false
set_option maxHeartbeats 250000

/-! ## Closed values -/

/-- An enumeration with the text of each value. -/
class Named (α : Type) where
  name : α → String
  name_injective : Function.Injective name

inductive Capability where
  | generalChat | summarization | documentAnalysis | codeImplementation | codeReview
  | architecturePlanning | testExecution | readonlyLookup | projectAnalysis | embedding
  | policySensitiveChat | imageUnderstanding | intentSelection
  deriving DecidableEq

instance : Named Capability where
  name
    | .generalChat => "GENERAL_CHAT"
    | .summarization => "SUMMARIZATION"
    | .documentAnalysis => "DOCUMENT_ANALYSIS"
    | .codeImplementation => "CODE_IMPLEMENTATION"
    | .codeReview => "CODE_REVIEW"
    | .architecturePlanning => "ARCHITECTURE_PLANNING"
    | .testExecution => "TEST_EXECUTION"
    | .readonlyLookup => "READONLY_LOOKUP"
    | .projectAnalysis => "PROJECT_ANALYSIS"
    | .embedding => "EMBEDDING"
    | .policySensitiveChat => "POLICY_SENSITIVE_CHAT"
    | .imageUnderstanding => "IMAGE_UNDERSTANDING"
    | .intentSelection => "INTENT_SELECTION"
  name_injective a b h := by cases a <;> cases b <;> first | rfl | simp at h

inductive IntentType where
  | chat | summarize | analyzeDocument | implementCode | reviewCode | planArchitecture | runTests
  | lookup | registerProject | projectAnalysis | unknown
  deriving DecidableEq

instance : Named IntentType where
  name
    | .chat => "CHAT"
    | .summarize => "SUMMARIZE"
    | .analyzeDocument => "ANALYZE_DOCUMENT"
    | .implementCode => "IMPLEMENT_CODE"
    | .reviewCode => "REVIEW_CODE"
    | .planArchitecture => "PLAN_ARCHITECTURE"
    | .runTests => "RUN_TESTS"
    | .lookup => "LOOKUP"
    | .registerProject => "REGISTER_PROJECT"
    | .projectAnalysis => "PROJECT_ANALYSIS"
    | .unknown => "UNKNOWN"
  name_injective a b h := by cases a <;> cases b <;> first | rfl | simp at h

inductive RoutingRequestType where
  | conversational | work | codeGeneration | unknown
  deriving DecidableEq

instance : Named RoutingRequestType where
  name
    | .conversational => "CONVERSATIONAL"
    | .work => "WORK"
    | .codeGeneration => "CODE_GENERATION"
    | .unknown => "UNKNOWN"
  name_injective a b h := by cases a <;> cases b <;> first | rfl | simp at h

inductive SemanticRisk where
  | low | standard | high | unknown
  deriving DecidableEq

instance : Named SemanticRisk where
  name
    | .low => "LOW"
    | .standard => "STANDARD"
    | .high => "HIGH"
    | .unknown => "UNKNOWN"
  name_injective a b h := by cases a <;> cases b <;> first | rfl | simp at h

inductive LatencyClass where
  | interactive | balanced | batch | unknown
  deriving DecidableEq

instance : Named LatencyClass where
  name
    | .interactive => "INTERACTIVE"
    | .balanced => "BALANCED"
    | .batch => "BATCH"
    | .unknown => "UNKNOWN"
  name_injective a b h := by cases a <;> cases b <;> first | rfl | simp at h

inductive Requirement where
  | required | notRequired | unknown
  deriving DecidableEq

instance : Named Requirement where
  name
    | .required => "REQUIRED"
    | .notRequired => "NOT_REQUIRED"
    | .unknown => "UNKNOWN"
  name_injective a b h := by cases a <;> cases b <;> first | rfl | simp at h

inductive AuthorityRequirement where
  | required | notRequired | unknown
  deriving DecidableEq

instance : Named AuthorityRequirement where
  name
    | .required => "REQUIRED"
    | .notRequired => "NOT_REQUIRED"
    | .unknown => "UNKNOWN"
  name_injective a b h := by cases a <;> cases b <;> first | rfl | simp at h

inductive OutputSizeClass where
  | small | medium | large | unknown
  deriving DecidableEq

instance : Named OutputSizeClass where
  name
    | .small => "SMALL"
    | .medium => "MEDIUM"
    | .large => "LARGE"
    | .unknown => "UNKNOWN"
  name_injective a b h := by cases a <;> cases b <;> first | rfl | simp at h

inductive ReliabilityTier where
  | unproven | low | standard | high
  deriving DecidableEq

instance : Named ReliabilityTier where
  name
    | .unproven => "UNPROVEN"
    | .low => "LOW"
    | .standard => "STANDARD"
    | .high => "HIGH"
  name_injective a b h := by cases a <;> cases b <;> first | rfl | simp at h

inductive SupportLevel where
  | unsupported | supported
  deriving DecidableEq

inductive ContextCapacity where
  | small | medium | large
  deriving DecidableEq

instance : Named ContextCapacity where
  name
    | .small => "SMALL"
    | .medium => "MEDIUM"
    | .large => "LARGE"
  name_injective a b h := by cases a <;> cases b <;> first | rfl | simp at h

inductive ExecutionLocality where
  | local | network
  deriving DecidableEq

instance : Named ExecutionLocality where
  name
    | .local => "LOCAL"
    | .network => "NETWORK"
  name_injective a b h := by cases a <;> cases b <;> first | rfl | simp at h

inductive RoutingClass where
  | balanced | semanticHigh | latencyRestricted | deprioritized
  deriving DecidableEq

instance : Named RoutingClass where
  name
    | .balanced => "BALANCED"
    | .semanticHigh => "SEMANTIC_HIGH"
    | .latencyRestricted => "LATENCY_RESTRICTED"
    | .deprioritized => "DEPRIORITIZED"
  name_injective a b h := by cases a <;> cases b <;> first | rfl | simp at h

inductive LatencyTier where
  | fast | balanced | slow | unknown
  deriving DecidableEq

inductive CostTier where
  | low | standard | high | unknown
  deriving DecidableEq

inductive ProviderAvailability where
  | available | unavailable | unknown
  deriving DecidableEq

inductive RankingDimension where
  | routingClass | semanticReliability | authorityReliability | continuityReliability
  | latencyTier | costTier
  deriving DecidableEq

instance : Named RankingDimension where
  name
    | .routingClass => "ROUTING_CLASS"
    | .semanticReliability => "SEMANTIC_RELIABILITY"
    | .authorityReliability => "AUTHORITY_RELIABILITY"
    | .continuityReliability => "CONTINUITY_RELIABILITY"
    | .latencyTier => "LATENCY_TIER"
    | .costTier => "COST_TIER"
  name_injective a b h := by cases a <;> cases b <;> first | rfl | simp at h

inductive SortDirection where
  | ascending | descending
  deriving DecidableEq

instance : Named SortDirection where
  name
    | .ascending => "ASCENDING"
    | .descending => "DESCENDING"
  name_injective a b h := by cases a <;> cases b <;> first | rfl | simp at h

inductive TerminalDecision where
  | noSelection
  deriving DecidableEq

instance : Named TerminalDecision where
  name
    | .noSelection => "NO_SELECTION"
  name_injective _ _ _ := rfl

inductive RoutingReasonCode where
  | selected | policyNotMatched | noEligibleProvider
  deriving DecidableEq

/-! ## Identifiers -/

def isAlphanumeric (c : Char) : Bool := isUpperAscii c || isLowerAscii c || isDigitAscii c

/-- `^[A-Za-z0-9][A-Za-z0-9._:-]{0,127}$` -/
def isRoutingIdentifier (value : String) : Bool :=
  matchesShape isAlphanumeric
    (fun c => isAlphanumeric c || c == '.' || c == '_' || c == ':' || c == '-') 0 127 value

/-- `^[A-Za-z0-9][A-Za-z0-9._-]{0,127}$` -/
def isVersion (value : String) : Bool :=
  matchesShape isAlphanumeric (fun c => isAlphanumeric c || c == '.' || c == '_' || c == '-') 0 127
    value

instance : Named String where
  name value := value
  name_injective _ _ h := h

/-- The primary weight of a character: punctuation, then digits, then letters without their case.
Identifiers have no other characters; those come last. -/
def primaryWeight (c : Char) : ℕ :=
  if c = '_' then 1
  else if c = '-' then 2
  else if c = ':' then 3
  else if c = '.' then 4
  else if isDigitAscii c then c.toNat
  else if isLowerAscii c then c.toNat
  else if isUpperAscii c then c.toNat + 32
  else 1000 + c.toNat

/-- Small letters come before capitals that are otherwise the same. -/
def tertiaryWeight (c : Char) : ℕ := if isUpperAscii c then 1 else 0

/-- `localeCompare` by the root collation: the letters first, and the case where they agree. -/
def localeCompare : Comparison String :=
  (Comparison.lists.on fun s => s.toList.map primaryWeight).orElse
    (Comparison.lists.on fun s => s.toList.map tertiaryWeight)

theorem consistent_localeCompare : localeCompare.Consistent :=
  (Comparison.consistent_lists.on _).orElse (Comparison.consistent_lists.on _)

theorem isUpperAscii_iff (c : Char) : isUpperAscii c = true ↔ 65 ≤ c.toNat ∧ c.toNat ≤ 90 := by
  rw [isUpperAscii, Bool.and_eq_true, decide_eq_true_eq, decide_eq_true_eq]
  rfl

theorem isLowerAscii_iff (c : Char) : isLowerAscii c = true ↔ 97 ≤ c.toNat ∧ c.toNat ≤ 122 := by
  rw [isLowerAscii, Bool.and_eq_true, decide_eq_true_eq, decide_eq_true_eq]
  rfl

theorem isDigitAscii_iff (c : Char) : isDigitAscii c = true ↔ 48 ≤ c.toNat ∧ c.toNat ≤ 57 := by
  rw [isDigitAscii, Bool.and_eq_true, decide_eq_true_eq, decide_eq_true_eq]
  rfl

/-- The classes of characters, by their numbers. -/
theorem primaryWeight_cases (c : Char) :
    (c.toNat = 95 ∧ primaryWeight c = 1) ∨ (c.toNat = 45 ∧ primaryWeight c = 2) ∨
    (c.toNat = 58 ∧ primaryWeight c = 3) ∨ (c.toNat = 46 ∧ primaryWeight c = 4) ∨
    ((48 ≤ c.toNat ∧ c.toNat ≤ 57 ∨ 97 ≤ c.toNat ∧ c.toNat ≤ 122) ∧ primaryWeight c = c.toNat) ∨
    (65 ≤ c.toNat ∧ c.toNat ≤ 90 ∧ primaryWeight c = c.toNat + 32) ∨
    primaryWeight c = 1000 + c.toNat := by
  unfold primaryWeight
  split
  · rename_i h
    exact .inl ⟨by rw [h]; rfl, rfl⟩
  split
  · rename_i h
    exact .inr (.inl ⟨by rw [h]; rfl, rfl⟩)
  split
  · rename_i h
    exact .inr (.inr (.inl ⟨by rw [h]; rfl, rfl⟩))
  split
  · rename_i h
    exact .inr (.inr (.inr (.inl ⟨by rw [h]; rfl, rfl⟩)))
  split
  · rename_i h
    rw [isDigitAscii_iff] at h
    omega
  split
  · rename_i h
    rw [isLowerAscii_iff] at h
    omega
  split
  · rename_i h
    rw [isUpperAscii_iff] at h
    omega
  · omega

theorem tertiaryWeight_cases (c : Char) :
    (65 ≤ c.toNat ∧ c.toNat ≤ 90 ∧ tertiaryWeight c = 1) ∨
      ((c.toNat < 65 ∨ 90 < c.toNat) ∧ tertiaryWeight c = 0) := by
  unfold tertiaryWeight
  split
  · rename_i h
    rw [isUpperAscii_iff] at h
    omega
  · rename_i h
    rw [isUpperAscii_iff] at h
    omega

/-- The two weights of a character tell it from the others. -/
theorem weights_injective {c d : Char} (hprimary : primaryWeight c = primaryWeight d)
    (htertiary : tertiaryWeight c = tertiaryWeight d) : c = d := by
  have hc := primaryWeight_cases c
  have hd := primaryWeight_cases d
  have hc' := tertiaryWeight_cases c
  have hd' := tertiaryWeight_cases d
  have hnat : c.toNat = d.toNat := by omega
  exact Char.toNat_inj.mp hnat

theorem map_weights_injective {cs ds : List Char}
    (hprimary : cs.map primaryWeight = ds.map primaryWeight)
    (htertiary : cs.map tertiaryWeight = ds.map tertiaryWeight) : cs = ds := by
  induction cs generalizing ds with
  | nil => exact (List.map_eq_nil_iff.mp hprimary.symm).symm
  | cons c cs ih =>
    cases ds with
    | nil => cases hprimary
    | cons d ds =>
      simp only [List.map_cons, List.cons.injEq] at hprimary htertiary
      rw [weights_injective hprimary.1 htertiary.1, ih hprimary.2 htertiary.2]

/-- Only equal texts compare equal. -/
theorem localeCompare_eq_zero {a b : String} (h : localeCompare a b = 0) : a = b := by
  obtain ⟨hprimary, htertiary⟩ := Comparison.orElse_eq_zero.mp h
  exact String.toList_inj.mp (map_weights_injective (Comparison.lists_eq_zero hprimary)
    (Comparison.lists_eq_zero htertiary))

/-! ## Contexts, providers and policies -/

structure RoutingContext where
  capability : Capability
  requestType : RoutingRequestType
  intentType : IntentType
  semanticRisk : SemanticRisk
  latencyClass : LatencyClass
  toolUseRequirement : Requirement
  authorityRequirement : AuthorityRequirement
  continuityRequirement : Requirement
  expectedOutputSize : OutputSizeClass
  validationProfile : String
  deriving DecidableEq

structure ProviderCapabilities where
  supportedCapabilities : List Capability
  routingClasses : List RoutingClass
  semanticReliability : ReliabilityTier
  authorityReliability : ReliabilityTier
  continuityReliability : ReliabilityTier
  toolUse : SupportLevel
  structuredOutput : SupportLevel
  contextCapacity : ContextCapacity
  executionLocality : ExecutionLocality
  deriving DecidableEq

structure ProviderOperationalProfile where
  latencyTier : LatencyTier
  costTier : CostTier
  deriving DecidableEq

structure ProviderDescriptor where
  providerId : String
  capabilities : ProviderCapabilities
  operationalProfile : ProviderOperationalProfile
  enabled : Bool
  deriving DecidableEq

structure RegisteredProviderSnapshot where
  descriptor : ProviderDescriptor
  availability : ProviderAvailability
  deriving DecidableEq

/-- A snapshot of the registry, which refuses two providers of one id. -/
structure ProviderRegistrySnapshot where
  version : String
  configurationDigest : String
  providers : List RegisteredProviderSnapshot
  distinct : (providers.map fun entry => entry.descriptor.providerId).Nodup

structure RoutingPredicate where
  capabilities : Option (List Capability)
  requestTypes : Option (List RoutingRequestType)
  intentTypes : Option (List IntentType)
  semanticRisks : Option (List SemanticRisk)
  latencyClasses : Option (List LatencyClass)
  toolUseRequirements : Option (List Requirement)
  authorityRequirements : Option (List AuthorityRequirement)
  continuityRequirements : Option (List Requirement)
  outputSizes : Option (List OutputSizeClass)
  validationProfiles : Option (List String)
  deriving DecidableEq

structure EligibilityRule where
  requiredRoutingClasses : Option (List RoutingClass)
  excludedRoutingClasses : Option (List RoutingClass)
  minimumSemanticReliability : Option ReliabilityTier
  minimumAuthorityReliability : Option ReliabilityTier
  minimumContinuityReliability : Option ReliabilityTier
  requiresToolUse : Option Bool
  requiresStructuredOutput : Option Bool
  minimumContextCapacity : Option ContextCapacity
  executionLocality : Option ExecutionLocality
  deriving DecidableEq

structure RankingRule where
  dimension : RankingDimension
  direction : SortDirection
  routingClassPreference : Option (List RoutingClass)
  deriving DecidableEq

structure RoutingPolicy where
  policyId : String
  version : String
  precedence : ℤ
  condition : RoutingPredicate
  eligibility : EligibilityRule
  ranking : List RankingRule
  terminal : TerminalDecision
  deriving DecidableEq

structure RoutingPolicyConfiguration where
  version : String
  policies : List RoutingPolicy
  deriving DecidableEq

structure ProviderSelectionDecision where
  selectedProviderId : Option String
  eligibleProviderIds : List String
  matchedPolicyId : Option String
  reasonCode : RoutingReasonCode
  policyVersion : String
  registryVersion : String
  registryConfigurationDigest : String
  policyConfigurationDigest : String
  configurationDigest : String
  deriving DecidableEq

structure StaticEligibilityProjection where
  policyMatched : Bool
  matchedPolicyId : Option String
  policyRequiresLocalLocality : Bool
  configuredNetworkProviderIds : List String
  policyCompatibleNetworkProviderIdsIgnoringEnabled : List String
  eligibleProviderIds : List String
  eligibleNetworkProviderIds : List String
  eligibleLocalProviderIds : List String
  policyVersion : String
  registryVersion : String
  registryConfigurationDigest : String
  policyConfigurationDigest : String
  configurationDigest : String
  deriving DecidableEq

end QuokyPlatform.Routing
