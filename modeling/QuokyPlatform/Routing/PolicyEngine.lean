import QuokyPlatform.Foundations.Except
import QuokyPlatform.Foundations.JsonText
import QuokyPlatform.Routing.Contracts

/-! # The routing policy engine

`RoutingPolicyEngine` validates a configuration, sorts its policies and keeps a digest of their
canonical form. `select` ranks the available providers that the first matching policy admits;
`staticEligibility` lists the providers it admits whether they are available or not. The hash is a
parameter. -/

namespace QuokyPlatform.Routing

set_option autoImplicit false
set_option maxHeartbeats 250000

/-! ## Validation -/

def assertVersion (value field : String) : Except String Unit :=
  if !isVersion value then .error s!"Invalid {field}" else .ok ()

/-- The values of an enumeration are typed, so what is left is the shape of the list. -/
def validateOptionalArray {α : Type} [DecidableEq α] (values : Option (List α)) (field : String) :
    Except String Unit :=
  match values with
  | none => .ok ()
  | some values =>
    if values.length = 0 then .error s!"{field} must not be empty"
    else if values.dedup.length ≠ values.length then .error s!"{field} has duplicates"
    else .ok ()

/-- A check of its own: throw when the condition holds. -/
def throwIf (condition : Prop) [Decidable condition] (message : String) : Except String Unit :=
  if condition then .error message else .ok ()

def validatePredicate (predicate : RoutingPredicate) : Except String Unit := do
  validateOptionalArray predicate.capabilities "predicate.capabilities"
  validateOptionalArray predicate.requestTypes "predicate.requestTypes"
  validateOptionalArray predicate.intentTypes "predicate.intentTypes"
  validateOptionalArray predicate.semanticRisks "predicate.semanticRisks"
  validateOptionalArray predicate.latencyClasses "predicate.latencyClasses"
  validateOptionalArray predicate.toolUseRequirements "predicate.toolUseRequirements"
  validateOptionalArray predicate.authorityRequirements "predicate.authorityRequirements"
  validateOptionalArray predicate.continuityRequirements "predicate.continuityRequirements"
  validateOptionalArray predicate.outputSizes "predicate.outputSizes"
  validateOptionalArray predicate.validationProfiles "predicate.validationProfiles"
  throwIf ((predicate.validationProfiles.getD []).any fun value => !isRoutingIdentifier value)
    "Invalid predicate.validationProfiles"

def validateEligibility (rule : EligibilityRule) : Except String Unit := do
  validateOptionalArray rule.requiredRoutingClasses "requiredRoutingClasses"
  validateOptionalArray rule.excludedRoutingClasses "excludedRoutingClasses"
  let required := rule.requiredRoutingClasses.getD []
  let excluded := rule.excludedRoutingClasses.getD []
  throwIf (required.length > 0 ∧ required.all (· ∈ excluded))
    "Eligibility requires only excluded routing classes"

def validateRule (rule : RankingRule) : Except String Unit :=
  if rule.dimension = .routingClass then do
    validateOptionalArray rule.routingClassPreference "routingClassPreference"
    throwIf (rule.routingClassPreference = none)
      "ROUTING_CLASS ranking requires routingClassPreference"
    throwIf (rule.direction ≠ .ascending) "ROUTING_CLASS preference must use ASCENDING order"
  else
    throwIf (rule.routingClassPreference ≠ none)
      "routingClassPreference is only valid for ROUTING_CLASS ranking"

def validateRanking (ranking : List RankingRule) : Except String Unit := do
  throwIf (ranking.length = 0) "ranking must not be empty"
  ranking.forM validateRule
  throwIf ((ranking.map (·.dimension)).dedup.length ≠ ranking.length)
    "ranking dimensions must be unique"

/-- The policy is copied as it is. -/
def freezePolicy (policy : RoutingPolicy) : Except String RoutingPolicy := do
  assertVersion policy.version "policy.version"
  throwIf (policy.precedence < 0 ∨ policy.precedence > 10000) "Invalid policy.precedence"
  validatePredicate policy.condition
  validateEligibility policy.eligibility
  validateRanking policy.ranking
  return policy

/-- The policies of a configuration; `ids` are those of the policies before. -/
def freezePolicies (ids : List String) : List RoutingPolicy → Except String (List RoutingPolicy)
  | [] => .ok []
  | policy :: rest =>
    if !isRoutingIdentifier policy.policyId then .error "Invalid policyId"
    else if policy.policyId ∈ ids then .error ("Duplicate policyId: " ++ policy.policyId)
    else do
      let frozen ← freezePolicy policy
      return frozen :: (← freezePolicies (policy.policyId :: ids) rest)

def validateContext (context : RoutingContext) : Except String Unit :=
  if !isRoutingIdentifier context.validationProfile then .error "Invalid validationProfile"
  else .ok ()

/-! ## The canonical form -/

/-- A list of an enumeration as the digest covers it: its texts in their order, `null` for none. -/
def sorted {α : Type} [Named α] (value : Option (List α)) : Json :=
  match value with
  | none => .null
  | some values => .arr (((values.map Named.name).insertionSort (· ≤ ·)).map .str)

def optional {α : Type} (write : α → Json) (value : Option α) : Json := (value.map write).getD .null

def text {α : Type} [Named α] (value : α) : Json := .str (Named.name value)

def canonicalRule (rule : RankingRule) : Json :=
  .obj [("dimension", text rule.dimension), ("direction", text rule.direction),
    ("routingClassPreference",
      optional (fun values => .arr (values.map text)) rule.routingClassPreference)]

def canonicalPolicy (policy : RoutingPolicy) : Json :=
  .obj [("policyId", .str policy.policyId), ("version", .str policy.version),
    ("precedence", .num policy.precedence),
    ("when", .obj [("capabilities", sorted policy.condition.capabilities),
      ("requestTypes", sorted policy.condition.requestTypes),
      ("intentTypes", sorted policy.condition.intentTypes),
      ("semanticRisks", sorted policy.condition.semanticRisks),
      ("latencyClasses", sorted policy.condition.latencyClasses),
      ("toolUseRequirements", sorted policy.condition.toolUseRequirements),
      ("authorityRequirements", sorted policy.condition.authorityRequirements),
      ("continuityRequirements", sorted policy.condition.continuityRequirements),
      ("outputSizes", sorted policy.condition.outputSizes),
      ("validationProfiles", sorted policy.condition.validationProfiles)]),
    ("eligibility", .obj [
      ("requiredRoutingClasses", sorted policy.eligibility.requiredRoutingClasses),
      ("excludedRoutingClasses", sorted policy.eligibility.excludedRoutingClasses),
      ("minimumSemanticReliability", optional text policy.eligibility.minimumSemanticReliability),
      ("minimumAuthorityReliability", optional text policy.eligibility.minimumAuthorityReliability),
      ("minimumContinuityReliability",
        optional text policy.eligibility.minimumContinuityReliability),
      ("requiresToolUse", optional .bool policy.eligibility.requiresToolUse),
      ("requiresStructuredOutput", optional .bool policy.eligibility.requiresStructuredOutput),
      ("minimumContextCapacity", optional text policy.eligibility.minimumContextCapacity),
      ("executionLocality", optional text policy.eligibility.executionLocality)]),
    ("ranking", .arr (policy.ranking.map canonicalRule)), ("terminal", text policy.terminal)]

/-! ## Matching and eligibility -/

def RELIABILITY_ORDER : ReliabilityTier → ℤ
  | .unproven => 0
  | .low => 1
  | .standard => 2
  | .high => 3

def CONTEXT_ORDER : ContextCapacity → ℤ
  | .small => 0
  | .medium => 1
  | .large => 2

def LATENCY_ORDER : LatencyTier → ℤ
  | .fast => 0
  | .balanced => 1
  | .slow => 2
  | .unknown => 3

def COST_ORDER : CostTier → ℤ
  | .low => 0
  | .standard => 1
  | .high => 2
  | .unknown => 3

def matchesValue {α : Type} [DecidableEq α] (allowed : Option (List α)) (actual : α) : Bool :=
  match allowed with
  | none => true
  | some allowed => actual ∈ allowed

def matchesPredicate (predicate : RoutingPredicate) (context : RoutingContext) : Bool :=
  matchesValue predicate.capabilities context.capability &&
  matchesValue predicate.requestTypes context.requestType &&
  matchesValue predicate.intentTypes context.intentType &&
  matchesValue predicate.semanticRisks context.semanticRisk &&
  matchesValue predicate.latencyClasses context.latencyClass &&
  matchesValue predicate.toolUseRequirements context.toolUseRequirement &&
  matchesValue predicate.authorityRequirements context.authorityRequirement &&
  matchesValue predicate.continuityRequirements context.continuityRequirement &&
  matchesValue predicate.outputSizes context.expectedOutputSize &&
  matchesValue predicate.validationProfiles context.validationProfile

def atLeast (actual : ReliabilityTier) (minimum : Option ReliabilityTier) : Bool :=
  match minimum with
  | none => true
  | some minimum => RELIABILITY_ORDER actual ≥ RELIABILITY_ORDER minimum

def policyCompatible (descriptor : ProviderDescriptor) (context : RoutingContext)
    (rule : EligibilityRule) : Bool :=
  let capabilities := descriptor.capabilities
  if context.capability ∉ capabilities.supportedCapabilities then false
  else if context.toolUseRequirement = .required ∧ capabilities.toolUse ≠ .supported then false
  else if rule.requiresToolUse = some true ∧ capabilities.toolUse ≠ .supported then false
  else if rule.requiresStructuredOutput = some true ∧ capabilities.structuredOutput ≠ .supported then
    false
  else if rule.executionLocality.any (capabilities.executionLocality ≠ ·) then false
  else if rule.minimumContextCapacity.any
      (CONTEXT_ORDER capabilities.contextCapacity < CONTEXT_ORDER ·) then false
  else if !atLeast capabilities.semanticReliability rule.minimumSemanticReliability then false
  else if !atLeast capabilities.authorityReliability rule.minimumAuthorityReliability then false
  else if !atLeast capabilities.continuityReliability rule.minimumContinuityReliability then false
  else
    let classes := capabilities.routingClasses
    if rule.requiredRoutingClasses.any fun required => !required.any (· ∈ classes) then false
    else if rule.excludedRoutingClasses.any fun excluded => excluded.any (· ∈ classes) then false
    else true

def eligible (descriptor : ProviderDescriptor) (context : RoutingContext) (rule : EligibilityRule) :
    Bool :=
  descriptor.enabled && policyCompatible descriptor context rule

/-! ## Ranking -/

def compareNumber (a b : ℤ) (direction : SortDirection) : ℤ :=
  match direction with
  | .ascending => a - b
  | .descending => b - a

def MAX_SAFE_INTEGER : ℤ := 9007199254740991

/-- `preference.indexOf(value)` -/
def indexOf (preference : List RoutingClass) (value : RoutingClass) : ℤ :=
  match preference.idxOf? value with
  | some index => index
  | none => -1

def classRank (descriptor : ProviderDescriptor) (preference : List RoutingClass) : ℤ :=
  let indexes := descriptor.capabilities.routingClasses.map (indexOf preference)
  let eligibleIndexes := indexes.filter (· ≥ 0)
  eligibleIndexes.min?.getD MAX_SAFE_INTEGER

/-- The number a rule compares of a provider. -/
def rankOf (rule : RankingRule) (descriptor : ProviderDescriptor) : ℤ :=
  match rule.dimension with
  | .routingClass => classRank descriptor (rule.routingClassPreference.getD [])
  | .semanticReliability => RELIABILITY_ORDER descriptor.capabilities.semanticReliability
  | .authorityReliability => RELIABILITY_ORDER descriptor.capabilities.authorityReliability
  | .continuityReliability => RELIABILITY_ORDER descriptor.capabilities.continuityReliability
  | .latencyTier => LATENCY_ORDER descriptor.operationalProfile.latencyTier
  | .costTier => COST_ORDER descriptor.operationalProfile.costTier

def compareByRule (rule : RankingRule) : Comparison ProviderDescriptor := fun a b =>
  compareNumber (rankOf rule a) (rankOf rule b) rule.direction

/-- The first rule that tells two providers apart decides, and their ids where none does. -/
def compareCandidates : List RankingRule → Comparison ProviderDescriptor
  | [] => localeCompare.on (·.providerId)
  | rule :: rest => (compareByRule rule).orElse (compareCandidates rest)

def comparePolicies : Comparison RoutingPolicy :=
  (Comparison.byKey (·.precedence)).reverse.orElse (localeCompare.on (·.policyId))

/-! ## The engine -/

structure RoutingPolicyEngine where
  policies : List RoutingPolicy
  policyVersion : String
  policyDigest : String
  deriving DecidableEq

section

variable (sha256 : List Char → String)

def sha256Canonical (value : Json) : String := sha256 value.stringify

/-- The engine of a valid configuration. -/
def build (configuration : RoutingPolicyConfiguration) : RoutingPolicyEngine where
  policies := Comparison.sort comparePolicies configuration.policies
  policyVersion := configuration.version
  policyDigest := sha256Canonical sha256 <| .obj [("version", .str configuration.version),
    ("policies", .arr ((Comparison.sort (localeCompare.on (·.policyId))
      (Comparison.sort comparePolicies configuration.policies)).map canonicalPolicy))]

namespace RoutingPolicyEngine

def new (configuration : RoutingPolicyConfiguration) : Except String RoutingPolicyEngine := do
  assertVersion configuration.version "policyConfiguration.version"
  throwIf (configuration.policies.length = 0)
    "Routing policy configuration must not be empty"
  let policies ← freezePolicies [] configuration.policies
  return build sha256 { configuration with policies }

variable (engine : RoutingPolicyEngine)

def compositeConfigurationDigest (registry : ProviderRegistrySnapshot) : String :=
  sha256Canonical sha256 <| .obj [("registryDigest", .str registry.configurationDigest),
    ("policyDigest", .str engine.policyDigest)]

def decision (selectedProviderId : Option String) (eligibleProviderIds : List String)
    (matchedPolicyId : Option String) (reasonCode : RoutingReasonCode)
    (registry : ProviderRegistrySnapshot) (configurationDigest : String) :
    ProviderSelectionDecision where
  selectedProviderId
  eligibleProviderIds
  matchedPolicyId
  reasonCode
  policyVersion := engine.policyVersion
  registryVersion := registry.version
  registryConfigurationDigest := registry.configurationDigest
  policyConfigurationDigest := engine.policyDigest
  configurationDigest

/-- The first policy that matches the context. -/
def matched (context : RoutingContext) : Option RoutingPolicy :=
  engine.policies.find? fun candidate => matchesPredicate candidate.condition context

/-- The available providers that a policy admits, in the order of its ranking. -/
def candidates (policy : RoutingPolicy) (context : RoutingContext)
    (registry : ProviderRegistrySnapshot) : List ProviderDescriptor :=
  Comparison.sort (compareCandidates policy.ranking)
    (((registry.providers.filter fun entry => entry.availability = .available).map
      (·.descriptor)).filter fun descriptor => eligible descriptor context policy.eligibility)

def select (context : RoutingContext) (registry : ProviderRegistrySnapshot) :
    Except String ProviderSelectionDecision := do
  validateContext context
  let configurationDigest := engine.compositeConfigurationDigest sha256 registry
  match engine.matched context with
  | none =>
    return engine.decision none [] none .policyNotMatched registry configurationDigest
  | some policy =>
    match (candidates policy context registry).map (·.providerId) with
    | [] =>
      return engine.decision none [] (some policy.policyId) .noEligibleProvider registry
        configurationDigest
    | first :: others =>
      return engine.decision (some first) (first :: others) (some policy.policyId) .selected registry
        configurationDigest

/-- The ids of some descriptors, sorted. -/
def idsOf (descriptors : List ProviderDescriptor) : List String :=
  (Comparison.sort (localeCompare.on (·.providerId)) descriptors).map (·.providerId)

def staticEligibility (context : RoutingContext) (registry : ProviderRegistrySnapshot) :
    Except String StaticEligibilityProjection := do
  validateContext context
  let configurationDigest := engine.compositeConfigurationDigest sha256 registry
  match engine.matched context with
  | none =>
    return {
      policyMatched := false
      matchedPolicyId := none
      policyRequiresLocalLocality := false
      configuredNetworkProviderIds := []
      policyCompatibleNetworkProviderIdsIgnoringEnabled := []
      eligibleProviderIds := []
      eligibleNetworkProviderIds := []
      eligibleLocalProviderIds := []
      policyVersion := engine.policyVersion
      registryVersion := registry.version
      registryConfigurationDigest := registry.configurationDigest
      policyConfigurationDigest := engine.policyDigest
      configurationDigest }
  | some policy =>
    let allDescriptors := registry.providers.map (·.descriptor)
    let isNetwork (d : ProviderDescriptor) := d.capabilities.executionLocality = .network
    let isLocal (d : ProviderDescriptor) := d.capabilities.executionLocality = .local
    let configuredNetwork := allDescriptors.filter isNetwork
    let eligibleDescriptors :=
      allDescriptors.filter fun d => eligible d context policy.eligibility
    return {
      policyMatched := true
      matchedPolicyId := some policy.policyId
      policyRequiresLocalLocality := policy.eligibility.executionLocality = some .local
      configuredNetworkProviderIds := idsOf configuredNetwork
      policyCompatibleNetworkProviderIdsIgnoringEnabled :=
        idsOf (configuredNetwork.filter fun d => policyCompatible d context policy.eligibility)
      eligibleProviderIds := idsOf eligibleDescriptors
      eligibleNetworkProviderIds := idsOf (eligibleDescriptors.filter isNetwork)
      eligibleLocalProviderIds := idsOf (eligibleDescriptors.filter isLocal)
      policyVersion := engine.policyVersion
      registryVersion := registry.version
      registryConfigurationDigest := registry.configurationDigest
      policyConfigurationDigest := engine.policyDigest
      configurationDigest }

end RoutingPolicyEngine

end

end QuokyPlatform.Routing
