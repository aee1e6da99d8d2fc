import Mathlib.Data.List.Dedup
import QuokyPlatform.Routing.PolicyEngine

/-! # Configurations that mean the same

Two policies mean the same when they agree on everything but the order of the lists they are matched
and restricted by; two registry snapshots, when they list the same providers in any order, each with
its lists in any order. Policies of one meaning have one canonical form, and the other way round.
Nothing the engine does tells configurations of one meaning apart. -/

namespace QuokyPlatform.Routing

set_option autoImplicit false
set_option maxHeartbeats 250000

/-! ## Lists of one meaning -/

/-- Both absent, or the same values in any order. -/
abbrev SameList {α : Type} : Option (List α) → Option (List α) → Prop := Option.Rel List.Perm

section

variable {α : Type}

theorem SameList.refl (a : Option (List α)) : SameList a a := by
  cases a with
  | none => exact .none
  | some l => exact .some (.refl l)

theorem SameList.symm {a b : Option (List α)} (h : SameList a b) : SameList b a := by
  cases h with
  | none => exact .none
  | some hperm => exact .some hperm.symm

theorem sorted_eq_iff [Named α] {a b : Option (List α)} : sorted a = sorted b ↔ SameList a b := by
  have hname : Function.Injective (Named.name : α → String) := Named.name_injective
  constructor
  · intro h
    cases a with
    | none =>
      cases b with
      | none => exact .none
      | some m => cases h
    | some l =>
      cases b with
      | none => cases h
      | some m =>
        have hstr : Function.Injective Json.str := fun _ _ heq => Json.str.inj heq
        have hsort := List.map_injective_iff.mpr hstr (Json.arr.inj h)
        refine .some ((List.map_perm_map_iff hname).mp ?_)
        exact ((List.perm_insertionSort (· ≤ ·) (l.map Named.name)).symm.trans (hsort ▸ .refl _)).trans
          (List.perm_insertionSort (· ≤ ·) (m.map Named.name))
  · intro h
    cases h with
    | none => rfl
    | @some l m hperm =>
      have hnames : (l.map Named.name).insertionSort (· ≤ ·) =
          (m.map Named.name).insertionSort (· ≤ ·) :=
        (((List.perm_insertionSort _ _).trans (hperm.map _)).trans
          (List.perm_insertionSort _ _).symm).eq_of_pairwise' (List.pairwise_insertionSort _ _)
          (List.pairwise_insertionSort _ _)
      simp only [sorted, hnames]

theorem SameList.length {a b : Option (List α)} (h : SameList a b) :
    (a.getD []).Perm (b.getD []) := by
  cases h with
  | none => exact .refl _
  | some hperm => exact hperm

theorem SameList.validate [DecidableEq α] {a b : Option (List α)} (h : SameList a b)
    (field : String) : validateOptionalArray a field = validateOptionalArray b field := by
  cases h with
  | none => rfl
  | some hperm =>
    simp only [validateOptionalArray, hperm.length_eq, hperm.dedup.length_eq]

theorem SameList.matchesValue [DecidableEq α] {a b : Option (List α)} (h : SameList a b)
    (actual : α) : Routing.matchesValue a actual = Routing.matchesValue b actual := by
  cases h with
  | none => rfl
  | some hperm => simp only [Routing.matchesValue, hperm.mem_iff]

theorem SameList.any {a b : Option (List α)} (h : SameList a b) {p : List α → Bool}
    (hp : ∀ l m : List α, l.Perm m → p l = p m) : a.any p = b.any p := by
  cases h with
  | none => rfl
  | some hperm => exact hp _ _ hperm

theorem perm_any {l m : List α} (h : l.Perm m) (p : α → Bool) : l.any p = m.any p := by
  rw [Bool.eq_iff_iff, List.any_eq_true, List.any_eq_true]
  simp only [h.mem_iff]

theorem perm_all {l m : List α} (h : l.Perm m) (p : α → Bool) : l.all p = m.all p := by
  rw [Bool.eq_iff_iff, List.all_eq_true, List.all_eq_true]
  simp only [h.mem_iff]

end

/-! ## Policies of one meaning -/

structure SamePredicate (p q : RoutingPredicate) : Prop where
  capabilities : SameList p.capabilities q.capabilities
  requestTypes : SameList p.requestTypes q.requestTypes
  intentTypes : SameList p.intentTypes q.intentTypes
  semanticRisks : SameList p.semanticRisks q.semanticRisks
  latencyClasses : SameList p.latencyClasses q.latencyClasses
  toolUseRequirements : SameList p.toolUseRequirements q.toolUseRequirements
  authorityRequirements : SameList p.authorityRequirements q.authorityRequirements
  continuityRequirements : SameList p.continuityRequirements q.continuityRequirements
  outputSizes : SameList p.outputSizes q.outputSizes
  validationProfiles : SameList p.validationProfiles q.validationProfiles

structure SameEligibility (p q : EligibilityRule) : Prop where
  requiredRoutingClasses : SameList p.requiredRoutingClasses q.requiredRoutingClasses
  excludedRoutingClasses : SameList p.excludedRoutingClasses q.excludedRoutingClasses
  minimumSemanticReliability : p.minimumSemanticReliability = q.minimumSemanticReliability
  minimumAuthorityReliability : p.minimumAuthorityReliability = q.minimumAuthorityReliability
  minimumContinuityReliability : p.minimumContinuityReliability = q.minimumContinuityReliability
  requiresToolUse : p.requiresToolUse = q.requiresToolUse
  requiresStructuredOutput : p.requiresStructuredOutput = q.requiresStructuredOutput
  minimumContextCapacity : p.minimumContextCapacity = q.minimumContextCapacity
  executionLocality : p.executionLocality = q.executionLocality

/-- The ranking stands as it is: the order of the rules, and of a class preference, is its meaning. -/
structure SamePolicy (p q : RoutingPolicy) : Prop where
  policyId : p.policyId = q.policyId
  version : p.version = q.version
  precedence : p.precedence = q.precedence
  condition : SamePredicate p.condition q.condition
  eligibility : SameEligibility p.eligibility q.eligibility
  ranking : p.ranking = q.ranking
  terminal : p.terminal = q.terminal

theorem optional_injective {α : Type} {write : α → Json} (hwrite : Function.Injective write)
    (hnull : ∀ a, write a ≠ .null) : Function.Injective (optional write) := by
  intro a b h
  cases a with
  | none =>
    cases b with
    | none => rfl
    | some b => exact absurd h.symm (hnull b)
  | some a =>
    cases b with
    | none => exact absurd h (hnull a)
    | some b => rw [hwrite h]

theorem text_injective {α : Type} [Named α] : Function.Injective (text : α → Json) :=
  fun _ _ h => Named.name_injective (Json.str.inj h)

theorem optional_text {α : Type} [Named α] : Function.Injective (optional (text : α → Json)) :=
  optional_injective text_injective fun _ h => by cases h

theorem optional_bool : Function.Injective (optional Json.bool) :=
  optional_injective (fun _ _ h => Json.bool.inj h) fun _ h => by cases h

theorem canonicalRule_injective : Function.Injective canonicalRule := by
  rintro ⟨dimension, direction, preference⟩ ⟨dimension', direction', preference'⟩ h
  simp only [canonicalRule, Json.obj.injEq, List.cons.injEq, Prod.mk.injEq, true_and, and_true] at h
  obtain ⟨hdimension, hdirection, hpreference⟩ := h
  have hlist : Function.Injective fun values : List RoutingClass => Json.arr (values.map text) :=
    fun _ _ heq => List.map_injective_iff.mpr text_injective (Json.arr.inj heq)
  rw [text_injective hdimension, text_injective hdirection,
    optional_injective hlist (fun _ heq => by cases heq) hpreference]

/-- The canonical form keeps everything but the order of the lists. -/
theorem canonicalPolicy_eq_iff {p q : RoutingPolicy} :
    canonicalPolicy p = canonicalPolicy q ↔ SamePolicy p q := by
  constructor
  · intro h
    simp only [canonicalPolicy, Json.obj.injEq, List.cons.injEq, Prod.mk.injEq, true_and, and_true,
      Json.str.injEq, Json.num.injEq, Json.arr.injEq, sorted_eq_iff] at h
    obtain ⟨hid, hversion, hprecedence, ⟨h₁, h₂, h₃, h₄, h₅, h₆, h₇, h₈, h₉, h₁₀⟩,
      ⟨e₁, e₂, e₃, e₄, e₅, e₆, e₇, e₈, e₉⟩, hranking⟩ := h
    have hterminal : p.terminal = q.terminal := by
      cases p.terminal
      cases q.terminal
      rfl
    exact ⟨hid, hversion, hprecedence, ⟨h₁, h₂, h₃, h₄, h₅, h₆, h₇, h₈, h₉, h₁₀⟩,
      ⟨e₁, e₂, optional_text e₃, optional_text e₄, optional_text e₅, optional_bool e₆,
        optional_bool e₇, optional_text e₈, optional_text e₉⟩,
      List.map_injective_iff.mpr canonicalRule_injective hranking, hterminal⟩
  · rintro ⟨hid, hversion, hprecedence, hcondition, heligibility, hranking, hterminal⟩
    obtain ⟨h₁, h₂, h₃, h₄, h₅, h₆, h₇, h₈, h₉, h₁₀⟩ := hcondition
    obtain ⟨e₁, e₂, e₃, e₄, e₅, e₆, e₇, e₈, e₉⟩ := heligibility
    simp only [canonicalPolicy, hid, hversion, hprecedence, hranking, hterminal, e₃, e₄, e₅, e₆, e₇,
      e₈, e₉, sorted_eq_iff.mpr h₁, sorted_eq_iff.mpr h₂, sorted_eq_iff.mpr h₃, sorted_eq_iff.mpr h₄,
      sorted_eq_iff.mpr h₅, sorted_eq_iff.mpr h₆, sorted_eq_iff.mpr h₇, sorted_eq_iff.mpr h₈,
      sorted_eq_iff.mpr h₉, sorted_eq_iff.mpr h₁₀, sorted_eq_iff.mpr e₁, sorted_eq_iff.mpr e₂]

/-! ## What the engine reads of a policy -/

theorem SamePredicate.validate {p q : RoutingPredicate} (h : SamePredicate p q) :
    validatePredicate p = validatePredicate q := by
  simp only [validatePredicate, h.capabilities.validate, h.requestTypes.validate,
    h.intentTypes.validate, h.semanticRisks.validate, h.latencyClasses.validate,
    h.toolUseRequirements.validate, h.authorityRequirements.validate,
    h.continuityRequirements.validate, h.outputSizes.validate, h.validationProfiles.validate,
    perm_any h.validationProfiles.length]

theorem SamePredicate.matchesPredicate {p q : RoutingPredicate} (h : SamePredicate p q)
    (context : RoutingContext) :
    Routing.matchesPredicate p context = Routing.matchesPredicate q context := by
  simp only [Routing.matchesPredicate, h.capabilities.matchesValue, h.requestTypes.matchesValue,
    h.intentTypes.matchesValue, h.semanticRisks.matchesValue, h.latencyClasses.matchesValue,
    h.toolUseRequirements.matchesValue, h.authorityRequirements.matchesValue,
    h.continuityRequirements.matchesValue, h.outputSizes.matchesValue,
    h.validationProfiles.matchesValue]

theorem SameEligibility.validate {p q : EligibilityRule} (h : SameEligibility p q) :
    validateEligibility p = validateEligibility q := by
  have hall : (p.requiredRoutingClasses.getD []).all (· ∈ p.excludedRoutingClasses.getD []) =
      (q.requiredRoutingClasses.getD []).all (· ∈ q.excludedRoutingClasses.getD []) := by
    simp only [h.excludedRoutingClasses.length.mem_iff, perm_all h.requiredRoutingClasses.length]
  simp only [validateEligibility, h.requiredRoutingClasses.validate,
    h.excludedRoutingClasses.validate, hall, h.requiredRoutingClasses.length.length_eq]

theorem SamePolicy.freeze {p q : RoutingPolicy} (h : SamePolicy p q)
    (hp : freezePolicy p = .ok p) : freezePolicy q = .ok q := by
  simp only [freezePolicy, bind_ok] at hp ⊢
  rw [← h.version, ← h.precedence, ← h.condition.validate, ← h.eligibility.validate, ← h.ranking]
  obtain ⟨_, h₁, _, h₂, _, h₃, _, h₄, _, h₅, -⟩ := hp
  exact ⟨_, h₁, _, h₂, _, h₃, _, h₄, _, h₅, rfl⟩

/-! ## Providers of one meaning -/

structure SameDescriptor (a b : ProviderDescriptor) : Prop where
  providerId : a.providerId = b.providerId
  supportedCapabilities :
    a.capabilities.supportedCapabilities.Perm b.capabilities.supportedCapabilities
  routingClasses : a.capabilities.routingClasses.Perm b.capabilities.routingClasses
  capabilities : { a.capabilities with
      supportedCapabilities := b.capabilities.supportedCapabilities
      routingClasses := b.capabilities.routingClasses } = b.capabilities
  operationalProfile : a.operationalProfile = b.operationalProfile
  enabled : a.enabled = b.enabled

structure SameEntry (a b : RegisteredProviderSnapshot) : Prop where
  descriptor : SameDescriptor a.descriptor b.descriptor
  availability : a.availability = b.availability

/-- The same providers in any order. -/
structure SameRegistry (r r' : ProviderRegistrySnapshot) : Prop where
  version : r.version = r'.version
  configurationDigest : r.configurationDigest = r'.configurationDigest
  providers : ∃ providers, List.Forall₂ SameEntry r.providers providers ∧
    providers.Perm r'.providers

theorem SameDescriptor.refl (a : ProviderDescriptor) : SameDescriptor a a :=
  ⟨rfl, .refl _, .refl _, rfl, rfl, rfl⟩

theorem SameRegistry.refl (r : ProviderRegistrySnapshot) : SameRegistry r r :=
  ⟨rfl, rfl, r.providers,
    List.forall₂_same.mpr fun _ _ => ⟨SameDescriptor.refl _, rfl⟩, .refl _⟩

theorem policyCompatible_same {a b : ProviderDescriptor} {p q : EligibilityRule}
    (hd : SameDescriptor a b) (hr : SameEligibility p q) (context : RoutingContext) :
    policyCompatible a context p = policyCompatible b context q := by
  have hsemantic := congrArg ProviderCapabilities.semanticReliability hd.capabilities
  have hauthority := congrArg ProviderCapabilities.authorityReliability hd.capabilities
  have hcontinuity := congrArg ProviderCapabilities.continuityReliability hd.capabilities
  have htool := congrArg ProviderCapabilities.toolUse hd.capabilities
  have hstructured := congrArg ProviderCapabilities.structuredOutput hd.capabilities
  have hcontext := congrArg ProviderCapabilities.contextCapacity hd.capabilities
  have hlocality := congrArg ProviderCapabilities.executionLocality hd.capabilities
  simp only at hsemantic hauthority hcontinuity htool hstructured hcontext hlocality
  have hrequired : (p.requiredRoutingClasses.any fun required =>
        !required.any (· ∈ a.capabilities.routingClasses)) =
      q.requiredRoutingClasses.any fun required =>
        !required.any (· ∈ b.capabilities.routingClasses) := by
    simp only [hd.routingClasses.mem_iff]
    exact hr.requiredRoutingClasses.any fun l m hperm => by rw [perm_any hperm]
  have hexcluded : (p.excludedRoutingClasses.any fun excluded =>
        excluded.any (· ∈ a.capabilities.routingClasses)) =
      q.excludedRoutingClasses.any fun excluded =>
        excluded.any (· ∈ b.capabilities.routingClasses) := by
    simp only [hd.routingClasses.mem_iff]
    exact hr.excludedRoutingClasses.any fun l m hperm => perm_any hperm _
  simp only [policyCompatible, hd.supportedCapabilities.mem_iff, hsemantic, hauthority, hcontinuity,
    htool, hstructured, hcontext, hlocality, hrequired, hexcluded, hr.minimumSemanticReliability,
    hr.minimumAuthorityReliability, hr.minimumContinuityReliability, hr.requiresToolUse,
    hr.requiresStructuredOutput, hr.minimumContextCapacity, hr.executionLocality]

theorem eligible_same {a b : ProviderDescriptor} {p q : EligibilityRule}
    (hd : SameDescriptor a b) (hr : SameEligibility p q) (context : RoutingContext) :
    eligible a context p = eligible b context q := by
  rw [eligible, eligible, hd.enabled, policyCompatible_same hd hr]

theorem min?_perm {l m : List ℤ} (h : l.Perm m) : l.min? = m.min? := by
  cases hl : l.min? with
  | none =>
    rw [List.min?_eq_none_iff] at hl
    subst hl
    rw [List.nil_perm.mp h]
    rfl
  | some a =>
    obtain ⟨hmem, hle⟩ := List.min?_eq_some_iff.mp hl
    refine (List.min?_eq_some_iff.mpr ⟨h.mem_iff.mp hmem, fun b hb => ?_⟩).symm
    exact hle b (h.mem_iff.mpr hb)

theorem rankOf_same {a b : ProviderDescriptor} (h : SameDescriptor a b) (rule : RankingRule) :
    rankOf rule a = rankOf rule b := by
  have hsemantic := congrArg ProviderCapabilities.semanticReliability h.capabilities
  have hauthority := congrArg ProviderCapabilities.authorityReliability h.capabilities
  have hcontinuity := congrArg ProviderCapabilities.continuityReliability h.capabilities
  simp only at hsemantic hauthority hcontinuity
  have hclass : ∀ preference, classRank a preference = classRank b preference := by
    intro preference
    simp only [classRank, min?_perm ((h.routingClasses.map (indexOf preference)).filter _)]
  simp only [rankOf, hclass, hsemantic, hauthority, hcontinuity, h.operationalProfile]

/-! ## The ranking orders the providers -/

theorem consistent_compareByRule (rule : RankingRule) : (compareByRule rule).Consistent := by
  unfold compareByRule
  cases rule.direction with
  | ascending => exact Comparison.consistent_byKey (rankOf rule)
  | descending => exact (Comparison.consistent_byKey (rankOf rule)).reverse

theorem consistent_compareCandidates (ranking : List RankingRule) :
    (compareCandidates ranking).Consistent := by
  induction ranking with
  | nil => exact consistent_localeCompare.on _
  | cons rule rest ih => exact (consistent_compareByRule rule).orElse ih

theorem consistent_comparePolicies : comparePolicies.Consistent :=
  (Comparison.consistent_byKey _).reverse.orElse (consistent_localeCompare.on _)

/-- Candidates are told apart by their ids at the latest. -/
theorem compareCandidates_eq_zero {ranking : List RankingRule} {a b : ProviderDescriptor}
    (h : compareCandidates ranking a b = 0) : a.providerId = b.providerId := by
  induction ranking with
  | nil => exact localeCompare_eq_zero h
  | cons rule rest ih => exact ih (Comparison.orElse_eq_zero.mp h).2

theorem compareCandidates_same {ranking : List RankingRule} {a a' b b' : ProviderDescriptor}
    (ha : SameDescriptor a a') (hb : SameDescriptor b b') :
    compareCandidates ranking a b = compareCandidates ranking a' b' := by
  induction ranking with
  | nil => simp only [compareCandidates, Comparison.on, ha.providerId, hb.providerId]
  | cons rule rest ih =>
    refine Comparison.orElse_congr ?_ ih
    rw [compareByRule, compareByRule, rankOf_same ha, rankOf_same hb]

theorem comparePolicies_same {p p' q q' : RoutingPolicy} (hp : SamePolicy p p')
    (hq : SamePolicy q q') : comparePolicies p q = comparePolicies p' q' := by
  refine Comparison.orElse_congr ?_ ?_
  · simp only [Comparison.reverse, Comparison.byKey, hp.precedence, hq.precedence]
  · simp only [Comparison.on, hp.policyId, hq.policyId]

end QuokyPlatform.Routing
