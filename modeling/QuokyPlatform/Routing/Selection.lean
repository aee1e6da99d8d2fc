import QuokyPlatform.Routing.SameMeaning

/-! # Selection is a function of the configuration's meaning

The engine of a configuration is the engine of its meaning: the order of policies, of the lists they
are matched by, and of the providers makes no difference, and neither does anything the digest does
not cover. What is selected is the first of the available eligible providers. -/

namespace QuokyPlatform.Routing

set_option autoImplicit false
set_option maxHeartbeats 250000

section

variable {sha256 : List Char → String}

/-! ## Valid configurations -/

/-- What the engine asks of the policies of a configuration together. -/
structure Accepted (policies : List RoutingPolicy) : Prop where
  each : ∀ policy ∈ policies,
    isRoutingIdentifier policy.policyId = true ∧ freezePolicy policy = .ok policy
  distinct : (policies.map (·.policyId)).Nodup

theorem freezePolicy_ok {policy frozen : RoutingPolicy} (h : freezePolicy policy = .ok frozen) :
    frozen = policy := by
  simp only [freezePolicy, bind_ok, pure_ok] at h
  obtain ⟨_, -, _, -, _, -, _, -, _, -, heq⟩ := h
  exact heq.symm

theorem freezePolicies_ok {ids : List String} {policies frozen : List RoutingPolicy} :
    freezePolicies ids policies = .ok frozen ↔
      frozen = policies ∧ Accepted policies ∧ ∀ policy ∈ policies, policy.policyId ∉ ids := by
  induction policies generalizing ids frozen with
  | nil =>
    simp only [freezePolicies, Except.ok.injEq]
    constructor
    · rintro rfl
      exact ⟨rfl, ⟨by simp, by simp⟩, by simp⟩
    · rintro ⟨rfl, -, -⟩
      rfl
  | cons policy rest ih =>
    rw [freezePolicies, ite_error_ok, ite_error_ok]
    simp only [bind_ok, pure_ok, ih, Bool.not_eq_true', Bool.not_eq_false]
    constructor
    · rintro ⟨hid, hnew, first, hfirst, others, ⟨rfl, hrest, hids⟩, rfl⟩
      obtain rfl := freezePolicy_ok hfirst
      refine ⟨rfl, ⟨fun p hp => ?_, ?_⟩, fun p hp => ?_⟩
      · rcases List.mem_cons.mp hp with rfl | hp
        · exact ⟨hid, hfirst⟩
        · exact hrest.each p hp
      · rw [List.map_cons, List.nodup_cons]
        refine ⟨fun hmem => ?_, hrest.distinct⟩
        obtain ⟨p, hp, heq⟩ := List.mem_map.mp hmem
        exact hids p hp (heq ▸ List.mem_cons_self)
      · rcases List.mem_cons.mp hp with rfl | hp
        · exact hnew
        · exact fun hmem => hids p hp (List.mem_cons_of_mem _ hmem)
    · rintro ⟨rfl, ⟨heach, hdistinct⟩, hids⟩
      rw [List.map_cons, List.nodup_cons] at hdistinct
      obtain ⟨hid, hfreeze⟩ := heach policy List.mem_cons_self
      refine ⟨hid, hids policy List.mem_cons_self, policy, hfreeze, rest,
        ⟨rfl, ⟨fun p hp => heach p (List.mem_cons_of_mem _ hp), hdistinct.2⟩, fun p hp hmem => ?_⟩,
        rfl⟩
      rcases List.mem_cons.mp hmem with heq | hmem
      · exact hdistinct.1 (heq ▸ List.mem_map_of_mem hp)
      · exact hids p (List.mem_cons_of_mem _ hp) hmem

/-- An engine is built of a valid configuration, as it is. -/
theorem new_ok {configuration : RoutingPolicyConfiguration} {engine : RoutingPolicyEngine} :
    RoutingPolicyEngine.new sha256 configuration = .ok engine ↔
      isVersion configuration.version = true ∧ configuration.policies ≠ [] ∧
        Accepted configuration.policies ∧ engine = build sha256 configuration := by
  simp only [RoutingPolicyEngine.new, assertVersion, throwIf, bind_ok, pure_ok, ite_error_ok,
    freezePolicies_ok]
  constructor
  · rintro ⟨_, ⟨hversion, -⟩, _, ⟨hne, -⟩, policies, ⟨rfl, haccepted, -⟩, rfl⟩
    exact ⟨by simpa using hversion, fun hnil => hne (by rw [hnil]; rfl), haccepted, rfl⟩
  · rintro ⟨hversion, hne, haccepted, rfl⟩
    exact ⟨(), ⟨by simpa using hversion, trivial⟩, (),
      ⟨fun h => hne (List.length_eq_zero_iff.mp h), trivial⟩, configuration.policies,
      ⟨rfl, haccepted, by simp⟩, rfl⟩

theorem Accepted.injective {policies : List RoutingPolicy} (h : Accepted policies)
    {p q : RoutingPolicy} (hp : p ∈ policies) (hq : q ∈ policies) (hid : p.policyId = q.policyId) :
    p = q :=
  List.inj_on_of_nodup_map h.distinct hp hq hid

theorem Accepted.comparePolicies {policies : List RoutingPolicy} (h : Accepted policies) :
    ∀ p ∈ policies, ∀ q ∈ policies, Routing.comparePolicies p q = 0 → p = q :=
  fun _ hp _ hq hzero =>
    h.injective hp hq (localeCompare_eq_zero (Comparison.orElse_eq_zero.mp hzero).2)

theorem Accepted.compareIds {policies : List RoutingPolicy} (h : Accepted policies) :
    ∀ p ∈ policies, ∀ q ∈ policies,
      (localeCompare.on fun r : RoutingPolicy => r.policyId) p q = 0 → p = q :=
  fun _ hp _ hq hzero => h.injective hp hq (localeCompare_eq_zero hzero)

/-! ## Reordered configurations -/

/-- The same policies in any order, each with its lists in any order. -/
structure Reordered (c c' : RoutingPolicyConfiguration) : Prop where
  version : c.version = c'.version
  policies : ∃ policies, List.Forall₂ SamePolicy c.policies policies ∧ policies.Perm c'.policies

theorem Accepted.same {l m : List RoutingPolicy} (h : Accepted l)
    (hsame : List.Forall₂ SamePolicy l m) : Accepted m := by
  have hids : l.map (·.policyId) = m.map (·.policyId) := by
    clear h
    induction hsame with
    | nil => rfl
    | cons hp _ ih => rw [List.map_cons, List.map_cons, hp.policyId, ih]
  refine ⟨fun q hq => ?_, hids ▸ h.distinct⟩
  obtain ⟨index, hindex, rfl⟩ := List.getElem_of_mem hq
  have hlt : index < l.length := hsame.length_eq ▸ hindex
  have hpq := hsame.get hlt hindex
  obtain ⟨hid, hfreeze⟩ := h.each l[index] (List.getElem_mem hlt)
  simp only [List.get_eq_getElem] at hpq
  exact ⟨hpq.policyId ▸ hid, hpq.freeze hfreeze⟩

theorem Accepted.perm {l m : List RoutingPolicy} (h : Accepted l) (hperm : l.Perm m) :
    Accepted m :=
  ⟨fun p hp => h.each p (hperm.mem_iff.mpr hp), (hperm.map _).nodup_iff.mp h.distinct⟩

/-- The engines of a configuration and of a reordered one agree on everything. -/
structure SameEngine (e e' : RoutingPolicyEngine) : Prop where
  policies : List.Forall₂ SamePolicy e.policies e'.policies
  policyVersion : e.policyVersion = e'.policyVersion
  policyDigest : e.policyDigest = e'.policyDigest

theorem map_canonicalPolicy_eq_iff {l m : List RoutingPolicy} :
    l.map canonicalPolicy = m.map canonicalPolicy ↔ List.Forall₂ SamePolicy l m := by
  induction l generalizing m with
  | nil => cases m <;> simp
  | cons p l ih =>
    cases m with
    | nil => simp
    | cons q m =>
      rw [List.map_cons, List.map_cons, List.cons.injEq, canonicalPolicy_eq_iff, ih,
        List.forall₂_cons]

theorem sort_samePolicy {l m : List RoutingPolicy} (h : List.Forall₂ SamePolicy l m) :
    List.Forall₂ SamePolicy (Comparison.sort comparePolicies l)
      (Comparison.sort comparePolicies m) := by
  refine Comparison.sort_forall₂ (fun p p' q q' hp hq => ?_) h
  exact comparePolicies_same hp hq

theorem Reordered.sameEngine {c c' : RoutingPolicyConfiguration} (h : Reordered c c')
    (haccepted : Accepted c.policies) : SameEngine (build sha256 c) (build sha256 c') := by
  obtain ⟨hversion, policies, hsame, hperm⟩ := h
  have hpolicies := haccepted.same hsame
  have hsort : Comparison.sort comparePolicies policies =
      Comparison.sort comparePolicies c'.policies :=
    consistent_comparePolicies.sort_eq hperm hpolicies.comparePolicies
  have hengine : List.Forall₂ SamePolicy (Comparison.sort comparePolicies c.policies)
      (Comparison.sort comparePolicies c'.policies) := by
    rw [← hsort]
    exact sort_samePolicy hsame
  refine ⟨hengine, hversion, ?_⟩
  have hids : List.Forall₂ SamePolicy
      (Comparison.sort (localeCompare.on (·.policyId)) (Comparison.sort comparePolicies c.policies))
      (Comparison.sort (localeCompare.on (·.policyId))
        (Comparison.sort comparePolicies c'.policies)) := by
    refine Comparison.sort_forall₂ (fun p p' q q' hp hq => ?_) hengine
    simp only [Comparison.on, hp.policyId, hq.policyId]
  simp only [build, hversion, map_canonicalPolicy_eq_iff.mpr hids]

/-- The digest covers the meaning of the configuration. -/
theorem sameEngine_of_digest (hsha : Function.Injective sha256) {c c' : RoutingPolicyConfiguration}
    (hc : Accepted c.policies) (hc' : Accepted c'.policies)
    (h : (build sha256 c).policyDigest = (build sha256 c').policyDigest) :
    SameEngine (build sha256 c) (build sha256 c') := by
  have hjson := Json.stringify_injective (hsha h)
  simp only [Json.obj.injEq, List.cons.injEq, Prod.mk.injEq, true_and, and_true, Json.str.injEq,
    Json.arr.injEq] at hjson
  obtain ⟨hversion, hpolicies⟩ := hjson
  refine ⟨?_, hversion, h⟩
  have hsame := sort_samePolicy (map_canonicalPolicy_eq_iff.mp hpolicies)
  have hback : ∀ {policies : List RoutingPolicy}, Accepted policies →
      Comparison.sort comparePolicies (Comparison.sort (localeCompare.on (·.policyId))
        (Comparison.sort comparePolicies policies)) = Comparison.sort comparePolicies policies := by
    intro policies hpolicies
    have hperm := (Comparison.sort_perm (localeCompare.on (·.policyId))
      (Comparison.sort comparePolicies policies)).trans
        (Comparison.sort_perm comparePolicies policies)
    exact (consistent_comparePolicies.sort_eq hperm.symm hpolicies.comparePolicies).symm
  rw [hback hc, hback hc'] at hsame
  exact hsame

end

/-! ## The providers in any order -/

/-- The same descriptors in any order. -/
def SameDescriptors (l l' : List ProviderDescriptor) : Prop :=
  ∃ m, List.Forall₂ SameDescriptor l m ∧ m.Perm l'

theorem SameDescriptors.filter {l l' : List ProviderDescriptor} (h : SameDescriptors l l')
    {p q : ProviderDescriptor → Bool} (hpq : ∀ a b, SameDescriptor a b → p a = q b) :
    SameDescriptors (l.filter p) (l'.filter q) := by
  obtain ⟨m, hsame, hperm⟩ := h
  refine ⟨m.filter q, ?_, hperm.filter q⟩
  exact List.rel_filter (fun a b hab => by simp only [hpq a b hab]) hsame

theorem ids_same {l m : List ProviderDescriptor} (h : List.Forall₂ SameDescriptor l m) :
    l.map (·.providerId) = m.map (·.providerId) := by
  induction h with
  | nil => rfl
  | cons hab _ ih => rw [List.map_cons, List.map_cons, hab.providerId, ih]

/-- Sorted by a ranking, the same descriptors have their ids in one order. -/
theorem SameDescriptors.sort_ids {l l' : List ProviderDescriptor} (h : SameDescriptors l l')
    (hdistinct : (l'.map (·.providerId)).Nodup) (ranking : List RankingRule) :
    (Comparison.sort (compareCandidates ranking) l).map (·.providerId) =
      (Comparison.sort (compareCandidates ranking) l').map (·.providerId) := by
  obtain ⟨m, hsame, hperm⟩ := h
  have hsort : Comparison.sort (compareCandidates ranking) m =
      Comparison.sort (compareCandidates ranking) l' := by
    refine (consistent_compareCandidates ranking).sort_eq hperm fun a ha b hb hzero => ?_
    exact List.inj_on_of_nodup_map hdistinct (hperm.mem_iff.mp ha) (hperm.mem_iff.mp hb)
      (compareCandidates_eq_zero hzero)
  rw [← hsort]
  refine ids_same (Comparison.sort_forall₂ (fun a a' b b' ha hb => ?_) hsame)
  exact compareCandidates_same ha hb

theorem SameDescriptors.idsOf {l l' : List ProviderDescriptor} (h : SameDescriptors l l')
    (hdistinct : (l'.map (·.providerId)).Nodup) :
    RoutingPolicyEngine.idsOf l = RoutingPolicyEngine.idsOf l' :=
  h.sort_ids hdistinct []

theorem nodup_filter {l : List ProviderDescriptor} (h : (l.map (·.providerId)).Nodup)
    (p : ProviderDescriptor → Bool) : ((l.filter p).map (·.providerId)).Nodup :=
  h.sublist (List.filter_sublist.map _)

theorem SameRegistry.descriptors {r r' : ProviderRegistrySnapshot} (h : SameRegistry r r')
    {p : RegisteredProviderSnapshot → Bool} (hp : ∀ a b, SameEntry a b → p a = p b) :
    SameDescriptors ((r.providers.filter p).map (·.descriptor))
      ((r'.providers.filter p).map (·.descriptor)) := by
  obtain ⟨-, -, providers, hsame, hperm⟩ := h
  refine ⟨(providers.filter p).map (·.descriptor), ?_, (hperm.filter p).map _⟩
  have hfilter : List.Forall₂ SameEntry (r.providers.filter p) (providers.filter p) :=
    List.rel_filter (fun a b hab => by simp only [hp a b hab]) hsame
  exact List.rel_map (fun a b hab => hab.descriptor) hfilter

theorem SameRegistry.all {r r' : ProviderRegistrySnapshot} (h : SameRegistry r r') :
    SameDescriptors (r.providers.map (·.descriptor)) (r'.providers.map (·.descriptor)) := by
  have hall := h.descriptors (p := fun _ => true) fun _ _ _ => rfl
  simpa only [List.filter_true] using hall

theorem ProviderRegistrySnapshot.nodup (r : ProviderRegistrySnapshot) :
    ((r.providers.map (·.descriptor)).map (·.providerId)).Nodup := by
  rw [List.map_map]
  exact r.distinct

theorem ProviderRegistrySnapshot.nodup_available (r : ProviderRegistrySnapshot)
    (p : RegisteredProviderSnapshot → Bool) :
    (((r.providers.filter p).map (·.descriptor)).map (·.providerId)).Nodup :=
  r.nodup.sublist ((List.filter_sublist.map _).map _)

/-! ## One decision -/

namespace RoutingPolicyEngine

theorem matched_same {e e' : RoutingPolicyEngine} (h : SameEngine e e') (context : RoutingContext) :
    Option.Rel SamePolicy (e.matched context) (e'.matched context) := by
  unfold matched
  generalize e.policies = l, e'.policies = m, h.policies = hpolicies
  induction hpolicies with
  | nil => exact .none
  | @cons p q _ _ hpq _ ih =>
    rw [List.find?_cons, List.find?_cons, hpq.condition.matchesPredicate]
    cases matchesPredicate q.condition context with
    | true => exact .some hpq
    | false => exact ih

theorem candidates_same {p q : RoutingPolicy} (h : SamePolicy p q)
    {r r' : ProviderRegistrySnapshot} (hr : SameRegistry r r') (context : RoutingContext) :
    (candidates p context r).map (·.providerId) = (candidates q context r').map (·.providerId) := by
  have havailable := hr.descriptors (p := fun entry => entry.availability = .available)
    fun a b hab => by rw [hab.availability]
  have heligible := havailable.filter (p := fun d => eligible d context p.eligibility)
    (q := fun d => eligible d context q.eligibility)
    fun a b hab => eligible_same hab h.eligibility context
  unfold candidates
  rw [h.ranking]
  exact heligible.sort_ids (nodup_filter (r'.nodup_available _) _) q.ranking

variable {sha256 : List Char → String}

theorem compositeConfigurationDigest_same {e e' : RoutingPolicyEngine} (h : SameEngine e e')
    {r r' : ProviderRegistrySnapshot} (hr : SameRegistry r r') :
    e.compositeConfigurationDigest sha256 r = e'.compositeConfigurationDigest sha256 r' := by
  unfold compositeConfigurationDigest
  rw [h.policyDigest, hr.configurationDigest]

/-- Engines of one meaning select alike. -/
theorem select_same {e e' : RoutingPolicyEngine} (h : SameEngine e e')
    {r r' : ProviderRegistrySnapshot} (hr : SameRegistry r r') (context : RoutingContext) :
    e.select sha256 context r = e'.select sha256 context r' := by
  have hmatched := matched_same h context
  unfold select
  rw [compositeConfigurationDigest_same h hr]
  cases hp : e.matched context with
  | none =>
    cases hq : e'.matched context with
    | none => simp only [decision, h.policyVersion, h.policyDigest, hr.version,
        hr.configurationDigest]
    | some q =>
      rw [hp, hq] at hmatched
      cases hmatched
  | some p =>
    cases hq : e'.matched context with
    | none =>
      rw [hp, hq] at hmatched
      cases hmatched
    | some q =>
      rw [hp, hq] at hmatched
      cases hmatched with
      | some hpq =>
        simp only [candidates_same hpq hr, decision, hpq.policyId, h.policyVersion, h.policyDigest,
          hr.version, hr.configurationDigest]

/-- Engines of one meaning find the same providers eligible. -/
theorem staticEligibility_same {e e' : RoutingPolicyEngine} (h : SameEngine e e')
    {r r' : ProviderRegistrySnapshot} (hr : SameRegistry r r') (context : RoutingContext) :
    e.staticEligibility sha256 context r = e'.staticEligibility sha256 context r' := by
  have hmatched := matched_same h context
  unfold staticEligibility
  rw [compositeConfigurationDigest_same h hr]
  cases hp : e.matched context with
  | none =>
    cases hq : e'.matched context with
    | none => simp only [h.policyVersion, h.policyDigest, hr.version, hr.configurationDigest]
    | some q =>
      rw [hp, hq] at hmatched
      cases hmatched
  | some p =>
    cases hq : e'.matched context with
    | none =>
      rw [hp, hq] at hmatched
      cases hmatched
    | some q =>
      rw [hp, hq] at hmatched
      cases hmatched with
      | some hpq =>
        have hlocality : ∀ (locality : ExecutionLocality) a b, SameDescriptor a b →
            decide (a.capabilities.executionLocality = locality) =
              decide (b.capabilities.executionLocality = locality) := by
          intro locality a b hab
          have heq := congrArg ProviderCapabilities.executionLocality hab.capabilities
          simp only at heq
          rw [heq]
        have heligible := hr.all.filter (p := fun d => eligible d context p.eligibility)
          (q := fun d => eligible d context q.eligibility)
          fun a b hab => eligible_same hab hpq.eligibility context
        have hnetwork := hr.all.filter (hlocality .network)
        have hcompatible := hnetwork.filter
          (p := fun d => policyCompatible d context p.eligibility)
          (q := fun d => policyCompatible d context q.eligibility)
          fun a b hab => policyCompatible_same hab hpq.eligibility context
        have heligibleNodup := nodup_filter r'.nodup fun d => eligible d context q.eligibility
        simp only [h.policyVersion, h.policyDigest, hr.version, hr.configurationDigest,
          hpq.policyId, hpq.eligibility.executionLocality, hnetwork.idsOf (nodup_filter r'.nodup _),
          hcompatible.idsOf (nodup_filter (nodup_filter r'.nodup _) _),
          heligible.idsOf heligibleNodup,
          (heligible.filter (hlocality .network)).idsOf (nodup_filter heligibleNodup _),
          (heligible.filter (hlocality .local)).idsOf (nodup_filter heligibleNodup _)]

/-! ## What is selected -/

theorem mem_candidates {policy : RoutingPolicy} {context : RoutingContext}
    {registry : ProviderRegistrySnapshot} {d : ProviderDescriptor} :
    d ∈ candidates policy context registry ↔
      (∃ entry ∈ registry.providers, entry.availability = .available ∧ entry.descriptor = d) ∧
        eligible d context policy.eligibility = true := by
  simp only [candidates, Comparison.mem_sort, List.mem_filter, List.mem_map, decide_eq_true_eq,
    and_assoc]

theorem mem_idsOf {l : List ProviderDescriptor} {id : String} :
    id ∈ idsOf l ↔ ∃ d ∈ l, d.providerId = id := by
  simp only [idsOf, List.mem_map, Comparison.mem_sort]

variable {engine : RoutingPolicyEngine} {context : RoutingContext}
  {registry : ProviderRegistrySnapshot}

variable (sha256 registry)

theorem select_none (hcontext : validateContext context = .ok ())
    (hmatched : engine.matched context = none) :
    ∃ decision, engine.select sha256 context registry = .ok decision ∧
      decision.selectedProviderId = none ∧ decision.reasonCode = .policyNotMatched := by
  refine ⟨engine.decision none [] none .policyNotMatched registry
    (engine.compositeConfigurationDigest sha256 registry), ?_, rfl, rfl⟩
  unfold select
  rw [hcontext, hmatched]
  rfl

theorem select_some (hcontext : validateContext context = .ok ()) {policy : RoutingPolicy}
    (hmatched : engine.matched context = some policy) :
    ∃ decision, engine.select sha256 context registry = .ok decision ∧
      decision.selectedProviderId =
        (candidates policy context registry).head?.map (·.providerId) ∧
      (decision.reasonCode = .noEligibleProvider ↔ candidates policy context registry = []) := by
  unfold select
  rw [hcontext, hmatched]
  cases hcandidates : candidates policy context registry with
  | nil =>
    refine ⟨_, by simp only [hcandidates]; rfl, rfl, ?_⟩
    simp only [decision]
  | cons first others =>
    refine ⟨_, by simp only [hcandidates]; rfl, rfl, ?_⟩
    simp [decision]

theorem staticEligibility_none (hcontext : validateContext context = .ok ())
    (hmatched : engine.matched context = none) :
    ∃ static, engine.staticEligibility sha256 context registry = .ok static ∧
      static.eligibleProviderIds = [] := by
  unfold staticEligibility
  rw [hcontext, hmatched]
  exact ⟨_, rfl, rfl⟩

theorem staticEligibility_some (hcontext : validateContext context = .ok ())
    {policy : RoutingPolicy} (hmatched : engine.matched context = some policy) :
    ∃ static, engine.staticEligibility sha256 context registry = .ok static ∧
      static.eligibleProviderIds = idsOf ((registry.providers.map (·.descriptor)).filter
        fun d => eligible d context policy.eligibility) := by
  unfold staticEligibility
  rw [hcontext, hmatched]
  exact ⟨_, rfl, rfl⟩

variable {sha256 registry}

/-- The id of a provider is listed when the provider is eligible. -/
theorem mem_eligibleProviderIds {policy : RoutingPolicy} {entry : RegisteredProviderSnapshot}
    (hentry : entry ∈ registry.providers) :
    entry.descriptor.providerId ∈ idsOf ((registry.providers.map (·.descriptor)).filter
        fun d => eligible d context policy.eligibility) ↔
      eligible entry.descriptor context policy.eligibility = true := by
  have hmem : entry.descriptor ∈ registry.providers.map (·.descriptor) :=
    List.mem_map_of_mem hentry
  rw [mem_idsOf]
  constructor
  · rintro ⟨d, hd, hid⟩
    obtain ⟨hd, heligible⟩ := List.mem_filter.mp hd
    rwa [List.inj_on_of_nodup_map registry.nodup hd hmem hid] at heligible
  · intro heligible
    exact ⟨entry.descriptor, List.mem_filter.mpr ⟨hmem, heligible⟩, rfl⟩

/-- What a decision on a valid context says. -/
structure Sound (engine : RoutingPolicyEngine) (context : RoutingContext)
    (registry : ProviderRegistrySnapshot) (decision : ProviderSelectionDecision)
    (static : StaticEligibilityProjection) : Prop where
  selected : ∀ id, decision.selectedProviderId = some id →
    ∃ policy, engine.matched context = some policy ∧
      ∃ entry ∈ registry.providers, entry.descriptor.providerId = id ∧
        entry.availability = .available ∧ id ∈ static.eligibleProviderIds ∧
        ∀ other ∈ registry.providers, other.availability = .available →
          other.descriptor.providerId ∈ static.eligibleProviderIds →
          ¬ compareCandidates policy.ranking other.descriptor entry.descriptor < 0
  noEligibleProvider : decision.reasonCode = .noEligibleProvider ↔
    ∃ policy, engine.matched context = some policy ∧
      ∀ entry ∈ registry.providers, entry.availability = .available →
        entry.descriptor.providerId ∉ static.eligibleProviderIds

theorem select_sound (hcontext : validateContext context = .ok ()) :
    ∃ decision static, engine.select sha256 context registry = .ok decision ∧
      engine.staticEligibility sha256 context registry = .ok static ∧
      Sound engine context registry decision static := by
  cases hmatched : engine.matched context with
  | none =>
    obtain ⟨decision, hdecision, hselected, hreason⟩ :=
      select_none sha256 registry hcontext hmatched
    obtain ⟨static, hstatic, -⟩ :=
      staticEligibility_none sha256 registry hcontext hmatched
    refine ⟨decision, static, hdecision, hstatic, ?_, ?_⟩
    · intro id hid
      rw [hselected] at hid
      cases hid
    · rw [hreason, hmatched]
      constructor
      · intro h
        cases h
      · rintro ⟨policy, hpolicy, -⟩
        cases hpolicy
  | some policy =>
    obtain ⟨decision, hdecision, hselected, hreason⟩ :=
      select_some sha256 registry hcontext hmatched
    obtain ⟨static, hstatic, hids⟩ :=
      staticEligibility_some sha256 registry hcontext hmatched
    refine ⟨decision, static, hdecision, hstatic, ?_, ?_⟩
    · intro id hid
      cases hcandidates : candidates policy context registry with
      | nil =>
        rw [hselected, hcandidates] at hid
        cases hid
      | cons first others =>
        rw [hselected, hcandidates] at hid
        obtain rfl := Option.some.inj hid
        have hfirst : first ∈ candidates policy context registry := by
          rw [hcandidates]
          exact List.mem_cons_self
        obtain ⟨⟨entry, hentry, havailable, rfl⟩, heligible⟩ := mem_candidates.mp hfirst
        refine ⟨policy, hmatched, entry, hentry, rfl, havailable, ?_, ?_⟩
        · rw [hids]
          exact (mem_eligibleProviderIds hentry).mpr heligible
        · intro other hother havailable' hlisted
          rw [hids] at hlisted
          have hmem : other.descriptor ∈ candidates policy context registry :=
            mem_candidates.mpr ⟨⟨other, hother, havailable', rfl⟩,
              (mem_eligibleProviderIds hother).mp hlisted⟩
          have hconsistent := consistent_compareCandidates policy.ranking
          unfold candidates at hcandidates hmem
          have hle := hconsistent.head_le hcandidates (Comparison.mem_sort.mp hmem)
          have hswap := hconsistent.swap other.descriptor entry.descriptor
          omega
    · rw [hreason, List.eq_nil_iff_forall_not_mem]
      constructor
      · intro hnone
        refine ⟨policy, hmatched, fun entry hentry havailable hlisted => ?_⟩
        rw [hids, mem_eligibleProviderIds hentry] at hlisted
        exact hnone _ (mem_candidates.mpr ⟨⟨entry, hentry, havailable, rfl⟩, hlisted⟩)
      · rintro ⟨policy', hmatched', hnone⟩ d hd
        obtain ⟨⟨entry, hentry, havailable, rfl⟩, heligible⟩ := mem_candidates.mp hd
        refine hnone entry hentry havailable ?_
        rw [hids]
        exact (mem_eligibleProviderIds hentry).mpr heligible

end RoutingPolicyEngine

section

variable {sha256 : List Char → String}

/-- The decisions of an engine depend on what its configuration and the registry mean: they are
those of any reordering, and those of any engine of the same digest. -/
theorem selection_of_meaning (hsha : Function.Injective sha256)
    {configuration : RoutingPolicyConfiguration} {engine : RoutingPolicyEngine}
    (hnew : RoutingPolicyEngine.new sha256 configuration = .ok engine) :
    (∀ configuration', Reordered configuration configuration' →
      ∃ engine', RoutingPolicyEngine.new sha256 configuration' = .ok engine' ∧
        engine.policyDigest = engine'.policyDigest ∧
        ∀ context registry registry', SameRegistry registry registry' →
          engine.select sha256 context registry = engine'.select sha256 context registry' ∧
          engine.staticEligibility sha256 context registry =
            engine'.staticEligibility sha256 context registry') ∧
    (∀ configuration' engine', RoutingPolicyEngine.new sha256 configuration' = .ok engine' →
      engine.policyDigest = engine'.policyDigest →
      ∀ context registry,
        engine.select sha256 context registry = engine'.select sha256 context registry ∧
        engine.staticEligibility sha256 context registry =
          engine'.staticEligibility sha256 context registry) ∧
    ∀ context registry, isRoutingIdentifier context.validationProfile = true →
      ∃ decision static, engine.select sha256 context registry = .ok decision ∧
        engine.staticEligibility sha256 context registry = .ok static ∧
        RoutingPolicyEngine.Sound engine context registry decision static := by
  obtain ⟨hversion, hne, haccepted, rfl⟩ := new_ok.mp hnew
  refine ⟨?_, ?_, ?_⟩
  · intro configuration' hreordered
    have hsame : SameEngine (build sha256 configuration) (build sha256 configuration') :=
      hreordered.sameEngine haccepted
    have hnew' : RoutingPolicyEngine.new sha256 configuration' =
        .ok (build sha256 configuration') := by
      obtain ⟨hversions, policies, hpolicies, hperm⟩ := hreordered
      refine new_ok.mpr ⟨hversions ▸ hversion, fun hnil => hne ?_,
        (haccepted.same hpolicies).perm hperm, rfl⟩
      rw [hnil] at hperm
      have hlength := hpolicies.length_eq
      rw [List.perm_nil.mp hperm] at hlength
      exact List.length_eq_zero_iff.mp hlength
    refine ⟨_, hnew', hsame.policyDigest, fun context registry registry' hregistry => ?_⟩
    exact ⟨RoutingPolicyEngine.select_same hsame hregistry context,
      RoutingPolicyEngine.staticEligibility_same hsame hregistry context⟩
  · intro configuration' engine' hnew' hdigest context registry
    obtain ⟨-, -, haccepted', rfl⟩ := new_ok.mp hnew'
    have hsame := sameEngine_of_digest hsha haccepted haccepted' hdigest
    exact ⟨RoutingPolicyEngine.select_same hsame (.refl registry) context,
      RoutingPolicyEngine.staticEligibility_same hsame (.refl registry) context⟩
  · intro context registry hcontext
    refine RoutingPolicyEngine.select_sound ?_
    simp only [validateContext, hcontext, Bool.not_true, Bool.false_eq_true, if_false]

end

/-! ## A configuration of one policy -/

def anyContext : RoutingPredicate where
  capabilities := some [.generalChat, .summarization]
  requestTypes := none
  intentTypes := none
  semanticRisks := none
  latencyClasses := none
  toolUseRequirements := none
  authorityRequirements := none
  continuityRequirements := none
  outputSizes := none
  validationProfiles := none

def anyProvider : EligibilityRule where
  requiredRoutingClasses := none
  excludedRoutingClasses := none
  minimumSemanticReliability := none
  minimumAuthorityReliability := none
  minimumContinuityReliability := none
  requiresToolUse := none
  requiresStructuredOutput := none
  minimumContextCapacity := none
  executionLocality := none

/-- One policy that ranks the providers by a class preference. -/
def preferring (preference : List RoutingClass) : RoutingPolicyConfiguration where
  version := "1"
  policies := [{
    policyId := "chat"
    version := "1"
    precedence := 10
    condition := anyContext
    eligibility := anyProvider
    ranking := [{
      dimension := .routingClass
      direction := .ascending
      routingClassPreference := some preference }]
    terminal := .noSelection }]

def provider (providerId : String) (routingClass : RoutingClass) : RegisteredProviderSnapshot where
  descriptor := {
    providerId
    capabilities := {
      supportedCapabilities := [.generalChat]
      routingClasses := [routingClass]
      semanticReliability := .standard
      authorityReliability := .standard
      continuityReliability := .standard
      toolUse := .supported
      structuredOutput := .supported
      contextCapacity := .large
      executionLocality := .network }
    operationalProfile := { latencyTier := .fast, costTier := .low }
    enabled := true }
  availability := .available

def twoProviders : ProviderRegistrySnapshot where
  version := "1"
  configurationDigest := "digest"
  providers := [provider "first" .balanced, provider "second" .semanticHigh]
  distinct := by decide

def chatContext : RoutingContext where
  capability := .generalChat
  requestType := .conversational
  intentType := .chat
  semanticRisk := .low
  latencyClass := .interactive
  toolUseRequirement := .notRequired
  authorityRequirement := .notRequired
  continuityRequirement := .notRequired
  expectedOutputSize := .small
  validationProfile := "default"

theorem preferring_accepted {preference : List RoutingClass}
    (h : preference = [.balanced, .semanticHigh] ∨ preference = [.semanticHigh, .balanced])
    (sha256 : List Char → String) :
    RoutingPolicyEngine.new sha256 (preferring preference) =
      .ok (build sha256 (preferring preference)) := by
  rcases h with rfl | rfl <;> rfl

/-- The decision on a chat is sound. -/
theorem selection_of_meaning_preferring :
    ∃ decision static,
      (build String.ofList (preferring [.balanced, .semanticHigh])).select String.ofList chatContext
        twoProviders = .ok decision ∧
      (build String.ofList (preferring [.balanced, .semanticHigh])).staticEligibility String.ofList
        chatContext twoProviders = .ok static ∧
      RoutingPolicyEngine.Sound (build String.ofList (preferring [.balanced, .semanticHigh]))
        chatContext twoProviders decision static :=
  (selection_of_meaning (fun _ _ h => String.ofList_injective h)
    (preferring_accepted (.inl rfl) String.ofList)).2.2 chatContext twoProviders (by decide)

/-- A class preference is a list of an enumeration whose order matters: reordered, another provider
is selected. -/
theorem preference_order_matters :
    ([.balanced, .semanticHigh] : List RoutingClass).Perm [.semanticHigh, .balanced] ∧
    RoutingPolicyEngine.new String.ofList (preferring [.balanced, .semanticHigh]) =
      .ok (build String.ofList (preferring [.balanced, .semanticHigh])) ∧
    RoutingPolicyEngine.new String.ofList (preferring [.semanticHigh, .balanced]) =
      .ok (build String.ofList (preferring [.semanticHigh, .balanced])) ∧
    ((build String.ofList (preferring [.balanced, .semanticHigh])).select String.ofList chatContext
      twoProviders).map (·.selectedProviderId) = .ok (some "first") ∧
    ((build String.ofList (preferring [.semanticHigh, .balanced])).select String.ofList chatContext
      twoProviders).map (·.selectedProviderId) = .ok (some "second") := by
  refine ⟨by decide, preferring_accepted (.inl rfl) _, preferring_accepted (.inr rfl) _, ?_, ?_⟩
  · decide +kernel
  · decide +kernel

end QuokyPlatform.Routing
