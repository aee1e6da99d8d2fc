import QuokyPlatform.Gateway.Turn

/-! # Every execution is bounded, and its report is true -/

namespace QuokyPlatform.Gateway

open Routing Script

set_option autoImplicit false
set_option maxHeartbeats 250000

section

variable {world : World} {plan : ProviderExecutionPlan} {request : AiRequest}
  {validationFacts : Option ProviderRoutingValidationFacts}
  {profile : ValidationProfileDefinition} {budget : DeadlineBounds}
  {run : Run} {target : ProviderExecutionTarget} {before : List Call} {call : Call}

/-! ## The loop -/

/-- One turn of the loop. -/
theorem Ready.lands_turn (hshape : Shaped plan request) (hpassed : Passed world plan profile budget)
    (h : Ready world plan request validationFacts profile budget target run) :
    Lands (turn world plan request validationFacts (deadlineAt world budget) budget profile target)
      run (TurnEnds world plan request validationFacts profile budget run.attempts.length) := by
  have hminimum : 0 < budget.minimumAttemptBudgetMs := by
    obtain ⟨deadline, -, hbounds⟩ := Option.bind_eq_some_iff.mp hpassed.bounds
    exact (bounds_pos hbounds).2.2
  have hready : Ready world plan request validationFacts profile budget target
      { run with finalTarget := some target } :=
    ⟨⟨h.recounted.admitted, h.recounted.told, h.recounted.numbered, h.recounted.traced⟩, h.awaits,
      h.state, h.path⟩
  have hlength : run.attempts.length = run.calls.length := h.recounted.told.length_eq.symm
  unfold turn
  rw [lands_bind, lands_modify, andThen_ok, lands_bind]
  refine (lands_runAttempt hshape hminimum hready).mono fun ended next hnext => ?_
  match ended, hnext with
  | .ok (.inr result), hreported => exact ⟨target, hreported⟩
  | .ok (.inl attempt), ⟨call, hanswered⟩ =>
    have hanswer := hanswered.answer
    rw [andThen_ok, hlength]
    dsimp only
    cases hcall : call.answer with
    | error error =>
      rw [hcall] at hanswer
      obtain ⟨hresponse, hstate⟩ := hanswer
      rw [hresponse]
      have hattempts : next.attempts = run.attempts := by rw [hanswered.kept]
      refine (hready.heard rfl hanswered ?_ (by rw [hattempts]; rfl)).lands_afterFailure hshape hcall
        hstate
      unfold Told
      rw [hcall, hanswered.called, hanswered.told, hresponse]
      rfl
    | ok result =>
      rw [hcall] at hanswer
      obtain ⟨hresponse, hstate⟩ := hanswer
      rw [hresponse]
      exact hready.lands_afterResponse hshape hpassed rfl hanswered hcall hresponse hstate

theorem Awaits.length_lt
    (h : Awaits world plan request validationFacts profile before target) :
    before.length < MAX_PROVIDER_ATTEMPTS := by
  cases h with
  | first => decide
  | hop first target hfirst hhop =>
    show 1 < 2
    decide

/-- The loop ends before its fuel does: there are no more than two attempts. -/
theorem Ready.lands_attemptLoop (hshape : Shaped plan request)
    (hpassed : Passed world plan profile budget) (fuel : ℕ)
    (h : Ready world plan request validationFacts profile budget target run)
    (hfuel : MAX_PROVIDER_ATTEMPTS ≤ fuel + run.attempts.length) :
    Lands (attemptLoop world plan request validationFacts (deadlineAt world budget) budget profile fuel
        target) run
      (returns fun result next => ∃ target,
        Reported world plan request validationFacts profile budget target result next) := by
  induction fuel generalizing run target with
  | zero =>
    have hlength := h.awaits.length_lt
    rw [h.recounted.told.length_eq] at hlength
    omega
  | succ fuel ih =>
    have hlength := h.awaits.length_lt
    rw [h.recounted.told.length_eq] at hlength
    unfold attemptLoop
    rw [lands_bind, lands_get, andThen_ok, if_pos hlength, lands_bind]
    refine (h.lands_turn hshape hpassed).mono fun ended next hnext => ?_
    match ended, hnext with
    | .ok (.done result), hreported => exact hreported
    | .ok (.again target), ⟨hready, hattempts⟩ => exact ih hready (by omega)

/-- A run that was refused before it began. -/
def Refused (world : World) (plan : ProviderExecutionPlan) (result : ProviderGatewayResult)
    (run : Run) : Prop :=
  ∃ failureCode, Ended world plan .configurationFailed (some failureCode) none Run.start result run

theorem lands_execute (h : validatePlanShape world.sha256 plan request = none) :
    Lands (execute world plan request validationFacts) Run.start
      (returns fun result run => Refused world plan result run ∨
        ∃ profile budget target, Passed world plan profile budget ∧
          Reported world plan request validationFacts profile budget target result run) := by
  have hshape := shaped_of_validatePlanShape h
  have hrefuse : ∀ failureCode, Lands
      (finish world plan .configurationFailed (some failureCode) none) Run.start
      (returns fun result run => Refused world plan result run ∨
        ∃ profile budget target, Passed world plan profile budget ∧
          Reported world plan request validationFacts profile budget target result run) :=
    fun failureCode => lands_finish RoutingExecutionStateMachine.new_traced _ _ _
      fun result run hended => .inl ⟨failureCode, hended⟩
  unfold execute
  rw [lands_bind, lands_get, andThen_ok, h]
  dsimp only
  split_ifs with hregistry
  · exact hrefuse _
  cases hprofile : world.profiles.resolve plan.validationProfile with
  | error message => exact hrefuse _
  | ok profile =>
    dsimp only
    split_ifs with hprofileVersion
    · exact hrefuse _
    cases hbindings : plan.targets.findSome? (bindingFailure (world.bindings Run.start.reads)) with
    | some failure => exact hrefuse _
    | none =>
      cases hbudget : (world.deadlinePolicy.resolve plan.deadlineClass).bind DeadlineBudget.bounds with
      | none => exact hrefuse _
      | some budget =>
        simp only [not_or, Bool.not_eq_true', Bool.not_eq_false, ne_eq, not_not] at hregistry
        simp only [not_or, ne_eq, not_not] at hprofileVersion
        have hpassed : Passed world plan profile budget :=
          { policyVersion := hregistry.1
            registryVersion := hregistry.2.1
            registryDigest := hregistry.2.2
            resolved := hprofile
            profileVersion := hprofileVersion.1
            profileDigest := hprofileVersion.2
            bindings := List.findSome?_eq_none_iff.mp hbindings
            bounds := hbudget }
        dsimp only
        rw [lands_bind, lands_nowMs, andThen_ok, lands_bind]
        have hnew : ({ Run.start with reads := 1 } : Run).machine.Traced :=
          RoutingExecutionStateMachine.new_traced
        refine lands_transition hnew (by decide) _ fun machine htraced hstate => ?_
        have hready : Ready world plan request validationFacts profile budget plan.primary
            { Run.start with reads := 1, machine } := by
          refine ⟨⟨fun call hcall => ?_, .nil, rfl, htraced⟩, .first, ?_, ?_⟩
          · cases hcall
          · rw [hshape.primary]
            exact hstate
          · rw [hshape.primary]
            rfl
        rw [andThen_ok]
        refine (hready.lands_attemptLoop hshape hpassed _ (show 2 ≤ 3 + 0 by decide)).mono fun ended run hrun => ?_
        cases ended with
        | error error => exact hrun
        | ok result =>
          obtain ⟨target, hreported⟩ := hrun
          exact .inr ⟨profile, budget, target, hpassed, hreported⟩

/-! ## The calls of a run -/

theorem Awaits.primary_first (h : Awaits world plan request validationFacts profile before target) :
    ∀ call ∈ before, call.target = plan.primary := by
  intro call hcall
  cases h with
  | first => cases hcall
  | hop first target hfirst hhop =>
    rw [List.mem_singleton.mp hcall]
    exact hfirst

/-- A target that is awaited is not the one of a call before it. -/
theorem Awaits.distinct (hshape : Shaped plan request)
    (h : Awaits world plan request validationFacts profile before target) :
    ∀ call ∈ before, call.target.providerId ≠ target.providerId := by
  intro call hcall
  rw [h.primary_first call hcall]
  cases h with
  | first => cases hcall
  | hop first target hfirst hhop =>
    cases hhop with
    | fallback code policy htarget => exact (hshape.fallback target htarget).2.symm
    | escalation result code policy htarget => exact (hshape.escalation target htarget).2.symm

theorem Awaits.nodup (h : Awaits world plan request validationFacts profile before target) :
    (before.map (·.target.providerId)).Nodup := by
  cases h with
  | first => exact List.nodup_nil
  | hop first target hfirst hhop => exact List.nodup_singleton _

/-- No more calls than attempts are allowed, none to the same provider, the first to the primary, and
the second after a hop. -/
theorem Reached.calls_of (hshape : Shaped plan request)
    (h : Reached world plan request validationFacts profile budget target run) :
    run.calls.length ≤ MAX_PROVIDER_ATTEMPTS ∧ (run.calls.map (·.binding.provider)).Nodup ∧
      (∀ call, run.calls.head? = some call → call.target = plan.primary) ∧
      ∀ first second, run.calls = [first, second] →
        Hop world plan request validationFacts profile first second.target := by
  have hids : run.calls.map (·.binding.provider) = run.calls.map (·.target.providerId) :=
    List.map_congr_left fun call hcall => (h.recounted.admitted call hcall).provider
  rw [hids]
  rcases h.calls with hawaits | ⟨before, call, hcalls, hcalled, hawaits⟩
  · refine ⟨hawaits.length_lt.le, hawaits.nodup, fun call hcall => ?_, fun first second htwo => ?_⟩
    · exact hawaits.primary_first call (List.mem_of_head? hcall)
    · have hlength := hawaits.length_lt
      rw [htwo] at hlength
      exact absurd hlength (Nat.lt_irrefl 2)
  · rw [hcalls, List.length_append, List.map_append]
    refine ⟨hawaits.length_lt, ?_, fun first hfirst => ?_, fun first second htwo => ?_⟩
    · refine List.nodup_append.mpr ⟨hawaits.nodup, List.nodup_singleton _, ?_⟩
      intro id hid other hother
      obtain ⟨earlier, hearlier, rfl⟩ := List.mem_map.mp hid
      rw [List.map_singleton, List.mem_singleton] at hother
      rw [hother]
      show earlier.target.providerId ≠ call.target.providerId
      rw [hcalled]
      exact hawaits.distinct hshape earlier hearlier
    · cases hawaits with
      | first =>
        cases hfirst
        exact hcalled
      | hop earlier target hearlier hhop =>
        cases hfirst
        exact hearlier
    · cases hawaits with
      | first => cases htwo
      | hop earlier target hearlier hhop =>
        cases htwo
        rw [hcalled]
        exact hhop

/-- A plan with a fallback, over one profile, with the primary failing and the fallback answering. -/
def fallbackPlan : ProviderExecutionPlan :=
  let binding (id : String) : ProviderBindingIdentity := ⟨id, "v1", noDigest⟩
  { registryConfigurationDigest := noDigest
    policyConfigurationDigest := noDigest
    validationProfileConfigurationDigest := noDigest
    failureMatrixVersion := ROUTING_FAILURE_MATRIX_VERSION
    maxAttempts := MAX_PROVIDER_ATTEMPTS
    maxAdditionalHops := MAX_ADDITIONAL_PROVIDER_HOPS
    deadlineClass := .interactive
    capability := .generalChat
    validationProfile := "chat"
    matchedPolicyId := "policy"
    primary := ⟨.primary, "first", binding "first"⟩
    operationalFallback := some ⟨.fallback, "second", binding "second"⟩
    semanticEscalation := none
    validationProfileVersion := "v1"
    decisionId := noDigest
    executionId := "execution"
    executionConfigurationDigest := noDigest
    planDigest := noDigest
    policyVersion := "v1"
    registryVersion := "v1"
    configurationDigest := noDigest }

def fallbackWorld : World :=
  let binding (id : String) : ValidatedExecutableProviderBinding := ⟨id, ⟨id, "v1", noDigest⟩, id⟩
  { clock := fun reading => reading
    bindings := fun _ => ⟨"v1", noDigest, [binding "first", binding "second"]⟩
    profiles := [⟨"chat", "v1", [.nonEmpty, .outputLimit], 1000, false, noDigest⟩]
    deadlinePolicy :=
      ⟨"v1", fun _ => some ⟨.finite 15000, .finite 250, .finite 50⟩⟩
    answer := fun call =>
      if call = 0 then .error (.aiProviderError (some .timeout)) else .ok (.readable ⟨"answer", []⟩)
    sha256 := fun _ => noDigest
    check := fun _ _ output => some output.text.isEmpty }

def chatRequest : AiRequest := ⟨.generalChat, "question", none, none⟩

theorem isSha256_noDigest : isSha256 noDigest = true := by
  decide +kernel

theorem validatePlanShape_fallbackPlan :
    validatePlanShape fallbackWorld.sha256 fallbackPlan chatRequest = none := by
  have hpolicy : isRoutingIdentifier "policy" = true := by decide +kernel
  have hchat : isRoutingIdentifier "chat" = true := by decide +kernel
  have hexecution : isRoutingIdentifier "execution" = true := by decide +kernel
  have hfirst : isRoutingIdentifier "first" = true := by decide +kernel
  have hsecond : isRoutingIdentifier "second" = true := by decide +kernel
  have hversion : isVersion "v1" = true := by decide +kernel
  simp [validatePlanShape, fallbackPlan, fallbackWorld, chatRequest, isSha256_noDigest, hpolicy, hchat,
    hexecution, hfirst, hsecond, hversion, combinedRoutingConfigurationDigest,
    computeProviderExecutionConfigurationDigest, computeProviderExecutionPlanDigest,
    ProviderExecutionPlan.targets, ProviderExecutionTarget.wellFormed]

/-- There the fallback is called, and its answer is the output. -/
example : ((execute fallbackWorld fallbackPlan chatRequest none).runFrom Run.start).2.calls.map
    (·.binding.provider) = ["first", "second"] := by
  rw [execute, validatePlanShape_fallbackPlan]
  decide +kernel

end

end QuokyPlatform.Gateway
