import QuokyPlatform.Gateway.Report

/-! # A turn of the loop

Where each part of a turn lands: the transitions and the end of a run, an attempt, and what follows
its answer. -/

namespace QuokyPlatform.Gateway

open Routing Script

set_option autoImplicit false
set_option maxHeartbeats 250000

/-! ## The parts of a turn -/

section

variable {world : World} {plan : ProviderExecutionPlan} {request : AiRequest}
  {validationFacts : Option ProviderRoutingValidationFacts}
  {profile : ValidationProfileDefinition} {budget : DeadlineBounds}
  {α : Type} {run : Run}

theorem lands_orThrow {x : Except String α} {a : α} (h : x = .ok a) {Q : Except Thrown α → Run → Prop} :
    Lands (orThrow x) run Q ↔ Q (.ok a) run := by
  rw [h]
  exact lands_pure

theorem lands_nowMs {Q : Except Thrown ℚ → Run → Prop} :
    Lands (nowMs world) run Q ↔ Q (.ok (world.clock run.reads)) { run with reads := run.reads + 1 } :=
  Iff.rfl

theorem lands_transition (h : run.machine.Traced) {target : RoutingExecutionState}
    (htarget : target ∈ ALLOWED run.machine.state) (cause : String)
    {Q : Except Thrown Unit → Run → Prop}
    (hQ : ∀ machine : RoutingExecutionStateMachine, machine.Traced → machine.state = target →
      Q (.ok ()) { run with machine }) :
    Lands (transition target cause) run Q := by
  obtain ⟨machine, hmachine, hstate, htraced⟩ := h.transition htarget cause
  unfold transition
  rw [lands_bind, lands_get]
  show Lands (_ >>= _) run Q
  rw [lands_bind, lands_orThrow hmachine]
  exact hQ machine htraced hstate

theorem terminal_allowed {state : RoutingExecutionState} (h : state ≠ .terminal) :
    RoutingExecutionState.terminal ∈ ALLOWED state := by
  cases state <;> first | exact absurd rfl h | decide

/-- Every execution can be finished where it is. -/
theorem lands_finish (h : run.machine.Traced) (status : ProviderGatewayTerminalStatus)
    (failureCode : Option ProviderGatewayFailureCode) (output : Option BoundedProviderOutput)
    {Q : Except Thrown ProviderGatewayResult → Run → Prop}
    (hQ : ∀ result next, Ended world plan status failureCode output run result next →
      Q (.ok result) next) :
    Lands (finish world plan status failureCode output) run Q := by
  have hrest : ∀ next : Run, next = { run with machine := next.machine } → next.machine.Traced →
      next.machine.state = .terminal →
      Lands (do
        let audit := auditOf world plan status failureCode output (← get)
        let humanReviewRequired ← if status = .humanReviewRequired then pure true
          else orThrow (humanReviewCandidate failureCode)
        return ⟨status, failureCode, humanReviewRequired, output, audit⟩) next Q := by
    intro next hnext htraced hstate
    have hend : ∀ humanReviewRequired, Ended world plan status failureCode output run
        ⟨status, failureCode, humanReviewRequired, output,
          auditOf world plan status failureCode output next⟩ next :=
      fun _ => ⟨hnext, htraced, hstate, rfl, rfl, rfl, rfl⟩
    obtain ⟨candidate, hcandidate⟩ := humanReviewCandidate_ok failureCode
    rw [lands_bind, lands_get]
    show Lands (if _ then _ else _) next Q
    split_ifs with hreview
    · exact hQ _ _ (hend true)
    · rw [lands_bind, lands_orThrow hcandidate]
      exact hQ _ _ (hend candidate)
  unfold finish
  rw [lands_bind, lands_get]
  by_cases hterminal : run.machine.state = .terminal
  · show Lands (if _ then _ else _) run Q
    rw [if_neg (fun hnot => hnot hterminal)]
    exact hrest run rfl h hterminal
  · show Lands (if _ then _ else _) run Q
    rw [if_pos hterminal, lands_bind]
    exact lands_transition h (terminal_allowed hterminal) _ fun machine htraced hstate =>
      hrest _ rfl htraced hstate

theorem Failed.unique {call : Call} {code code' : RoutingFailureCode}
    (h : Failed world plan request validationFacts profile call code)
    (h' : Failed world plan request validationFacts profile call code') : code = code' := by
  unfold Failed at h h'
  cases hanswer : call.answer with
  | error error =>
    rw [hanswer] at h h'
    exact h.trans h'.symm
  | ok result =>
    rw [hanswer] at h h'
    have heq := h.symm.trans h'
    injection heq with heq
    injection heq

/-- No call that was followed by another one was a risk for safety. -/
theorem Awaits.not_safety {calls : List Call} {target : ProviderExecutionTarget}
    (h : Awaits world plan request validationFacts profile calls target) {call : Call}
    (hcall : call ∈ calls) {code : RoutingFailureCode} {policy : RoutingFailurePolicy}
    (hfailed : Failed world plan request validationFacts profile call code)
    (hpolicy : failurePolicy code = .ok policy) : policy.failureClass ≠ .safety := by
  intro hsafety
  obtain ⟨hfallback, hescalation⟩ := no_hop_of_safety hpolicy hsafety
  cases h with
  | first => cases hcall
  | hop first target hfirst hhop =>
    rw [List.mem_singleton] at hcall
    subst hcall
    cases hhop with
    | fallback code' policy' htarget hfailed' hpolicy' hallowed =>
      cases hfailed.unique hfailed'
      cases hpolicy.symm.trans hpolicy'
      rw [hfallback] at hallowed
      cases hallowed
    | escalation result code' policy' htarget hanswer hescalate hfailed' hpolicy' hallowed =>
      cases hfailed.unique hfailed'
      cases hpolicy.symm.trans hpolicy'
      rw [hescalation] at hallowed
      cases hallowed

theorem Recounted.with_machine
    (h : Recounted world plan request validationFacts profile budget run)
    {machine : RoutingExecutionStateMachine} (hmachine : machine.Traced) :
    Recounted world plan request validationFacts profile budget { run with machine } :=
  ⟨h.admitted, h.told, h.numbered, hmachine⟩

/-- Ending a run changes neither its calls nor where it came. -/
theorem Reached.ended {target : ProviderExecutionTarget} {status : ProviderGatewayTerminalStatus}
    {failureCode : Option ProviderGatewayFailureCode} {output : Option BoundedProviderOutput}
    {result : ProviderGatewayResult} {next : Run}
    (h : Reached world plan request validationFacts profile budget target run)
    (hended : Ended world plan status failureCode output run result next) :
    Reached world plan request validationFacts profile budget target next := by
  rw [hended.kept]
  exact ⟨h.recounted.with_machine hended.traced, h.calls, h.finalTarget, h.path⟩

/-- A run ended without an output. -/
theorem Reported.of_ended {target : ProviderExecutionTarget}
    {status : ProviderGatewayTerminalStatus} {failureCode : Option ProviderGatewayFailureCode}
    {result : ProviderGatewayResult} {next : Run}
    (h : Reached world plan request validationFacts profile budget target run)
    (hended : Ended world plan status failureCode none run result next)
    (hstatus : status ≠ .accepted)
    (hblocked : Blocked world plan request validationFacts profile status failureCode run) :
    Reported world plan request validationFacts profile budget target result next := by
  refine ⟨h.ended hended, hended.terminal, ?_, ?_, ?_, ?_⟩
  · rw [hended.status, hended.failureCode, hended.output]
    exact hended.audit
  · rw [hended.status, hended.failureCode, hended.kept]
    exact hblocked
  · rw [hended.status, hended.output]
    exact ⟨fun haccepted => absurd haccepted hstatus, fun hsome => by cases hsome⟩
  · intro output houtput
    rw [hended.output] at houtput
    cases houtput

/-! ## An attempt -/

/-- What the shape of a plan says of its targets and of the request. -/
structure Shaped (plan : ProviderExecutionPlan) (request : AiRequest) : Prop where
  primary : plan.primary.purpose = .primary
  fallback : ∀ target, plan.operationalFallback = some target →
    target.purpose = .fallback ∧ target.providerId ≠ plan.primary.providerId
  escalation : ∀ target, plan.semanticEscalation = some target →
    target.purpose = .escalation ∧ target.providerId ≠ plan.primary.providerId
  timeout : ∀ timeoutMs, request.timeoutMs = some timeoutMs → timeoutMs.isPositive = true

theorem shaped_of_validatePlanShape {sha256 : List Char → String}
    (h : validatePlanShape sha256 plan request = none) : Shaped plan request := by
  unfold validatePlanShape at h
  split_ifs at h with hfields hshape
  simp only [Bool.or_eq_true, Bool.not_eq_true', not_or, Option.any_eq_true, not_exists,
    not_and] at hfields
  simp only [not_or, ne_eq, not_not, Option.any_eq_true, decide_eq_true_iff, not_exists,
    not_and] at hshape
  obtain ⟨-, hprimary, hfallback, hescalation, hfallbackId, hescalationId, -⟩ := hshape
  refine ⟨hprimary, fun target htarget => ⟨hfallback target htarget, hfallbackId target htarget⟩,
    fun target htarget => ⟨hescalation target htarget, hescalationId target htarget⟩,
    fun timeoutMs htimeout => ?_⟩
  have hpositive := hfields.2 timeoutMs htimeout
  simpa using hpositive

theorem bounds_pos {deadline : DeadlineBudget} (h : deadline.bounds = some budget) :
    0 < budget.overallBudgetMs ∧ 0 < budget.validationReserveMs ∧
      0 < budget.minimumAttemptBudgetMs := by
  unfold DeadlineBudget.bounds at h
  split at h
  · split_ifs at h with hbounds
    cases h
    exact hbounds.1
  · cases h

/-- The timeout of a call is no longer than the budget of its attempt. -/
theorem effectiveProviderTimeoutMs_le (hshape : Shaped plan request) {providerBudgetMs : ℤ}
    (hbudget : 0 ≤ providerBudgetMs) :
    ∃ timeoutMs : ℚ, effectiveProviderTimeoutMs request.timeoutMs providerBudgetMs =
      .finite timeoutMs ∧ timeoutMs ≤ providerBudgetMs := by
  have hcast : (0 : ℚ) ≤ providerBudgetMs := by exact_mod_cast hbudget
  cases htimeout : request.timeoutMs with
  | none => exact ⟨_, rfl, max_le hcast le_rfl⟩
  | some value =>
    have hpositive := hshape.timeout value htimeout
    cases value with
    | finite value => exact ⟨_, rfl, max_le hcast (min_le_right _ _)⟩
    | infinity => cases hpositive
    | negativeInfinity => cases hpositive
    | notANumber => cases hpositive

/-- A binding without a failure is live, and the one in the plan. -/
theorem binding_of_bindingFailure {bindings : ProviderBindingRegistry}
    {target : ProviderExecutionTarget} (h : bindingFailure bindings target = none) :
    ∃ binding, bindings.get target.providerId = some binding ∧
      binding.provider = target.providerId ∧
      binding.identity.bindingVersion = target.bindingIdentity.bindingVersion ∧
      binding.identity.bindingDigest = target.bindingIdentity.bindingDigest := by
  unfold bindingFailure at h
  cases hget : bindings.get target.providerId with
  | none =>
    rw [hget] at h
    cases h
  | some binding =>
    simp only [hget] at h
    split_ifs at h with hmatch
    simp only [not_or, ne_eq, not_not] at hmatch
    obtain ⟨-, -, hprovider, hversion, hdigest⟩ := hmatch
    exact ⟨binding, rfl, hprovider, hversion, hdigest⟩

end

/-- An attempt that made its call. -/
structure Answered (world : World) (request : AiRequest) (budget : DeadlineBounds)
    (target : ProviderExecutionTarget) (before : Run) (call : Call) (attempt : AttemptResult)
    (run : Run) : Prop where
  kept : run = { before with
    machine := run.machine, reads := call.admittedAt + 3, calls := before.calls ++ [call] }
  traced : run.machine.Traced
  called : call.target = target
  admitted : Admitted world request budget call
  told : attempt = ⟨target, attempt.response,
    ⌊timeLeft world budget call.admittedAt - budget.validationReserveMs⌋,
    max 0 (world.clock (call.admittedAt + 2) - world.clock (call.admittedAt + 1))⟩
  answer : match call.answer with
    | .error error => attempt.response = .error (failureOf error) ∧
        run.machine.state = (statesOf target.purpose).1
    | .ok result => attempt.response = .ok result ∧
        run.machine.state = (statesOf target.purpose).2

/-- What an attempt comes to: its call, or the end of the run without one. -/
def AttemptEnds (world : World) (plan : ProviderExecutionPlan) (request : AiRequest)
    (validationFacts : Option ProviderRoutingValidationFacts)
    (profile : ValidationProfileDefinition) (budget : DeadlineBounds)
    (target : ProviderExecutionTarget) (before : Run) :
    Except Thrown (AttemptResult ⊕ ProviderGatewayResult) → Run → Prop
  | .ok (.inl attempt), run => ∃ call, Answered world request budget target before call attempt run
  | .ok (.inr result), run =>
    Reported world plan request validationFacts profile budget target result run
  | .error _, _ => False

section

variable {world : World} {plan : ProviderExecutionPlan} {request : AiRequest}
  {validationFacts : Option ProviderRoutingValidationFacts}
  {profile : ValidationProfileDefinition} {budget : DeadlineBounds}
  {run : Run} {target : ProviderExecutionTarget}

theorem Ready.reached (h : Ready world plan request validationFacts profile budget target run)
    (hfinal : run.finalTarget = some target) :
    Reached world plan request validationFacts profile budget target run :=
  ⟨h.recounted, .inl h.awaits, hfinal, h.path⟩

/-- A run that ends before the call of its target. -/
theorem Ready.lands_finish (h : Ready world plan request validationFacts profile budget target run)
    (reads : ℕ) {status : ProviderGatewayTerminalStatus}
    (hstatus : status ≠ .accepted) (failureCode : Option ProviderGatewayFailureCode) :
    Lands (do
      modify fun run : Run => { run with finalTarget := some target }
      return .inr (← finish world plan status failureCode none)) { run with reads }
      (AttemptEnds world plan request validationFacts profile budget target run) := by
  rw [lands_bind, lands_modify, andThen_ok, lands_bind]
  have hreached : Reached world plan request validationFacts profile budget target
      { run with reads, finalTarget := some target } :=
    ⟨⟨h.recounted.admitted, h.recounted.told, h.recounted.numbered, h.recounted.traced⟩,
      .inl h.awaits, rfl, h.path⟩
  have htraced : ({ run with reads, finalTarget := some target } : Run).machine.Traced :=
    h.recounted.traced
  refine Gateway.lands_finish htraced status failureCode none fun result next hended => ?_
  refine Reported.of_ended hreached hended hstatus ?_
  intro call hcall code policy hfailed hpolicy hsafety
  exact absurd hsafety (h.awaits.not_safety hcall hfailed hpolicy)

theorem executing_allowed (purpose : ExecutionTargetPurpose) :
    (statesOf purpose).1 ∈ ALLOWED (readyState purpose) ∧
      (statesOf purpose).2 ∈ ALLOWED (statesOf purpose).1 := by
  cases purpose <;> decide

/-- The call that is made for a target at a reading of the clock. -/
def callOf (world : World) (request : AiRequest) (budget : DeadlineBounds)
    (target : ProviderExecutionTarget) (binding : ValidatedExecutableProviderBinding) (run : Run) :
    Call :=
  ⟨target, binding, { request with timeoutMs := some (effectiveProviderTimeoutMs request.timeoutMs
    ⌊timeLeft world budget run.reads - budget.validationReserveMs⌋) }, run.reads,
    world.answer run.calls.length⟩

theorem lands_dispatch {binding : ValidatedExecutableProviderBinding}
    (hadmitted : Admitted world request budget (callOf world request budget target binding run))
    {machine : RoutingExecutionStateMachine} (htraced : machine.Traced)
    (hstate : machine.state = (statesOf target.purpose).1) :
    Lands (dispatch world request target binding
        ⌊timeLeft world budget run.reads - budget.validationReserveMs⌋ run.reads
        (world.clock (run.reads + 1)))
      { run with machine, reads := run.reads + 2 }
      (returns fun attempt next => ∃ call,
        Answered world request budget target run call attempt next) := by
  have hallowed : (statesOf target.purpose).2 ∈ ALLOWED machine.state := by
    rw [hstate]
    exact (executing_allowed target.purpose).2
  unfold dispatch callProvider
  rw [lands_tryCatch, lands_bind, lands_bind, lands_get, andThen_ok]
  dsimp only
  rw [lands_bind, lands_modify, andThen_ok]
  cases hanswer : world.answer run.calls.length with
  | error error =>
    rw [lands_throw, andThen_error, orElse_error, lands_bind, lands_nowMs, andThen_ok]
    refine ⟨callOf world request budget target binding run, ?_, htraced, rfl, hadmitted, rfl, ?_⟩
    · simp only [callOf, hanswer]
      rfl
    · simp only [callOf, hanswer]
      exact ⟨trivial, hstate⟩
  | ok result =>
    rw [lands_pure, andThen_ok, lands_bind, lands_nowMs, andThen_ok]
    dsimp only
    rw [lands_bind]
    refine lands_transition htraced hallowed _ fun next hnext hnextState => ?_
    refine ⟨callOf world request budget target binding run, ?_, hnext, rfl, hadmitted, rfl, ?_⟩
    · simp only [callOf, hanswer]
      rfl
    · simp only [callOf, hanswer]
      exact ⟨trivial, hnextState⟩

theorem lands_runAttempt (hshape : Shaped plan request)
    (hminimum : 0 < budget.minimumAttemptBudgetMs)
    (h : Ready world plan request validationFacts profile budget target run) :
    Lands (runAttempt world plan request (deadlineAt world budget) budget target) run
      (AttemptEnds world plan request validationFacts profile budget target run) := by
  unfold runAttempt
  rw [lands_bind, lands_get, andThen_ok, lands_bind, lands_nowMs, andThen_ok]
  dsimp only
  split_ifs with hbudget
  · exact h.lands_finish _ (by decide) _
  · rw [lands_bind, lands_get, andThen_ok]
    dsimp only
    cases hbinding : bindingFailure (world.bindings (run.reads + 1)) target with
    | some code => exact h.lands_finish _ (by decide) _
    | none =>
      obtain ⟨binding, hget, hprovider, hversion, hdigest⟩ := binding_of_bindingFailure hbinding
      have hleast : budget.minimumAttemptBudgetMs ≤
          ⌊timeLeft world budget run.reads - budget.validationReserveMs⌋ := not_lt.mp hbudget
      have hfloor : (⌊timeLeft world budget run.reads - budget.validationReserveMs⌋ : ℚ) ≤
          timeLeft world budget run.reads - budget.validationReserveMs := Int.floor_le _
      have hnonneg : 0 ≤ ⌊timeLeft world budget run.reads - budget.validationReserveMs⌋ := by
        have hcast : (0 : ℚ) ≤ ⌊timeLeft world budget run.reads - budget.validationReserveMs⌋ :=
          hminimum.le.trans hleast
        exact_mod_cast hcast
      obtain ⟨timeoutMs, htimeout, hle⟩ := effectiveProviderTimeoutMs_le hshape hnonneg
      have hadmitted : Admitted world request budget
          (callOf world request budget target binding run) :=
        { live := hget
          provider := hprovider
          version := hversion
          digest := hdigest
          time := by
            have hsum := hleast.trans hfloor
            show _ ≤ timeLeft world budget run.reads
            linarith
          timeout := ⟨timeoutMs, by rw [← htimeout]; rfl, hle.trans hfloor⟩ }
      have hallowed : (statesOf target.purpose).1 ∈ ALLOWED run.machine.state := by
        rw [h.state]
        exact (executing_allowed target.purpose).1
      simp only [hget]
      rw [lands_bind]
      have htraced : ({ run with reads := run.reads + 1 } : Run).machine.Traced :=
        h.recounted.traced
      refine lands_transition htraced hallowed _ fun machine hmachine hstate => ?_
      rw [andThen_ok, lands_bind, lands_nowMs, andThen_ok, lands_bind]
      refine (lands_dispatch hadmitted hmachine hstate).mono fun result next hnext => ?_
      cases result with
      | error error => exact hnext
      | ok attempt => exact hnext

end

/-! ## After the answer -/

/-- A run whose last call, for its target, has been told of. -/
structure Heard (world : World) (plan : ProviderExecutionPlan) (request : AiRequest)
    (validationFacts : Option ProviderRoutingValidationFacts)
    (profile : ValidationProfileDefinition) (budget : DeadlineBounds)
    (target : ProviderExecutionTarget) (before : List Call) (call : Call) (run : Run) : Prop where
  recounted : Recounted world plan request validationFacts profile budget run
  awaits : Awaits world plan request validationFacts profile before target
  calls : run.calls = before ++ [call]
  called : call.target = target
  finalTarget : run.finalTarget = some target
  path : run.path = pathOf target.purpose

/-- What a turn comes to: another one, one attempt later, or the end. -/
def TurnEnds (world : World) (plan : ProviderExecutionPlan) (request : AiRequest)
    (validationFacts : Option ProviderRoutingValidationFacts)
    (profile : ValidationProfileDefinition) (budget : DeadlineBounds) (attempts : ℕ) :
    Except Thrown Turn → Run → Prop
  | .ok (.again next), run =>
    Ready world plan request validationFacts profile budget next run ∧
      run.attempts.length = attempts + 1
  | .ok (.done result), run =>
    ∃ target, Reported world plan request validationFacts profile budget target result run
  | .error _, _ => False

section

variable {world : World} {plan : ProviderExecutionPlan} {request : AiRequest}
  {validationFacts : Option ProviderRoutingValidationFacts}
  {profile : ValidationProfileDefinition} {budget : DeadlineBounds}
  {run : Run} {target : ProviderExecutionTarget} {before : List Call} {call : Call}

theorem Heard.reached (h : Heard world plan request validationFacts profile budget target before call
    run) : Reached world plan request validationFacts profile budget target run :=
  ⟨h.recounted, .inr ⟨before, call, h.calls, h.called, h.awaits⟩, h.finalTarget, h.path⟩

/-- The audit of the last call is added. -/
theorem Ready.heard (h : Ready world plan request validationFacts profile budget target run)
    (hfinal : run.finalTarget = some target) {attempt : AttemptResult} {next : Run}
    (hanswered : Answered world request budget target run call attempt next)
    {audit : ProviderAttemptAudit}
    (htold : Told world plan request validationFacts profile budget call audit)
    (hindex : audit.attemptIndex = run.attempts.length + 1) :
    Heard world plan request validationFacts profile budget target run.calls call
      { next with attempts := next.attempts ++ [audit] } := by
  have hcalls : next.calls = run.calls ++ [call] := by rw [hanswered.kept]
  have hattempts : next.attempts = run.attempts := by rw [hanswered.kept]
  refine ⟨⟨?_, ?_, ?_, hanswered.traced⟩, h.awaits, hcalls, hanswered.called, ?_, ?_⟩
  · intro other hother
    replace hother : other ∈ run.calls ++ [call] := hcalls ▸ hother
    rcases List.mem_append.mp hother with hold | hnew
    · exact h.recounted.admitted other hold
    · rw [List.mem_singleton.mp hnew]
      exact hanswered.admitted
  · show List.Forall₂ _ next.calls (next.attempts ++ [audit])
    rw [hcalls, hattempts]
    exact List.rel_append h.recounted.told (.cons htold .nil)
  · show List.map _ (next.attempts ++ [audit]) = List.range' 1 (next.attempts ++ [audit]).length
    rw [hattempts, List.map_append, h.recounted.numbered, List.length_append,
      List.length_singleton, List.range'_concat]
    simp only [List.map_cons, List.map_nil, hindex, Nat.one_mul, Nat.add_comm 1]
  · show next.finalTarget = some target
    rw [hanswered.kept]
    exact hfinal
  · show next.path = _
    rw [hanswered.kept]
    exact h.path

theorem Heard.attempts (h : Heard world plan request validationFacts profile budget target before
    call run) : run.attempts.length = before.length + 1 := by
  have hlength := h.recounted.told.length_eq
  rw [h.calls, List.length_append, List.length_singleton] at hlength
  exact hlength.symm

/-- The last call is the only one that can have been a risk for safety. -/
theorem Heard.blocked (h : Heard world plan request validationFacts profile budget target before call
    run) {status : ProviderGatewayTerminalStatus} {failureCode : Option ProviderGatewayFailureCode}
    (hlast : BlockedFor world plan request validationFacts profile call status failureCode) :
    Blocked world plan request validationFacts profile status failureCode run := by
  intro other hother code policy hfailed hpolicy hsafety
  rw [h.calls, List.mem_append, List.mem_singleton] at hother
  rcases hother with hold | rfl
  · exact absurd hsafety (h.awaits.not_safety hold hfailed hpolicy)
  · refine ⟨?_, hlast code policy hfailed hpolicy hsafety⟩
    rw [h.calls]
    exact List.getLast?_concat

theorem Heard.lands_done (h : Heard world plan request validationFacts profile budget target before
    call run) {status : ProviderGatewayTerminalStatus}
    {failureCode : Option ProviderGatewayFailureCode} (hstatus : status ≠ .accepted)
    (hlast : BlockedFor world plan request validationFacts profile call status failureCode)
    (attempts : ℕ) :
    Lands (do return .done (← finish world plan status failureCode none)) run
      (TurnEnds world plan request validationFacts profile budget attempts) := by
  rw [lands_bind]
  exact lands_finish h.recounted.traced status failureCode none fun result next hended =>
    ⟨target, Reported.of_ended h.reached hended hstatus (h.blocked hlast)⟩

/-- Only the primary is awaited first. -/
theorem Awaits.nil_of_primary (hshape : Shaped plan request)
    (h : Awaits world plan request validationFacts profile before target)
    (hprimary : target.purpose = .primary) : before = [] ∧ target = plan.primary := by
  cases h with
  | first => exact ⟨rfl, rfl⟩
  | hop first target hfirst hhop =>
    cases hhop with
    | fallback code policy htarget =>
      rw [(hshape.fallback target htarget).1] at hprimary
      cases hprimary
    | escalation result code policy htarget =>
      rw [(hshape.escalation target htarget).1] at hprimary
      cases hprimary

/-- The run goes on from the primary to the target of a hop. -/
theorem Heard.lands_goTo (h : Heard world plan request validationFacts profile budget target before
    call run) (hshape : Shaped plan request) (hprimary : target.purpose = .primary)
    {next : ProviderExecutionTarget}
    (hhop : Hop world plan request validationFacts profile call next)
    (hallowed : readyState next.purpose ∈ ALLOWED run.machine.state) (code : RoutingFailureCode) :
    Lands (goTo (pathOf next.purpose) next (readyState next.purpose) code) run
      (TurnEnds world plan request validationFacts profile budget before.length) := by
  obtain ⟨rfl, htarget⟩ := h.awaits.nil_of_primary hshape hprimary
  unfold goTo
  rw [lands_bind, lands_modify, andThen_ok, lands_bind]
  have htraced : ({ run with path := pathOf next.purpose } : Run).machine.Traced :=
    h.recounted.traced
  refine lands_transition htraced hallowed _ fun machine hmachine hstate => ?_
  refine ⟨⟨⟨h.recounted.admitted, h.recounted.told, h.recounted.numbered, hmachine⟩, ?_, hstate, rfl⟩,
    h.attempts⟩
  show Awaits world plan request validationFacts profile run.calls next
  rw [h.calls]
  exact .hop call next (h.called.trans htarget) hhop

theorem failureOf_not_safety {error : Thrown} {policy : RoutingFailurePolicy}
    (h : failurePolicy (failureOf error) = .ok policy) : policy.failureClass ≠ .safety := by
  intro hsafety
  cases error with
  | aiProviderError kind =>
    cases kind with
    | none => cases h; cases hsafety
    | some kind => cases kind <;> cases h <;> cases hsafety
  | other message => cases h; cases hsafety

/-- After the failure of a provider the run goes to the fallback, or ends. -/
theorem Heard.lands_afterFailure (hshape : Shaped plan request)
    {attempt : AttemptResult} {error : Thrown} (hanswer : call.answer = .error error)
    (hstate : run.machine.state = (statesOf target.purpose).1)
    (h : Heard world plan request validationFacts profile budget target before call
      { run with attempts := run.attempts ++
        [failedAttempt target attempt (run.attempts.length + 1) (failureOf error)] }) :
    Lands (afterFailure world plan target attempt (failureOf error)) run
      (TurnEnds world plan request validationFacts profile budget before.length) := by
  obtain ⟨policy, hpolicy, -⟩ := failurePolicy_ok (failureOf error)
  obtain ⟨status, hterminal, hstatus⟩ := terminalStatus_ok (failureOf error)
  have hfailed : Failed world plan request validationFacts profile call (failureOf error) := by
    unfold Failed
    rw [hanswer]
  have hlast : BlockedFor world plan request validationFacts profile call status
      (some (.routing (failureOf error))) := by
    intro code policy hcode hpolicy hsafety
    cases hcode.unique hfailed
    exact absurd hsafety (failureOf_not_safety hpolicy)
  unfold afterFailure pushAttempt
  rw [lands_bind, lands_get, andThen_ok, lands_bind, lands_modify, andThen_ok, lands_bind,
    lands_orThrow hpolicy, andThen_ok, lands_bind, lands_get, andThen_ok]
  dsimp only
  split
  · rename_i fallback hfallback
    obtain ⟨⟨hprimary, hallowed, -⟩, hfallback⟩ := Option.ite_none_right_eq_some.mp hfallback
    have hpurpose := (hshape.fallback fallback hfallback).1
    have hgo := h.lands_goTo hshape hprimary
      (.fallback (failureOf error) policy hfallback hfailed hpolicy hallowed)
    rw [hpurpose] at hgo
    refine hgo ?_ (failureOf error)
    show _ ∈ ALLOWED run.machine.state
    rw [hstate, hprimary]
    decide
  · rw [lands_bind, lands_orThrow hterminal, andThen_ok]
    exact h.lands_done hstatus hlast before.length

/-- A response that is not accepted and leads nowhere ends the run. -/
theorem Heard.lands_unresolved
    (h : Heard world plan request validationFacts profile budget target before call run)
    {code : RoutingFailureCode}
    (hlast : ∀ status failureCode,
      BlockedFor world plan request validationFacts profile call status failureCode) :
    Lands (unresolved world plan code) run
      (TurnEnds world plan request validationFacts profile budget before.length) := by
  unfold unresolved
  split_ifs
  · exact h.lands_done (by decide) (hlast _ _) _
  · exact h.lands_done (by decide) (hlast _ _) _
  · obtain ⟨status, hterminal, hstatus⟩ := terminalStatus_ok code
    rw [lands_bind, lands_orThrow hterminal, andThen_ok]
    exact h.lands_done hstatus (hlast _ _) _

/-- After a response that is rejected, and no risk for safety, the run goes to the fallback or to
the escalation, or ends. -/
theorem Heard.lands_afterRejection
    (h : Heard world plan request validationFacts profile budget target before call run)
    (hshape : Shaped plan request) {result : AiExecutionResult} {code : RoutingFailureCode}
    (hanswer : call.answer = .ok result)
    (hstate : run.machine.state = (statesOf target.purpose).2)
    (hfailed : Failed world plan request validationFacts profile call code)
    (hlast : ∀ status failureCode,
      BlockedFor world plan request validationFacts profile call status failureCode) :
    Lands (afterRejection world plan profile target
        (validateUnder world profile (inputView plan request validationFacts result)) code) run
      (TurnEnds world plan request validationFacts profile budget before.length) := by
  obtain ⟨policy, hpolicy, -⟩ := failurePolicy_ok code
  unfold afterRejection
  rw [lands_bind, lands_orThrow hpolicy, andThen_ok, lands_bind, lands_get, andThen_ok]
  dsimp only
  split
  · rename_i fallback hfallback
    obtain ⟨⟨hprimary, hallowed, -⟩, hfallback⟩ := Option.ite_none_right_eq_some.mp hfallback
    have hgo := h.lands_goTo hshape hprimary
      (.fallback code policy hfallback hfailed hpolicy hallowed)
    rw [(hshape.fallback fallback hfallback).1, hstate, hprimary] at hgo
    exact hgo (by decide) code
  · rename_i escalation hnone hescalation
    obtain ⟨⟨hprimary, hescalate, hallowed, hprofile, -⟩, hescalation⟩ :=
      Option.ite_none_right_eq_some.mp hescalation
    have hgo := h.lands_goTo hshape hprimary (.escalation result code policy hescalation hanswer
      hescalate hfailed hpolicy hallowed hprofile)
    rw [(hshape.escalation escalation hescalation).1, hstate, hprimary] at hgo
    exact hgo (by decide) code
  · exact h.lands_unresolved hlast

theorem Heard.with_reads
    (h : Heard world plan request validationFacts profile budget target before call run)
    (reads : ℕ) :
    Heard world plan request validationFacts profile budget target before call
      { run with reads } :=
  ⟨⟨h.recounted.admitted, h.recounted.told, h.recounted.numbered, h.recounted.traced⟩, h.awaits,
    h.calls, h.called, h.finalTarget, h.path⟩

theorem not_failed {result : AiExecutionResult} (hanswer : call.answer = .ok result)
    (hnone : classifyValidationFailure
      (validateUnder world profile (inputView plan request validationFacts result)) = .ok none)
    (code : RoutingFailureCode) : ¬ Failed world plan request validationFacts profile call code := by
  intro hcode
  unfold Failed at hcode
  rw [hanswer] at hcode
  replace hcode := hnone.symm.trans hcode
  injection hcode with hcode
  cases hcode

/-- An accepted response that came in time is the output. -/
theorem Heard.lands_accepted
    (h : Heard world plan request validationFacts profile budget target before call run)
    {result : AiExecutionResult} {output : BoundedProviderOutput} {reading : ℕ}
    (hanswer : call.answer = .ok result)
    (hnone : classifyValidationFailure
      (validateUnder world profile (inputView plan request validationFacts result)) = .ok none)
    (houtput : projectBoundedProviderOutput world.sha256 result
      (validateUnder world profile (inputView plan request validationFacts result)) = .ok output)
    (hreading : call.admittedAt + 2 < reading)
    (htime : world.clock reading < deadlineAt world budget) (attempts : ℕ) :
    Lands (do return .done (← finish world plan .accepted none (some output))) run
      (TurnEnds world plan request validationFacts profile budget attempts) := by
  obtain ⟨failure, hfailure, haccept⟩ := classifyValidationFailure_ok
    (validateUnder world profile (inputView plan request validationFacts result))
  cases hfailure.symm.trans hnone
  obtain ⟨hdisposition, hreasons⟩ := haccept rfl
  rw [lands_bind]
  refine lands_finish h.recounted.traced .accepted none (some output) fun answer next hended => ?_
  refine ⟨target, h.reached.ended hended, hended.terminal, ?_, ?_, ?_, ?_⟩
  · rw [hended.status, hended.failureCode, hended.output]
    exact hended.audit
  · rw [hended.status, hended.failureCode, hended.kept]
    exact h.blocked fun code policy hcode => absurd hcode (not_failed hanswer hnone code)
  · rw [hended.status, hended.output]
    exact ⟨fun _ => rfl, fun _ => rfl⟩
  · intro other hother
    rw [hended.output] at hother
    cases hother
    rw [hended.kept]
    exact ⟨before, call, result, reading, h.calls, hanswer, hdisposition, hreasons, houtput,
      hreading, htime⟩

/-- What the last response comes to. -/
theorem Ready.lands_afterResponse (hshape : Shaped plan request)
    (hpassed : Passed world plan profile budget)
    {attempt : AttemptResult} {result : AiExecutionResult} {next : Run}
    (hready : Ready world plan request validationFacts profile budget target run)
    (hfinal : run.finalTarget = some target)
    (hanswered : Answered world request budget target run call attempt next)
    (hanswer : call.answer = .ok result) (hresponse : attempt.response = .ok result) 
    (hstate : next.machine.state = (statesOf target.purpose).2) :
    Lands (afterResponse world plan request validationFacts (deadlineAt world budget) profile target
        attempt result) next
      (TurnEnds world plan request validationFacts profile budget run.calls.length) := by
  obtain ⟨failure, hfailure, haccept⟩ := classifyValidationFailure_ok
    (validateUnder world profile (inputView plan request validationFacts result))
  have hattempts : next.attempts = run.attempts := by rw [hanswered.kept]
  have hreads : next.reads = call.admittedAt + 3 := by rw [hanswered.kept]
  have htold : Told world plan request validationFacts profile budget call
      (validatedAttempt target attempt (next.attempts.length + 1)
        (validateUnder world profile (inputView plan request validationFacts result)) failure) := by
    unfold Told
    rw [hanswer, hanswered.called]
    refine ⟨failure, hfailure, ?_⟩
    rw [hanswered.told, hresponse]
    rfl
  have h := hready.heard hfinal hanswered htold (by rw [hattempts]; rfl)
  unfold afterResponse pushAttempt
  rw [lands_bind, lands_orThrow (validate_ok hpassed.resolved result), andThen_ok, lands_bind,
    lands_orThrow hfailure, andThen_ok, lands_bind, lands_get, andThen_ok, lands_bind, lands_modify,
    andThen_ok]
  cases failure with
  | none =>
    obtain ⟨hdisposition, -⟩ := haccept rfl
    obtain ⟨output, houtput⟩ := project_ok hdisposition
    replace houtput : projectBoundedProviderOutput world.sha256 result _ = _ := houtput
    dsimp only
    rw [lands_bind, lands_nowMs, andThen_ok]
    split_ifs with htime
    · exact (h.with_reads _).lands_done (by decide)
        (fun code policy hcode => absurd hcode (not_failed hanswer hfailure code)) _
    · rw [lands_bind, lands_orThrow houtput, andThen_ok]
      exact (h.with_reads _).lands_accepted hanswer hfailure houtput
        (show call.admittedAt + 2 < next.reads by omega) (not_le.mp htime) _
  | some code =>
    have hfailed : Failed world plan request validationFacts profile call code := by
      unfold Failed
      rw [hanswer]
      exact hfailure
    obtain ⟨policy, hpolicy, hclass⟩ := isOfClass_ok .safety code
    dsimp only
    rw [lands_bind, lands_orThrow hclass, andThen_ok]
    split_ifs with hsafe
    · refine h.lands_done (by decide) (fun code' policy' hcode' _ _ => ?_) _
      rw [hcode'.unique hfailed]
      exact ⟨rfl, rfl⟩
    · have hlast : ∀ status failureCode,
          BlockedFor world plan request validationFacts profile call status failureCode := by
        intro status failureCode code' policy' hcode' hpolicy' hsafety
        cases hcode'.unique hfailed
        cases hpolicy.symm.trans hpolicy'
        exact absurd (decide_eq_true hsafety) hsafe
      rw [lands_bind, lands_nowMs, andThen_ok]
      split_ifs with htime
      · exact (h.with_reads _).lands_done (by decide) (hlast _ _) _
      · exact (h.with_reads _).lands_afterRejection hshape hanswer hstate hfailed hlast

end

end QuokyPlatform.Gateway
