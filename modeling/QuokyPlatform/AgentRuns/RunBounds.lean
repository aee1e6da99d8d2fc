import QuokyPlatform.AgentRuns.RunInvariant

/-! # A run stays within its budget and its sources

Each function of the executor leads from a state of the invariant to one, and the log only grows.
The last section reads the guarantees of a run off the invariant. -/

namespace QuokyPlatform.AgentRuns
open Chunking

set_option autoImplicit false
set_option maxHeartbeats 250000

section

variable {plan : RunPlan} {deps : AgentPlanExecutorDeps} {w next : World}

/-- A later state of the run that keeps the invariant. -/
structure Leads (plan : RunPlan) (deps : AgentPlanExecutorDeps) (w next : World) : Prop where
  invariant : Invariant plan deps next
  grows : Grows w next

theorem Leads.after {third : World} (h : Leads plan deps next third) (hgrows : Grows w next) :
    Leads plan deps w third :=
  ⟨h.invariant, hgrows.trans h.grows⟩

/-! ## The result of a step -/

theorem itemsListed_append {results : List AgentStepResult} {result : AgentStepResult} {number : ℕ}
    (h : number ≤ results.length) :
    itemsListed (results ++ [result]) number = itemsListed results number := by
  cases number with
  | zero => rfl
  | succ index =>
    have hindex : index < results.length := h
    simp only [itemsListed, List.getElem?_append_left hindex]

theorem itemsListed_sum_append {results : List AgentStepResult} {result : AgentStepResult}
    {fromSteps : List ℕ} {index : ℕ} (h : index ≤ results.length) :
    ((fromSteps.filter (· ≤ index)).map (itemsListed (results ++ [result]))).sum =
      ((fromSteps.filter (· ≤ index)).map (itemsListed results)).sum := by
  congr 1
  refine List.map_congr_left fun number hnumber => itemsListed_append ?_
  have hle : number ≤ index := by simpa using (List.mem_filter.mp hnumber).2
  omega

theorem getElem?_push {results : List AgentStepResult} {result found : AgentStepResult} {index : ℕ}
    (h : (results ++ [result])[index]? = some found) :
    (index < results.length ∧ results[index]? = some found) ∨
      (index = results.length ∧ found = result) := by
  rcases Nat.lt_or_ge index results.length with hlt | hge
  · rw [List.getElem?_append_left hlt] at h
    exact .inl ⟨hlt, h⟩
  · rw [List.getElem?_append_right hge] at h
    obtain ⟨hzero, rfl⟩ : index - results.length = 0 ∧ result = found := by
      simpa [List.getElem?_singleton] using h
    exact .inr ⟨by omega, rfl⟩

/-- What the state must say of a result that is pushed. -/
structure Fitting (plan : RunPlan) (w : World) (result : AgentStepResult) : Prop where
  stands : ∃ step, plan.steps[w.results.length]? = some step ∧ result.StandsFor w.number step
  answered : ∀ number entryId projection hasMore truncated refValues,
    result = .read number entryId (.ok projection hasMore truncated refValues) →
    w.projections w.number = some projection ∧ w.listed w.number = some projection.itemCount ∧
      ∃ items, .answered w.number entryId items ∈ w.log ∧
        projectStructure entryId items = some projection
  summarized : ∀ number fromSteps schema count omitted,
    result = .summarize number fromSteps schema (.ok count omitted) →
    ((fromSteps.filter (· ≤ w.results.length)).map (itemsListed w.results)).sum ≤ count + omitted

theorem Results.push {result : AgentStepResult} (h : Results plan w) (hfit : Fitting plan w result) :
    Results plan (w.push result) := by
  constructor
  · intro index found hfound
    rcases getElem?_push hfound with ⟨-, hold⟩ | ⟨rfl, rfl⟩
    · exact h.stand index found hold
    · exact hfit.stands
  · intro index number entryId projection m t v hfound
    rcases getElem?_push hfound with ⟨-, hold⟩ | ⟨rfl, hnew⟩
    · exact h.answered index number entryId projection m t v hold
    · exact hfit.answered number entryId projection m t v hnew.symm
  · intro index number fromSteps schema count omitted hfound
    rcases getElem?_push hfound with ⟨hlt, hold⟩ | ⟨rfl, hnew⟩
    · rw [show (w.push result).results = w.results ++ [result] from rfl,
        itemsListed_sum_append (Nat.le_of_lt hlt)]
      exact h.summarized index number fromSteps schema count omitted hold
    · rw [show (w.push result).results = w.results ++ [result] from rfl,
        itemsListed_sum_append le_rfl]
      exact hfit.summarized number fromSteps schema count omitted hnew.symm

theorem number_push (w : World) (result : AgentStepResult) :
    (w.push result).number = w.number + 1 := by
  simp [World.number, World.push]

theorem Sourced.push {log : List Observation} {number : ℕ} {entryId : NlWave1EntryId}
    {keys : List JsString} {results : List AgentStepResult}
    (h : Sourced results log number entryId keys) (result : AgentStepResult) :
    Sourced (results ++ [result]) log number entryId keys := by
  obtain ⟨index, e, items, projection, field, m, t, v, hlt, hresult, hrest⟩ := h
  have hindex : index < results.length := (List.getElem?_eq_some_iff.mp hresult).1
  refine ⟨index, e, items, projection, field, m, t, v, hlt, ?_, hrest⟩
  rw [List.getElem?_append_left hindex]
  exact hresult

/-- A step ends with its result, and the next one may start. -/
theorem Sound.push {result : AgentStepResult} (h : Sound plan deps w) (hclosed : w.Closed)
    (hfit : Fitting plan w result) : Leads plan deps w (w.push result) := by
  refine ⟨⟨⟨h.ledger, ⟨fun call hcall => .inl (hclosed call hcall), fun call hcall => ?_⟩,
    h.results.push hfit, fun number e keys rest hrest => (h.keys number e keys rest hrest).push _⟩,
    ⟨hclosed, fun call hcall => ?_⟩⟩, Grows.of_eq rfl rfl⟩
  · obtain ⟨haborted, hle⟩ := h.handles.ended call hcall
    refine ⟨haborted, ?_⟩
    rw [number_push]
    omega
  · obtain ⟨-, hle⟩ := h.handles.ended call hcall
    rw [number_push]
    omega

/-- A result that says nothing was read or summarized. -/
def AgentStepResult.Bare : AgentStepResult → Prop
  | .read _ _ (.ok ..) => False
  | .summarize _ _ _ (.ok ..) => False
  | _ => True

theorem Fitting.of_bare {result : AgentStepResult} {step : ValidatedAgentStep}
    (hstep : plan.steps[w.results.length]? = some step) (hstands : result.StandsFor w.number step)
    (hbare : result.Bare) : Fitting plan w result := by
  refine ⟨⟨step, hstep, hstands⟩, ?_, ?_⟩
  · rintro number entryId projection m t v rfl
    exact hbare.elim
  · rintro number fromSteps schema count omitted rfl
    exact hbare.elim

theorem standsFor_notRun (step : ValidatedAgentStep) (number : ℕ) (reason : AgentStepNotRunReason) :
    (notRun step number reason).StandsFor number step ∧ (notRun step number reason).Bare := by
  cases step with
  | read step => exact ⟨⟨_, rfl⟩, trivial⟩
  | summarize step => exact ⟨⟨_, rfl⟩, trivial⟩

/-! ## References -/

theorem AgentStepResult.StandsFor.number_eq {step : ValidatedAgentStep} {number stated : ℕ}
    {entryId : NlWave1EntryId} {outcome : ReadOutcome}
    (h : (AgentStepResult.read stated entryId outcome).StandsFor number step) : stated = number := by
  cases step with
  | read step =>
    obtain ⟨_, heq⟩ := h
    cases heq
    rfl
  | summarize step =>
    obtain ⟨_, heq⟩ := h
    cases heq

theorem mem_of_sliceTo {ids : List JsString} {take : ℤ} {key : JsString}
    (h : key ∈ sliceTo ids take) : key ∈ ids := by
  rw [sliceTo] at h
  split at h <;> exact List.mem_of_mem_take h

theorem mem_of_slotAt {slots : List (Option JsString)} {position : ℤ} {id : JsString}
    (h : slotAt slots position = some id) : some id ∈ slots := by
  rw [slotAt] at h
  split at h
  · cases h
  · exact List.mem_of_getElem? (Option.join_eq_some_iff.mp h)

/-- A reference that resolves takes its keys from the answer of an earlier step. -/
theorem resolveReference_sourced {ref : AgentReference} {entryId : NlWave1EntryId}
    {keys : List JsString} (h : Results plan w)
    (hresolve : resolveReference ref w.number entryId w.results w.projections = .ok keys) :
    Sourced w.results w.log w.number entryId keys := by
  rw [resolveReference] at hresolve
  split at hresolve
  · cases hresolve
  rename_i hrange
  rw [not_or] at hrange
  simp only at hresolve
  split at hresolve
  · rename_i number from_ p m t v projection hresult hprojection
    have hnat : ref.step.toNat = (ref.step - 1).toNat + 1 := by omega
    rw [hnat] at hprojection
    obtain ⟨hstored, -, items, hitems, hproject⟩ := h.answered _ _ _ _ _ _ _ hresult
    obtain rfl : projection = p := Option.some.inj (hprojection.symm.trans hstored)
    obtain ⟨-, hsource, horigin, hfield⟩ := projectStructure_bound hproject
    obtain ⟨-, hids⟩ := projectStructure_ids hproject
    obtain ⟨-, hslots⟩ := projectStructure_slots hproject
    split at hresolve
    · cases hresolve
    rename_i hsame
    simp only [not_or, not_not] at hsame
    split at hresolve
    · cases hresolve
    rename_i href
    rw [not_not] at href
    have hmem : ∀ key ∈ keys, key ∈ projection.ids := by
      split at hresolve
      · cases hresolve
      split at hresolve
      · split at hresolve
        · cases hresolve
        split at hresolve
        · cases hresolve
        · rename_i id hid
          cases hresolve
          intro key hkey
          rw [List.mem_singleton.mp hkey]
          exact hslots id (mem_of_slotAt hid)
      · split at hresolve
        · cases hresolve
        · cases hresolve
          exact fun key hkey => mem_of_sliceTo hkey
    obtain ⟨s, -, hstands⟩ := h.stand _ _ hresult
    obtain rfl : number = (ref.step - 1).toNat + 1 := hstands.number_eq
    refine ⟨(ref.step - 1).toNat, from_, items, projection, ref.field, m, t, v, by omega, hresult,
      hitems, hproject, hsource.symm.trans hsame.1, horigin.symm.trans hsame.2.1,
      hfield.symm.trans href, fun key hkey => ⟨hmem key hkey, ?_⟩⟩
    obtain ⟨field, hshape, hid⟩ := hids key (hmem key hkey)
    rw [Option.some.inj (href.symm.trans hshape)]
    exact hid
  · cases hresolve

/-! ## A read step -/

theorem Sound.asked {keys : Option (List JsString)} {entryId : NlWave1EntryId}
    (h : Sound plan deps w)
    (hkeys : ∀ values, keys = some values → Sourced w.results w.log w.number entryId values) :
    Sound plan deps ({ w with opened := w.number :: w.opened }.record
      (.read w.number entryId keys)) := by
  have hledger : Ledger deps.bounds w.budget (.read w.number entryId keys :: w.log) := by
    refine ⟨h.ledger.bounds, fun c => ?_, h.ledger.within⟩
    simpa [Observation.cost] using h.ledger.counted c
  refine ⟨hledger, ⟨fun call hcall => ?_, fun call hcall => ?_⟩,
    ⟨h.results.stand, fun index number e projection m t v hresult => ?_, h.results.summarized⟩,
    fun number e values rest hrest => ?_⟩
  · rcases List.mem_cons.mp hcall with rfl | hcall
    · exact .inr rfl
    · exact h.handles.opened call hcall
  · rcases List.mem_cons.mp hcall with hread | hcall
    · cases hread
    · exact h.handles.ended call hcall
  · obtain ⟨hprojection, hlisted, items, hitems, hproject⟩ :=
      h.results.answered index number e projection m t v hresult
    exact ⟨hprojection, hlisted, items, List.mem_cons_of_mem _ hitems, hproject⟩
  · rcases List.suffix_cons_iff.mp hrest with heq | htail
    · simp only [List.cons.injEq, Observation.read.injEq] at heq
      obtain ⟨⟨rfl, rfl, hvalues⟩, rfl⟩ := heq
      exact hkeys values hvalues.symm
    · exact h.keys number e values rest htail

theorem World.callPort_leads {step : ReadStep} {keys : Option (List JsString)} {refValues : ℕ}
    {clock : StartReadings} (h : Sound plan deps w) (hready : w.Ready)
    (hstep : plan.steps[w.results.length]? = some (.read step))
    (hkeys : ∀ values, keys = some values → Sourced w.results w.log w.number step.entry values) :
    Leads plan deps w (w.callPort plan deps step keys refValues clock) := by
  unfold World.callPort
  simp only
  split
  · exact ⟨⟨h.inPhase _ _, hstep, hready.fresh⟩, Grows.of_eq rfl rfl⟩
  · have hasked := h.asked hkeys
    refine ⟨⟨hasked.inPhase _ _, hstep, fun call hcall => ?_⟩,
      Grows.of_quiet [.read w.number step.entry keys] rfl (by simp [Observation.IsGrant])
        fun _ hk => hk⟩
    rcases List.mem_cons.mp hcall with hread | hcall
    · cases hread
    · exact hready.fresh call hcall

/-- A step that was turned down keeps what it was paid. -/
theorem Paid.push {result : AgentStepResult} {step : ValidatedAgentStep} (h : Paid plan deps w next)
    (hclosed : w.Closed) (hstep : plan.steps[w.results.length]? = some step)
    (hstands : result.StandsFor w.number step) (hbare : result.Bare) :
    Leads plan deps w (next.push result) := by
  obtain ⟨budget, grants, rfl, -⟩ := h.spent
  exact (h.sound.push hclosed (.of_bare hstep hstands hbare)).after h.grows

theorem Paid.refl (h : Sound plan deps w) : Paid plan deps w w :=
  ⟨⟨w.budget, [], rfl, by simp⟩, h, Grows.refl w⟩

theorem World.startRead_leads {step : ReadStep} {clock : StartReadings} (h : Sound plan deps w)
    (hready : w.Ready) (hstep : plan.steps[w.results.length]? = some (.read step)) :
    Leads plan deps w (w.startRead plan deps step clock) := by
  have hstop : ∀ {paid : World} {outcome : ReadOutcome}, Paid plan deps w paid →
      (AgentStepResult.read w.number step.entry outcome).Bare →
      Leads plan deps w (paid.push (.read w.number step.entry outcome)) :=
    fun hpaid hbare => hpaid.push hready.closed hstep ⟨_, rfl⟩ hbare
  unfold World.startRead
  simp only
  split
  · exact hstop (.refl h) trivial
  split
  · exact hstop (.refl h) trivial
  · rename_i keys hresolved
    have hkeys : ∀ values, keys = some values → Sourced w.results w.log w.number step.entry values := by
      rintro values rfl
      split at hresolved
      · cases hresolved
      · rename_i ref _
        cases hfound : resolveReference ref w.number step.entry w.results w.projections with
        | error reason =>
          rw [hfound] at hresolved
          cases hresolved
        | ok found =>
          rw [hfound] at hresolved
          cases hresolved
          exact resolveReference_sourced h.results hfound
    split
    · exact hstop (.refl h) trivial
    · rename_i budget hmay
      exact hstop (h.withBudget (AgentRunBudget.mayReadConnector_cases hmay).1) trivial
    · rename_i budget hmay
      have hpaid := h.withBudget (AgentRunBudget.mayReadConnector_cases hmay).1
      split
      · exact (World.callPort_leads hpaid.sound (hready.spent hpaid.spent) hstep (by simp)).after
          hpaid.grows
      · rename_i values
        have htaken : Paid plan deps (w.withBudget budget)
            ((w.withBudget budget).take none (.refValues values.length)
              (budget.reserveRefValues values.length)).2 :=
          hpaid.sound.take (budget.reserveRefValues_answered values.length) (by simp)
        split
        · rename_i turned hturned
          rw [show (w.withBudget budget).take none (.refValues values.length)
            (budget.reserveRefValues values.length) = (false, turned) from hturned] at htaken
          exact hstop (hpaid.trans htaken) trivial
        · rename_i taken htaken'
          rw [show (w.withBudget budget).take none (.refValues values.length)
            (budget.reserveRefValues values.length) = (true, taken) from htaken'] at htaken
          have hall := hpaid.trans htaken
          obtain ⟨budget', grants, rfl, hgrants⟩ := hall.spent
          refine (World.callPort_leads hall.sound (hready.spent hall.spent) hstep ?_).after hall.grows
          rintro _ ⟨⟩
          obtain ⟨index, e, items, projection, field, m, t, v, hlt, hresult, hitems, hrest⟩ :=
            hkeys values rfl
          exact ⟨index, e, items, projection, field, m, t, v, hlt, hresult,
            List.mem_append_right _ hitems, hrest⟩

/-- The call of the step is over, and with it every handle is closed. -/
theorem Sound.endCall (h : Sound plan deps w) :
    Sound plan deps w.endCall ∧ w.endCall.Closed ∧ Grows w w.endCall := by
  have hledger : Ledger deps.bounds w.budget (.ended w.number :: w.log) := by
    refine ⟨h.ledger.bounds, fun c => ?_, h.ledger.within⟩
    simpa [Observation.cost] using h.ledger.counted c
  have hclosed : w.endCall.Closed := by
    intro call hcall
    rcases h.handles.opened call hcall with haborted | rfl
    · exact List.mem_cons_of_mem _ haborted
    · exact List.mem_cons_self
  refine ⟨⟨hledger, ⟨fun call hcall => .inl (hclosed call hcall), fun call hcall => ?_⟩,
    ⟨h.results.stand, fun index number e projection m t v hresult => ?_, h.results.summarized⟩,
    fun number e values rest hrest => ?_⟩, hclosed,
    Grows.of_quiet [.ended w.number] rfl (by simp [Observation.IsGrant]) fun _ hk => hk⟩
  · rcases List.mem_cons.mp hcall with hended | hcall
    · cases hended
      exact ⟨List.mem_cons_self, le_rfl⟩
    · obtain ⟨haborted, hle⟩ := h.handles.ended call hcall
      exact ⟨List.mem_cons_of_mem _ haborted, hle⟩
  · obtain ⟨hprojection, hlisted, items, hitems, hproject⟩ :=
      h.results.answered index number e projection m t v hresult
    exact ⟨hprojection, hlisted, items, List.mem_cons_of_mem _ hitems, hproject⟩
  · rcases List.suffix_cons_iff.mp hrest with heq | htail
    · simp at heq
    · exact h.keys number e values rest htail

/-- What a projection stores is stored under the step's own number. -/
theorem Sound.stored (h : Sound plan deps w) (projection : StructureProjection) :
    Sound plan deps { w with
      projections := Function.update w.projections w.number (some projection)
      listed := Function.update w.listed w.number (some projection.itemCount) } := by
  refine ⟨h.ledger, ⟨h.handles.opened, h.handles.ended⟩,
    ⟨h.results.stand, fun index number e found m t v hresult => ?_, h.results.summarized⟩, h.keys⟩
  have hne : index + 1 ≠ w.number := by
    have hlt : index < w.results.length := (List.getElem?_eq_some_iff.mp hresult).1
    rw [World.number]
    omega
  obtain ⟨hprojection, hlisted, hitems⟩ := h.results.answered index number e found m t v hresult
  exact ⟨(Function.update_of_ne hne _ _).trans hprojection,
    (Function.update_of_ne hne _ _).trans hlisted, hitems⟩

/-- A successful read is recorded with its projection, and its step ends. -/
theorem Sound.answer {step : ReadStep} {items : Option (List AgentRawItem)}
    {projection : StructureProjection} {hasMore truncated handed : Bool} {refValues : ℕ}
    (h : Sound plan deps w) (hclosed : w.Closed)
    (hstep : plan.steps[w.results.length]? = some (.read step))
    (hproject : projectStructure step.entry items = some projection) :
    Leads plan deps w (({ w with
      projections := Function.update w.projections w.number (some projection)
      listed := Function.update w.listed w.number (some projection.itemCount)
      documents := Function.update w.documents w.number handed }.record
        (.answered w.number step.entry items)).push
          (.read w.number step.entry (.ok projection hasMore truncated refValues))) := by
  have hstored := h.stored projection
  have hledger : Ledger deps.bounds w.budget (.answered w.number step.entry items :: w.log) := by
    refine ⟨h.ledger.bounds, fun c => ?_, h.ledger.within⟩
    simpa [Observation.cost] using h.ledger.counted c
  have hsound : Sound plan deps ({ w with
      projections := Function.update w.projections w.number (some projection)
      listed := Function.update w.listed w.number (some projection.itemCount)
      documents := Function.update w.documents w.number handed }.record
        (.answered w.number step.entry items)) := by
    refine ⟨hledger, ⟨h.handles.opened, fun call hcall => ?_⟩,
      ⟨h.results.stand, fun index number e found m t v hresult => ?_, h.results.summarized⟩,
      fun number e values rest hrest => ?_⟩
    · rcases List.mem_cons.mp hcall with hanswered | hcall
      · cases hanswered
      · exact h.handles.ended call hcall
    · obtain ⟨hprojection, hlisted, held, hheld, hfound⟩ :=
        hstored.results.answered index number e found m t v hresult
      exact ⟨hprojection, hlisted, held, List.mem_cons_of_mem _ hheld, hfound⟩
    · rcases List.suffix_cons_iff.mp hrest with heq | htail
      · simp at heq
      · exact h.keys number e values rest htail
  refine (hsound.push hclosed ?_).after (Grows.of_quiet
    [.answered w.number step.entry items] rfl (by simp [Observation.IsGrant]) fun _ hk => hk)
  refine ⟨⟨.read step, hstep, _, rfl⟩, ?_, by simp⟩
  rintro number entryId found m t v hresult
  cases hresult
  exact ⟨Function.update_self .., Function.update_self .., items, List.mem_cons_self, hproject⟩

theorem World.finishRead_leads {step : ReadStep} {refValues : ℕ} {withDocuments : Bool}
    {now : Reading} {response : AgentReadResponse} (h : Sound plan deps w) (hclosed : w.Closed)
    (hstep : plan.steps[w.results.length]? = some (.read step)) :
    Leads plan deps w (w.finishRead step refValues withDocuments now response) := by
  have hstop : ∀ {paid : World} {outcome : ReadOutcome}, Paid plan deps w paid →
      (AgentStepResult.read w.number step.entry outcome).Bare →
      Leads plan deps w (paid.push (.read w.number step.entry outcome)) :=
    fun hpaid hbare => hpaid.push hclosed hstep ⟨_, rfl⟩ hbare
  unfold World.finishRead
  simp only
  split
  · exact hstop (.refl h) trivial
  rename_i ok budget hwall
  have hpaid := h.withBudget (AgentRunBudget.checkWall_cases hwall).1
  split
  · exact hstop hpaid trivial
  split
  · exact hstop hpaid trivial
  · split
    · exact hstop hpaid trivial
    · exact hstop hpaid trivial
  · rename_i items hasMore truncated documents
    split
    · exact hstop hpaid trivial
    rename_i projection hproject
    split
    · have hstored := hpaid.sound.stored projection
      have hbare : (AgentStepResult.read w.number step.entry (.failed .unknown)).Bare := trivial
      have hpush := hstored.push hclosed (.of_bare hstep ⟨_, rfl⟩ hbare)
      exact hpush.after (hpaid.grows.trans (Grows.of_eq rfl rfl))
    · exact (hpaid.sound.answer hclosed hstep hproject).after hpaid.grows

/-! ## A summarize step -/

theorem World.reserveSummary_paid {tokens : ℕ} {now : Reading} (h : Sound plan deps w)
    (hready : w.Ready) : Paid plan deps w (w.reserveSummary tokens now).1 := by
  have hopen : ∀ c, some w.number = some c → .ended c ∉ w.log := by
    rintro c ⟨⟩ hended
    exact Nat.lt_irrefl _ (hready.fresh _ hended)
  unfold World.reserveSummary
  split
  · exact .refl h
  · rename_i turned hturned
    exact h.reserve (r := .modelCall .m2) hopen hturned
  · rename_i called hcalled
    have hpaid : Paid plan deps w called := h.reserve (r := .modelCall .m2) hopen hcalled
    have hopen' : ∀ c, some called.number = some c → .ended c ∉ called.log := by
      rintro c ⟨⟩ hended
      exact Nat.lt_irrefl _ ((hready.spent hpaid.spent).fresh _ hended)
    have htaken : Paid plan deps called
        (called.take (some called.number) (.inputTokens tokens)
          (called.budget.reserveInputTokens tokens)).2 :=
      hpaid.sound.take (called.budget.reserveInputTokens_answered tokens) hopen'
    split
    · rename_i turned hturned
      rw [hturned] at htaken
      exact hpaid.trans htaken
    · rename_i taken htaken'
      rw [htaken'] at htaken
      exact hpaid.trans htaken

theorem World.startSummary_leads {step : SummarizeStep} {clock : StartReadings}
    {m2 : SummarizerStart} (h : Sound plan deps w) (hready : w.Ready)
    (hstep : plan.steps[w.results.length]? = some (.summarize step)) :
    Leads plan deps w (w.startSummary deps step clock m2) := by
  have hstop : ∀ {status : SummaryStatus},
      (AgentStepResult.summarize w.number step.fromSteps step.schema status).Bare →
      Leads plan deps w (w.push (.summarize w.number step.fromSteps step.schema status)) :=
    fun hbare => (Paid.refl h).push hready.closed hstep ⟨_, rfl⟩ hbare
  have hwait : ∀ {paid : World} {settled : Option (Raced QuarantinedSummaryOutcome)},
      Paid plan deps w paid →
      Leads plan deps w { paid with phase := .summarizing step settled } := by
    intro paid settled hpaid
    have hready' := hready.spent hpaid.spent
    have hresults : paid.results = w.results := by
      obtain ⟨_, _, rfl, -⟩ := hpaid.spent
      rfl
    refine ⟨⟨hpaid.sound.inPhase _ _, ⟨hready'.closed, hready'.fresh⟩, ?_⟩,
      hpaid.grows.trans (Grows.of_eq rfl rfl)⟩
    show plan.steps[paid.results.length]? = some (.summarize step)
    rw [hresults]
    exact hstep
  unfold World.startSummary
  simp only
  split
  · exact hstop trivial
  split
  · exact hstop trivial
  · cases m2 with
    | listingOnly reason => exact hwait (.refl h)
    | fails => exact hwait (.refl h)
    | reserves tokens now => exact hwait (World.reserveSummary_paid h hready)

/-- A clock that throws once the call is over is a spent wall. -/
theorem AgentRunBudget.unspent_wall (budget : AgentRunBudget) (now : Reading) :
    budget.Unspent (match budget.checkWall now with
      | none => budget.markBreach .wallTime
      | some (_, next) => next) := by
  split
  · exact budget.unspent_fail .wallTime
  · rename_i hwall
    exact (checkWall_cases hwall).1

theorem sum_filter_le {numbers : List ℕ} {p : ℕ → Bool} {f g : ℕ → ℕ} (h : ∀ n, f n ≤ g n) :
    ((numbers.filter p).map f).sum ≤ (numbers.map g).sum := by
  induction numbers with
  | nil => simp
  | cons n numbers ih =>
    have hn := h n
    rw [List.filter_cons]
    split <;>
    · simp only [List.map_cons, List.sum_cons]
      omega

theorem Results.itemsListed_le (h : Results plan w) (number : ℕ) :
    itemsListed w.results number ≤ (w.listed number).getD 0 := by
  cases number with
  | zero => simp [itemsListed]
  | succ index =>
    simp only [itemsListed]
    split
    · rename_i hresult
      obtain ⟨-, hlisted, -⟩ := h.answered _ _ _ _ _ _ _ hresult
      simp [hlisted]
    · exact Nat.zero_le _

theorem World.finishSummary_leads {step : SummarizeStep} {now : Reading}
    {raced : Raced QuarantinedSummaryOutcome} (h : Sound plan deps w) (hclosed : w.Closed)
    (hstep : plan.steps[w.results.length]? = some (.summarize step)) :
    Leads plan deps w (w.finishSummary step now raced) := by
  have hstop : ∀ {paid : World} {status : SummaryStatus}, Paid plan deps w paid →
      (AgentStepResult.summarize w.number step.fromSteps step.schema status).Bare →
      Leads plan deps w (paid.push (.summarize w.number step.fromSteps step.schema status)) :=
    fun hpaid hbare => hpaid.push hclosed hstep ⟨_, rfl⟩ hbare
  unfold World.finishSummary
  simp only
  split
  · exact hstop (.refl h) trivial
  have hpaid := h.withBudget (w.budget.unspent_wall now)
  split
  · rename_i count _
    refine (hpaid.sound.push hclosed ⟨⟨_, hstep, _, rfl⟩, by simp, ?_⟩).after hpaid.grows
    rintro number fromSteps schema count' omitted hresult
    cases hresult
    have hsum := @sum_filter_le step.fromSteps (· ≤ w.results.length) _ _ h.results.itemsListed_le
    show ((step.fromSteps.filter (· ≤ w.results.length)).map (itemsListed w.results)).sum ≤ _
    omega
  · exact hstop hpaid trivial
  · exact hstop hpaid trivial
  · exact hstop hpaid trivial

/-! ## Every step -/

theorem World.startStep_leads {step : ValidatedAgentStep} {clock : StartReadings}
    {m2 : SummarizerStart} (h : Sound plan deps w) (hready : w.Ready)
    (hstep : plan.steps[w.results.length]? = some step) :
    Leads plan deps w (w.startStep plan deps step clock m2) := by
  have hstop : ∀ {paid : World}, Paid plan deps w paid →
      Leads plan deps w (paid.push (notRun step paid.number .bound)) := by
    intro paid hpaid
    have hnumber : paid.number = w.number := by
      obtain ⟨_, _, rfl, -⟩ := hpaid.spent
      rfl
    rw [hnumber]
    obtain ⟨hstands, hbare⟩ := standsFor_notRun step w.number .bound
    exact hpaid.push hready.closed hstep hstands hbare
  unfold World.startStep
  simp only
  split
  · exact hstop (.refl h)
  split
  · exact hstop (.refl h)
  · rename_i turned hturned
    exact hstop (h.reserve (r := .step) (by simp) hturned)
  · rename_i started hstarted
    have hpaid : Paid plan deps w started := h.reserve (r := .step) (by simp) hstarted
    have hready' := hready.spent hpaid.spent
    have hresults : started.results = w.results := by
      obtain ⟨_, _, rfl, -⟩ := hpaid.spent
      rfl
    rw [← hresults] at hstep
    cases step with
    | read step => exact (World.startRead_leads hpaid.sound hready' hstep).after hpaid.grows
    | summarize step => exact (World.startSummary_leads hpaid.sound hready' hstep).after hpaid.grows

theorem Invariant.spent (h : Invariant plan deps w) (hpaid : Paid plan deps w next)
    (hrunning : ∀ result, w.phase ≠ .done result) : Invariant plan deps next := by
  refine ⟨hpaid.sound, ?_⟩
  have hphase := h.phase
  obtain ⟨budget, grants, rfl, hgrants⟩ := hpaid.spent
  show w.phase.Fits plan _
  cases hp : w.phase with
  | idle =>
    rw [hp] at hphase
    exact ⟨hphase.closed, fun call hcall => hphase.fresh call ((mem_of_spent id hgrants).mp hcall)⟩
  | reading step refValues withDocuments settled =>
    rw [hp] at hphase
    exact ⟨hphase.1, fun call hcall => hphase.2 call ((mem_of_spent id hgrants).mp hcall)⟩
  | summarizing step settled =>
    rw [hp] at hphase
    exact ⟨⟨hphase.1.closed,
      fun call hcall => hphase.1.fresh call ((mem_of_spent id hgrants).mp hcall)⟩, hphase.2⟩
  | done result => exact absurd hp (hrunning result)

/-- More aborted signals change nothing else. -/
theorem Invariant.abort (h : Invariant plan deps w) (call : ℕ) :
    Invariant plan deps (w.abort call) := by
  refine ⟨h.sound.abort call, ?_⟩
  have hphase := h.phase
  show w.phase.Fits plan _
  cases hp : w.phase with
  | idle =>
    rw [hp] at hphase
    exact ⟨hphase.closed.abort call, hphase.fresh⟩
  | reading step refValues withDocuments settled =>
    rw [hp] at hphase
    exact hphase
  | summarizing step settled =>
    rw [hp] at hphase
    exact ⟨⟨hphase.1.closed.abort call, hphase.1.fresh⟩, hphase.2⟩
  | done result =>
    rw [hp] at hphase
    obtain ⟨hclosed, hsteps, hall, hbreach, hcomplete⟩ := hphase
    exact ⟨hclosed.abort call, hsteps, hall, hbreach, hcomplete⟩

theorem World.useHandle_leads {call : ℕ} {method : HandleMethod} {now : Reading}
    (h : Invariant plan deps w) (hopened : call ∈ w.opened) :
    Leads plan deps w (w.useHandle call method now) := by
  unfold World.useHandle
  split
  · exact ⟨h, Grows.refl w⟩
  rename_i hlive
  have hrunning : ∀ result, w.phase ≠ .done result := by
    intro result hdone
    have hphase := h.phase
    rw [hdone] at hphase
    exact hlive (hphase.1 call hopened)
  have hopen : ∀ c, some call = some c → .ended c ∉ w.log := by
    rintro c ⟨⟩ hended
    exact hlive (h.sound.handles.ended call hended).1
  split
  · exact ⟨h, Grows.refl w⟩
  · rename_i taken htaken
    have hpaid : Paid plan deps w taken := h.sound.reserve hopen htaken
    exact ⟨h.spent hpaid hrunning, hpaid.grows⟩
  · rename_i turned hturned
    have hpaid : Paid plan deps w turned := h.sound.reserve hopen hturned
    exact ⟨(h.spent hpaid hrunning).abort call, hpaid.grows.trans (Grows.of_eq rfl rfl)⟩

/-- The wall cuts a call off. -/
theorem Sound.wall (h : Sound plan deps w) :
    Paid plan deps w (w.withBudget (w.budget.markBreach .wallTime)) :=
  h.withBudget (w.budget.unspent_fail .wallTime)

theorem World.finish_leads {now : Reading} (h : Sound plan deps w) (hready : w.Ready)
    (hall : w.results.length = plan.steps.length) : Leads plan deps w (w.finish now) := by
  refine ⟨⟨h.inPhase _ _, hready.closed, rfl, hall, rfl, fun hcomplete => ?_⟩,
    Grows.of_eq rfl rfl⟩
  by_cases hok : w.budget.firstBreach = none ∧ w.results.all (·.answered)
  · exact ⟨hok.1, List.all_eq_true.mp hok.2⟩
  · rw [if_neg hok] at hcomplete
    cases hcomplete

/-- What one step keeps. -/
theorem step_leads {event : Event} (h : Invariant plan deps w)
    (hstep : step plan deps w event = some next) : Leads plan deps w next := by
  have hphase := h.phase
  cases event with
  | startStep clock m2 =>
    simp only [step] at hstep
    split at hstep
    · rename_i s hidle hs
      rw [hidle] at hphase
      cases hstep
      exact World.startStep_leads h.sound hphase hs
    · cases hstep
  | useHandle call method now =>
    simp only [step] at hstep
    split at hstep
    · rename_i hopened
      cases hstep
      exact World.useHandle_leads h hopened
    · cases hstep
  | portSettles response =>
    simp only [step] at hstep
    split at hstep
    · rename_i hreading
      rw [hreading] at hphase
      cases hstep
      exact ⟨⟨h.sound.inPhase _ _, hphase⟩, Grows.of_eq rfl rfl⟩
    · cases hstep
  | modelSettles outcome =>
    simp only [step] at hstep
    split at hstep
    · rename_i hsummarizing
      rw [hsummarizing] at hphase
      cases hstep
      exact ⟨⟨h.sound.inPhase _ _, ⟨hphase.1.closed, hphase.1.fresh⟩, hphase.2⟩,
        Grows.of_eq rfl rfl⟩
    · cases hstep
  | wallFires =>
    have hwall := h.sound.wall
    have haborted := hwall.sound.abort w.number
    simp only [step] at hstep
    split at hstep
    · rename_i hreading
      rw [hreading] at hphase
      cases hstep
      exact ⟨⟨haborted.inPhase _ _, hphase⟩, hwall.grows.trans (Grows.of_eq rfl rfl)⟩
    · rename_i hsummarizing
      rw [hsummarizing] at hphase
      cases hstep
      exact ⟨⟨haborted.inPhase _ _, ⟨hphase.1.closed.abort w.number, hphase.1.fresh⟩, hphase.2⟩,
        hwall.grows.trans (Grows.of_eq rfl rfl)⟩
    · cases hstep
  | resume now =>
    obtain ⟨hended, hclosed, hgrows⟩ := h.sound.endCall
    simp only [step] at hstep
    split at hstep
    · rename_i s refValues withDocuments raced hreading
      rw [hreading] at hphase
      have hstop : ∀ {outcome : ReadOutcome},
          (AgentStepResult.read w.number s.entry outcome).Bare →
          Leads plan deps w (w.endCall.push (.read w.number s.entry outcome)) :=
        fun hbare => ((Paid.refl hended).push hclosed hphase.1 ⟨_, rfl⟩ hbare).after hgrows
      cases raced with
      | rejected =>
        cases hstep
        exact hstop trivial
      | wall =>
        cases hstep
        exact hstop trivial
      | answer response =>
        cases hstep
        exact (World.finishRead_leads hended hclosed hphase.1).after hgrows
    · rename_i s raced hsummarizing
      rw [hsummarizing] at hphase
      cases hstep
      exact (World.finishSummary_leads hended hclosed hphase.2).after hgrows
    · cases hstep
  | finish now =>
    simp only [step] at hstep
    split at hstep
    · rename_i hidle
      rw [hidle] at hphase
      split at hstep
      · rename_i hall
        cases hstep
        exact World.finish_leads h.sound hphase hall
      · cases hstep
    · cases hstep

/-! ## What holds of every run -/

theorem begin_invariant (now : Reading) : Invariant plan deps (begin plan deps now) := by
  cases now with
  | none =>
    have hlength : (begin plan deps none).results.length = plan.steps.length := by
      simp [begin]
    have hat : ∀ (index : ℕ) (result : AgentStepResult),
        (begin plan deps none).results[index]? = some result →
        ∃ step, plan.steps[index]? = some step ∧ result = notRun step (index + 1) .bound := by
      intro index result hresult
      simp only [begin, List.getElem?_map, List.getElem?_zipIdx] at hresult
      cases hstep : plan.steps[index]? with
      | none => simp [hstep] at hresult
      | some step =>
        refine ⟨step, rfl, ?_⟩
        simpa [hstep] using hresult.symm
    refine ⟨⟨⟨rfl, fun c => by cases c <;> rfl, fun c => by cases c <;> exact Nat.zero_le _⟩,
      ⟨by simp [begin], by simp [begin]⟩, ⟨fun index result hresult => ?_, ?_, ?_⟩, ?_⟩,
      by simp [World.Closed, begin], rfl, hlength, rfl, by simp⟩
    · obtain ⟨step, hstep, rfl⟩ := hat index result hresult
      exact ⟨step, hstep, (standsFor_notRun step _ .bound).1⟩
    · intro index number entryId projection m t v hresult
      obtain ⟨step, -, hread⟩ := hat index _ hresult
      cases step <;> simp [notRun] at hread
    · intro index number fromSteps schema count omitted hresult
      obtain ⟨step, -, hsummary⟩ := hat index _ hresult
      cases step <;> simp [notRun] at hsummary
    · intro number entryId keys rest hrest
      simp [begin] at hrest
  | some startedAt =>
    have hbudget : ∀ kind, AgentRunBudget.Unspent (.new deps.bounds startedAt)
        ((AgentRunBudget.new deps.bounds startedAt).markBreach kind) :=
      fun kind => AgentRunBudget.unspent_fail _ kind
    have hnew : Ledger deps.bounds (begin plan deps (some startedAt)).budget [] := by
      simp only [begin]
      split
      · refine ⟨rfl, fun c => ?_, fun c => ?_⟩
        · rw [(hbudget .connectorQueries).used]
          cases c <;> rfl
        · rw [(hbudget .connectorQueries).used]
          cases c <;> exact Nat.zero_le _
      · exact ⟨rfl, fun c => by cases c <;> rfl, fun c => by cases c <;> exact Nat.zero_le _⟩
    exact ⟨⟨hnew, ⟨by simp [begin], by simp [begin]⟩, ⟨by simp [begin], by simp [begin],
      by simp [begin]⟩, by simp [begin]⟩, by simp [World.Closed, begin], by simp [begin]⟩

theorem reaches_invariant {now : Reading}
    (h : Machine.Reaches (step plan deps) (begin plan deps now) w) : Invariant plan deps w :=
  h.invariant (fun _ _ _ hw hstep => (step_leads hw hstep).invariant) (begin_invariant now)

end

/-- The guarantees of a bounded run, in every state the run reaches: no counter is granted beyond its
bound; whatever is reached later, a breach stays the first one and ends every grant, and so does the
end of a call for its handle; the keys of a read are ids of an earlier successful read of the same
source, origin and id field; and a run that ends complete breached nothing, answered every read and
summarized every listed item. -/
theorem run_bounded (plan : RunPlan) (deps : AgentPlanExecutorDeps) (now : Reading) (w : World)
    (h : Machine.Reaches (step plan deps) (begin plan deps now) w) :
    (∀ c, grantedTotal c w.log ≤ deps.bounds.max c) ∧
    (∀ next, Machine.Reaches (step plan deps) w next → ∃ later, next.log = later ++ w.log ∧
      (∀ kind, w.budget.firstBreach = some kind →
        next.budget.firstBreach = some kind ∧ ∀ o ∈ later, ¬ o.IsGrant) ∧
      ∀ call, .ended call ∈ w.log → ∀ r, .granted (some call) r ∉ later) ∧
    (∀ number entryId keys rest, .read number entryId (some keys) :: rest <:+ w.log →
      Sourced w.results rest number entryId keys) ∧
    ∀ result, w.phase = .done result →
      result.steps = w.results ∧ result.breach = w.budget.firstBreach ∧
      (result.outcome = .complete → w.budget.firstBreach = none ∧
        (∀ (index : ℕ) (step : ReadStep), plan.steps[index]? = some (.read step) →
          ∃ projection hasMore truncated refValues, result.steps[index]? =
            some (.read (index + 1) step.entry (.ok projection hasMore truncated refValues))) ∧
        ∀ (index : ℕ) (step : SummarizeStep) (count omitted : ℕ),
          plan.steps[index]? = some (.summarize step) →
          result.steps[index]? =
            some (.summarize (index + 1) step.fromSteps step.schema (.ok count omitted)) →
          ((step.fromSteps.filter (· ≤ index)).map (itemsListed result.steps)).sum ≤ count) := by
  have hw := reaches_invariant h
  refine ⟨fun c => ?_, fun next hnext => ?_, hw.sound.keys, fun result hdone => ?_⟩
  · rw [← hw.sound.ledger.counted c]
    exact hw.sound.ledger.within c
  · obtain ⟨events, hrun⟩ := hnext
    have hgrows : Grows w next := Machine.run_relation
      (fun _ _ _ hi hstep => (step_leads hi hstep).invariant)
      (fun _ _ _ hi hstep => (step_leads hi hstep).grows) hw hrun
    obtain ⟨later, hlater⟩ := hgrows.log
    refine ⟨later, hlater.symm, fun kind hk => ?_, fun call hcall r => ?_⟩
    · obtain ⟨hbreach, hno⟩ := hgrows.breach kind hk
      exact ⟨hbreach, fun o ho => hno o later hlater.symm ho⟩
    · exact hgrows.ended call hcall later r hlater.symm
  · have hphase := hw.phase
    rw [hdone] at hphase
    obtain ⟨-, hsteps, hall, hbreach, hcomplete⟩ := hphase
    refine ⟨hsteps, hbreach, fun houtcome => ?_⟩
    obtain ⟨hnone, hanswered⟩ := hcomplete houtcome
    rw [hsteps]
    refine ⟨hnone, fun index step hstep => ?_, fun index step count omitted hstep hresult => ?_⟩
    · have hlt : index < w.results.length := by
        rw [hall]
        exact (List.getElem?_eq_some_iff.mp hstep).1
      have hresult := List.getElem?_eq_getElem hlt
      obtain ⟨found, hfound, hstands⟩ := hw.sound.results.stand index _ hresult
      obtain rfl : .read step = found := Option.some.inj (hstep.symm.trans hfound)
      obtain ⟨outcome, houtcome⟩ := hstands
      have hok := hanswered _ (List.getElem_mem hlt)
      rw [houtcome] at hok
      rw [hresult, houtcome]
      cases outcome with
      | ok projection m t v => exact ⟨projection, m, t, v, rfl⟩
      | failed code => cases hok
      | notRun reason => cases hok
    · have hok := hanswered _ (List.mem_of_getElem? hresult)
      have hzero : omitted = 0 := by simpa [AgentStepResult.answered] using hok
      have hsum := hw.sound.results.summarized index _ _ _ _ _ hresult
      omega

/-- A second request over a bound of one is refused; a later one through the handle stays refused. -/
theorem run_bounded_refused :
    let plan : RunPlan := ⟨.run, [.read ⟨.jiraIssues, none, none⟩], 1⟩
    let deps : AgentPlanExecutorDeps :=
      ⟨fun _ => true, none, { AGENT_RUN_BOUNDS with maxHttpRequests := 1 }, fun _ _ => false⟩
    let t : Reading := some (.ms 0)
    ∃ w, Machine.run (step plan deps) (begin plan deps t)
        [.startStep ⟨t, t, t, t⟩ .fails, .useHandle 1 .reserveHttp t, .useHandle 1 .reserveHttp t,
          .portSettles (.ok (some []) false false none), .resume t, .useHandle 1 .reserveHttp t,
          .finish t] = some w ∧
      w.budget.firstBreach = some .httpRequests ∧ grantedTotal .httpRequests w.log = 1 ∧
      grantedTotal .httpRequests w.log ≤ 1 := by
  intro plan deps t
  have hrun : ((Machine.run (step plan deps) (begin plan deps t)
      [.startStep ⟨t, t, t, t⟩ .fails, .useHandle 1 .reserveHttp t, .useHandle 1 .reserveHttp t,
        .portSettles (.ok (some []) false false none), .resume t, .useHandle 1 .reserveHttp t,
        .finish t]).map fun w => (w.budget.firstBreach, grantedTotal .httpRequests w.log)) =
      some (some .httpRequests, 1) := by
    decide +kernel
  obtain ⟨w, hw, hpair⟩ := Option.map_eq_some_iff.mp hrun
  simp only [Prod.mk.injEq] at hpair
  exact ⟨w, hw, hpair.1, hpair.2, (run_bounded plan deps t w ⟨_, hw⟩).1 .httpRequests⟩

end QuokyPlatform.AgentRuns
