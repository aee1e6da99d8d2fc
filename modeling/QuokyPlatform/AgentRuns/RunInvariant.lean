import QuokyPlatform.AgentRuns.Executor

/-! # What every step of a run keeps

The log of a run tells what was granted, asked, answered and ended. `Sound` ties it to the state:
the counters are the sums of the grants and stay under the bounds, the handles of ended calls are
aborted, every result stands for its step of the plan, and the keys of every read are ids of an
earlier answer. `Grows` relates two states of one run: the log only grows, a breach ends the grants,
and so does the end of a call. Both are proved for the few ways a step changes the state and then
read off for each function of the executor. -/

namespace QuokyPlatform.AgentRuns
open Chunking

set_option autoImplicit false
set_option maxHeartbeats 250000

/-! ## Reading the log -/

namespace Observation

def IsGrant : Observation → Prop
  | .granted .. => True
  | _ => False

def cost (c : Counter) : Observation → ℕ
  | .granted _ r => r.cost c
  | _ => 0

end Observation

/-- How much was granted. -/
def grantedTotal (c : Counter) (log : List Observation) : ℕ := (log.map (·.cost c)).sum

@[simp] theorem grantedTotal_cons (c : Counter) (o : Observation) (log : List Observation) :
    grantedTotal c (o :: log) = o.cost c + grantedTotal c log := by
  simp [grantedTotal]

/-- Keys are ids that the projector took from the answer of an earlier read that succeeded, of the same
source and origin and of that source's id field. -/
def Sourced (results : List AgentStepResult) (log : List Observation) (number : ℕ)
    (entryId : NlWave1EntryId) (keys : List JsString) : Prop :=
  ∃ index from_ items projection field hasMore truncated refValues, index + 1 < number ∧
    results[index]? =
      some (.read (index + 1) from_ (.ok projection hasMore truncated refValues)) ∧
    .answered (index + 1) from_ items ∈ log ∧ projectStructure from_ items = some projection ∧
    (AGENT_READ_SOURCES from_).source = (AGENT_READ_SOURCES entryId).source ∧
    (AGENT_READ_SOURCES from_).origin = (AGENT_READ_SOURCES entryId).origin ∧
    (AGENT_READ_SOURCES from_).refField = some field ∧
    ∀ key ∈ keys, key ∈ projection.ids ∧ isProjectedId field key

/-- The items the read of a step listed, when it was answered. -/
def itemsListed (results : List AgentStepResult) (number : ℕ) : ℕ :=
  match number with
  | 0 => 0
  | index + 1 =>
    match results[index]? with
    | some (.read _ _ (.ok projection ..)) => projection.itemCount
    | _ => 0

/-- A result of a step under its number. -/
def AgentStepResult.StandsFor (result : AgentStepResult) (number : ℕ) : ValidatedAgentStep → Prop
  | .read step => ∃ outcome, result = .read number step.entry outcome
  | .summarize step => ∃ status, result = .summarize number step.fromSteps step.schema status

/-! ## The invariant -/

structure Ledger (limits : AgentRunBoundValues) (budget : AgentRunBudget) (log : List Observation) :
    Prop where
  bounds : budget.bounds = limits
  counted : ∀ c, budget.used c = grantedTotal c log
  within : ∀ c, budget.used c ≤ limits.max c

structure Handles (w : World) : Prop where
  opened : ∀ call ∈ w.opened, call ∈ w.aborted ∨ call = w.number
  ended : ∀ call, .ended call ∈ w.log → call ∈ w.aborted ∧ call ≤ w.number

structure Results (plan : RunPlan) (w : World) : Prop where
  stand : ∀ (index : ℕ) (result : AgentStepResult), w.results[index]? = some result →
    ∃ step, plan.steps[index]? = some step ∧ result.StandsFor (index + 1) step
  answered : ∀ index number entryId projection hasMore truncated refValues,
    w.results[index]? = some (.read number entryId (.ok projection hasMore truncated refValues)) →
    w.projections (index + 1) = some projection ∧
      w.listed (index + 1) = some projection.itemCount ∧
      ∃ items, .answered (index + 1) entryId items ∈ w.log ∧
        projectStructure entryId items = some projection
  summarized : ∀ (index number : ℕ) (fromSteps : List ℕ) schema count omitted,
    w.results[index]? = some (.summarize number fromSteps schema (.ok count omitted)) →
    ((fromSteps.filter (· ≤ index)).map (itemsListed w.results)).sum ≤ count + omitted

structure Sound (plan : RunPlan) (deps : AgentPlanExecutorDeps) (w : World) : Prop where
  ledger : Ledger deps.bounds w.budget w.log
  handles : Handles w
  results : Results plan w
  keys : ∀ number entryId keys rest, .read number entryId (some keys) :: rest <:+ w.log →
    Sourced w.results rest number entryId keys

/-- No port can reserve anything. -/
def World.Closed (w : World) : Prop := ∀ call ∈ w.opened, call ∈ w.aborted

/-- The step to come has no call yet. -/
structure World.Ready (w : World) : Prop where
  closed : w.Closed
  fresh : ∀ call, .ended call ∈ w.log → call < w.number

/-- What the result of a run says of the state it was taken from. -/
structure AgentRunResult.Reports (plan : RunPlan) (result : AgentRunResult) (w : World) : Prop where
  steps : result.steps = w.results
  all : w.results.length = plan.steps.length
  breach : result.breach = w.budget.firstBreach
  complete : result.outcome = .complete →
    w.budget.firstBreach = none ∧ ∀ r ∈ w.results, r.answered = true

def Phase.Fits (plan : RunPlan) (w : World) : Phase → Prop
  | .idle => w.Ready
  | .reading step .. =>
    plan.steps[w.results.length]? = some (.read step) ∧ ∀ call, .ended call ∈ w.log → call < w.number
  | .summarizing step _ => w.Ready ∧ plan.steps[w.results.length]? = some (.summarize step)
  | .done result => w.Closed ∧ result.Reports plan w

structure Invariant (plan : RunPlan) (deps : AgentPlanExecutorDeps) (w : World) : Prop where
  sound : Sound plan deps w
  phase : w.phase.Fits plan w

/-- Two states of one run, the later one second. -/
structure Grows (w next : World) : Prop where
  log : w.log <:+ next.log
  breach : ∀ kind, w.budget.firstBreach = some kind →
    next.budget.firstBreach = some kind ∧
      ∀ o later, next.log = later ++ w.log → o ∈ later → ¬ o.IsGrant
  ended : ∀ call, .ended call ∈ w.log →
    ∀ later r, next.log = later ++ w.log → .granted (some call) r ∉ later

namespace Grows

variable {w next third : World}

theorem refl (w : World) : Grows w w := by
  have hnil : ∀ later, w.log = later ++ w.log → later = [] := by simp
  refine ⟨List.suffix_refl _, fun kind hk => ⟨hk, fun o later hlog ho => ?_⟩,
    fun call _ later r hlog hmem => ?_⟩
  · simp [hnil later hlog] at ho
  · simp [hnil later hlog] at hmem

theorem trans (h : Grows w next) (h' : Grows next third) : Grows w third := by
  obtain ⟨first, hfirst⟩ := h.log
  obtain ⟨second, hsecond⟩ := h'.log
  have hsplit : ∀ later, third.log = later ++ w.log → later = second ++ first := by
    intro later hlater
    rw [← hsecond, ← hfirst, ← List.append_assoc] at hlater
    exact (List.append_cancel_right hlater).symm
  refine ⟨h.log.trans h'.log, fun kind hk => ?_, fun call hcall later r hlater hmem => ?_⟩
  · obtain ⟨hnext, hno⟩ := h.breach kind hk
    obtain ⟨hthird, hno'⟩ := h'.breach kind hnext
    refine ⟨hthird, fun o later hlater ho => ?_⟩
    rw [hsplit later hlater] at ho
    rcases List.mem_append.mp ho with ho | ho
    · exact hno' o second hsecond.symm ho
    · exact hno o first hfirst.symm ho
  · rw [hsplit later hlater] at hmem
    rcases List.mem_append.mp hmem with hmem | hmem
    · exact h'.ended call (h.log.subset hcall) second r hsecond.symm hmem
    · exact h.ended call hcall first r hfirst.symm hmem

/-- Nothing granted, and no breach undone. -/
theorem of_quiet (later : List Observation) (hlog : next.log = later ++ w.log)
    (hquiet : ∀ o ∈ later, ¬ o.IsGrant)
    (hbreach : ∀ kind, w.budget.firstBreach = some kind → next.budget.firstBreach = some kind) :
    Grows w next := by
  have hsplit : ∀ l, next.log = l ++ w.log → l = later := by
    intro l hl
    exact List.append_cancel_right (hl.symm.trans hlog)
  refine ⟨⟨later, hlog.symm⟩, fun kind hk => ⟨hbreach kind hk, fun o l hl ho => ?_⟩,
    fun call _ l r hl hmem => ?_⟩
  · rw [hsplit l hl] at ho
    exact hquiet o ho
  · rw [hsplit l hl] at hmem
    exact hquiet _ hmem trivial

/-- The log and the budget stand. -/
theorem of_eq (hlog : next.log = w.log) (hbudget : next.budget = w.budget) : Grows w next :=
  of_quiet [] hlog (by simp) (by simp [hbudget])

end Grows

instance : Std.Refl Grows := ⟨Grows.refl⟩
instance : IsTrans World Grows := ⟨fun _ _ _ => Grows.trans⟩

/-! ## Answers of the budget -/

/-- Only the budget moved, and grants were recorded. -/
def Spent (w next : World) : Prop :=
  ∃ budget grants, next = { w with budget, log := grants ++ w.log } ∧ ∀ o ∈ grants, o.IsGrant

theorem Spent.trans {w next third : World} (h : Spent w next) (h' : Spent next third) :
    Spent w third := by
  obtain ⟨_, grants, rfl, hgrants⟩ := h
  obtain ⟨budget, more, rfl, hmore⟩ := h'
  refine ⟨budget, more ++ grants, ?_, fun o ho => ?_⟩
  · simp only [List.append_assoc]
  · rcases List.mem_append.mp ho with ho | ho
    · exact hmore o ho
    · exact hgrants o ho

theorem mem_of_spent {grants log : List Observation} {o : Observation} (ho : ¬ o.IsGrant)
    (hgrants : ∀ o ∈ grants, o.IsGrant) : o ∈ grants ++ log ↔ o ∈ log := by
  constructor
  · intro hmem
    rcases List.mem_append.mp hmem with hmem | hmem
    · exact absurd (hgrants o hmem) ho
    · exact hmem
  · exact fun hmem => List.mem_append_right _ hmem

theorem suffix_of_spent {grants log rest : List Observation} {o : Observation} (ho : ¬ o.IsGrant)
    (hgrants : ∀ o ∈ grants, o.IsGrant) (h : o :: rest <:+ grants ++ log) : o :: rest <:+ log := by
  induction grants with
  | nil => exact h
  | cons grant grants ih =>
    rcases List.suffix_cons_iff.mp h with heq | htail
    · have hgrant : o = grant := by
        have hhead := congrArg List.head? heq
        simpa using hhead
      exact absurd (hgrants grant List.mem_cons_self) (hgrant ▸ ho)
    · exact ih (fun o ho => hgrants o (List.mem_cons_of_mem _ ho)) htail

section

variable {plan : RunPlan} {deps : AgentPlanExecutorDeps} {w next : World}

/-- Once the ledger is right, the rest of the invariant does not look at the budget. -/
theorem Sound.spent (h : Sound plan deps w) (hspent : Spent w next)
    (hledger : Ledger deps.bounds next.budget next.log) : Sound plan deps next := by
  obtain ⟨budget, grants, rfl, hgrants⟩ := hspent
  refine ⟨hledger, ⟨h.handles.opened, fun call hcall => ?_⟩,
    ⟨h.results.stand, fun index number entryId projection m t v hresult => ?_,
      h.results.summarized⟩, fun number entryId keys rest hrest => ?_⟩
  · exact h.handles.ended call ((mem_of_spent id hgrants).mp hcall)
  · obtain ⟨hprojection, hlisted, items, hitems, hproject⟩ :=
      h.results.answered index number entryId projection m t v hresult
    exact ⟨hprojection, hlisted, items, List.mem_append_right _ hitems, hproject⟩
  · exact h.keys number entryId keys rest (suffix_of_spent id hgrants hrest)

/-- Neither the phase nor the refusals of a summary matter to it. -/
theorem Sound.inPhase (h : Sound plan deps w) (phase : Phase)
    (denials : ℕ → ℕ → Option QuarantinedListingOnlyReason) :
    Sound plan deps { w with phase, denials } :=
  ⟨h.ledger, ⟨h.handles.opened, h.handles.ended⟩,
    ⟨h.results.stand, h.results.answered, h.results.summarized⟩, h.keys⟩

theorem Sound.abort (h : Sound plan deps w) (call : ℕ) : Sound plan deps (w.abort call) := by
  refine ⟨h.ledger, ⟨fun c hc => ?_, fun c hc => ?_⟩,
    ⟨h.results.stand, h.results.answered, h.results.summarized⟩, h.keys⟩
  · exact (h.handles.opened c hc).imp_left (List.mem_cons_of_mem _)
  · obtain ⟨haborted, hle⟩ := h.handles.ended c hc
    exact ⟨List.mem_cons_of_mem _ haborted, hle⟩

theorem World.Closed.abort (h : w.Closed) (call : ℕ) : (w.abort call).Closed :=
  fun c hc => List.mem_cons_of_mem _ (h c hc)

theorem World.Ready.spent (h : w.Ready) (hspent : Spent w next) : next.Ready := by
  obtain ⟨budget, grants, rfl, hgrants⟩ := hspent
  exact ⟨h.closed, fun call hcall => h.fresh call ((mem_of_spent id hgrants).mp hcall)⟩

/-- The state after some answers of the budget. -/
structure Paid (plan : RunPlan) (deps : AgentPlanExecutorDeps) (w next : World) : Prop where
  spent : Spent w next
  sound : Sound plan deps next
  grows : Grows w next

theorem Paid.trans {third : World} (h : Paid plan deps w next) (h' : Paid plan deps next third) :
    Paid plan deps w third :=
  ⟨h.spent.trans h'.spent, h'.sound, h.grows.trans h'.grows⟩

theorem Sound.withBudget {budget : AgentRunBudget} (h : Sound plan deps w)
    (hunspent : AgentRunBudget.Unspent w.budget budget) : Paid plan deps w (w.withBudget budget) := by
  have hspent : Spent w (w.withBudget budget) := ⟨budget, [], rfl, by simp⟩
  refine ⟨hspent, h.spent hspent ⟨hunspent.bounds.trans h.ledger.bounds, fun c => ?_, fun c => ?_⟩,
    Grows.of_quiet [] rfl (by simp) hunspent.sticky⟩
  · rw [show (w.withBudget budget).budget.used c = w.budget.used c from congrFun hunspent.used c]
    exact h.ledger.counted c
  · rw [show (w.withBudget budget).budget.used c = w.budget.used c from congrFun hunspent.used c]
    exact h.ledger.within c

theorem Sound.grant {budget : AgentRunBudget} {call : Option ℕ} {r : Reservation}
    (h : Sound plan deps w) (hgranted : AgentRunBudget.Granted w.budget budget r)
    (hopen : ∀ c, call = some c → .ended c ∉ w.log) :
    Paid plan deps w ((w.withBudget budget).record (.granted call r)) := by
  have hspent : Spent w ((w.withBudget budget).record (.granted call r)) :=
    ⟨budget, [.granted call r], rfl, by simp [Observation.IsGrant]⟩
  have hbounds := hgranted.bounds.trans h.ledger.bounds
  refine ⟨hspent, h.spent hspent ⟨hbounds, fun c => ?_, fun c => ?_⟩, ?_⟩
  · show budget.used c = r.cost c + grantedTotal c w.log
    rw [hgranted.used c, h.ledger.counted c, Nat.add_comm]
  · show budget.used c ≤ _
    by_cases hc : r.cost c = 0
    · rw [hgranted.used c, hc]
      exact h.ledger.within c
    · rw [← hbounds]
      exact hgranted.fits c hc
  · have hsplit : ∀ later, .granted call r :: w.log = later ++ w.log → later = [.granted call r] :=
      fun later hl => (List.append_cancel_right (show [_] ++ w.log = later ++ w.log from hl)).symm
    refine ⟨List.suffix_cons _ _, fun kind hk => ?_, fun c hc later r' hl hmem => ?_⟩
    · rw [hgranted.intact] at hk
      cases hk
    · rw [hsplit later hl] at hmem
      have hsame : some c = call := by
        have := List.mem_singleton.mp hmem
        simp only [Observation.granted.injEq] at this
        exact this.1
      exact hopen c hsame.symm hc

theorem Sound.take {answer : Bool × AgentRunBudget} {call : Option ℕ} {r : Reservation}
    (h : Sound plan deps w) (hanswered : AgentRunBudget.Answered w.budget answer.2 r answer.1)
    (hopen : ∀ c, call = some c → .ended c ∉ w.log) :
    Paid plan deps w (w.take call r answer).2 := by
  obtain ⟨ok, budget⟩ := answer
  cases hanswered with
  | granted hgranted => exact h.grant hgranted hopen
  | refused hunspent _ => exact h.withBudget hunspent

/-- A reservation through the budget's own dispatch. -/
theorem Sound.reserve {call : Option ℕ} {r : Reservation} {now : Reading} {ok : Bool}
    (h : Sound plan deps w) (hopen : ∀ c, call = some c → .ended c ∉ w.log)
    (htake : (w.budget.reserve now r).map (w.take call r) = some (ok, next)) :
    Paid plan deps w next := by
  obtain ⟨answer, hreserve, htaken⟩ := Option.map_eq_some_iff.mp htake
  have hpaid := h.take (AgentRunBudget.reserve_answered hreserve) hopen
  rw [htaken] at hpaid
  exact hpaid

end

end QuokyPlatform.AgentRuns
