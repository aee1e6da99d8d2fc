import Mathlib.Algebra.Order.Field.Rat
import Mathlib.Tactic.Common

/-! # The budget of one agent run

The counters of a bounded read agent's run, as `AgentRunBudget` keeps them. Every method that grants
work reads the clock at most once, before it changes anything, and the clock may throw: a call gives
`none` when it threw and left the budget as it was. A refusal is a breach, and the first breach
stays. The end of the module says once what any reservation can do. -/

namespace QuokyPlatform.AgentRuns

set_option autoImplicit false
set_option maxHeartbeats 250000

/-! ## The clock -/

/-- A number the clock may answer. -/
inductive Instant where
  | nan
  | infinite (positive : Bool)
  | ms (value : ℚ)
  deriving DecidableEq

namespace Instant

def minus : Instant → Instant → Instant
  | nan, _ => nan
  | _, nan => nan
  | infinite p, infinite q => if p = q then nan else infinite p
  | infinite p, ms _ => infinite p
  | ms _, infinite q => infinite !q
  | ms a, ms b => ms (a - b)

/-- `Math.max(0, value)`. -/
def max0 : Instant → Instant
  | nan => nan
  | infinite true => infinite true
  | infinite false => ms 0
  | ms a => ms (max 0 a)

/-- `value >= bound`; a comparison with `NaN` is false. -/
def atLeast : Instant → ℕ → Bool
  | nan, _ => false
  | infinite positive, _ => positive
  | ms a, bound => (bound : ℚ) ≤ a

end Instant

/-- One reading of the clock; `none` when it throws. -/
abbrev Reading := Option Instant

/-! ## Bounds and counters -/

structure AgentRunBoundValues where
  maxSteps : ℕ
  maxReplans : ℕ
  maxConnectorQueries : ℕ
  maxHttpRequests : ℕ
  maxModelCalls : ℕ
  maxM2Calls : ℕ
  wallMs : ℕ
  maxInputTokens : ℕ
  maxRefValues : ℕ
  deriving DecidableEq

def AGENT_RUN_BOUNDS : AgentRunBoundValues where
  maxSteps := 6
  maxReplans := 1
  maxConnectorQueries := 10
  maxHttpRequests := 50
  maxModelCalls := 5
  maxM2Calls := 3
  wallMs := 45000
  maxInputTokens := 40000
  maxRefValues := 10

inductive AgentBoundKind where
  | steps | replans | connectorQueries | httpRequests | modelCalls | m2Calls | wallTime
  | inputTokens | refValues
  deriving DecidableEq

inductive AgentModelCallKind where
  | planner | replan | m2
  deriving DecidableEq

structure AgentRunUsage where
  steps : ℕ
  replans : ℕ
  connectorQueries : ℕ
  httpRequests : ℕ
  modelCalls : ℕ
  m2Calls : ℕ
  inputTokens : ℕ
  refValues : ℕ
  elapsedMs : Instant
  deriving DecidableEq

structure AgentRunBudget where
  bounds : AgentRunBoundValues
  startedAt : Instant
  firstBreach : Option AgentBoundKind
  steps : ℕ
  replans : ℕ
  connectorQueries : ℕ
  httpRequests : ℕ
  modelCalls : ℕ
  m2Calls : ℕ
  inputTokens : ℕ
  refValues : ℕ
  deriving DecidableEq

namespace AgentRunBudget

def new (bounds : AgentRunBoundValues) (startedAt : Instant) : AgentRunBudget where
  bounds
  startedAt
  firstBreach := none
  steps := 0
  replans := 0
  connectorQueries := 0
  httpRequests := 0
  modelCalls := 0
  m2Calls := 0
  inputTokens := 0
  refValues := 0

variable (budget : AgentRunBudget)

def elapsedMs (now : Instant) : Instant := (now.minus budget.startedAt).max0

def remainingInputTokens : ℕ := budget.bounds.maxInputTokens - budget.inputTokens

/-- Record the breach unless there is one; the answer is always a refusal. -/
def fail (kind : AgentBoundKind) : Bool × AgentRunBudget :=
  (false, { budget with firstBreach := budget.firstBreach.or (some kind) })

def markBreach (kind : AgentBoundKind) : AgentRunBudget := (budget.fail kind).2

def checkWall : Reading → Option (Bool × AgentRunBudget)
  | none => none
  | some now =>
    if (budget.elapsedMs now).atLeast budget.bounds.wallMs then some (budget.fail .wallTime)
    else some (budget.firstBreach = none, budget)

/-- The guard of every method that checks the wall first. -/
def underWall (now : Reading) (next : AgentRunBudget → Bool × AgentRunBudget) :
    Option (Bool × AgentRunBudget) :=
  match budget.checkWall now with
  | none => none
  | some (false, b) => some (false, b)
  | some (true, b) => some (next b)

def reserveStep (now : Reading) : Option (Bool × AgentRunBudget) :=
  budget.underWall now fun b =>
    if b.steps ≥ b.bounds.maxSteps then b.fail .steps
    else (true, { b with steps := b.steps + 1 })

def mayReadConnector (now : Reading) : Option (Bool × AgentRunBudget) :=
  budget.underWall now fun b =>
    if b.connectorQueries ≥ b.bounds.maxConnectorQueries then b.fail .connectorQueries
    else if b.httpRequests ≥ b.bounds.maxHttpRequests then b.fail .httpRequests
    else (true, b)

def reserveQuery (now : Reading) : Option (Bool × AgentRunBudget) :=
  budget.underWall now fun b =>
    if b.connectorQueries ≥ b.bounds.maxConnectorQueries then b.fail .connectorQueries
    else (true, { b with connectorQueries := b.connectorQueries + 1 })

def reserveHttp (now : Reading) : Option (Bool × AgentRunBudget) :=
  budget.underWall now fun b =>
    if b.httpRequests ≥ b.bounds.maxHttpRequests then b.fail .httpRequests
    else (true, { b with httpRequests := b.httpRequests + 1 })

def reserveRefValues (count : ℕ) : Bool × AgentRunBudget :=
  if budget.firstBreach ≠ none then (false, budget)
  else if budget.refValues + count > budget.bounds.maxRefValues then budget.fail .refValues
  else (true, { budget with refValues := budget.refValues + count })

def reserveModelCall (kind : AgentModelCallKind) (now : Reading) : Option (Bool × AgentRunBudget) :=
  budget.underWall now fun b =>
    if b.modelCalls ≥ b.bounds.maxModelCalls then b.fail .modelCalls
    else if kind = .replan ∧ b.replans ≥ b.bounds.maxReplans then b.fail .replans
    else if kind = .m2 ∧ b.m2Calls ≥ b.bounds.maxM2Calls then b.fail .m2Calls
    else (true, { b with
      modelCalls := b.modelCalls + 1
      replans := if kind = .replan then b.replans + 1 else b.replans
      m2Calls := if kind = .m2 then b.m2Calls + 1 else b.m2Calls })

/-- The tokens are a count of bytes, so `nonNegative` has nothing to round. -/
def reserveInputTokens (tokens : ℕ) : Bool × AgentRunBudget :=
  if budget.firstBreach ≠ none then (false, budget)
  else if budget.inputTokens + tokens > budget.bounds.maxInputTokens then budget.fail .inputTokens
  else (true, { budget with inputTokens := budget.inputTokens + tokens })

def snapshot (now : Instant) : AgentRunUsage where
  steps := budget.steps
  replans := budget.replans
  connectorQueries := budget.connectorQueries
  httpRequests := budget.httpRequests
  modelCalls := budget.modelCalls
  m2Calls := budget.m2Calls
  inputTokens := budget.inputTokens
  refValues := budget.refValues
  elapsedMs := budget.elapsedMs now

end AgentRunBudget

/-! ## One reservation -/

/-- What a run can ask its budget for. -/
inductive Reservation where
  | step
  | query
  | http
  | refValues (count : ℕ)
  | modelCall (kind : AgentModelCallKind)
  | inputTokens (tokens : ℕ)
  deriving DecidableEq

/-- What the budget counts. -/
inductive Counter where
  | steps | replans | connectorQueries | httpRequests | modelCalls | m2Calls | inputTokens | refValues
  deriving DecidableEq

def AgentRunBoundValues.max (bounds : AgentRunBoundValues) : Counter → ℕ
  | .steps => bounds.maxSteps
  | .replans => bounds.maxReplans
  | .connectorQueries => bounds.maxConnectorQueries
  | .httpRequests => bounds.maxHttpRequests
  | .modelCalls => bounds.maxModelCalls
  | .m2Calls => bounds.maxM2Calls
  | .inputTokens => bounds.maxInputTokens
  | .refValues => bounds.maxRefValues

/-- What a granted reservation adds to a counter. -/
def Reservation.cost : Reservation → Counter → ℕ
  | .step, .steps => 1
  | .query, .connectorQueries => 1
  | .http, .httpRequests => 1
  | .refValues count, .refValues => count
  | .modelCall _, .modelCalls => 1
  | .modelCall .replan, .replans => 1
  | .modelCall .m2, .m2Calls => 1
  | .inputTokens tokens, .inputTokens => tokens
  | _, _ => 0

namespace AgentRunBudget

def used (budget : AgentRunBudget) : Counter → ℕ
  | .steps => budget.steps
  | .replans => budget.replans
  | .connectorQueries => budget.connectorQueries
  | .httpRequests => budget.httpRequests
  | .modelCalls => budget.modelCalls
  | .m2Calls => budget.m2Calls
  | .inputTokens => budget.inputTokens
  | .refValues => budget.refValues

def reserve (budget : AgentRunBudget) (now : Reading) : Reservation → Option (Bool × AgentRunBudget)
  | .step => budget.reserveStep now
  | .query => budget.reserveQuery now
  | .http => budget.reserveHttp now
  | .refValues count => some (budget.reserveRefValues count)
  | .modelCall kind => budget.reserveModelCall kind now
  | .inputTokens tokens => some (budget.reserveInputTokens tokens)

/-- A call that granted nothing: the counters stand, and the first breach too if there was one. -/
structure Unspent (budget next : AgentRunBudget) : Prop where
  bounds : next.bounds = budget.bounds
  used : next.used = budget.used
  sticky : ∀ kind, budget.firstBreach = some kind → next.firstBreach = some kind

/-- A granted reservation: nothing was breached, and its cost fits under every bound. -/
structure Granted (budget next : AgentRunBudget) (r : Reservation) : Prop where
  bounds : next.bounds = budget.bounds
  used : ∀ c, next.used c = budget.used c + r.cost c
  fits : ∀ c, r.cost c ≠ 0 → next.used c ≤ next.bounds.max c
  intact : budget.firstBreach = none
  unbreached : next.firstBreach = none

variable {budget next : AgentRunBudget}

theorem Unspent.refl (budget : AgentRunBudget) : Unspent budget budget :=
  ⟨rfl, rfl, fun _ h => h⟩

theorem Unspent.trans {third : AgentRunBudget} (h : Unspent budget next) (h' : Unspent next third) :
    Unspent budget third :=
  ⟨h'.bounds.trans h.bounds, h'.used.trans h.used, fun kind hk => h'.sticky kind (h.sticky kind hk)⟩

theorem unspent_fail (budget : AgentRunBudget) (kind : AgentBoundKind) :
    Unspent budget (budget.fail kind).2 := by
  constructor
  · rfl
  · funext c
    cases c <;> rfl
  · intro first hfirst
    simp [fail, hfirst]

theorem fail_breached (budget : AgentRunBudget) (kind : AgentBoundKind) :
    (budget.fail kind).2.firstBreach ≠ none := by
  cases h : budget.firstBreach <;> simp [fail, h]

theorem checkWall_cases {now : Reading} {ok : Bool} (h : budget.checkWall now = some (ok, next)) :
    Unspent budget next ∧
      ((ok = true ∧ next = budget ∧ budget.firstBreach = none) ∨
        (ok = false ∧ next.firstBreach ≠ none)) := by
  cases now with
  | none => simp [checkWall] at h
  | some now =>
    simp only [checkWall] at h
    split at h
    · have hnext : budget.fail .wallTime = (ok, next) := by simpa using h
      have hok : ok = false := (congrArg Prod.fst hnext).symm
      have hbudget : next = (budget.fail .wallTime).2 := (congrArg Prod.snd hnext).symm
      subst hbudget
      exact ⟨unspent_fail budget _, .inr ⟨hok, fail_breached budget _⟩⟩
    · simp only [Option.some.injEq, Prod.mk.injEq] at h
      obtain ⟨hok, rfl⟩ := h
      refine ⟨Unspent.refl budget, ?_⟩
      by_cases hbreach : budget.firstBreach = none
      · exact .inl ⟨by simpa [hbreach] using hok.symm, rfl, hbreach⟩
      · exact .inr ⟨by simpa [hbreach] using hok.symm, hbreach⟩

theorem underWall_cases {now : Reading} {after : AgentRunBudget → Bool × AgentRunBudget} {ok : Bool}
    (h : budget.underWall now after = some (ok, next)) :
    (ok = false ∧ Unspent budget next ∧ next.firstBreach ≠ none) ∨
      (budget.firstBreach = none ∧ after budget = (ok, next)) := by
  simp only [underWall] at h
  split at h
  · cases h
  · rename_i b hwall
    obtain ⟨hunspent, hcase⟩ := checkWall_cases hwall
    have hpair : (false, b) = (ok, next) := by simpa using h
    obtain ⟨rfl, rfl⟩ := Prod.mk.injEq .. ▸ hpair
    rcases hcase with ⟨hok, -, -⟩ | ⟨-, hbreach⟩
    · cases hok
    · exact .inl ⟨rfl, hunspent, hbreach⟩
  · rename_i b hwall
    obtain ⟨-, hcase⟩ := checkWall_cases hwall
    have hpair : after b = (ok, next) := by simpa using h
    rcases hcase with ⟨-, rfl, hnone⟩ | ⟨hok, -⟩
    · exact .inr ⟨hnone, hpair⟩
    · cases hok

/-- What one answer of the budget means. -/
inductive Answered (budget next : AgentRunBudget) (r : Reservation) : Bool → Prop where
  | granted (h : Granted budget next r) : Answered budget next r true
  | refused (h : Unspent budget next) (breached : next.firstBreach ≠ none) :
      Answered budget next r false

theorem answered_fail (budget : AgentRunBudget) (kind : AgentBoundKind) (r : Reservation) :
    Answered budget (budget.fail kind).2 r (budget.fail kind).1 :=
  .refused (unspent_fail budget kind) (fail_breached budget kind)

theorem answered_underWall {now : Reading} {after : AgentRunBudget → Bool × AgentRunBudget}
    {r : Reservation} {ok : Bool} (h : budget.underWall now after = some (ok, next))
    (hafter : budget.firstBreach = none → Answered budget (after budget).2 r (after budget).1) :
    Answered budget next r ok := by
  rcases underWall_cases h with ⟨rfl, hunspent, hbreach⟩ | ⟨hnone, hpair⟩
  · exact .refused hunspent hbreach
  · have hanswer := hafter hnone
    rw [hpair] at hanswer
    exact hanswer

/-- One reservation: it throws and changes nothing, is refused with a breach, or fits and is counted. -/
theorem reserve_answered {now : Reading} {r : Reservation} {ok : Bool}
    (h : budget.reserve now r = some (ok, next)) : Answered budget next r ok := by
  cases r with
  | step =>
    refine answered_underWall h fun hnone => ?_
    split
    · exact answered_fail budget _ _
    · rename_i hbelow
      refine .granted ⟨rfl, fun c => by cases c <;> rfl, fun c hc => ?_, hnone, hnone⟩
      cases c with
      | steps => exact Nat.succ_le_of_lt (Nat.lt_of_not_le hbelow)
      | _ => exact absurd rfl hc
  | query =>
    refine answered_underWall h fun hnone => ?_
    split
    · exact answered_fail budget _ _
    · rename_i hbelow
      refine .granted ⟨rfl, fun c => by cases c <;> rfl, fun c hc => ?_, hnone, hnone⟩
      cases c with
      | connectorQueries => exact Nat.succ_le_of_lt (Nat.lt_of_not_le hbelow)
      | _ => exact absurd rfl hc
  | http =>
    refine answered_underWall h fun hnone => ?_
    split
    · exact answered_fail budget _ _
    · rename_i hbelow
      refine .granted ⟨rfl, fun c => by cases c <;> rfl, fun c hc => ?_, hnone, hnone⟩
      cases c with
      | httpRequests => exact Nat.succ_le_of_lt (Nat.lt_of_not_le hbelow)
      | _ => exact absurd rfl hc
  | refValues count =>
    simp only [reserve, reserveRefValues, Option.some.injEq] at h
    split at h
    · rename_i hbreach
      cases h
      exact .refused (Unspent.refl budget) hbreach
    · rename_i hnone
      rw [not_not] at hnone
      split at h
      · cases h
        exact answered_fail budget _ _
      · cases h
        refine .granted ⟨rfl, fun c => by cases c <;> rfl, fun c hc => ?_, hnone, hnone⟩
        cases c <;> simp_all [Reservation.cost, used, AgentRunBoundValues.max]
  | modelCall kind =>
    refine answered_underWall h fun hnone => ?_
    split
    · exact answered_fail budget _ _
    split
    · exact answered_fail budget _ _
    split
    · exact answered_fail budget _ _
    · refine .granted ⟨rfl, fun c => ?_, fun c hc => ?_, hnone, hnone⟩
      · cases c <;> cases kind <;> rfl
      · cases c <;> cases kind <;>
          simp_all [Reservation.cost, used, AgentRunBoundValues.max] <;> omega
  | inputTokens tokens =>
    simp only [reserve, reserveInputTokens, Option.some.injEq] at h
    split at h
    · rename_i hbreach
      cases h
      exact .refused (Unspent.refl budget) hbreach
    · rename_i hnone
      rw [not_not] at hnone
      split at h
      · cases h
        exact answered_fail budget _ _
      · cases h
        refine .granted ⟨rfl, fun c => by cases c <;> rfl, fun c hc => ?_, hnone, hnone⟩
        cases c <;> simp_all [Reservation.cost, used, AgentRunBoundValues.max]

theorem reserveRefValues_answered (budget : AgentRunBudget) (count : ℕ) :
    Answered budget (budget.reserveRefValues count).2 (.refValues count)
      (budget.reserveRefValues count).1 :=
  @reserve_answered budget _ none (.refValues count) _ rfl

theorem reserveInputTokens_answered (budget : AgentRunBudget) (tokens : ℕ) :
    Answered budget (budget.reserveInputTokens tokens).2 (.inputTokens tokens)
      (budget.reserveInputTokens tokens).1 :=
  @reserve_answered budget _ none (.inputTokens tokens) _ rfl

/-- A read may start without anything being counted. -/
theorem mayReadConnector_cases {now : Reading} {ok : Bool}
    (h : budget.mayReadConnector now = some (ok, next)) :
    Unspent budget next ∧ (ok = true → next = budget ∧ budget.firstBreach = none) := by
  rcases underWall_cases h with ⟨rfl, hunspent, -⟩ | ⟨hnone, hpair⟩
  · exact ⟨hunspent, by simp⟩
  · split at hpair
    · cases hpair
      exact ⟨unspent_fail budget _, by simp⟩
    split at hpair
    · cases hpair
      exact ⟨unspent_fail budget _, by simp⟩
    · cases hpair
      exact ⟨Unspent.refl budget, fun _ => ⟨rfl, hnone⟩⟩

end AgentRunBudget

end QuokyPlatform.AgentRuns
