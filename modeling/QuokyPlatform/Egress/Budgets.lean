import Mathlib.Algebra.BigOperators.Group.List.Basic
import Mathlib.Algebra.Order.Ring.Nat
import Mathlib.Logic.Function.Basic
import QuokyPlatform.Foundations.SlidingWindow

/-!
# Budgets and backoff of egress

Requests are counted by label in sliding windows over the last day, their bytes also over all labels. A
breaker refuses a label for a while after repeated failures. Times are milliseconds.
-/

namespace QuokyPlatform.Egress
open SlidingWindow
set_option autoImplicit false
set_option maxHeartbeats 250000

def MINUTE_MS : ℤ := 60000
def HOUR_MS : ℤ := 60 * MINUTE_MS
def DAY_MS : ℤ := 24 * HOUR_MS
def MB : ℕ := 1000000

/-! ## The table -/

inductive TrafficInitiator where
  | ownerTurn
  | inbound
  | reminder
  | startup
  | background
  deriving DecidableEq

structure LabelBudget where
  perMinute : Option ℕ := none
  perHour : Option ℕ := none
  /-- Up + down wire bytes per rolling hour. -/
  bytesPerHour : Option ℕ := none
  bytesDownPerDay : Option ℕ := none
  breaker : Bool := false
  rateExempt : List TrafficInitiator := []

def OWNER_TURN_RATE_FACTOR : ℕ := 3

def OWNER_DELIVERY_EXEMPT : List TrafficInitiator := [.ownerTurn, .reminder]

def OWNER_TURN_EXEMPT : List TrafficInitiator := [.ownerTurn]

def LABEL_BYTES_PER_HOUR : ℕ := 50 * MB

def CONNECTOR : LabelBudget where
  perMinute := some 20
  perHour := some 300
  bytesPerHour := some LABEL_BYTES_PER_HOUR
  breaker := true

abbrev Label := String

def EGRESS_BUDGETS : List (Label × LabelBudget) :=
  [("telegram-poll", { perMinute := some 60, bytesPerHour := some LABEL_BYTES_PER_HOUR }),
    ("telegram", { perMinute := some 30, bytesPerHour := some LABEL_BYTES_PER_HOUR
                   rateExempt := OWNER_DELIVERY_EXEMPT }),
    ("telegram-typing", { perMinute := some 30, bytesPerHour := some LABEL_BYTES_PER_HOUR
                          rateExempt := OWNER_TURN_EXEMPT }),
    ("telegram-file", { perHour := some 20, bytesPerHour := some LABEL_BYTES_PER_HOUR
                        bytesDownPerDay := some (100 * MB) }),
    ("discord", { perMinute := some 30, bytesPerHour := some LABEL_BYTES_PER_HOUR
                  rateExempt := OWNER_DELIVERY_EXEMPT }),
    ("discord-typing", { perMinute := some 20, bytesPerHour := some LABEL_BYTES_PER_HOUR
                         rateExempt := OWNER_TURN_EXEMPT }),
    ("discord-attachments", { perHour := some 20, bytesPerHour := some LABEL_BYTES_PER_HOUR
                              bytesDownPerDay := some (100 * MB) }),
    ("google", CONNECTOR),
    ("google-calendar", { CONNECTOR with rateExempt := OWNER_DELIVERY_EXEMPT }),
    ("google-drive", CONNECTOR),
    ("google-sheets", CONNECTOR),
    ("gmail", CONNECTOR),
    ("google-oauth", CONNECTOR),
    ("jira", CONNECTOR),
    ("confluence", CONNECTOR),
    ("slack", CONNECTOR),
    ("slack-search", { CONNECTOR with perMinute := some 10 }),
    ("github", CONNECTOR),
    ("openai", CONNECTOR),
    ("gemini", CONNECTOR),
    ("ollama-local", { bytesPerHour := some (10 * LABEL_BYTES_PER_HOUR) })]

def DEFAULT_BUDGET : LabelBudget where
  perMinute := some 20
  perHour := some 300
  bytesPerHour := some LABEL_BYTES_PER_HOUR

inductive Direction where
  | up
  | down
  deriving DecidableEq

/-- All egress: the bytes of a day by direction. -/
def globalBudget : Direction → ℕ
  | .down => 200 * MB
  | .up => 20 * MB

/-- `alertRatio: 0.8` -/
def alertLimit (direction : Direction) : ℕ := globalBudget direction * 8 / 10

def BREAKER_THRESHOLD : ℕ := 3
def BREAKER_BASE_MS : ℕ := 300000
def BREAKER_MAX_MS : ℕ := 3600000

/-! ## The state -/

inductive BudgetRefusal where
  | rateMinute
  | rateHour
  | volumeHour
  | volumeDay
  | globalVolumeDown
  | globalVolumeUp
  | backoff
  deriving DecidableEq

inductive BudgetEvent where
  | backoffOpen (label : Label) (openMs : ℕ)
  | volumeAlert (direction : Direction)
  deriving DecidableEq

/-- One request that goes out, by the number of its ticket. -/
structure Sample where
  ticket : ℕ
  sentAt : ℤ
  up : ℕ
  down : ℕ

def Sample.bytes (sample : Sample) : Direction → ℕ
  | .up => sample.up
  | .down => sample.down

structure BreakerState where
  consecutiveFailures : ℕ
  opens : ℕ
  openUntil : ℤ
  deriving DecidableEq

structure EgressBudgets where
  samples : Label → List Sample
  global : List Sample
  breakers : Label → Option BreakerState
  alertedDay : Direction → Option ℤ
  /-- How many tickets were given out. -/
  tickets : ℕ

namespace EgressBudgets

def initial : EgressBudgets where
  samples := fun _ => []
  global := []
  breakers := fun _ => none
  alertedDay := fun _ => none
  tickets := 0

end EgressBudgets

/-! ## Admission -/

section Admission

variable (table : Label → Option LabelBudget)

def budgetOf (label : Label) : LabelBudget := (table label).getD DEFAULT_BUDGET

def count (samples : List Sample) (since : ℤ) : ℕ := (recent Sample.sentAt since samples).length

def bytes (samples : List Sample) (since : ℤ) (size : Sample → ℕ) : ℕ :=
  ((recent Sample.sentAt since samples).map size).sum

/-- Drops samples older than a day. -/
def pruneDay (now : ℤ) (samples : List Sample) : List Sample :=
  prune Sample.sentAt (now - DAY_MS) samples

def reached (cap : Option ℕ) (n : ℕ) : Bool := cap.any fun cap => cap ≤ n

/-- A request-rate cap under its factor. -/
def rateReached (budget : LabelBudget) (initiator : TrafficInitiator) (cap : Option ℕ) (n : ℕ) : Bool :=
  let rateApplies := initiator ∉ budget.rateExempt
  let factor := if initiator = .ownerTurn then OWNER_TURN_RATE_FACTOR else 1
  rateApplies && reached (cap.map (· * factor)) n

/-- The caps of a label, in their order. -/
def labelRefusal (budget : LabelBudget) (initiator : TrafficInitiator) (samples : List Sample)
    (now : ℤ) : Option BudgetRefusal :=
  if rateReached budget initiator budget.perMinute (count samples (now - MINUTE_MS)) then
    some .rateMinute
  else if rateReached budget initiator budget.perHour (count samples (now - HOUR_MS)) then
    some .rateHour
  else if reached budget.bytesPerHour (bytes samples (now - HOUR_MS) fun s => s.up + s.down) then
    some .volumeHour
  else if reached budget.bytesDownPerDay (bytes samples (now - DAY_MS) Sample.down) then
    some .volumeDay
  else none

def globalRefusal (global : List Sample) (now : ℤ) : Option BudgetRefusal :=
  if globalBudget .down ≤ bytes global (now - DAY_MS) Sample.down then some .globalVolumeDown
  else if globalBudget .up ≤ bytes global (now - DAY_MS) Sample.up then some .globalVolumeUp
  else none

def isOpen (breaker : Option BreakerState) (now : ℤ) : Bool :=
  breaker.any fun state => now < state.openUntil

/-- `none` lets the request go. The lists are pruned as far as they are looked at. -/
def check (budgets : EgressBudgets) (label : Label) (initiator : TrafficInitiator) (now : ℤ) :
    Option BudgetRefusal × EgressBudgets :=
  if isOpen (budgets.breakers label) now then (some .backoff, budgets)
  else
    let samples := pruneDay now (budgets.samples label)
    let pruned := { budgets with samples := Function.update budgets.samples label samples }
    match labelRefusal (budgetOf table label) initiator samples now with
    | some reason => (some reason, pruned)
    | none =>
      if initiator = .ownerTurn then (none, pruned)
      else
        let global := pruneDay now pruned.global
        (globalRefusal global now, { pruned with global })

/-- The sample of a request that goes out. -/
def push (budgets : EgressBudgets) (label : Label) (now : ℤ) : EgressBudgets :=
  let sample : Sample := ⟨budgets.tickets, now, 0, 0⟩
  { budgets with
    samples := Function.update budgets.samples label (budgets.samples label ++ [sample])
    global := budgets.global ++ [sample]
    tickets := budgets.tickets + 1 }

def admitRequest (budgets : EgressBudgets) (label : Label) (initiator : TrafficInitiator)
    (countRefused : Bool) (now : ℤ) : Option BudgetRefusal × EgressBudgets :=
  let (verdict, budgets) := check table budgets label initiator now
  if verdict.isSome && !countRefused then (verdict, budgets)
  else (verdict, push budgets label now)

def Sample.add (ticket : ℕ) (up down : ℤ) (sample : Sample) : Sample :=
  if sample.ticket = ticket then
    { sample with up := sample.up + (max 0 up).toNat, down := sample.down + (max 0 down).toNat }
  else sample

/-- `ticket.addBytes`; the lists hold the sample itself. -/
def addBytes (budgets : EgressBudgets) (ticket : ℕ) (up down : ℤ) : EgressBudgets :=
  { budgets with
    samples := fun label => (budgets.samples label).map (Sample.add ticket up down)
    global := budgets.global.map (Sample.add ticket up down) }

end Admission

/-! ## Answers -/

section Answers

variable (table : Label → Option LabelBudget)

/-- How long a breaker stays open that opens for the `opens`-th time in a row. -/
def openFor (opens : ℕ) (retryAfterSeconds : Option ℕ) : ℕ :=
  let backoff := min BREAKER_MAX_MS (BREAKER_BASE_MS * 2 ^ (opens - 1))
  let retryAfter := match retryAfterSeconds with
    | none => 0
    | some seconds => min BREAKER_MAX_MS (seconds * 1000)
  max backoff retryAfter

def isFailure (status : ℕ) : Bool := status == 429 || 500 ≤ status

/-- The breaker after an answer, and the event that it opens. -/
def answered (state : BreakerState) (label : Label) (status : ℕ) (retryAfterSeconds : Option ℕ)
    (now : ℤ) : BreakerState × List BudgetEvent :=
  if isFailure status then
    if BREAKER_THRESHOLD ≤ state.consecutiveFailures + 1 then
      let openMs := openFor (state.opens + 1) retryAfterSeconds
      (⟨0, state.opens + 1, now + openMs⟩, [.backoffOpen label openMs])
    else ({ state with consecutiveFailures := state.consecutiveFailures + 1 }, [])
  else if status < 400 then (⟨0, 0, 0⟩, [])
  else (state, [])

/-- The 80% alert of one direction, once a day. -/
def alert (global : List Sample) (now : ℤ) (direction : Direction)
    (state : (Direction → Option ℤ) × List BudgetEvent) : (Direction → Option ℤ) × List BudgetEvent :=
  let day := now / DAY_MS
  if state.1 direction ≠ some day ∧
      alertLimit direction ≤ bytes global (now - DAY_MS) fun s => s.bytes direction then
    (Function.update state.1 direction (some day), state.2 ++ [.volumeAlert direction])
  else state

/-- The breakers after an answer of a label that has one. -/
def nextBreakers (breakers : Label → Option BreakerState) (label : Label) (status : Option ℕ)
    (retryAfterSeconds : Option ℕ) (now : ℤ) : (Label → Option BreakerState) × List BudgetEvent :=
  match status with
  | none => (breakers, [])
  | some status =>
    if (budgetOf table label).breaker then
      let next := answered ((breakers label).getD ⟨0, 0, 0⟩) label status retryAfterSeconds now
      (Function.update breakers label (some next.1), next.2)
    else (breakers, [])

def recordOutcome (budgets : EgressBudgets) (label : Label) (status retryAfterSeconds : Option ℕ)
    (now : ℤ) : List BudgetEvent × EgressBudgets :=
  let (breakers, opened) := nextBreakers table budgets.breakers label status retryAfterSeconds now
  let global := pruneDay now budgets.global
  let (alertedDay, events) := alert global now .up (alert global now .down (budgets.alertedDay, opened))
  (events, { budgets with breakers, global, alertedDay })

end Answers

/-! ## Runs -/

inductive Call where
  | request (label : Label) (initiator : TrafficInitiator)
  | addBytes (ticket : ℕ) (up down : ℤ)
  | recordOutcome (label : Label) (status retryAfterSeconds : Option ℕ)

/-- What a call returns; a verdict without a refusal lets the request go. -/
inductive Reply where
  | verdict (refusal : Option BudgetRefusal)
  | done
  | events (events : List BudgetEvent)
  deriving DecidableEq

section Runs

variable (table : Label → Option LabelBudget)

/-- A call at a time, where refused requests are not counted. -/
def step (budgets : EgressBudgets) : ℤ × Call → Reply × EgressBudgets
  | (now, .request label initiator) =>
    let (verdict, budgets) := admitRequest table budgets label initiator false now
    (.verdict verdict, budgets)
  | (_, .addBytes ticket up down) => (.done, addBytes budgets ticket up down)
  | (now, .recordOutcome label status retryAfterSeconds) =>
    let (events, budgets) := recordOutcome table budgets label status retryAfterSeconds now
    (.events events, budgets)

def runFrom (budgets : EgressBudgets) (calls : List (ℤ × Call)) : EgressBudgets :=
  calls.foldl (fun budgets call => (step table budgets call).2) budgets

def repliesFrom : EgressBudgets → List (ℤ × Call) → List Reply
  | _, [] => []
  | budgets, call :: rest => (step table budgets call).1 :: repliesFrom (step table budgets call).2 rest

end Runs

end QuokyPlatform.Egress
