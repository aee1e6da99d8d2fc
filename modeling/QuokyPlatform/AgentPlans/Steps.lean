import QuokyPlatform.AgentRuns.Executor
import QuokyPlatform.Foundations.PlainObject

/-! # The steps of a plan

What the planner may ask for, once its output is parsed, and what a validated plan holds. The steps
of a plan are numbered from one; a reference and a summary name other steps by their numbers. -/

namespace QuokyPlatform.AgentPlans
open AgentRuns (NlWave1EntryId AGENT_READ_SOURCES AgentSummarySchemaId AgentPlanKind)

set_option autoImplicit false
set_option maxHeartbeats 250000

/-! ## The catalog -/

inductive NlArgValue where
  | text (value : String)
  | number (value : ℚ)
  | flag (value : Bool)
  deriving DecidableEq

abbrev NlArgs := PlainObject String NlArgValue

/-- `{ ...args, ...others }` -/
def NlArgs.merge (args others : NlArgs) : NlArgs :=
  others.entries.foldl (fun merged entry => merged.set entry.1 entry.2) args

inductive NlArgKind where
  | enum | keyword | range | flag | limit | span | ref
  deriving DecidableEq

structure NlArgSpec where
  name : String
  kind : NlArgKind
  deriving DecidableEq

inductive NlCatalogRisk where
  | read | itemRead | localWrite | externalWrite
  deriving DecidableEq

structure NlCatalogEntry where
  id : String
  risk : NlCatalogRisk
  args : List NlArgSpec
  deriving DecidableEq

def NlCatalogEntry.rangeSpec (entry : NlCatalogEntry) : Option NlArgSpec :=
  entry.args.find? fun spec => spec.kind = .range

def NL_CATALOG_ENTRY_IDS : List (String × NlWave1EntryId) :=
  [("jira.issues", .jiraIssues), ("jira.release", .jiraRelease), ("github.items", .githubItems),
    ("slack.search", .slackSearch), ("confluence.search", .confluenceSearch),
    ("calendar.events", .calendarEvents), ("mail.list", .mailList), ("drive.files", .driveFiles),
    ("todo.list", .todoList), ("reminder.list", .reminderList), ("brief.today", .briefToday),
    ("help.topic", .helpTopic)]

/-- The entry of an id for which `isNlWave1EntryId` holds. -/
def wave1EntryId (id : String) : Option NlWave1EntryId :=
  (NL_CATALOG_ENTRY_IDS.find? fun entry => entry.1 = id).map Prod.snd

def NL_ACTION_ENTRY_IDS : List String :=
  ["todo.add", "todo.complete", "todo.cancel", "reminder.create", "reminder.cancel", "action.undo",
    "item.summarize", "slack.post", "calendar.create"]

def isNlActionEntryId (id : String) : Bool := id ∈ NL_ACTION_ENTRY_IDS

/-- The sources the item summary reads. -/
def AGENT_POSITION_REF_SOURCES : List String := ["mail", "drive", "jira", "slack"]

/-! ## Planned steps -/

def AGENT_PLAN_MAX_STEPS : ℕ := 6
def AGENT_PLAN_MAX_READS : ℕ := 4
def AGENT_PLAN_MAX_SUMMARIES : ℕ := 3
def AGENT_PLAN_MAX_REF_VALUES : ℕ := 10
def AGENT_PLAN_MAX_RUN_REF_VALUES : ℕ := 10
def AGENT_PLAN_PER_PERIOD_STEPS : ℕ := 3
def AGENT_RUN_MAX_CONNECTOR_CALLS : ℕ := 10

/-- `position` is the member `at`. -/
structure AgentPlanRef where
  step : ℕ
  field : String
  take : ℕ
  position : Option ℕ
  deriving DecidableEq

structure ReadStep where
  entryId : String
  args : NlArgs
  ref : Option AgentPlanRef

/-- `sources` is the member `from`; the parser lets no empty one through. -/
structure SummaryStep where
  sources : List ℕ
  schema : String
  nonempty : sources ≠ []

inductive AgentPlanStep where
  | read (step : ReadStep)
  | summarize (step : SummaryStep)

def AgentPlanStep.isRead : AgentPlanStep → Bool
  | .read _ => true
  | .summarize _ => false

def readsOf (steps : List AgentPlanStep) : List ReadStep :=
  steps.filterMap fun
    | .read step => some step
    | .summarize _ => none

inductive PlanForm where
  | selection | steps
  deriving DecidableEq

inductive NlAmbiguity where
  | clear | needsClarification
  deriving DecidableEq

inductive AgentPlan where
  | none
  | steps (form : PlanForm) (steps : List AgentPlanStep) (ambiguity : NlAmbiguity)
    (related : Option ℕ)

/-- The step of a number. -/
def stepAt {α : Type*} (steps : List α) (number : ℕ) : Option α :=
  if number = 0 then none else steps[number - 1]?

/-! ## Validated steps -/

structure NlResolvedRange where
  start : String
  endAt : String
  deriving DecidableEq

/-- A reference with its provenance: the entry and the origin of the step it names. -/
structure ValidatedRef where
  step : ℕ
  field : String
  take : ℕ
  position : Option ℕ
  entryId : NlWave1EntryId
  origin : String
  deriving DecidableEq

structure ValidatedRead where
  entry : NlCatalogEntry
  args : NlArgs
  range : Option NlResolvedRange
  ref : Option ValidatedRef

structure ValidatedSummary where
  sources : List ℕ
  schema : AgentSummarySchemaId
  deriving DecidableEq

inductive ValidatedAgentStep where
  | read (step : ValidatedRead)
  | summarize (step : ValidatedSummary)

def ValidatedAgentStep.isRead : ValidatedAgentStep → Bool
  | .read _ => true
  | .summarize _ => false

def validatedReads (steps : List ValidatedAgentStep) : List ValidatedRead :=
  steps.filterMap fun
    | .read step => some step
    | .summarize _ => none

/-- The static charge of a read in connector queries. -/
def ValidatedRead.charge (briefConnectorCalls : Option ℕ) (step : ValidatedRead) : ℕ :=
  match wave1EntryId step.entry.id with
  | none => 0
  | some entryId =>
    if step.ref.isSome then 1
    else if entryId = .briefToday then
      briefConnectorCalls.getD (AGENT_READ_SOURCES .briefToday).connectorQueries
    else (AGENT_READ_SOURCES entryId).connectorQueries

def agentPlanConnectorCharge (briefConnectorCalls : Option ℕ) (steps : List ValidatedAgentStep) :
    ℕ :=
  ((validatedReads steps).map (ValidatedRead.charge briefConnectorCalls)).sum

inductive AgentUnboundedKind where
  | perPeriod | reads | refs | calls
  deriving DecidableEq

inductive ValidatedAgentPlan where
  | none (writeClause : Bool)
  | run (kind : AgentPlanKind) (steps : List ValidatedAgentStep) (connectorCalls : ℕ)
    (related : Option ℕ)
  | ask (bound : AgentUnboundedKind) (suggestion : List ValidatedAgentStep)

/-! ## Placement -/

/-- Whether the step at `index` is a summary whose last covered read has this number. -/
def closesOn (steps : List ValidatedAgentStep) (number index : ℕ) : Bool :=
  match steps[index]? with
  | some (.summarize step) => step.sources.max? = some number
  | _ => false

/-- A read, followed by the summaries that close on it. -/
def placementBlock (steps : List ValidatedAgentStep) (index : ℕ) : List ℕ :=
  match steps[index]? with
  | some (.read _) => index :: (List.range steps.length).filter (closesOn steps (index + 1))
  | _ => []

def placementOrder (steps : List ValidatedAgentStep) : List ℕ :=
  (List.range steps.length).flatMap (placementBlock steps)

/-- The step with every number it holds replaced. -/
def ValidatedAgentStep.renumber (new : ℕ → ℕ) : ValidatedAgentStep → ValidatedAgentStep
  | .read step => .read { step with ref := step.ref.map fun ref => { ref with step := new ref.step } }
  | .summarize step => .summarize { step with sources := step.sources.map new }

structure Placement where
  steps : List ValidatedAgentStep
  renumber : ℕ → Option ℕ

/-- Each summary right after the last read it covers. When a step is left over the order stays. The
number of a step the plan does not have is written as zero. -/
def normalizeSummaryPlacement (steps : List ValidatedAgentStep) : Placement :=
  let order := placementOrder steps
  if order.length ≠ steps.length then
    ⟨steps, fun number => if 1 ≤ number ∧ number ≤ steps.length then some number else none⟩
  else
    let renumber := fun number => if number = 0 then none else (order.idxOf? (number - 1)).map (· + 1)
    ⟨order.filterMap fun (index : ℕ) =>
        (steps[index]?).map (ValidatedAgentStep.renumber fun n => (renumber n).getD 0),
      renumber⟩

end QuokyPlatform.AgentPlans
