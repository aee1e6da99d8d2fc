import Mathlib.Logic.Function.Basic
import QuokyPlatform.AgentRuns.Budget
import QuokyPlatform.AgentRuns.Projection
import QuokyPlatform.Foundations.Machine

/-! # The executor of a read plan

`AgentPlanExecutor.execute` as a machine. The executor takes the steps of a plan in order; a step
that calls a read port or the quarantined summariser waits for it, and while it waits (and at any
time later) the ports may use the handles they were given. The environment decides everything else:
every reading of the clock, when a call settles and with what, when the timer of the wall fires, and
when a handle is used. The log records what was granted, what the ports were asked for, what they
answered and which calls are over; nothing reads it back. -/

namespace QuokyPlatform.AgentRuns
open Chunking

set_option autoImplicit false
set_option maxHeartbeats 250000

/-! ## Plans and their dependencies -/

inductive AgentSummarySchemaId where
  | digest | meetingDigest
  deriving DecidableEq

/-- A reference to the ids of an earlier step; `position` is the member `at` of the source. -/
structure AgentReference where
  step : ℤ
  field : String
  take : ℤ
  position : Option ℤ
  origin : String
  deriving DecidableEq

/-- A read; of its arguments the executor itself looks at the limit only. -/
structure ReadStep where
  entry : NlWave1EntryId
  limit : Option ℤ
  ref : Option AgentReference
  deriving DecidableEq

structure SummarizeStep where
  fromSteps : List ℕ
  schema : AgentSummarySchemaId
  deriving DecidableEq

inductive ValidatedAgentStep where
  | read (step : ReadStep)
  | summarize (step : SummarizeStep)
  deriving DecidableEq

inductive AgentPlanKind where
  | run | clarify
  deriving DecidableEq

structure RunPlan where
  kind : AgentPlanKind
  steps : List ValidatedAgentStep
  connectorCalls : ℕ
  deriving DecidableEq

inductive AiExecutionLocality where
  | local | remote
  deriving DecidableEq

/-- A model of the summariser: its locality, `none` when reading its metadata throws. -/
structure QuarantinedSummarizerModel where
  locality : Option AiExecutionLocality
  deriving DecidableEq

/-- What the executor is built with. `summaryGrants` is the seam that grants summaries in tests;
production grants none. -/
structure AgentPlanExecutorDeps where
  readers : NlWave1EntryId → Bool
  summarizer : Option (List QuarantinedSummarizerModel)
  bounds : AgentRunBoundValues
  summaryGrants : ℕ → NlWave1EntryId → Bool

/-! ## Whether a summary could run -/

inductive QuarantinedListingOnlyReason where
  | hostOnly | noModel | noSummaryGrant | noReadoutSource | workTextControlsNotBuilt | noDocuments
  | credentialInPrompt
  deriving DecidableEq

def AGENT_M2_MAX_ITEMS : ℕ := 10

def AGENT_PLAN_MAX_REF_VALUES : ℤ := 10

/-- The entries with a readout shape. -/
def hasReadoutSource : NlWave1EntryId → Bool
  | .mailList | .driveFiles => true
  | _ => false

def AGENT_SUMMARY_WORK_TEXT_PENDING : List NlWave1EntryId :=
  [.jiraIssues, .jiraRelease, .slackSearch]

def sourceRefusal (entryId : NlWave1EntryId) (schema : AgentSummarySchemaId) :
    Option QuarantinedListingOnlyReason :=
  if entryId ∈ AGENT_SUMMARY_WORK_TEXT_PENDING then some .workTextControlsNotBuilt
  else if !hasReadoutSource entryId || (schema = .meetingDigest ∧ entryId ≠ .calendarEvents) then
    some .noReadoutSource
  else none

def selectQuarantinedModel (egress : FlowEgress) (grant : Bool) (itemCount : ℕ)
    (models : List QuarantinedSummarizerModel) :
    Except QuarantinedListingOnlyReason AiExecutionLocality :=
  if egress = .hostOnly then .error .hostOnly
  else if egress = .remoteOnSummaryRequest ∧ !grant then .error .noSummaryGrant
  else
    let usable := models.filterMap (·.locality)
    let candidates :=
      if egress = .remoteOk ∨ (egress = .remoteOnSummaryRequest ∧ itemCount = 1) then usable
      else usable.filter (· = .local)
    match candidates with
    | picked :: _ => .ok picked
    | [] => .error .noModel

def summaryReadiness (entryId : NlWave1EntryId) (schema : AgentSummarySchemaId) (grant : Bool)
    (itemCount : ℕ) (models : List QuarantinedSummarizerModel) :
    Option QuarantinedListingOnlyReason :=
  match sourceRefusal entryId schema with
  | some refusal => some refusal
  | none =>
    match selectQuarantinedModel (readOutputLabel entryId).egress grant itemCount models with
    | .ok _ => none
    | .error reason => some reason

/-- The items each read asks for. -/
def RunPlan.requested (plan : RunPlan) (number : ℕ) : Option ℕ :=
  if number = 0 then none else
    match plan.steps[number - 1]? with
    | some (.read step) =>
      some (min AGENT_M2_MAX_ITEMS (max 1 (step.limit.getD AGENT_M2_MAX_ITEMS)).toNat)
    | _ => none

def RunPlan.askedAcross (plan : RunPlan) (fromSteps : List ℕ) : ℕ :=
  (fromSteps.map fun read => (plan.requested read).getD 0).sum

/-- The later summarize steps that cover a read, each with its number. -/
def RunPlan.coverage (plan : RunPlan) (number : ℕ) : List (ℕ × SummarizeStep) :=
  plan.steps.zipIdx.flatMap fun entry =>
    match entry.1 with
    | .summarize step =>
      (step.fromSteps.filter fun read => read = number ∧ read < entry.2 + 1).map fun _ =>
        (entry.2 + 1, step)
    | .read _ => []

/-! ## Results -/

inductive AgentReadErrorCode where
  | notFound | unauthorized | unavailable | unsupported | invalidResponse | tooLarge | rateLimited
  | bound | unknown
  deriving DecidableEq

def closedCode (code : String) : AgentReadErrorCode :=
  (List.lookup code
    [("NOT_FOUND", .notFound), ("UNAUTHORIZED", .unauthorized), ("UNAVAILABLE", .unavailable),
      ("UNSUPPORTED", .unsupported), ("INVALID_RESPONSE", .invalidResponse), ("TOO_LARGE", .tooLarge),
      ("RATE_LIMITED", .rateLimited), ("BOUND", .bound), ("UNKNOWN", .unknown)]).getD .unknown

inductive AgentStepNotRunReason where
  | bound | sourceFailed | noReader | refCrossSource | refField | refForward | refEmpty | refUnusable
  | refTooMany
  deriving DecidableEq

inductive ReadOutcome where
  | ok (projection : StructureProjection) (hasMore truncated : Bool) (refValues : ℕ)
  | failed (errorCode : AgentReadErrorCode)
  | notRun (reason : AgentStepNotRunReason)
  deriving DecidableEq

inductive SummaryErrorCode where
  | schema | credential | model
  deriving DecidableEq

/-- The status of a summarize step; of the summary itself only the number of its entries. -/
inductive SummaryStatus where
  | deferred
  | notRun
  | ok (count omitted : ℕ)
  | listingOnly (reason : QuarantinedListingOnlyReason)
  | failed (errorCode : SummaryErrorCode)
  deriving DecidableEq

inductive AgentStepResult where
  | read (step : ℕ) (entryId : NlWave1EntryId) (outcome : ReadOutcome)
  | summarize (step : ℕ) (fromSteps : List ℕ) (schema : AgentSummarySchemaId) (status : SummaryStatus)
  deriving DecidableEq

/-- A summary that left an item out is no full answer, a deferred one is none that failed. -/
def AgentStepResult.answered : AgentStepResult → Bool
  | .read _ _ (.ok ..) => true
  | .summarize _ _ _ (.ok _ omitted) => omitted = 0
  | .summarize _ _ _ .deferred => true
  | _ => false

def notRun (step : ValidatedAgentStep) (number : ℕ) (reason : AgentStepNotRunReason) :
    AgentStepResult :=
  match step with
  | .read step => .read number step.entry (.notRun reason)
  | .summarize step => .summarize number step.fromSteps step.schema .notRun

inductive AgentRunOutcome where
  | complete | partly
  deriving DecidableEq

structure AgentRunResult where
  outcome : AgentRunOutcome
  breach : Option AgentBoundKind
  steps : List AgentStepResult
  usage : AgentRunUsage
  deriving DecidableEq

def ZERO_USAGE : AgentRunUsage := ⟨0, 0, 0, 0, 0, 0, 0, 0, .ms 0⟩

/-! ## The state of a run -/

/-- What a read port answers. The documents are handed over or not; a member whose getter throws is
`none`, an answer that is no object at all is `malformed`. -/
inductive AgentReadResponse where
  | ok (items : Option (List AgentRawItem)) (hasMore truncated : Bool) (documents : Option Bool)
  | failed (code : String)
  | malformed
  deriving DecidableEq

inductive QuarantinedSummaryOutcome where
  | summary (count : ℕ)
  | listingOnly (reason : QuarantinedListingOnlyReason)
  | bound
  | failed (reason : SummaryErrorCode)
  deriving DecidableEq

/-- How the race of a call against the wall ended; `rejected` when the clock threw as the timer was
set. -/
inductive Raced (α : Type) where
  | answer (value : α)
  | wall
  | rejected
  deriving DecidableEq

inductive Phase where
  | idle
  | reading (step : ReadStep) (refValues : ℕ) (withDocuments : Bool)
      (settled : Option (Raced AgentReadResponse))
  | summarizing (step : SummarizeStep) (settled : Option (Raced QuarantinedSummaryOutcome))
  | done (result : AgentRunResult)

/-- What happened, for the record. A grant names the step whose call it was made for, if any. -/
inductive Observation where
  | granted (call : Option ℕ) (reservation : Reservation)
  | read (step : ℕ) (entryId : NlWave1EntryId) (keys : Option (List JsString))
  | answered (step : ℕ) (entryId : NlWave1EntryId) (items : Option (List AgentRawItem))
  | ended (call : ℕ)
  deriving DecidableEq

/-- The state of one `execute`. A step makes at most one call, so a handle is named by its step:
`opened` are those the ports were given, `aborted` those whose signal is aborted. The log is newest
first. -/
structure World where
  budget : AgentRunBudget
  results : List AgentStepResult
  projections : ℕ → Option StructureProjection
  listed : ℕ → Option ℕ
  documents : ℕ → Bool
  denials : ℕ → ℕ → Option QuarantinedListingOnlyReason
  opened : List ℕ
  aborted : List ℕ
  phase : Phase
  log : List Observation

namespace World

/-- The number of the next step, or of the one that is under way. -/
def number (w : World) : ℕ := w.results.length + 1

/-- The result of the step that is under way; the executor goes on to the next one. -/
def push (w : World) (result : AgentStepResult) : World :=
  { w with results := w.results ++ [result], phase := .idle }

def withBudget (w : World) (budget : AgentRunBudget) : World := { w with budget }

def record (w : World) (o : Observation) : World := { w with log := o :: w.log }

/-- Take the budget's answer to a reservation. -/
def take (w : World) (call : Option ℕ) (r : Reservation) (answer : Bool × AgentRunBudget) :
    Bool × World :=
  (answer.1, if answer.1 then (w.withBudget answer.2).record (.granted call r)
    else w.withBudget answer.2)

def abort (w : World) (call : ℕ) : World := { w with aborted := call :: w.aborted }

/-- The `finally` of a call. -/
def endCall (w : World) : World := (w.abort w.number).record (.ended w.number)

end World

/-- The state in which `execute` starts its loop; the run is over at once when the clock throws. -/
def begin (plan : RunPlan) (deps : AgentPlanExecutorDeps) (now : Reading) : World :=
  let empty (budget : AgentRunBudget) (results : List AgentStepResult) (phase : Phase) : World :=
    { budget, results, phase, projections := fun _ => none, listed := fun _ => none
      documents := fun _ => false, denials := fun _ _ => none, opened := [], aborted := []
      log := [] }
  match now with
  | none =>
    let results := plan.steps.zipIdx.map fun entry => notRun entry.1 (entry.2 + 1) .bound
    empty (.new deps.bounds .nan) results (.done ⟨.partly, none, results, ZERO_USAGE⟩)
  | some startedAt =>
    let budget := AgentRunBudget.new deps.bounds startedAt
    let staticOver := plan.connectorCalls > deps.bounds.maxConnectorQueries
    empty (if staticOver then budget.markBreach .connectorQueries else budget) [] .idle

/-! ## A read step -/

/-- `ids.slice(0, take)` -/
def sliceTo (ids : List JsString) (take : ℤ) : List JsString :=
  if take < 0 then ids.take (ids.length - take.natAbs) else ids.take take.toNat

/-- `slots[position - 1]` -/
def slotAt (slots : List (Option JsString)) (position : ℤ) : Option JsString :=
  if position < 1 then none else (slots[(position - 1).toNat]?).join

def resolveReference (ref : AgentReference) (number : ℕ) (entryId : NlWave1EntryId)
    (results : List AgentStepResult) (projections : ℕ → Option StructureProjection) :
    Except AgentStepNotRunReason (List JsString) :=
  if ref.step ≥ number ∨ ref.step < 1 then .error .refForward
  else
    let source := results[(ref.step - 1).toNat]?
    let projection := projections ref.step.toNat
    match source, projection with
    | some (.read _ _ (.ok ..)), some projection =>
      let target := AGENT_READ_SOURCES entryId
      if projection.source ≠ target.source ∨ projection.origin ≠ target.origin ∨
          ref.origin ≠ projection.origin then .error .refCrossSource
      else if projection.field ≠ some ref.field then .error .refField
      else if ref.take > AGENT_PLAN_MAX_REF_VALUES then .error .refTooMany
      else
        match ref.position with
        | some position =>
          if position > projection.slots.length then .error .refEmpty
          else
            match slotAt projection.slots position with
            | none => .error .refUnusable
            | some id => .ok [id]
        | none =>
          let keys := sliceTo projection.ids ref.take
          if keys.length = 0 then .error .refEmpty else .ok keys
    | _, _ => .error .sourceFailed

/-- The readings of the clock one step takes before it waits. -/
structure StartReadings where
  step : Reading
  wall : Reading
  timer : Reading
  request : Reading
  deriving DecidableEq

/-- What the quarantined summariser does before it waits for a model: it needs no model call, or asks
once for the call and its input tokens. -/
inductive SummarizerStart where
  | listingOnly (reason : QuarantinedListingOnlyReason)
  | fails
  | reserves (tokens : ℕ) (now : Reading)
  deriving DecidableEq

section

variable (plan : RunPlan) (deps : AgentPlanExecutorDeps)

/-- Whether documents are asked for, and why the covering summaries need none. -/
def World.readiness (w : World) (step : ReadStep) : Bool × (ℕ → ℕ → Option QuarantinedListingOnlyReason) :=
  match deps.summarizer with
  | none => (false, w.denials)
  | some models =>
    (plan.coverage w.number).foldl (fun state cover =>
      match summaryReadiness step.entry cover.2.schema (deps.summaryGrants cover.1 step.entry)
          (plan.askedAcross cover.2.fromSteps) models with
      | none => (true, state.2)
      | some refusal =>
        (state.1, Function.update state.2 cover.1
          (Function.update (state.2 cover.1) w.number (some refusal))))
      (false, w.denials)

/-- The port is called with a fresh handle, raced against the wall. -/
def World.callPort (w : World) (step : ReadStep) (keys : Option (List JsString)) (refValues : ℕ)
    (clock : StartReadings) : World :=
  let (withDocuments, denials) := w.readiness plan deps step
  let settled : Option (Raced AgentReadResponse) :=
    if clock.timer = none then some .rejected
    else if clock.request = none then some (.answer (.failed "UNKNOWN"))
    else none
  let asked := { w with denials, phase := .reading step refValues withDocuments settled }
  if clock.request = none then asked
  else { asked with opened := w.number :: w.opened }.record (.read w.number step.entry keys)

def World.startRead (w : World) (step : ReadStep) (clock : StartReadings) : World :=
  let result := AgentStepResult.read w.number step.entry
  if !deps.readers step.entry then w.push (result (.notRun .noReader))
  else
    let resolved : Except AgentStepNotRunReason (Option (List JsString)) :=
      match step.ref with
      | none => .ok none
      | some ref => (resolveReference ref w.number step.entry w.results w.projections).map some
    match resolved with
    | .error reason => w.push (result (.notRun reason))
    | .ok keys =>
      match w.budget.mayReadConnector clock.wall with
      | none => w.push (result (.failed .unknown))
      | some (false, budget) => (w.withBudget budget).push (result (.notRun .bound))
      | some (true, budget) =>
        let w := w.withBudget budget
        match keys with
        | none => w.callPort plan deps step none 0 clock
        | some values =>
          match w.take none (.refValues values.length) (w.budget.reserveRefValues values.length) with
          | (false, w) => w.push (result (.notRun .bound))
          | (true, w) => w.callPort plan deps step (some values) values.length clock

/-- What becomes of the answer of a port, after its call is over. -/
def World.finishRead (w : World) (step : ReadStep) (refValues : ℕ) (withDocuments : Bool)
    (now : Reading) (response : AgentReadResponse) : World :=
  let result := AgentStepResult.read w.number step.entry
  match w.budget.checkWall now with
  | none => w.push (result (.failed .unknown))
  | some (_, budget) =>
    let w := w.withBudget budget
    if budget.firstBreach ≠ none then w.push (result (.notRun .bound))
    else
      match response with
      | .malformed => w.push (result (.failed .unknown))
      | .failed code =>
        if code = "BOUND" then w.push (result (.notRun .bound))
        else w.push (result (.failed (closedCode code)))
      | .ok items hasMore truncated documents =>
        match projectStructure step.entry items with
        | none => w.push (result (.failed .unknown))
        | some projection =>
          let w := { w with
            projections := Function.update w.projections w.number (some projection)
            listed := Function.update w.listed w.number (some projection.itemCount) }
          match if withDocuments then documents else some false with
          | none => w.push (result (.failed .unknown))
          | some handed =>
            let w := { w with documents := Function.update w.documents w.number handed }
            (w.record (.answered w.number step.entry items)).push
              (result (.ok projection hasMore truncated refValues))

/-! ## A summarize step -/

/-- The reservation of the one model call, in the order the source asks for it. -/
def World.reserveSummary (w : World) (tokens : ℕ) (now : Reading) :
    World × Option QuarantinedSummaryOutcome :=
  match (w.budget.reserveModelCall .m2 now).map (w.take (some w.number) (.modelCall .m2)) with
  | none => (w, some (.failed .model))
  | some (false, w) => (w, some .bound)
  | some (true, w) =>
    match w.take (some w.number) (.inputTokens tokens) (w.budget.reserveInputTokens tokens) with
    | (false, w) => (w, some .bound)
    | (true, w) => (w, none)

def World.startSummary (w : World) (step : SummarizeStep) (clock : StartReadings)
    (m2 : SummarizerStart) : World :=
  let result := AgentStepResult.summarize w.number step.fromSteps step.schema
  match deps.summarizer with
  | none => w.push (result .deferred)
  | some _ =>
    if step.fromSteps.filter w.documents = [] then
      let denied := (step.fromSteps.filterMap (w.denials w.number)).head?
      w.push (result (.listingOnly (denied.getD .noDocuments)))
    else
      let (w, settled) : World × Option QuarantinedSummaryOutcome :=
        match m2 with
        | .listingOnly reason => (w, some (.listingOnly reason))
        | .fails => (w, some (.failed .model))
        | .reserves tokens now => w.reserveSummary tokens now
      { w with phase := .summarizing step
                (if clock.timer = none then some .rejected else settled.map .answer) }

def World.finishSummary (w : World) (step : SummarizeStep) (now : Reading)
    (raced : Raced QuarantinedSummaryOutcome) : World :=
  let result := AgentStepResult.summarize w.number step.fromSteps step.schema
  let listedItems := (step.fromSteps.map fun read => (w.listed read).getD 0).sum
  if raced = .rejected then w.push (result (.failed .model))
  else
    let budget :=
      match w.budget.checkWall now with
      | none => w.budget.markBreach .wallTime
      | some (_, budget) => budget
    let w := w.withBudget budget
    match raced, budget.firstBreach with
    | .answer (.summary count), none => w.push (result (.ok count (listedItems - count)))
    | .answer (.listingOnly reason), none => w.push (result (.listingOnly reason))
    | .answer (.failed reason), none => w.push (result (.failed reason))
    | _, _ => w.push (result .notRun)

/-! ## The machine -/

/-- The two reservations of a port's handle. -/
inductive HandleMethod where
  | reserveQuery | reserveHttp
  deriving DecidableEq

def HandleMethod.reservation : HandleMethod → Reservation
  | .reserveQuery => .query
  | .reserveHttp => .http

/-- A port uses the handle of a call: refused once the signal is aborted, and a refusal aborts it. A
clock that throws leaves everything as it was. -/
def World.useHandle (w : World) (call : ℕ) (method : HandleMethod) (now : Reading) : World :=
  if call ∈ w.aborted then w
  else
    match (w.budget.reserve now method.reservation).map (w.take (some call) method.reservation) with
    | none => w
    | some (true, w) => w
    | some (false, w) => w.abort call

inductive Event where
  | startStep (clock : StartReadings) (m2 : SummarizerStart)
  | useHandle (call : ℕ) (method : HandleMethod) (now : Reading)
  | portSettles (response : AgentReadResponse)
  | modelSettles (outcome : QuarantinedSummaryOutcome)
  | wallFires
  | resume (now : Reading)
  | finish (now : Reading)

def World.startStep (w : World) (step : ValidatedAgentStep) (clock : StartReadings)
    (m2 : SummarizerStart) : World :=
  let blocked := plan.connectorCalls > deps.bounds.maxConnectorQueries ∨ plan.kind ≠ .run
  if blocked then w.push (notRun step w.number .bound)
  else
    match (w.budget.reserveStep clock.step).map (w.take none .step) with
    | none => w.push (notRun step w.number .bound)
    | some (false, w) => w.push (notRun step w.number .bound)
    | some (true, w) =>
      match step with
      | .read step => w.startRead plan deps step clock
      | .summarize step => w.startSummary deps step clock m2

def World.finish (w : World) (now : Reading) : World :=
  let usage := (now.map w.budget.snapshot).getD ZERO_USAGE
  let breach := w.budget.firstBreach
  let outcome := if breach = none ∧ w.results.all (·.answered) then .complete else .partly
  { w with phase := .done ⟨outcome, breach, w.results, usage⟩ }

def step (w : World) : Event → Option World
  | .useHandle call method now =>
    if call ∈ w.opened then some (w.useHandle call method now) else none
  | .startStep clock m2 =>
    match w.phase, plan.steps[w.results.length]? with
    | .idle, some step => some (w.startStep plan deps step clock m2)
    | _, _ => none
  | .portSettles response =>
    match w.phase with
    | .reading step refValues withDocuments none =>
      some { w with phase := .reading step refValues withDocuments (some (.answer response)) }
    | _ => none
  | .modelSettles outcome =>
    match w.phase with
    | .summarizing step none => some { w with phase := .summarizing step (some (.answer outcome)) }
    | _ => none
  | .wallFires =>
    match w.phase with
    | .reading step refValues withDocuments none =>
      some { (w.withBudget (w.budget.markBreach .wallTime)).abort w.number with
        phase := .reading step refValues withDocuments (some .wall) }
    | .summarizing step none =>
      some { (w.withBudget (w.budget.markBreach .wallTime)).abort w.number with
        phase := .summarizing step (some .wall) }
    | _ => none
  | .resume now =>
    match w.phase with
    | .reading step refValues withDocuments (some raced) =>
      let w := w.endCall
      match raced with
      | .rejected => some (w.push (.read w.number step.entry (.failed .unknown)))
      | .wall => some (w.push (.read w.number step.entry (.notRun .bound)))
      | .answer response => some (w.finishRead step refValues withDocuments now response)
    | .summarizing step (some raced) => some (w.endCall.finishSummary step now raced)
    | _ => none
  | .finish now =>
    match w.phase with
    | .idle => if w.results.length = plan.steps.length then some (w.finish now) else none
    | _ => none

end

end QuokyPlatform.AgentRuns
