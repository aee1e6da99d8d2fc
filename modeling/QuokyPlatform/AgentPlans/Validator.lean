import QuokyPlatform.AgentPlans.Steps

/-! # The validator of a plan

`validateAgentPlan` with every rule that reads the plan and the catalog, and with the narrower plan it
derives from a plan over a bound and validates in turn. What the rules read in the owner's words is a
parameter. The derived plans are validated by the same function: its depth is a fuel, and the result
is `none` when the fuel does not last. -/

namespace QuokyPlatform.AgentPlans
open AgentRuns (NlWave1EntryId AGENT_READ_SOURCES AgentSummarySchemaId AgentPlanKind)

set_option autoImplicit false
set_option maxHeartbeats 250000

/-! ## Refusals -/

inductive AgentPlanRefusal where
  | notDm | vetoPastStatement | vetoQuotedRequest | vetoReasonStatement | tooManySteps | tooManyReads
  | tooManySummaries | noRead | singleStepOnly | a6InPlan | unknownEntry | notOffered | notRead
  | dateUngrounded | rangeUnnamed | rangeAmbiguous | stepInvalid | refForward | refNotRead | refDate
  | refCrossSource | refField | refTooMany | refPosition | runRefsTooMany | summarySchema
  | summarySource | briefRepeated | summaryCoversBrief | overBound
  deriving DecidableEq

/-- The reason, the number of the failing step, and for an invalid step the reason of its own. -/
structure Refusal where
  reason : AgentPlanRefusal
  step : Option ℕ
  stepReason : Option String
  deriving DecidableEq

def refuse (reason : AgentPlanRefusal) (step : Option ℕ) : Refusal := ⟨reason, step, none⟩

abbrev AgentPlanValidation := Except Refusal ValidatedAgentPlan

/-! ## What the validator reads -/

/-- The offered entries are found under their own ids. -/
structure AgentPlanValidationContext where
  offered : String → Option NlCatalogEntry
  offered_id : ∀ id entry, offered id = some entry → entry.id = id
  previousArgs : Option NlArgs
  direct : Bool
  briefConnectorCalls : Option ℕ

inductive NlReadNotRequest where
  | quotedRequest | reasonStatement
  deriving DecidableEq

structure StepTemporal where
  texts : ℕ → Option String
  refusal : Option (AgentPlanRefusal × ℕ)

/-- A selection as `validateSelection` is asked about it: the text in place of the owner's whole prose,
and whether a later step reads the listing. -/
structure SelectionCheck where
  entryId : String
  args : NlArgs
  groundingText : Option String
  listingFeedsLaterStep : Bool

/-- The rules that read the owner's words, the day and the time zone. -/
structure OwnerText where
  isPastStatement : Bool
  readNotRequest : NlArgs → Option NlReadNotRequest
  absoluteDatesGrounded : String → Bool
  stepTemporalTexts : AgentPlanValidationContext → List AgentPlanStep → Option StepTemporal
  validateSelection : AgentPlanValidationContext → SelectionCheck →
    Except String (NlArgs × Option NlResolvedRange)
  clauseGrounded : AgentPlanValidationContext → NlCatalogEntry → NlArgs → Bool
  positionClause : NlCatalogEntry → NlArgs → List NlArgs → ℕ → Option ℕ
  clauseClaimsWrite : ℕ → Bool
  leavesWriteClause : List ValidatedAgentStep → Bool
  clauseGroundedArgs : List ValidatedAgentStep → ValidatedRead → NlArgs
  insideThisWeek : List (Option NlArgValue) → Bool

variable (text : OwnerText)

/-! ## The steps of a plan, one by one -/

/-- The first refusal in the order of the steps. -/
def firstRefusal (steps : List AgentPlanStep) (check : ℕ → AgentPlanStep → Option Refusal) :
    Option Refusal :=
  (steps.zipIdx 1).findSome? fun entry => check entry.2 entry.1

def planKeywords (steps : List AgentPlanStep) (ctx : AgentPlanValidationContext) : NlArgs :=
  let values := (readsOf steps).flatMap fun step =>
    match ctx.offered step.entryId with
    | none => []
    | some entry => entry.args.filterMap fun spec =>
      match step.args.get spec.name with
      | some (.text value) => if spec.kind = .keyword then some value else none
      | _ => none
  values.foldl (fun keywords value => keywords.set s!"plan{keywords.size}" (.text value)) .empty

/-- Rule 1a for the reads. -/
def statementRefusal (steps : List AgentPlanStep) (ctx : AgentPlanValidationContext) :
    Option Refusal :=
  let keywords := planKeywords steps ctx
  firstRefusal steps fun number step =>
    match step with
    | .summarize _ => none
    | .read read => (text.readNotRequest (read.args.merge keywords)).map fun
      | .quotedRequest => refuse .vetoQuotedRequest (some number)
      | .reasonStatement => refuse .vetoReasonStatement (some number)

/-- Rule 2 for the entries of a plan of more than one step. -/
def mixRefusal (steps : List AgentPlanStep) : Option Refusal :=
  if steps.length ≤ 1 then none
  else firstRefusal steps fun number step =>
    match step with
    | .summarize _ => none
    | .read read =>
      if isNlActionEntryId read.entryId then some (refuse .a6InPlan (some number))
      else if read.entryId = "help.topic" then some (refuse .singleStepOnly (some number))
      else if read.entryId = "brief.today" ∧
          1 ≤ (readsOf (steps.take (number - 1))).countP (fun other => other.entryId = "brief.today")
        then some (refuse .briefRepeated (some number))
      else none

def DATE_WORDS : List String :=
  ["date", "day", "time", "when", "due", "start", "end", "range", "period", "deadline", "week",
    "month", "year"]

/-- `DATE_FIELD` -/
def isDateField (field : String) : Bool :=
  DATE_WORDS.any fun word => word.toList <:+: field.toList.map Char.toLower

def positionRefHolds (position take : ℕ) (list : ReadStep) (listEntry target : NlWave1EntryId)
    (number : ℕ) (steps : List AgentPlanStep) (ctx : AgentPlanValidationContext) : Bool :=
  let source := AGENT_READ_SOURCES listEntry
  if take ≠ 1 ∨ AGENT_PLAN_MAX_REF_VALUES < position ∨ source.source ∉ AGENT_POSITION_REF_SOURCES then
    false
  else if source.itemEntry ≠ some target then false
  else if !(steps.zipIdx 1).any (fun other =>
      match other.1 with
      | .summarize summary => number < other.2 && summary.sources.contains number
      | .read _ => false) then
    false
  else
    match ctx.offered list.entryId with
    | none => false
    | some entry =>
      match text.positionClause entry list.args ((readsOf steps).map ReadStep.args) position with
      | none => false
      | some clause => !text.clauseClaimsWrite clause

def checkRef (step : ReadStep) (number : ℕ) (steps : List AgentPlanStep)
    (ctx : AgentPlanValidationContext) (base : ValidatedRead) : Except Refusal ValidatedRead :=
  match step.ref, wave1EntryId step.entryId with
  | none, _ => .ok base
  | _, none => .ok base
  | some ref, some target =>
    if number ≤ ref.step then .error (refuse .refForward (some number))
    else match stepAt steps ref.step with
    | some (.read source) =>
      match wave1EntryId source.entryId with
      | none => .error (refuse .refNotRead (some number))
      | some listEntry =>
        let here := AGENT_READ_SOURCES target
        let there := AGENT_READ_SOURCES listEntry
        if isDateField ref.field then .error (refuse .refDate (some number))
        else if there.source ≠ here.source ∨ there.origin ≠ here.origin then
          .error (refuse .refCrossSource (some number))
        else if there.refField ≠ some ref.field then .error (refuse .refField (some number))
        else if AGENT_PLAN_MAX_REF_VALUES < ref.take then .error (refuse .refTooMany (some number))
        else if ref.position.any fun position =>
            !positionRefHolds text position ref.take source listEntry target number steps ctx then
          .error (refuse .refPosition (some number))
        else .ok { base with
          ref := some ⟨ref.step, ref.field, ref.take, ref.position, listEntry, there.origin⟩ }
    | _ => .error (refuse .refNotRead (some number))

/-- A date the owner's words do not carry, unless it is the previous selection's. -/
def hasUngroundedDate (step : ReadStep) (entry : NlCatalogEntry) (ctx : AgentPlanValidationContext) :
    Bool :=
  entry.args.any fun spec =>
    match step.args.get spec.name with
    | some (.text value) =>
      spec.kind = .range && (ctx.previousArgs.bind (·.get spec.name)) ≠ some (.text value) &&
        !text.absoluteDatesGrounded value
    | _ => false

def checkRead (step : ReadStep) (number : ℕ) (steps : List AgentPlanStep)
    (ctx : AgentPlanValidationContext) (temporal : Option StepTemporal) :
    Except Refusal ValidatedRead :=
  if isNlActionEntryId step.entryId then .error (refuse .notRead (some number))
  else if (wave1EntryId step.entryId).isNone then .error (refuse .unknownEntry (some number))
  else match ctx.offered step.entryId with
  | none => .error (refuse .notOffered (some number))
  | some entry =>
    if entry.risk ≠ .read then .error (refuse .notRead (some number))
    else if hasUngroundedDate text step entry ctx then .error (refuse .dateUngrounded (some number))
    else match (temporal.bind StepTemporal.refusal).filter fun refusal => refusal.2 = number with
    | some refusal => .error (refuse refusal.1 (some number))
    | none =>
      if (step.ref.bind AgentPlanRef.position).isSome then
        if step.args.size > 0 then .error (refuse .refPosition (some number))
        else checkRef text step number steps ctx ⟨entry, .empty, none, none⟩
      else
        let feeds := step.ref.isSome ||
          (readsOf steps).any fun later => later.ref.any fun ref => ref.step = number
        match text.validateSelection ctx
          ⟨step.entryId, step.args, temporal.bind (·.texts number), feeds⟩ with
        | .error reason => .error ⟨.stepInvalid, some number, some reason⟩
        | .ok (args, range) =>
          if 1 < steps.length ∧ !text.clauseGrounded ctx entry args then
            .error ⟨.stepInvalid, some number, some "ungrounded"⟩
          else checkRef text step number steps ctx ⟨entry, args, range, none⟩

/-- `AGENT_PLAN_SUMMARY_SCHEMAS` -/
def summarySchema (schema : String) : Option AgentSummarySchemaId :=
  if schema = "digest.v1" then some .digest
  else if schema = "meeting-digest.v1" then some .meetingDigest
  else none

def sourceRefusal (number : ℕ) (steps : List AgentPlanStep) (source : ℕ) : Option Refusal :=
  match stepAt steps source with
  | some (.read step) =>
    if number ≤ source then some (refuse .summarySource (some number))
    else if step.entryId = "brief.today" then some (refuse .summaryCoversBrief (some number))
    else none
  | _ => some (refuse .summarySource (some number))

def checkSummary (step : SummaryStep) (number : ℕ) (steps : List AgentPlanStep) :
    Except Refusal ValidatedSummary :=
  match summarySchema step.schema with
  | none => .error (refuse .summarySchema (some number))
  | some schema =>
    if ¬ step.sources.Nodup then .error (refuse .summarySource (some number))
    else match step.sources.findSome? (sourceRefusal number steps) with
    | some refusal => .error refusal
    | none => .ok ⟨step.sources, schema⟩

def checkStep (step : AgentPlanStep) (number : ℕ) (steps : List AgentPlanStep)
    (ctx : AgentPlanValidationContext) (temporal : Option StepTemporal) :
    Except Refusal ValidatedAgentStep :=
  match step with
  | .summarize summary => (checkSummary summary number steps).map .summarize
  | .read read => (checkRead text read number steps ctx temporal).map .read

/-- The values a step refers to. -/
def ValidatedAgentStep.take : ValidatedAgentStep → Option ℕ
  | .read step => step.ref.map ValidatedRef.take
  | .summarize _ => none

/-- The loop over the steps, from `number` on, with the referenced values so far. -/
def checkStepsFrom (steps : List AgentPlanStep) (ctx : AgentPlanValidationContext)
    (temporal : Option StepTemporal) : ℕ → ℕ → List AgentPlanStep →
    Except Refusal (List ValidatedAgentStep)
  | _, _, [] => .ok []
  | number, refValues, step :: rest =>
    match checkStep text step number steps ctx temporal with
    | .error refusal => .error refusal
    | .ok checked =>
      if checked.take.any fun take => AGENT_PLAN_MAX_RUN_REF_VALUES < refValues + take then
        .error (refuse .runRefsTooMany (some number))
      else
        (checkStepsFrom steps ctx temporal (number + 1) (refValues + checked.take.getD 0) rest).map
          (checked :: ·)

def checkSteps (steps : List AgentPlanStep) (ctx : AgentPlanValidationContext) :
    Except Refusal (List ValidatedAgentStep) :=
  let temporal := if 1 < steps.length then text.stepTemporalTexts ctx steps else none
  checkStepsFrom text steps ctx temporal 1 0 steps

/-! ## Plans over a bound -/

structure Unbounded where
  bound : AgentUnboundedKind
  refusal : AgentPlanRefusal
  /-- For a repeated period: the entry and its range argument. -/
  repeated : Option (String × String)
  deriving DecidableEq

/-- The period a read names, with the argument that holds it. -/
def periodOf (ctx : AgentPlanValidationContext) (step : ReadStep) : Option (String × String) :=
  match (ctx.offered step.entryId).bind NlCatalogEntry.rangeSpec with
  | none => none
  | some spec =>
    match step.args.get spec.name with
    | some (.text value) => some (spec.name, value)
    | _ => none

/-- The different periods an entry is read for. -/
def periodsOf (ctx : AgentPlanValidationContext) (reads : List ReadStep) (entryId : String) :
    List String :=
  ((reads.filter fun step => step.entryId = entryId).filterMap fun step =>
    (periodOf ctx step).map Prod.snd).dedup

/-- The first entry, in the order in which their periods appear, that is read for too many. -/
def repeatedEntry (ctx : AgentPlanValidationContext) (reads : List ReadStep) :
    Option (String × String) :=
  (reads.filterMap fun step => (periodOf ctx step).map fun period => (step.entryId, period.1)).find?
    fun entry => AGENT_PLAN_PER_PERIOD_STEPS ≤ (periodsOf ctx reads entry.1).length

def ReadStep.taken (step : ReadStep) : ℕ := (step.ref.map AgentPlanRef.take).getD 0

def unboundedOf (steps : List AgentPlanStep) (ctx : AgentPlanValidationContext) : Option Unbounded :=
  let reads := readsOf steps
  match repeatedEntry ctx reads with
  | some entry =>
    some ⟨.perPeriod, if AGENT_PLAN_MAX_READS < reads.length then .tooManyReads else .rangeAmbiguous,
      some entry⟩
  | none =>
    if AGENT_PLAN_MAX_READS < reads.length then some ⟨.reads, .tooManyReads, none⟩
    else if reads.any fun step => AGENT_PLAN_MAX_REF_VALUES < step.taken then
      some ⟨.refs, .refTooMany, none⟩
    else if AGENT_PLAN_MAX_RUN_REF_VALUES < (reads.map ReadStep.taken).sum then
      some ⟨.refs, .runRefsTooMany, none⟩
    else none

/-- The plan with only its bound lifted. -/
def otherwiseValid (steps : List AgentPlanStep) (unbounded : Unbounded) : List AgentPlanStep :=
  steps.map fun
    | .summarize step => .summarize step
    | .read step => .read { step with
        args := match unbounded.repeated with
          | some (entryId, rangeArg) =>
            if step.entryId = entryId then step.args.delete rangeArg else step.args
          | none => step.args
        ref := step.ref.map fun ref => { ref with take := min ref.take AGENT_PLAN_MAX_REF_VALUES } }

def narrowedPeriod (values : List (Option NlArgValue)) : String :=
  if text.insideThisWeek values then "this-week" else "this-month"

/-- A step under its new numbers: what a loop over the steps keeps. -/
structure Kept where
  out : List AgentPlanStep
  numbers : ℕ → Option ℕ
  reads : ℕ

/-- The step `number` is kept, and later steps may name it. -/
def Kept.push (kept : Kept) (number : ℕ) (step : AgentPlanStep) : Kept where
  out := kept.out ++ [step]
  numbers := Function.update kept.numbers number (some (kept.out.length + 1))
  reads := kept.reads + 1

def Kept.start : Kept := ⟨[], fun _ => none, 0⟩

def SummaryStep.withSources (step : SummaryStep) (new : ℕ → ℕ) : SummaryStep :=
  ⟨step.sources.map new, step.schema, by simpa using step.nonempty⟩

def firstReadsStep (max : ℕ) (kept : Kept) : AgentPlanStep × ℕ → Kept
  | (.read step, number) =>
    if max ≤ kept.reads then kept
    else match step.ref with
    | none => kept.push number (.read step)
    | some ref =>
      match kept.numbers ref.step with
      | none => { kept with reads := kept.reads + 1 }
      | some source => kept.push number (.read { step with ref := some { ref with step := source } })
  | (.summarize step, _) =>
    if step.sources.all fun source => (kept.numbers source).isSome then
      { kept with out := kept.out ++
          [.summarize (step.withSources fun source => (kept.numbers source).getD 0)] }
    else kept

/-- The first reads, with the summaries over them and the references among them renumbered. -/
def firstReads (steps : List AgentPlanStep) (max : ℕ) : List AgentPlanStep :=
  ((steps.zipIdx 1).foldl (firstReadsStep max) Kept.start).out

/-- `reads` counts the values the references have taken. -/
def clampRefsStep (kept : Kept) : AgentPlanStep × ℕ → Kept
  | (.read step, number) =>
    match step.ref with
    | none => { kept.push number (.read step) with reads := kept.reads }
    | some ref =>
      let take := min (min ref.take AGENT_PLAN_MAX_REF_VALUES)
        (AGENT_PLAN_MAX_RUN_REF_VALUES - kept.reads)
      match kept.numbers ref.step with
      | none => kept
      | some source =>
        if take < 1 then kept
        else { kept.push number
            (.read { step with ref := some { ref with step := source, take := take } }) with
          reads := kept.reads + take }
  | (.summarize step, _) =>
    let sources := step.sources.filterMap kept.numbers
    if h : sources ≠ [] then
      { kept with out := kept.out ++ [.summarize ⟨sources, step.schema, h⟩] }
    else kept

/-- References clamped in the order of the steps; a reference left with no value is dropped. -/
def clampRefs (steps : List AgentPlanStep) : Option (List AgentPlanStep) :=
  let out := ((steps.zipIdx 1).foldl clampRefsStep Kept.start).out
  if out.any AgentPlanStep.isRead then some out else none

/-- The repeated entry read once, for a narrowed period. -/
def perPeriodSuggestion (steps : List AgentPlanStep) (entryId rangeArg : String) :
    Option (List AgentPlanStep × String) :=
  let repeated := (steps.zipIdx 1).filterMap fun entry =>
    match entry.1 with
    | .read step => if step.entryId = entryId then some (step, entry.2) else none
    | .summarize _ => none
  match repeated with
  | [] => none
  | (first, _) :: _ =>
    let period := narrowedPeriod text (repeated.map fun entry => entry.1.args.get rangeArg)
    let summarized := steps.any fun
      | .summarize step => step.sources.any fun source => (repeated.map Prod.snd).contains source
      | .read _ => false
    let schema := if entryId = "calendar.events" then "meeting-digest.v1" else "digest.v1"
    some (.read ⟨entryId, first.args.set rangeArg (.text period), none⟩ ::
      (if summarized then [.summarize ⟨[1], schema, by simp⟩] else []), period)

/-- The suggestion of an ask, and the context it is checked in. -/
def suggestionOf (steps : List AgentPlanStep) (unbounded : Unbounded)
    (ctx : AgentPlanValidationContext) :
    Option (List AgentPlanStep × AgentPlanValidationContext) :=
  match unbounded.repeated with
  | some (entryId, rangeArg) =>
    (perPeriodSuggestion text steps entryId rangeArg).map fun suggestion =>
      (suggestion.1, { ctx with
        previousArgs := some ((ctx.previousArgs.getD .empty).set rangeArg (.text suggestion.2)) })
  | none =>
    (clampRefs (if unbounded.bound = .reads then firstReads steps AGENT_PLAN_MAX_READS else steps)).map
      fun suggestion => (suggestion, ctx)

/-! ## The validator -/

section recursion

variable (validate : AgentPlan → AgentPlanValidationContext → Option AgentPlanValidation)

/-- The first `maxReads`, or fewer, reads that make a plan to run. -/
def fitToCharge (steps : List AgentPlanStep) (ctx : AgentPlanValidationContext) :
    ℕ → Option (Option (List ValidatedAgentStep))
  | 0 => some none
  | reads + 1 =>
    let candidate := firstReads steps (reads + 1)
    if !candidate.any AgentPlanStep.isRead then fitToCharge steps ctx reads
    else match validate (.steps .steps candidate .clear none) ctx with
    | none => none
    | some (.ok (.run .run suggestion _ _)) => some (some suggestion)
    | some _ => fitToCharge steps ctx reads

def askUnbounded (steps : List AgentPlanStep) (unbounded : Unbounded)
    (ctx : AgentPlanValidationContext) : Option AgentPlanValidation :=
  let failed : AgentPlanValidation := .error (refuse unbounded.refusal none)
  let otherwise := otherwiseValid steps unbounded
  let temporal := if 1 < otherwise.length then text.stepTemporalTexts ctx otherwise else none
  match firstRefusal otherwise fun number step =>
    match checkStep text step number otherwise ctx temporal with
    | .error refusal => some refusal
    | .ok _ => none with
  | some refusal => some (.error refusal)
  | none =>
    match suggestionOf text steps unbounded ctx with
    | none => some failed
    | some (suggestion, check) =>
      if (unboundedOf suggestion check).isSome then some failed
      else match fitToCharge validate suggestion check (readsOf suggestion).length with
      | none => none
      | some none => some failed
      | some (some fitted) => some (.ok (.ask unbounded.bound fitted))

/-- The related step, when another read has a different source. -/
def relatedStep (steps : List ValidatedAgentStep) (related : ℕ) : Option ℕ :=
  match stepAt steps related with
  | some (.read target) =>
    match wave1EntryId target.entry.id with
    | none => none
    | some entryId =>
      if (validatedReads steps).any fun step => (wave1EntryId step.entry.id).any fun other =>
          (AGENT_READ_SOURCES other).source ≠ (AGENT_READ_SOURCES entryId).source then
        some related
      else none
  | _ => none

/-- A reference step keeps its arguments. -/
def withClauseGroundedFlags (steps : List ValidatedAgentStep) : List ValidatedAgentStep :=
  steps.map fun
    | .read step =>
      if step.ref.isSome then .read step
      else .read { step with args := text.clauseGroundedArgs steps step }
    | .summarize step => .summarize step

def validateSteps (form : PlanForm) (steps : List AgentPlanStep) (ambiguity : NlAmbiguity)
    (related : Option ℕ) (ctx : AgentPlanValidationContext) : Option AgentPlanValidation :=
  if text.isPastStatement then some (.error (refuse .vetoPastStatement none))
  else match statementRefusal text steps ctx with
  | some refusal => some (.error refusal)
  | none =>
    if steps.length = 0 ∨ AGENT_PLAN_MAX_STEPS < steps.length then
      some (.error (refuse .tooManySteps none))
    else if (readsOf steps).length = 0 then some (.error (refuse .noRead none))
    else if AGENT_PLAN_MAX_SUMMARIES < steps.length - (readsOf steps).length then
      some (.error (refuse .tooManySummaries none))
    else match mixRefusal steps with
    | some refusal => some (.error refusal)
    | none =>
      match unboundedOf steps ctx with
      | some unbounded => askUnbounded text validate steps unbounded ctx
      | none =>
        match checkSteps text steps ctx with
        | .error refusal => some (.error refusal)
        | .ok validated =>
          let connectorCalls := agentPlanConnectorCharge ctx.briefConnectorCalls validated
          if AGENT_RUN_MAX_CONNECTOR_CALLS < connectorCalls then
            (fitToCharge validate steps ctx ((readsOf steps).length - 1)).map fun
              | none => .error (refuse .overBound none)
              | some fitted => .ok (.ask .calls fitted)
          else if text.leavesWriteClause validated then some (.ok (.none true))
          else
            let relatedAsPlanned :=
              if form = .steps then related.bind (relatedStep validated) else none
            let normalized := normalizeSummaryPlacement (withClauseGroundedFlags text validated)
            some (.ok (.run (if ambiguity = .needsClarification then .clarify else .run)
              normalized.steps connectorCalls (relatedAsPlanned.bind normalized.renumber)))

end recursion

def validateAgentPlan : ℕ → AgentPlan → AgentPlanValidationContext → Option AgentPlanValidation
  | 0, _, _ => none
  | fuel + 1, plan, ctx =>
    if !ctx.direct then some (.error (refuse .notDm none))
    else match plan with
    | .none => some (.ok (.none false))
    | .steps form steps ambiguity related =>
      validateSteps text (validateAgentPlan fuel) form steps ambiguity related ctx

end QuokyPlatform.AgentPlans
