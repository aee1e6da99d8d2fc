import QuokyPlatform.ConnectorWrites.Anchors

/-!
# The connector-write flow

A draft becomes a numbered choice or a preview with its approval, an approved write is claimed once
and sent, and a write that ends closes its anchor. What a call reads besides tasks, sessions and
approvals (the calendar, the writers, the receipts, the clock and new ids) is its `FlowDeps`, which may
be others at the next call. The send runs outside the claim's section, so an execution is two calls.
-/

namespace QuokyPlatform.ConnectorWriteFlow
open Sessions
open ConnectorWrites (ConnectorWriteOperation ConnectorWriteOutcome isVersion)
set_option autoImplicit false
set_option maxHeartbeats 250000

/-! ## Inputs and answers -/

/-- An actor; `requestForRisk` throws on a blank id. -/
structure Actor where
  id : Id
  named : id.toList.all isTrimmed = false

structure FlowInput where
  /-- The caller's copy of the session. -/
  session : Session
  actor : Actor
  now : IsoTimestamp

inductive ConnectorWriteRefusal where
  | targetNotAllowed | invalidTarget | invalidText | textTooLong | credential
  | transitionUnavailable | transitionLookupFailed
  | eventNotFound | noNearbyEvents | eventUnversioned | tooManyEvents | calendarReadFailed
  | allDayMove | invalidTime | noChange | invalidChoice
  | bindingMismatch | grantExpired | grantRevoked | choiceExpired
  | undoNothing | undoUnavailable | undoEventGone | undoEventChanged
  deriving DecidableEq, Repr

inductive ConnectorWriteChoiceBasis where
  | listed
  | written
  | nearby
  deriving DecidableEq, Repr

/-- An earlier write of the same kind that is unresolved: it may already have happened. -/
structure UnconfirmedEarlier where
  status : ConnectorWriteAnchorStatus
  writtenAt : IsoTimestamp
  timeZone : String
  deriving DecidableEq, Repr

/-- What a step of the flow answers. -/
inductive ConnectorWriteStep where
  | writesOff
  | usage (topic : String)
  | refused (reason : ConnectorWriteRefusal) (family : ConnectorWriteFamily)
      (availableStatuses : List String)
  | preview (preview : Json) (approval : ApprovalRequest) (remainingMs : ℤ)
      (executionPhrase : String) (unconfirmedEarlier : Option UnconfirmedEarlier)
  | choice (mode : ConnectorWriteChoiceMode) (candidates : List ConnectorWriteEventSummary)
      (timeZone : String) (basis : Option ConnectorWriteChoiceBasis)
  | alreadySent (operation : ConnectorWriteOperation) (externalRef url : Option String)
  | approved (operation : ConnectorWriteOperation) (executionPhrase : String)
  | outcome (operation : ConnectorWriteOperation) (outcome : ConnectorWriteOutcome) (preview : Json)
  | repeated (operation : ConnectorWriteOperation) (status : ConnectorWriteAnchorStatus)
      (externalRef url : Option String)

def ConnectorWriteStep.isPreview : ConnectorWriteStep → Bool
  | .preview .. => true
  | _ => false

def refused (reason : ConnectorWriteRefusal) (family : ConnectorWriteFamily) : ConnectorWriteStep :=
  .refused reason family []

/-- What is proposed: the exact payload with its preview. -/
structure Proposal where
  family : ConnectorWriteFamily
  connector : String
  target : String
  payload : ConnectorWritePayload
  preview : Json
  undoOf : Option Json := none

/-- What the checks of a draft come to. -/
inductive Preparation where
  | answered (step : ConnectorWriteStep)
  | offer (choice : ConnectorWriteChoice) (basis : Option ConnectorWriteChoiceBasis)
  | propose (proposal : Proposal)
  | proposeEventChange (mode : ConnectorWriteChoiceMode) (event : ConnectorWriteEventSummary)
      (changes : Option Json)

structure CalendarEventWriter where
  source : String
  target : String

/-- The part of a receipt a repeated proposal reads. -/
structure EarlierReceipt where
  prepared : Bool
  externalRef : Option String
  url : Option String
  updatedAt : IsoTimestamp

structure FlowDeps (Draft : Type) where
  /-- Reads the writers, the calendar and the receipts; saves nothing. -/
  prepareDraft : FlowStore → FlowInput → Draft → Preparation
  calendarEvents : Option CalendarEventWriter
  /-- The exact changes and the event after them, or a refusal. -/
  resolveChanges : ConnectorWriteEventSummary → Option Json → Except ConnectorWriteRefusal (Json × Json)
  timeZone : String
  connectorWritePayloadSha256 : ConnectorWriteOperation → String → Json → String
  findLatestSent : Id → Proposal → String → Option EarlierReceipt
  findLatestUnresolved : Id → Proposal → String → Option EarlierReceipt
  stillAllowed : ConnectorWritePayload → Bool
  /-- Whether there is a writer for the payload. -/
  sendFor : ConnectorWritePayload → String → Bool
  dateParse : IsoTimestamp → Option ℤ
  /-- The clock of the approval manager. -/
  approvalNow : IsoTimestamp
  planRefId : Id
  approvalId : Id
  taskId : Id

def PENDING_APPROVAL_TTL_MS : ℤ := 1800000

def operationText : ConnectorWriteOperation → String
  | .issueComment => "ISSUE_COMMENT"
  | .issueTransition => "ISSUE_TRANSITION"
  | .channelPost => "CHANNEL_POST"
  | .calendarEventCreate => "CALENDAR_EVENT_CREATE"
  | .calendarEventUpdate => "CALENDAR_EVENT_UPDATE"
  | .calendarEventDelete => "CALENDAR_EVENT_DELETE"

/-- The documented phrase of the operation's execution gate. -/
def documentedExecutionPhrase : ConnectorWriteOperation → String
  | .issueComment => "댓글 실행"
  | .issueTransition => "상태 변경 실행"
  | .channelPost => "Slack 게시 실행"
  | .calendarEventCreate => "일정 추가 실행"
  | .calendarEventUpdate => "일정 변경 실행"
  | .calendarEventDelete => "일정 삭제 실행"

def connectorWriteApprovalReason (operation : ConnectorWriteOperation) (target sha256 : String) :
    String :=
  "connector-write: " ++ operationText operation ++ " target=" ++ target ++ " sha256=" ++ sha256 ++
    "; one-time, exact payload, no automatic retry"

/-- Whether an approved grant or an open choice has outlived its lifetime. -/
def isConnectorWriteAnchorLapsed (dateParse : IsoTimestamp → Option ℤ)
    (anchor : ConnectorWriteAnchor) (now : IsoTimestamp) : Bool :=
  let lapsedSince (since : Option IsoTimestamp) : Bool :=
    match since.bind dateParse with
    | none => true
    | some start =>
      match dateParse now with
      | none => false
      | some current => PENDING_APPROVAL_TTL_MS ≤ current - start
  match anchor.status with
  | .APPROVED => lapsedSince anchor.approvedAt
  | .AWAITING_CHOICE => lapsedSince (some anchor.createdAt)
  | _ => false

def bound (view : ConnectorWriteAnchorView) (input : FlowInput) : Bool :=
  view.anchor.actorId = input.actor.id && view.anchor.sessionId = input.session.id

def repeatOf (anchor : ConnectorWriteAnchor) (operation : ConnectorWriteOperation) :
    ConnectorWriteStep :=
  let status := if anchor.status = .EXECUTING then .EXECUTING
    else (anchor.outcome.map AnchorOutcome.status).getD .UNCERTAIN
  .repeated operation status (truthy (anchor.outcome.bind AnchorOutcome.externalRef))
    (truthy (anchor.outcome.bind AnchorOutcome.url))

section

variable {Draft : Type} (deps : FlowDeps Draft) (store : FlowStore) (input : FlowInput)

/-! ## Lookup -/

/-- The session's own anchor that is not yet closed, by the pointer of the caller's copy. -/
def openAnchorOf (session : Session) : Option (Id × ConnectorWriteAnchor) :=
  match truthy session.activeTaskId with
  | none => none
  | some taskId =>
    match store.anchorAt taskId with
    | none => none
    | some anchor =>
      if anchor.sessionId ≠ session.id then none
      else if anchor.status = .CLOSED then none
      else some (taskId, anchor)

def find (session : Session) : Except String (Option ConnectorWriteAnchorView × FlowStore) :=
  match openAnchorOf store session with
  | none => .ok (none, store)
  | some (taskId, anchor) =>
    if anchor.status ≠ .APPROVAL_PENDING then .ok (some ⟨taskId, anchor, none⟩, store)
    else
      match (truthy anchor.approvalId).bind store.approvals with
      | some approval =>
        if approval.status = .PENDING then .ok (some ⟨taskId, anchor, some approval⟩, store)
        else do
          let closed ← close store session ⟨taskId, anchor, none⟩ .inconsistent anchor.updatedAt
          return (none, closed)
      | none => do
        let closed ← close store session ⟨taskId, anchor, none⟩ .inconsistent anchor.updatedAt
        return (none, closed)

/-- What was released, with the pointer the caller then holds for the session's. -/
structure ConnectorWriteRelease where
  status : ConnectorWriteAnchorStatus
  family : ConnectorWriteFamily
  operation : Option ConnectorWriteOperation
  activeTaskId : Option Id

def releaseExpired (session : Session) (now : IsoTimestamp) :
    Except String (Option ConnectorWriteRelease × FlowStore) :=
  match openAnchorOf store session with
  | none => .ok (none, store)
  | some (taskId, anchor) =>
    if (anchor.status ≠ .APPROVED ∧ anchor.status ≠ .AWAITING_CHOICE) ∨
        isConnectorWriteAnchorLapsed deps.dateParse anchor now = false then
      .ok (none, store)
    else do
      let closed ← close store session ⟨taskId, anchor, none⟩ .expired now
      return (some ⟨anchor.status, anchor.family, anchor.operation, anchor.previousActiveTaskId⟩,
        closed)

/-! ## Prepare and choose -/

def offerChoice (choice : ConnectorWriteChoice) (basis : Option ConnectorWriteChoiceBasis) :
    ConnectorWriteStep × FlowStore :=
  let (previous, displaced) := displacedPointer store input.session
  let anchor : ConnectorWriteAnchor := {
    status := .AWAITING_CHOICE
    actorId := input.actor.id
    sessionId := input.session.id
    family := .calendar
    choice := some choice
    createdAt := input.now
    updatedAt := input.now
    previousActiveTaskId := truthy previous }
  (.choice choice.mode choice.candidates deps.timeZone basis,
    createAnchor displaced input.session anchor input.now deps.taskId)

/-- `ApprovalManager.requestForRisk`, of critical risk -/
def requestForRisk (operation : ConnectorWriteOperation) (reason : String) : ApprovalRequest where
  id := deps.approvalId
  executionPlanRef := ⟨deps.planRefId, "connector write: " ++ operationText operation⟩
  status := .PENDING
  riskLevel := .CRITICAL
  reason := reason
  requestedBy := input.actor.id
  createdAt := deps.approvalNow
  updatedAt := deps.approvalNow

def propose (proposal : Proposal) : ConnectorWriteStep × FlowStore :=
  let operation := proposal.payload.operation
  let payloadSha256 :=
    deps.connectorWritePayloadSha256 operation proposal.target proposal.payload.sendable
  match deps.findLatestSent input.actor.id proposal payloadSha256 with
  | some sent => (.alreadySent operation (truthy sent.externalRef) (truthy sent.url), store)
  | none =>
    let unresolved := deps.findLatestUnresolved input.actor.id proposal payloadSha256
    let (previous, displaced) := displacedPointer store input.session
    let approval := requestForRisk deps input operation
      (connectorWriteApprovalReason operation proposal.target payloadSha256)
    let anchor : ConnectorWriteAnchor := {
      status := .APPROVAL_PENDING
      actorId := input.actor.id
      sessionId := input.session.id
      family := proposal.family
      operation := some operation
      connector := some proposal.connector
      target := some proposal.target
      payload := some proposal.payload
      payloadSha256 := some payloadSha256
      preview := some proposal.preview
      approvalId := some approval.id
      createdAt := input.now
      updatedAt := input.now
      previousActiveTaskId := truthy previous
      undoOf := proposal.undoOf }
    (.preview proposal.preview approval PENDING_APPROVAL_TTL_MS (documentedExecutionPhrase operation)
        (unresolved.map fun receipt =>
          ⟨if receipt.prepared then .EXECUTING else .UNCERTAIN, receipt.updatedAt, deps.timeZone⟩),
      createAnchor (displaced.saveApproval approval) input.session anchor input.now deps.taskId)

/-- The event as it was previewed: an edit since then refuses the write. -/
def expectation (event : ConnectorWriteEventSummary) (version : String) : Json :=
  .obj [("allDay", .bool event.allDay), ("start", .str event.start), ("end", .str event.endTime),
    ("version", .str version)]

def summaryJson (event : ConnectorWriteEventSummary) : Json :=
  .obj ([("id", .str event.id), ("title", .str event.title), ("start", .str event.start),
      ("end", .str event.endTime), ("allDay", .bool event.allDay)] ++
    (event.location.map fun location => ("location", Json.str location)).toList ++
    (event.version.map fun version => ("version", Json.str version)).toList)

def proposeEventChange (mode : ConnectorWriteChoiceMode) (event : ConnectorWriteEventSummary)
    (changes : Option Json) : ConnectorWriteStep × FlowStore :=
  match deps.calendarEvents with
  | none => (.writesOff, store)
  | some writer =>
    match event.version.filter isVersion with
    | none => (refused .eventUnversioned .calendar, store)
    | some version =>
      let proposal (operation : ConnectorWriteOperation) (changes after : List (String × Json)) :
          Proposal := {
        family := .calendar
        connector := writer.source
        target := writer.target ++ "/" ++ event.id
        payload := ⟨operation, .obj ([("eventId", .str event.id),
          ("expected", expectation event version)] ++ changes)⟩
        preview := .obj ([("operation", .str (operationText operation)),
          ("before", summaryJson event)] ++ after ++ [("timeZone", .str deps.timeZone)]) }
      match mode with
      | .delete => propose deps store input (proposal .calendarEventDelete [] [])
      | .update =>
        match deps.resolveChanges event changes with
        | .error reason => (refused reason .calendar, store)
        | .ok (resolved, after) =>
          propose deps store input
            (proposal .calendarEventUpdate [("changes", resolved)] [("after", after)])

def prepare (draft : Draft) : ConnectorWriteStep × FlowStore :=
  match deps.prepareDraft store input draft with
  | .answered step => (step, store)
  | .offer choice basis => offerChoice deps store input choice basis
  | .propose proposal => propose deps store input proposal
  | .proposeEventChange mode event changes => proposeEventChange deps store input mode event changes

/-- `candidates[index - 1]`; `none` is an index that is no integer. -/
def pickCandidate (choice : ConnectorWriteChoice) (index : Option ℤ) :
    Option ConnectorWriteEventSummary :=
  index.bind fun position =>
    if 1 ≤ position then choice.candidates[(position - 1).toNat]? else none

def choose (view : ConnectorWriteAnchorView) (index : Option ℤ) :
    Except String (ConnectorWriteStep × FlowStore) :=
  let anchor := view.anchor
  match anchor.choice with
  | none => .ok (refused .invalidChoice anchor.family, store)
  | some choice =>
    if anchor.status ≠ .AWAITING_CHOICE then .ok (refused .invalidChoice anchor.family, store)
    else if bound view input = false then .ok (refused .bindingMismatch anchor.family, store)
    else if isConnectorWriteAnchorLapsed deps.dateParse anchor input.now then do
      let closed ← close store input.session view .expired input.now
      return (refused .choiceExpired anchor.family, closed)
    else
      match pickCandidate choice index with
      | none => .ok (refused .invalidChoice anchor.family, store)
      | some picked =>
        let (step, proposed) := proposeEventChange deps store input choice.mode picked choice.changes
        if step.isPreview then .ok (step, proposed)
        else do
          let closed ← close proposed input.session view .abandoned input.now
          return (step, closed)

/-! ## Approval and execution -/

def recordApproval (view : ConnectorWriteAnchorView) :
    Except String (ConnectorWriteStep × FlowStore) :=
  match view.anchor.operation with
  | none => .ok (refused .bindingMismatch view.anchor.family, store)
  | some operation =>
    if view.anchor.status ≠ .APPROVAL_PENDING ∨ bound view input = false then
      .ok (refused .bindingMismatch view.anchor.family, store)
    else do
      let saved ← saveAnchor store view.taskId input.session { view.anchor with
        status := .APPROVED
        approvedAt := some input.now
        approvedBy := some input.actor.id
        updatedAt := input.now } {}
      return (.approved operation (documentedExecutionPhrase operation), saved)

/-- A consumed grant: its write is being sent. -/
structure Claim where
  taskId : Id
  consumed : ConnectorWriteAnchor
  operation : ConnectorWriteOperation
  approvalId : Id
  connector : String
  target : String
  payloadSha256 : String
  preview : Json

inductive ClaimResult where
  | step (step : ConnectorWriteStep)
  | claimed (claim : Claim)

/-- What an approved grant carries. -/
structure GrantFacts where
  payload : ConnectorWritePayload
  payloadSha256 : String
  target : String
  connector : String
  approvalId : Id
  preview : Json

def grantFacts (anchor : ConnectorWriteAnchor) : Option GrantFacts := do
  return {
    payload := ← anchor.payload
    payloadSha256 := ← truthy anchor.payloadSha256
    target := ← truthy anchor.target
    connector := ← truthy anchor.connector
    approvalId := ← truthy anchor.approvalId
    preview := ← anchor.preview }

/-- The approval is this request's and was given; the payload is the one it was given for. -/
def bindingProved (operation : ConnectorWriteOperation) (facts : GrantFacts)
    (approval : Option ApprovalRequest) : Bool :=
  match approval with
  | none => false
  | some request =>
    request.status = .APPROVED && request.riskLevel = .CRITICAL &&
      request.reason = connectorWriteApprovalReason operation facts.target facts.payloadSha256 &&
      facts.payload.operation = operation &&
      deps.connectorWritePayloadSha256 operation facts.target facts.payload.sendable =
        facts.payloadSha256 &&
      deps.stillAllowed facts.payload

/-- Validates the live grant and consumes it, or says why it cannot run. -/
def claimGrant (view : ConnectorWriteAnchorView) (operation : ConnectorWriteOperation) :
    Except String (ClaimResult × FlowStore) :=
  let family := view.anchor.family
  let refuse (reason : ConnectorWriteRefusal) : ClaimResult := .step (refused reason family)
  match (store.tasks view.taskId).bind Task.connectorWriteAnchor with
  | none => .ok (refuse .bindingMismatch, store)
  | some anchor =>
    let closeWith (reason : ConnectorWriteCloseReason) (result : ClaimResult) :
        Except String (ClaimResult × FlowStore) := do
      let closed ← close store input.session { view with anchor := anchor } reason input.now
      return (result, closed)
    if anchor.operation ≠ some operation then .ok (refuse .bindingMismatch, store)
    else if anchor.status = .CLOSED then
      .ok (refuse (match anchor.closedReason with
        | some .denied | some .cancelled | some .stopped => .grantRevoked
        | some .expired => .grantExpired
        | _ => .bindingMismatch), store)
    else if (truthy anchor.consumedAt).isSome ∨ anchor.status ≠ .APPROVED then
      .ok (if anchor.status = .APPROVED ∨ anchor.status = .APPROVAL_PENDING ∨
          anchor.status = .AWAITING_CHOICE then refuse .bindingMismatch
        else .step (repeatOf anchor operation), store)
    else
      match grantFacts anchor with
      | none => closeWith .inconsistent (refuse .bindingMismatch)
      | some facts =>
        if isConnectorWriteAnchorLapsed deps.dateParse anchor input.now then
          closeWith .expired (refuse .grantExpired)
        else if ((store.approvals facts.approvalId).map ApprovalRequest.status) = some .REJECTED then
          closeWith .cancelled (refuse .grantRevoked)
        else if bindingProved deps operation facts (store.approvals facts.approvalId) = false then
          closeWith .inconsistent (refuse .bindingMismatch)
        else if deps.sendFor facts.payload ("cwr:" ++ facts.approvalId) = false then
          closeWith .inconsistent (.step .writesOff)
        else do
          let consumed := { anchor with
            status := .EXECUTING, consumedAt := some input.now, updatedAt := input.now }
          let saved ← saveAnchor store view.taskId input.session consumed { keepPointer := true }
          return (.claimed ⟨view.taskId, consumed, operation, facts.approvalId, facts.connector,
            facts.target, facts.payloadSha256, facts.preview⟩, saved)

/-- `execute`, up to the claim of the grant -/
def execute (view : ConnectorWriteAnchorView) : Except String (ClaimResult × FlowStore) :=
  match view.anchor.operation with
  | none => .ok (.step (refused .bindingMismatch view.anchor.family), store)
  | some operation =>
    match view.anchor.status with
    | .EXECUTING | .SENT | .NOT_SENT | .UNCERTAIN =>
      .ok (.step (repeatOf view.anchor operation), store)
    | .APPROVED =>
      if bound view input = false then
        .ok (.step (refused .bindingMismatch view.anchor.family), store)
      else claimGrant deps store input view operation
    | _ => .ok (.step (refused .bindingMismatch view.anchor.family), store)

def outcomeStatus : ConnectorWriteOutcome → ConnectorWriteAnchorStatus
  | .sent _ _ _ => .SENT
  | .notSent _ => .NOT_SENT
  | .uncertain _ => .UNCERTAIN

def outcomeOf : ConnectorWriteOutcome → AnchorOutcome
  | .sent externalRef url _ =>
    { status := .SENT, externalRef := some externalRef, url := truthy url }
  | .notSent reason => { status := .NOT_SENT, reason := some reason }
  | .uncertain reason => { status := .UNCERTAIN, reason := some reason }

/-- `execute`, from the outcome of the send. A save that throws is only logged. -/
def finishExecute (claim : Claim) (outcome : ConnectorWriteOutcome) :
    ConnectorWriteStep × FlowStore :=
  let terminal := { claim.consumed with
    status := outcomeStatus outcome
    outcome := some (outcomeOf outcome)
    updatedAt := input.now }
  (.outcome claim.operation outcome claim.preview,
    match saveAnchor store claim.taskId input.session terminal { restorePointer := true } with
    | .ok saved => saved
    | .error _ => store)

end

end QuokyPlatform.ConnectorWriteFlow
