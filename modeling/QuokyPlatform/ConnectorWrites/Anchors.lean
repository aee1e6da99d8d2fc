import QuokyPlatform.ConnectorWrites.Receipts
import QuokyPlatform.Sessions.Store

/-!
# Connector-write anchors

The state of a connector write in chat lives on a task of its own without a plan, the anchor, and
the session's pointer is at it. The anchor remembers the pointer it displaced and hands it back when
the write ends.
-/

namespace QuokyPlatform.ConnectorWriteFlow
open Sessions
open ConnectorWrites (ConnectorWriteOperation ConnectorWriteOutcome connectorWriteNotSent isVersion)
set_option autoImplicit false
set_option maxHeartbeats 250000

abbrev Id := Sessions.Id
abbrev IsoTimestamp := Sessions.IsoTimestamp

/-! ## Anchors -/

inductive ConnectorWriteAnchorStatus where
  | AWAITING_CHOICE
  | APPROVAL_PENDING
  | APPROVED
  | EXECUTING
  | SENT
  | NOT_SENT
  | UNCERTAIN
  | CLOSED
  deriving DecidableEq, Repr

inductive ConnectorWriteCloseReason where
  | denied
  | cancelled
  | expired
  | superseded
  | abandoned
  | inconsistent
  | stopped
  deriving DecidableEq, Repr

inductive ConnectorWriteFamily where
  | issueComment
  | issueTransition
  | channelPost
  | calendar
  deriving DecidableEq, Repr

/-- What is sent and hashed: the operation and the fields the writer receives. -/
structure ConnectorWritePayload where
  operation : ConnectorWriteOperation
  sendable : Json

structure ConnectorWriteEventSummary where
  id : Id
  title : String
  start : String
  endTime : String
  allDay : Bool
  location : Option String
  version : Option String
  deriving DecidableEq, Repr

inductive ConnectorWriteChoiceMode where
  | update
  | delete
  deriving DecidableEq, Repr

structure ConnectorWriteChoice where
  mode : ConnectorWriteChoiceMode
  changes : Option Json
  reference : Json
  candidates : List ConnectorWriteEventSummary

structure AnchorOutcome where
  status : ConnectorWriteAnchorStatus
  externalRef : Option String := none
  url : Option String := none
  reason : Option String := none
  deriving DecidableEq, Repr

structure ConnectorWriteAnchor where
  status : ConnectorWriteAnchorStatus
  actorId : Id
  sessionId : Id
  family : ConnectorWriteFamily
  createdAt : IsoTimestamp
  updatedAt : IsoTimestamp
  /-- The session's `activeTaskId` the anchor displaced. -/
  previousActiveTaskId : Option Id := none
  choice : Option ConnectorWriteChoice := none
  operation : Option ConnectorWriteOperation := none
  connector : Option String := none
  target : Option String := none
  payload : Option ConnectorWritePayload := none
  payloadSha256 : Option String := none
  preview : Option Json := none
  approvalId : Option Id := none
  approvedAt : Option IsoTimestamp := none
  approvedBy : Option Id := none
  consumedAt : Option IsoTimestamp := none
  outcome : Option AnchorOutcome := none
  closedReason : Option ConnectorWriteCloseReason := none
  undoOf : Option Json := none

/-! ## Tasks, approvals and sessions -/

inductive TaskStatus where
  | PENDING
  | WAITING_APPROVAL
  | RUNNING
  | FAILED
  | CANCELED
  | COMPLETED
  | NEEDS_REVIEW
  /-- A status the flow never gives a task. -/
  | other (status : String)
  deriving DecidableEq, Repr

/-- A task, with what the metadata has under the anchor's key; `none` when it is no anchor of this
kind. -/
structure Task where
  planId : Option Id
  status : TaskStatus
  updatedAt : IsoTimestamp
  connectorWriteAnchor : Option ConnectorWriteAnchor

inductive ApprovalStatus where
  | PENDING
  | APPROVED
  | REJECTED
  deriving DecidableEq, Repr

inductive RiskLevel where
  | LOW
  | MEDIUM
  | HIGH
  | CRITICAL
  deriving DecidableEq, Repr

structure ExecutionPlanRef where
  id : Id
  goal : String
  deriving DecidableEq, Repr

structure ApprovalRequest where
  id : Id
  executionPlanRef : ExecutionPlanRef
  status : ApprovalStatus
  riskLevel : RiskLevel
  reason : String
  requestedBy : String
  createdAt : IsoTimestamp
  updatedAt : IsoTimestamp
  deriving DecidableEq, Repr

structure FlowStore where
  tasks : Id → Option Task
  sessions : SessionTable
  approvals : Id → Option ApprovalRequest

/-- An id that counts: the empty text does not. -/
def truthy (id : Option Id) : Option Id := id.filter fun text => text ≠ ""

/-- The connector-write anchor a task is; a task with a plan is none. -/
def Task.anchorOf (task : Task) : Option ConnectorWriteAnchor :=
  if (truthy task.planId).isSome then none else task.connectorWriteAnchor

namespace FlowStore

def saveTask (store : FlowStore) (id : Id) (task : Task) : FlowStore :=
  { store with tasks := Function.update store.tasks id (some task) }

def saveSession (store : FlowStore) (session : Session) : FlowStore :=
  { store with sessions := store.sessions.save session }

def saveApproval (store : FlowStore) (request : ApprovalRequest) : FlowStore :=
  { store with approvals := Function.update store.approvals request.id (some request) }

/-- The live row, or the caller's copy when there is none. -/
def live (store : FlowStore) (session : Session) : Session :=
  (store.sessions.rows session.id).getD session

def anchorAt (store : FlowStore) (taskId : Id) : Option ConnectorWriteAnchor :=
  (store.tasks taskId).bind Task.anchorOf

/-- `activeTaskId` of the session's row. -/
def activeTaskId (store : FlowStore) (sessionId : Id) : Option Id :=
  (store.sessions.rows sessionId).bind Session.activeTaskId

end FlowStore

def taskStatusOf : ConnectorWriteAnchorStatus → TaskStatus
  | .APPROVAL_PENDING => .WAITING_APPROVAL
  | .EXECUTING => .RUNNING
  | .SENT => .COMPLETED
  | .NOT_SENT => .FAILED
  | .UNCERTAIN => .NEEDS_REVIEW
  | .CLOSED => .CANCELED
  | _ => .PENDING

structure ConnectorWriteAnchorView where
  taskId : Id
  anchor : ConnectorWriteAnchor
  approval : Option ApprovalRequest

/-! ## The pointer -/

/-- A task whose anchor a newer one supersedes. -/
def superseded (task : Task) (anchor : ConnectorWriteAnchor) : Task :=
  { task with
    status := .CANCELED
    connectorWriteAnchor := some { anchor with status := .CLOSED, closedReason := some .superseded } }

/-- The pointer a new anchor displaces: the live session's, or what the anchor there displaced. An
approved grant or an open choice it supersedes is closed. -/
def displacedPointer (store : FlowStore) (session : Session) : Option Id × FlowStore :=
  match truthy (store.live session).activeTaskId with
  | none => (none, store)
  | some current =>
    match store.tasks current with
    | none => (some current, store)
    | some task =>
      match task.anchorOf with
      | none => (some current, store)
      | some anchor =>
        (anchor.previousActiveTaskId,
          if anchor.status = .APPROVED ∨ anchor.status = .AWAITING_CHOICE then
            store.saveTask current (superseded task anchor)
          else store)

/-- A new task with the anchor; the pointer of the live row goes to it. -/
def createAnchor (store : FlowStore) (session : Session) (anchor : ConnectorWriteAnchor)
    (now : IsoTimestamp) (taskId : Id) : FlowStore :=
  (store.saveTask taskId ⟨none, taskStatusOf anchor.status, now, some anchor⟩).saveSession
    (SessionFields.onto { activeTaskId := some (some taskId), lastActivityAt := some now }
      (store.live session))

/-- A finished or closed anchor's pointer, compare-and-set on the live row. -/
def restorePointer (store : FlowStore) (taskId : Id) (session : Session)
    (anchor : ConnectorWriteAnchor) : FlowStore :=
  match store.sessions.rows session.id with
  | none => store
  | some live =>
    if live.activeTaskId ≠ some taskId then store
    else match truthy anchor.previousActiveTaskId with
      | some previous => store.saveSession { live with activeTaskId := some previous }
      | none =>
        if anchor.status = .CLOSED then store.saveSession { live with activeTaskId := none }
        else store

structure SaveOptions where
  keepPointer : Bool := false
  restorePointer : Bool := false

def saveAnchor (store : FlowStore) (taskId : Id) (session : Session) (anchor : ConnectorWriteAnchor)
    (options : SaveOptions) : Except String FlowStore :=
  match store.tasks taskId with
  | none => .error "connector write anchor task missing"
  | some task =>
    let saved := store.saveTask taskId { task with
      status := taskStatusOf anchor.status
      updatedAt := anchor.updatedAt
      connectorWriteAnchor := some anchor }
    if options.keepPointer || !options.restorePointer then .ok saved
    else .ok (restorePointer saved taskId session anchor)

def close (store : FlowStore) (session : Session) (view : ConnectorWriteAnchorView)
    (reason : ConnectorWriteCloseReason) (now : IsoTimestamp) : Except String FlowStore :=
  saveAnchor store view.taskId session
    { view.anchor with status := .CLOSED, closedReason := some reason, updatedAt := now }
    { restorePointer := true }

end QuokyPlatform.ConnectorWriteFlow
