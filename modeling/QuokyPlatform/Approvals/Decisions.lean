import QuokyPlatform.Approvals.Anchors

/-!
# Deciding an anchored approval

A decision of the owner and an expiry both record the request as decided and then move the anchor.
Every function here runs inside the approval's lock and the session's lock, so it is one step on the
store.
-/

namespace QuokyPlatform.Approvals
open Sessions
set_option autoImplicit false
set_option maxHeartbeats 250000

/-! ## The store -/

inductive ApprovalStatus where
  | PENDING
  | APPROVED
  | REJECTED
  deriving DecidableEq, Repr

def ApprovalStatus.text : ApprovalStatus → String
  | .PENDING => "PENDING"
  | .APPROVED => "APPROVED"
  | .REJECTED => "REJECTED"

structure ApprovalRequest where
  id : Id
  executionPlanRef : Ref
  status : ApprovalStatus
  decision : Option Bool
  decidedBy : Option String
  decidedAt : Option IsoTimestamp
  comment : Option String
  createdAt : IsoTimestamp
  updatedAt : IsoTimestamp
  deriving DecidableEq, Repr

structure ApprovalDecision where
  approved : Bool
  decidedBy : String
  decidedAt : IsoTimestamp
  comment : Option String
  deriving DecidableEq, Repr

/-- A task, as far as an anchor concerns it: an anchor task has no plan. -/
structure Task where
  planId : Option Id
  anchor : Option ApplyPreviewAnchor

inductive RuntimeTurnStatus where
  | RESPONDED
  | AWAITING_APPROVAL
  | DENIED
  | FAILED
  | CANCELLED
  deriving DecidableEq, Repr

/-- A reply, by the composer's function that writes it. -/
inductive Reply where
  | executionResult (status : RuntimeTurnStatus)
  | applyApprovalRecorded
  | commitApprovalDenied | commitApprovalCancelled | commitApprovalRecorded
  | pushApprovalDenied | pushApprovalCancelled | pushApprovalRecorded
  | prApprovalDenied | prApprovalCancelled | prApprovalRecorded
  | mergeApprovalDenied | mergeApprovalCancelled | mergeApprovalRecorded
  | remoteBranchCleanupDenied | remoteBranchCleanupCancelled | remoteBranchCleanupRecorded
  | noPendingDecision
  | approvalExpired
  | applyPreviewUnavailable | commitUnavailable | pushApprovalUnavailable | prApprovalUnavailable
  | mergeApprovalUnavailable | remoteBranchCleanupApprovalUnavailable
  deriving DecidableEq, Repr

structure ApprovalDecisionReply where
  status : RuntimeTurnStatus
  reply : Reply
  deriving DecidableEq, Repr

structure Store where
  approvals : Id → Option ApprovalRequest
  tasks : Id → Option Task
  sessions : SessionTable
  /-- What the assistant said, by session. -/
  history : List (Id × Reply)

/-- What the turn reads from outside: the clock, the id of a new task, and `Date.parse` (`none` is
`NaN`). -/
structure Turn where
  now : IsoTimestamp
  newId : Id
  dateParse : IsoTimestamp → Option ℤ

inductive DecisionSurface where
  | chat
  | opsUi
  deriving DecidableEq, Repr

structure ApprovalDecisionInput where
  /-- The caller's copy of the session. -/
  session : Session
  actorId : Id
  surface : DecisionSurface

inductive ApprovalDecisionVerdict where
  | approve
  | deny
  | cancel
  deriving DecidableEq, Repr

def OPS_UI_DECISION_SURFACE : String := "ops-ui"

def PENDING_APPROVAL_TTL_MS : ℤ := 1800000

/-! ## Approvals -/

/-- Milliseconds left before a pending approval expires; zero when a timestamp cannot be read. -/
def pendingApprovalRemainingMs (dateParse : IsoTimestamp → Option ℤ)
    (createdAt nowIso : IsoTimestamp) : ℤ :=
  match dateParse createdAt, dateParse nowIso with
  | some created, some current =>
    min PENDING_APPROVAL_TTL_MS (created + PENDING_APPROVAL_TTL_MS - current)
  | _, _ => 0

/-- `ApprovalManager.decide` -/
def ApprovalManager.decide (store : Store) (approvalId : Id) (decision : ApprovalDecision) (turn : Turn) :
    Except String Store :=
  match store.approvals approvalId with
  | none => .error s!"approval not found: {approvalId}"
  | some existing =>
    if existing.status ≠ .PENDING then
      .error ("approval " ++ approvalId ++ " already decided (" ++ existing.status.text ++ ")")
    else
      .ok { store with
        approvals := Function.update store.approvals approvalId (some { existing with
          status := if decision.approved then .APPROVED else .REJECTED
          decision := some decision.approved
          decidedBy := some decision.decidedBy
          decidedAt := some decision.decidedAt
          comment := decision.comment.or existing.comment
          updatedAt := turn.now }) }

def decisionOf (input : ApprovalDecisionInput) (approved : Bool) (turn : Turn) : ApprovalDecision where
  approved := approved
  decidedBy := input.actorId
  decidedAt := turn.now
  comment := if input.surface = .opsUi then some OPS_UI_DECISION_SURFACE else none

/-- The approval, when it is still pending. -/
def freshPending (store : Store) (approvalId : Option Id) : Option ApprovalRequest :=
  (approvalId.bind store.approvals).filter fun request => request.status = .PENDING

/-! ## The apply-preview flow -/

/-- The anchor task of the session, if its pointer is at one. -/
def anchorTask (store : Store) (session : Session) : Option (Id × ApplyPreviewAnchor) :=
  session.activeTaskId.bind fun taskId =>
    (store.tasks taskId).bind fun task =>
      if task.planId.isSome then none else task.anchor.map fun anchor => (taskId, anchor)

/-- The live row, or the caller's copy when there is none. -/
def Store.live (store : Store) (session : Session) : Session :=
  (store.sessions.rows session.id).getD session

/-- Saves the anchor as a new task and points the session at it. -/
def anchorFlow (store : Store) (session : Session) (anchor : ApplyPreviewAnchor) (turn : Turn) :
    Store :=
  { store with
    tasks := Function.update store.tasks turn.newId (some ⟨none, some anchor⟩)
    sessions := store.sessions.save
      (SessionFields.onto
        { activeTaskId := some (some turn.newId), lastActivityAt := some turn.now }
        (store.live session)) }

/-- Releases the pointer, when the live session is still at the anchor found. -/
def clearFlow (store : Store) (session : Session) (turn : Turn) : Store :=
  match anchorTask store session with
  | none => store
  | some (taskId, _) =>
    if (store.live session).activeTaskId ≠ some taskId then store
    else
      { store with
        sessions := store.sessions.save
          (SessionFields.onto { activeTaskId := some none, lastActivityAt := some turn.now }
            (store.live session)) }

/-! ## Expiry -/

def expiredDecision (turn : Turn) : ApprovalDecision where
  approved := false
  decidedBy := "system"
  decidedAt := turn.now
  comment := some "expired"

/-- The expiry of the approval an anchor holds. -/
def expireUnlocked (store : Store) (session : Session) (approval : ApprovalRequest)
    (applyAnchor : ApplyPreviewAnchor) (turn : Turn) : Except String Store := do
  let store ← ApprovalManager.decide store approval.id (expiredDecision turn) turn
  match anchorAfterRejection applyAnchor with
  | some released => return anchorFlow store session released turn
  | none => return clearFlow store session turn

/-- Records the expiry of a pending approval; the flag tells whether it did. -/
def expire (settledByOpsUi : Id → Bool) (store : Store) (session : Session)
    (approval : ApprovalRequest) (applyAnchor : ApplyPreviewAnchor) (turn : Turn) :
    Except String (Bool × Store) :=
  if settledByOpsUi approval.id ∨ freshPending store (some approval.id) = none then
    .ok (false, store)
  else do
    let store ← expireUnlocked store session approval applyAnchor turn
    return (true, store)

/-! ## Decisions -/

/-- The reply is kept in the history of the session. -/
def recorded (store : Store) (session : Session) (reply : Reply) (status : RuntimeTurnStatus) :
    ApprovalDecisionReply × Store :=
  (⟨status, reply⟩, { store with history := store.history ++ [(session.id, reply)] })

def lostToOpsUi (store : Store) (input : ApprovalDecisionInput) : ApprovalDecisionReply × Store :=
  recorded store input.session .noPendingDecision .RESPONDED

def unavailableReply (anchor : ApplyPreviewAnchor) : Reply :=
  match anchor.status with
  | .COMMIT_APPROVAL_PENDING => .commitUnavailable
  | .PUSH_APPROVAL_PENDING => .pushApprovalUnavailable
  | .PR_APPROVAL_PENDING => .prApprovalUnavailable
  | .MERGE_APPROVAL_PENDING => .mergeApprovalUnavailable
  | .REMOTE_BRANCH_CLEANUP_PENDING => .remoteBranchCleanupApprovalUnavailable
  | _ => .applyPreviewUnavailable

def anchoredUnavailable (store : Store) (input : ApprovalDecisionInput)
    (anchor : ApplyPreviewAnchor) : ApprovalDecisionReply × Store :=
  recorded store input.session (unavailableReply anchor) .FAILED

/-- The expiry before a positive decision: recorded and answered, when the lifetime is over. -/
def expiredBeforeApprove (store : Store) (input : ApprovalDecisionInput) (approval : ApprovalRequest)
    (anchor : ApplyPreviewAnchor) (turn : Turn) :
    Option (Except String (ApprovalDecisionReply × Store)) :=
  if 0 < pendingApprovalRemainingMs turn.dateParse approval.createdAt turn.now then none
  else some do
    let store ← expireUnlocked store input.session approval anchor turn
    return recorded store input.session .approvalExpired .DENIED

/-- The apply approval: approving keeps the anchor, rejecting clears it. -/
def decideApply (store : Store) (input : ApprovalDecisionInput) (anchor : ApplyPreviewAnchor)
    (verdict : ApprovalDecisionVerdict) (turn : Turn) :
    Except String (ApprovalDecisionReply × Store) :=
  match freshPending store anchor.approvalId with
  | none => .ok (lostToOpsUi store input)
  | some request =>
    match verdict with
    | .approve =>
      match expiredBeforeApprove store input request anchor turn with
      | some expired => expired
      | none => do
        let store ← ApprovalManager.decide store (anchor.approvalId.getD "") (decisionOf input true turn) turn
        let store := anchorFlow store input.session
          { anchor with status := .APPROVED, approvedAt := some turn.now } turn
        return recorded store input.session .applyApprovalRecorded .RESPONDED
    | .deny => do
      let store ← ApprovalManager.decide store (anchor.approvalId.getD "") (decisionOf input false turn) turn
      return recorded (clearFlow store input.session turn) input.session (.executionResult .DENIED)
        .DENIED
    | .cancel => do
      let store ← ApprovalManager.decide store (anchor.approvalId.getD "") (decisionOf input false turn) turn
      return recorded (clearFlow store input.session turn) input.session
        (.executionResult .CANCELLED) .CANCELLED

/-- What one of the git and pull-request approvals does: the anchors it leaves and its replies. -/
structure GateDecision where
  approvalId : Option Id
  rejected : ApplyPreviewAnchor
  approved : ApplyPreviewAnchor
  denied : Reply
  cancelled : Reply
  recorded : Reply

/-- The decision of a git or pull-request approval: its request is verified first. -/
def decideGate (gate : GateDecision) (store : Store) (input : ApprovalDecisionInput)
    (anchor : ApplyPreviewAnchor) (verdict : ApprovalDecisionVerdict) (turn : Turn) :
    Except String (ApprovalDecisionReply × Store) :=
  match gate.approvalId.bind store.approvals with
  | none => .ok (anchoredUnavailable store input anchor)
  | some request =>
    if request.status ≠ .PENDING ∨ request.executionPlanRef.id ≠ anchor.executionPlanRef.id then
      .ok (anchoredUnavailable store input anchor)
    else
      match verdict with
      | .approve =>
        match expiredBeforeApprove store input request anchor turn with
        | some expired => expired
        | none => do
          let store ← ApprovalManager.decide store (gate.approvalId.getD "") (decisionOf input true turn) turn
          let store := anchorFlow store input.session gate.approved turn
          return recorded store input.session gate.recorded .RESPONDED
      | .deny => do
        let store ← ApprovalManager.decide store (gate.approvalId.getD "") (decisionOf input false turn) turn
        let store := anchorFlow store input.session gate.rejected turn
        return recorded store input.session gate.denied .DENIED
      | .cancel => do
        let store ← ApprovalManager.decide store (gate.approvalId.getD "") (decisionOf input false turn) turn
        let store := anchorFlow store input.session gate.rejected turn
        return recorded store input.session gate.cancelled .CANCELLED

def commitDecision (anchor : ApplyPreviewAnchor) : GateDecision where
  approvalId := anchor.commitApprovalId
  rejected := { anchor with
    status := .WORKSPACE_APPLIED
    commitApprovalId := none
    proposedCommitMessage := none
    commitCandidateFiles := none }
  approved := { anchor with status := .COMMIT_APPROVED }
  denied := .commitApprovalDenied
  cancelled := .commitApprovalCancelled
  recorded := .commitApprovalRecorded

def pushDecision (anchor : ApplyPreviewAnchor) : GateDecision where
  approvalId := anchor.pushApprovalId
  rejected := { anchor with
    status := .GIT_COMMITTED
    pushApprovalId := none
    pushCommitHash := none
    pushRemote := none
    pushBranch := none
    pushUpstreamRef := none
    pushMode := none
    pushRepositoryIdentity := none }
  approved := { anchor with status := .PUSH_APPROVED }
  denied := .pushApprovalDenied
  cancelled := .pushApprovalCancelled
  recorded := .pushApprovalRecorded

def prDecision (anchor : ApplyPreviewAnchor) : GateDecision where
  approvalId := anchor.prApprovalId
  rejected := { anchor with
    status := .GIT_PUSHED
    prApprovalId := none
    prPushedCommitHash := none
    prHeadBranch := none
    prBaseBranch := none
    prTitle := none
    prBody := none
    prContentHash := none
    repositoryIdentity := none }
  approved := { anchor with status := .PR_APPROVED }
  denied := .prApprovalDenied
  cancelled := .prApprovalCancelled
  recorded := .prApprovalRecorded

def mergeDecision (anchor : ApplyPreviewAnchor) (actorId : Id) (turn : Turn) : GateDecision where
  approvalId := anchor.mergeApprovalId
  rejected := { anchor with
    status := .PR_CREATED
    mergeApprovalId := none
    mergeApprovalRequestedAt := none
    mergeApprovedAt := none
    mergeApprovalDecisionBy := none }
  approved := { anchor with
    status := .MERGE_APPROVED
    mergeApprovedAt := some turn.now
    mergeApprovalDecisionBy := some actorId }
  denied := .mergeApprovalDenied
  cancelled := .mergeApprovalCancelled
  recorded := .mergeApprovalRecorded

def remoteBranchCleanupDecision (anchor : ApplyPreviewAnchor) (actorId : Id) (turn : Turn) :
    GateDecision where
  approvalId := anchor.remoteBranchCleanupApprovalId
  rejected := { anchor with
    status := .BRANCH_CLEANED
    remoteBranchCleanupApprovalId := none
    remoteBranchCleanupApprovalRequestedAt := none
    remoteBranchCleanupApprovedAt := none
    remoteBranchCleanupApprovalDecisionBy := none }
  approved := { anchor with
    status := .REMOTE_BRANCH_CLEANUP_APPROVED
    remoteBranchCleanupApprovedAt := some turn.now
    remoteBranchCleanupApprovalDecisionBy := some actorId }
  denied := .remoteBranchCleanupDenied
  cancelled := .remoteBranchCleanupCancelled
  recorded := .remoteBranchCleanupRecorded

/-- Decides the pending gate of an anchor. -/
def decideAnchored (settledByOpsUi : Id → Bool) (store : Store) (input : ApprovalDecisionInput)
    (anchor : ApplyPreviewAnchor) (verdict : ApprovalDecisionVerdict) (turn : Turn) :
    Except String (ApprovalDecisionReply × Store) :=
  if (pendingApprovalIdOf anchor).any settledByOpsUi then .ok (lostToOpsUi store input)
  else
    match anchor.status with
    | .AWAITING_APPROVAL => decideApply store input anchor verdict turn
    | .COMMIT_APPROVAL_PENDING =>
      decideGate (commitDecision anchor) store input anchor verdict turn
    | .PUSH_APPROVAL_PENDING => decideGate (pushDecision anchor) store input anchor verdict turn
    | .PR_APPROVAL_PENDING => decideGate (prDecision anchor) store input anchor verdict turn
    | .MERGE_APPROVAL_PENDING =>
      decideGate (mergeDecision anchor input.actorId turn) store input anchor verdict turn
    | .REMOTE_BRANCH_CLEANUP_PENDING =>
      decideGate (remoteBranchCleanupDecision anchor input.actorId turn) store input anchor verdict
        turn
    | _ => .error "no pending approval gate"

end QuokyPlatform.Approvals
