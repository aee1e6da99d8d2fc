import QuokyPlatform.Sessions.Store

/-!
# Apply-preview anchors

The facts a session keeps of a code change on its way from the preview to the merged and cleaned-up
branch. A status whose name ends in `PENDING`, and `AWAITING_APPROVAL`, hold an approval request that
nobody has answered; a rejection takes such an anchor back to where the request was made.
-/

namespace QuokyPlatform.Approvals
open Sessions
set_option autoImplicit false
set_option maxHeartbeats 250000

abbrev Id := Sessions.Id
abbrev IsoTimestamp := Sessions.IsoTimestamp

inductive ApplyPreviewAnchorStatus where
  | ELIGIBLE
  | AWAITING_APPROVAL
  | APPROVED
  | PATCH_READY
  | WORKSPACE_APPLIED
  | COMMIT_APPROVAL_PENDING
  | COMMIT_APPROVED
  | GIT_COMMITTED
  | PUSH_APPROVAL_PENDING
  | PUSH_APPROVED
  | GIT_PUSHED
  | PR_APPROVAL_PENDING
  | PR_APPROVED
  | PR_CREATED
  | MERGE_APPROVAL_PENDING
  | MERGE_APPROVED
  | PR_MERGED
  | MAIN_SYNCED
  | BRANCH_CLEANED
  | REMOTE_BRANCH_CLEANUP_PENDING
  | REMOTE_BRANCH_CLEANUP_APPROVED
  | REMOTE_BRANCH_CLEANED
  deriving DecidableEq, Repr

/-- A reference to a record of another component. -/
structure Ref where
  id : Id
  deriving DecidableEq, Repr

structure RepositoryIdentity where
  provider : String
  owner : String
  repo : String
  deriving DecidableEq, Repr

inductive PushMode where
  | upstream
  | newRemoteBranch
  deriving DecidableEq, Repr

structure ApplyPreviewAnchor where
  status : ApplyPreviewAnchorStatus
  executionPlanRef : Ref
  workspaceRef : Ref
  targetFiles : List String
  newFileTargets : Option (List String) := none
  codeGenerationRef : Ref
  codeProposalRef : Ref
  credentialOverrideSentPaths : Option (List String) := none
  instruction : String
  projectId : Option Id := none
  createdAt : IsoTimestamp
  approvalId : Option Id := none
  approvedAt : Option IsoTimestamp := none
  patchRef : Option Ref := none
  workspaceChangeRef : Option Ref := none
  postApplyValidationRef : Option Ref := none
  commitApprovalId : Option Id := none
  proposedCommitMessage : Option String := none
  commitCandidateFiles : Option (List String) := none
  commitHash : Option String := none
  committedFiles : Option (List String) := none
  committedSubject : Option String := none
  pushApprovalId : Option Id := none
  pushCommitHash : Option String := none
  pushRemote : Option String := none
  pushBranch : Option String := none
  pushUpstreamRef : Option String := none
  pushMode : Option PushMode := none
  pushRepositoryIdentity : Option RepositoryIdentity := none
  pushedCommitHash : Option String := none
  pushedRemote : Option String := none
  pushedBranch : Option String := none
  pushedUpstreamRef : Option String := none
  prApprovalId : Option Id := none
  prPushedCommitHash : Option String := none
  prHeadBranch : Option String := none
  prBaseBranch : Option String := none
  prTitle : Option String := none
  prBody : Option String := none
  prContentHash : Option String := none
  repositoryIdentity : Option RepositoryIdentity := none
  pullRequestRef : Option Ref := none
  pullRequestNumber : Option ℕ := none
  pullRequestUrl : Option String := none
  pullRequestHeadBranch : Option String := none
  pullRequestBaseBranch : Option String := none
  pullRequestCommitHash : Option String := none
  pullRequestReused : Option Bool := none
  mergeApprovalId : Option Id := none
  mergeApprovalRequestedAt : Option IsoTimestamp := none
  mergeApprovedAt : Option IsoTimestamp := none
  mergeApprovalDecisionBy : Option Id := none
  mergedAt : Option IsoTimestamp := none
  mergeExecutedBy : Option Id := none
  mergedHeadSha : Option String := none
  mergeCommitHash : Option String := none
  syncedMainCommit : Option String := none
  mainSyncedAt : Option IsoTimestamp := none
  mainSyncBranch : Option String := none
  syncMode : Option String := none
  workingTreeUpdated : Option Bool := none
  previousMainCommit : Option String := none
  branchCleanupMode : Option String := none
  cleanedBranch : Option String := none
  branchCleanedAt : Option IsoTimestamp := none
  branchCleanedBy : Option Id := none
  cleanedLocalBranch : Option Bool := none
  cleanedRemoteBranch : Option Bool := none
  remoteBranchCleanupApprovalId : Option Id := none
  remoteBranchCleanupApprovalRequestedAt : Option IsoTimestamp := none
  remoteBranchCleanupApprovedAt : Option IsoTimestamp := none
  remoteBranchCleanupApprovalDecisionBy : Option Id := none
  remoteBranchCleanupMode : Option String := none
  cleanedRemoteBranchName : Option String := none
  remoteBranchCleanedAt : Option IsoTimestamp := none
  remoteBranchCleanedBy : Option Id := none
  remoteBranchCleanupProvider : Option String := none
  remoteBranchDeletedCommit : Option String := none

/-- The approval request an anchor status carries, if that status is a pending gate. -/
def pendingApprovalIdOf (anchor : ApplyPreviewAnchor) : Option Id :=
  match anchor.status with
  | .AWAITING_APPROVAL => anchor.approvalId
  | .COMMIT_APPROVAL_PENDING => anchor.commitApprovalId
  | .PUSH_APPROVAL_PENDING => anchor.pushApprovalId
  | .PR_APPROVAL_PENDING => anchor.prApprovalId
  | .MERGE_APPROVAL_PENDING => anchor.mergeApprovalId
  | .REMOTE_BRANCH_CLEANUP_PENDING => anchor.remoteBranchCleanupApprovalId
  | _ => none

/-- The anchor after its pending approval was rejected; `none` clears it. -/
def anchorAfterRejection (anchor : ApplyPreviewAnchor) : Option ApplyPreviewAnchor :=
  match anchor.status with
  | .COMMIT_APPROVAL_PENDING =>
    some { anchor with
      status := .WORKSPACE_APPLIED
      commitApprovalId := none
      proposedCommitMessage := none
      commitCandidateFiles := none }
  | .PUSH_APPROVAL_PENDING =>
    some { anchor with
      status := .GIT_COMMITTED
      pushApprovalId := none
      pushCommitHash := none
      pushRemote := none
      pushBranch := none
      pushUpstreamRef := none
      pushMode := none
      pushRepositoryIdentity := none }
  | .PR_APPROVAL_PENDING =>
    some { anchor with
      status := .GIT_PUSHED
      prApprovalId := none
      prPushedCommitHash := none
      prHeadBranch := none
      prBaseBranch := none
      prTitle := none
      prBody := none
      prContentHash := none
      repositoryIdentity := none }
  | .MERGE_APPROVAL_PENDING =>
    some { anchor with
      status := .PR_CREATED
      mergeApprovalId := none
      mergeApprovalRequestedAt := none
      mergeApprovedAt := none
      mergeApprovalDecisionBy := none }
  | .REMOTE_BRANCH_CLEANUP_PENDING =>
    some { anchor with
      status := .BRANCH_CLEANED
      remoteBranchCleanupApprovalId := none
      remoteBranchCleanupApprovalRequestedAt := none
      remoteBranchCleanupApprovedAt := none
      remoteBranchCleanupApprovalDecisionBy := none }
  | _ => none

/-! ## The requests -/

/-- What a request stores in the anchor, under the gate that then waits for its answer. -/
inductive GateRequest where
  | apply (approvalId : Id)
  | commit (approvalId : Id) (commitMessage : String) (candidateFiles : List String)
  | push (approvalId : Id) (commitHash : Option String) (remote branch upstreamRef : String)
      (mode : PushMode) (repositoryIdentity : Option RepositoryIdentity)
  | pr (approvalId : Id) (pushedCommitHash : Option String)
      (headBranch baseBranch title body contentHash : String) (identity : RepositoryIdentity)
  | merge (approvalId : Id) (requestedAt : IsoTimestamp)
  | remoteBranchCleanup (approvalId : Id) (requestedAt : IsoTimestamp)

/-- The pending anchor a request leaves: `{ ...anchor, status, … }`. -/
def pendingAnchor (anchor : ApplyPreviewAnchor) : GateRequest → ApplyPreviewAnchor
  | .apply approvalId => { anchor with status := .AWAITING_APPROVAL, approvalId := some approvalId }
  | .commit approvalId commitMessage candidateFiles =>
    { anchor with
      status := .COMMIT_APPROVAL_PENDING
      commitApprovalId := some approvalId
      proposedCommitMessage := some commitMessage
      commitCandidateFiles := some candidateFiles }
  | .push approvalId commitHash remote branch upstreamRef mode repositoryIdentity =>
    { anchor with
      status := .PUSH_APPROVAL_PENDING
      pushApprovalId := some approvalId
      pushCommitHash := commitHash
      pushRemote := some remote
      pushBranch := some branch
      pushUpstreamRef := some upstreamRef
      pushMode := some mode
      pushRepositoryIdentity := repositoryIdentity.or anchor.pushRepositoryIdentity }
  | .pr approvalId pushedCommitHash headBranch baseBranch title body contentHash identity =>
    { anchor with
      status := .PR_APPROVAL_PENDING
      prApprovalId := some approvalId
      prPushedCommitHash := pushedCommitHash
      prHeadBranch := some headBranch
      prBaseBranch := some baseBranch
      prTitle := some title
      prBody := some body
      prContentHash := some contentHash
      repositoryIdentity := some identity }
  | .merge approvalId requestedAt =>
    { anchor with
      status := .MERGE_APPROVAL_PENDING
      mergeApprovalId := some approvalId
      mergeApprovalRequestedAt := some requestedAt }
  | .remoteBranchCleanup approvalId requestedAt =>
    { anchor with
      status := .REMOTE_BRANCH_CLEANUP_PENDING
      remoteBranchCleanupApprovalId := some approvalId
      remoteBranchCleanupApprovalRequestedAt := some requestedAt }

end QuokyPlatform.Approvals
