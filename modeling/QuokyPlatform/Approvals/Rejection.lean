import QuokyPlatform.Approvals.Decisions

/-!
# Rejecting a gate

An expiry and a denial of the same pending gate leave the same anchor. What the gate's request had put
into the anchor is gone, everything else stays.
-/

namespace QuokyPlatform.Approvals
open Sessions
set_option autoImplicit false
set_option maxHeartbeats 250000

/-! ## What a rejection keeps -/

/-- The anchor with the fields of a gate, and the status, of another one. -/
def withGateOf (anchor source : ApplyPreviewAnchor) : ApplyPreviewAnchor :=
  match source.status with
  | .COMMIT_APPROVAL_PENDING =>
    { anchor with
      status := source.status
      commitApprovalId := source.commitApprovalId
      proposedCommitMessage := source.proposedCommitMessage
      commitCandidateFiles := source.commitCandidateFiles }
  | .PUSH_APPROVAL_PENDING =>
    { anchor with
      status := source.status
      pushApprovalId := source.pushApprovalId
      pushCommitHash := source.pushCommitHash
      pushRemote := source.pushRemote
      pushBranch := source.pushBranch
      pushUpstreamRef := source.pushUpstreamRef
      pushMode := source.pushMode
      pushRepositoryIdentity := source.pushRepositoryIdentity }
  | .PR_APPROVAL_PENDING =>
    { anchor with
      status := source.status
      prApprovalId := source.prApprovalId
      prPushedCommitHash := source.prPushedCommitHash
      prHeadBranch := source.prHeadBranch
      prBaseBranch := source.prBaseBranch
      prTitle := source.prTitle
      prBody := source.prBody
      prContentHash := source.prContentHash
      repositoryIdentity := source.repositoryIdentity }
  | .MERGE_APPROVAL_PENDING =>
    { anchor with
      status := source.status
      mergeApprovalId := source.mergeApprovalId
      mergeApprovalRequestedAt := source.mergeApprovalRequestedAt
      mergeApprovedAt := source.mergeApprovedAt
      mergeApprovalDecisionBy := source.mergeApprovalDecisionBy }
  | .REMOTE_BRANCH_CLEANUP_PENDING =>
    { anchor with
      status := source.status
      remoteBranchCleanupApprovalId := source.remoteBranchCleanupApprovalId
      remoteBranchCleanupApprovalRequestedAt := source.remoteBranchCleanupApprovalRequestedAt
      remoteBranchCleanupApprovedAt := source.remoteBranchCleanupApprovedAt
      remoteBranchCleanupApprovalDecisionBy := source.remoteBranchCleanupApprovalDecisionBy }
  | _ => anchor

/-- A rejection changes the fields of the rejected gate only. -/
theorem withGateOf_rejected {anchor released : ApplyPreviewAnchor}
    (h : anchorAfterRejection anchor = some released) : withGateOf released anchor = anchor := by
  obtain ⟨status⟩ := anchor
  cases status with
  | COMMIT_APPROVAL_PENDING | PUSH_APPROVAL_PENDING | PR_APPROVAL_PENDING | MERGE_APPROVAL_PENDING
  | REMOTE_BRANCH_CLEANUP_PENDING =>
    obtain rfl := Option.some.inj h
    rfl
  | _ => cases h

/-- What a request of a git or pull-request approval sets are fields of its gate. -/
theorem withGateOf_pendingAnchor (anchor : ApplyPreviewAnchor) (request : GateRequest)
    (h : (pendingAnchor anchor request).status ≠ .AWAITING_APPROVAL) :
    withGateOf anchor (pendingAnchor anchor request) = pendingAnchor anchor request := by
  cases request with
  | apply approvalId => exact absurd rfl h
  | commit | push | pr | merge | remoteBranchCleanup => rfl

theorem pendingApprovalIdOf_rejected {anchor released : ApplyPreviewAnchor}
    (h : anchorAfterRejection anchor = some released) : pendingApprovalIdOf released = none := by
  obtain ⟨status⟩ := anchor
  cases status with
  | COMMIT_APPROVAL_PENDING | PUSH_APPROVAL_PENDING | PR_APPROVAL_PENDING | MERGE_APPROVAL_PENDING
  | REMOTE_BRANCH_CLEANUP_PENDING =>
    obtain rfl := Option.some.inj h
    rfl
  | _ => cases h

/-- What a rejection leaves holds no gate. -/
theorem anchorAfterRejection_twice (anchor : ApplyPreviewAnchor) :
    (anchorAfterRejection anchor).bind anchorAfterRejection = none := by
  obtain ⟨status⟩ := anchor
  cases status with
  | _ => rfl

/-! ## What a rejection saves -/

/-- What is saved when the anchor's pending approval was rejected. -/
def releaseAnchor (store : Store) (session : Session) (anchor : ApplyPreviewAnchor) (turn : Turn) :
    Store :=
  match anchorAfterRejection anchor with
  | some released => anchorFlow store session released turn
  | none => clearFlow store session turn

/-- The anchor was released: its tasks and its session are as a rejection saves them. -/
structure Released (store : Store) (session : Session) (anchor : ApplyPreviewAnchor) (turn : Turn)
    (after : Store) : Prop where
  tasks : after.tasks = (releaseAnchor store session anchor turn).tasks
  sessions : after.sessions = (releaseAnchor store session anchor turn).sessions

/-- Deciding a request writes its row only. -/
theorem decide_frame {store decided : Store} {approvalId : Id} {decision : ApprovalDecision}
    {turn : Turn} (h : ApprovalManager.decide store approvalId decision turn = .ok decided) :
    decided.tasks = store.tasks ∧ decided.sessions = store.sessions := by
  unfold ApprovalManager.decide at h
  split at h
  · cases h
  · split at h
    · cases h
    · obtain rfl := Except.ok.inj h
      exact ⟨rfl, rfl⟩

theorem anchorFlow_congr {store other : Store} (htasks : store.tasks = other.tasks)
    (hsessions : store.sessions = other.sessions) (session : Session) (anchor : ApplyPreviewAnchor)
    (turn : Turn) :
    (anchorFlow store session anchor turn).tasks = (anchorFlow other session anchor turn).tasks ∧
      (anchorFlow store session anchor turn).sessions =
        (anchorFlow other session anchor turn).sessions := by
  simp only [anchorFlow, Store.live, htasks, hsessions]
  exact ⟨trivial, trivial⟩

theorem clearFlow_congr {store other : Store} (htasks : store.tasks = other.tasks)
    (hsessions : store.sessions = other.sessions) (session : Session) (turn : Turn) :
    (clearFlow store session turn).tasks = (clearFlow other session turn).tasks ∧
      (clearFlow store session turn).sessions = (clearFlow other session turn).sessions := by
  unfold clearFlow anchorTask Store.live
  rw [htasks, hsessions]
  split
  · exact ⟨htasks, hsessions⟩
  · split_ifs
    · exact ⟨htasks, hsessions⟩
    · exact ⟨rfl, rfl⟩

/-- The release after the request is decided is the release before it. -/
theorem released_of_decided {store decided after : Store} {session : Session}
    {anchor : ApplyPreviewAnchor} {turn : Turn} {approvalId : Id} {decision : ApprovalDecision}
    (hdecide : ApprovalManager.decide store approvalId decision turn = .ok decided)
    (htasks : after.tasks = (releaseAnchor decided session anchor turn).tasks)
    (hsessions : after.sessions = (releaseAnchor decided session anchor turn).sessions) :
    Released store session anchor turn after := by
  obtain ⟨htasksEq, hsessionsEq⟩ := decide_frame hdecide
  unfold releaseAnchor at htasks hsessions
  cases hrejected : anchorAfterRejection anchor with
  | none =>
    have hclear := clearFlow_congr htasksEq hsessionsEq session turn
    simp only [hrejected] at htasks hsessions
    constructor
    · simp only [releaseAnchor, hrejected]
      exact htasks.trans hclear.1
    · simp only [releaseAnchor, hrejected]
      exact hsessions.trans hclear.2
  | some released =>
    have hanchor := anchorFlow_congr htasksEq hsessionsEq session released turn
    simp only [hrejected] at htasks hsessions
    constructor
    · simp only [releaseAnchor, hrejected]
      exact htasks.trans hanchor.1
    · simp only [releaseAnchor, hrejected]
      exact hsessions.trans hanchor.2

/-! ## Expiry -/

theorem expireUnlocked_releases {store after : Store} {session : Session}
    {approval : ApprovalRequest} {anchor : ApplyPreviewAnchor} {turn : Turn}
    (h : expireUnlocked store session approval anchor turn = .ok after) :
    Released store session anchor turn after := by
  unfold expireUnlocked at h
  cases hdecide : ApprovalManager.decide store approval.id (expiredDecision turn) turn with
  | error e =>
    rw [hdecide] at h
    cases h
  | ok decided =>
    rw [hdecide] at h
    have hafter : after = releaseAnchor decided session anchor turn := by
      unfold releaseAnchor
      cases hrejected : anchorAfterRejection anchor with
      | none =>
        simp only [hrejected] at h
        exact (Except.ok.inj h).symm
      | some released =>
        simp only [hrejected] at h
        exact (Except.ok.inj h).symm
    exact released_of_decided hdecide (by rw [hafter]) (by rw [hafter])

theorem expire_releases {settledByOpsUi : Id → Bool} {store after : Store} {session : Session}
    {approval : ApprovalRequest} {anchor : ApplyPreviewAnchor} {turn : Turn}
    (h : expire settledByOpsUi store session approval anchor turn = .ok (true, after)) :
    Released store session anchor turn after := by
  unfold expire at h
  split_ifs at h with hlost
  · cases h
  cases hexpire : expireUnlocked store session approval anchor turn with
  | error e =>
    rw [hexpire] at h
    cases h
  | ok expired =>
    rw [hexpire] at h
    obtain rfl : expired = after := by
      cases h
      rfl
    exact expireUnlocked_releases hexpire

theorem expiredBeforeApprove_releases {store : Store} {input : ApprovalDecisionInput}
    {approval : ApprovalRequest} {anchor : ApplyPreviewAnchor} {turn : Turn}
    {result : ApprovalDecisionReply × Store}
    (h : expiredBeforeApprove store input approval anchor turn = some (.ok result)) :
    Released store input.session anchor turn result.2 := by
  unfold expiredBeforeApprove at h
  split_ifs at h
  have hresult := Option.some.inj h
  cases hexpire : expireUnlocked store input.session approval anchor turn with
  | error e =>
    rw [hexpire] at hresult
    cases hresult
  | ok expired =>
    rw [hexpire] at hresult
    obtain rfl := Except.ok.inj hresult
    obtain ⟨htasks, hsessions⟩ := expireUnlocked_releases hexpire
    exact ⟨htasks, hsessions⟩

/-! ## Decisions -/

/-- The outcome of a negative decision: refused, with no anchor touched, or recorded and released. -/
def RejectsOrRefuses (store : Store) (session : Session) (anchor : ApplyPreviewAnchor) (turn : Turn)
    (result : ApprovalDecisionReply × Store) : Prop :=
  (result.1.status = .DENIED ∨ result.1.status = .CANCELLED →
      Released store session anchor turn result.2) ∧
    (result.1.status = .RESPONDED ∨ result.1.status = .FAILED →
      result.2.tasks = store.tasks ∧ result.2.sessions = store.sessions)

theorem refuses {store : Store} {session : Session} {anchor : ApplyPreviewAnchor} {turn : Turn}
    {reply : Reply} {status : RuntimeTurnStatus} (h : status = .RESPONDED ∨ status = .FAILED) :
    RejectsOrRefuses store session anchor turn (recorded store session reply status) := by
  refine ⟨fun hrejected => ?_, fun _ => ⟨rfl, rfl⟩⟩
  change status = .DENIED ∨ status = .CANCELLED at hrejected
  rcases h with rfl | rfl
  · rcases hrejected with h | h
    · cases h
    · cases h
  · rcases hrejected with h | h
    · cases h
    · cases h

/-- A decision that is recorded and released in one go. -/
theorem rejects {store : Store} {session : Session} {anchor : ApplyPreviewAnchor} {turn : Turn}
    {approvalId : Id} {decision : ApprovalDecision} {reply : Reply} {status : RuntimeTurnStatus}
    {release : Store → Store} {result : ApprovalDecisionReply × Store}
    (hrelease : ∀ decided, release decided = releaseAnchor decided session anchor turn)
    (hstatus : status = .DENIED ∨ status = .CANCELLED)
    (h : (do
      let decided ← ApprovalManager.decide store approvalId decision turn
      return recorded (release decided) session reply status) = Except.ok result) :
    RejectsOrRefuses store session anchor turn result := by
  cases hdecide : ApprovalManager.decide store approvalId decision turn with
  | error e =>
    rw [hdecide] at h
    cases h
  | ok decided =>
    rw [hdecide] at h
    obtain rfl := Except.ok.inj h
    refine ⟨fun _ => ?_, fun hother => ?_⟩
    · have htasks : (recorded (release decided) session reply status).2.tasks =
          (releaseAnchor decided session anchor turn).tasks := by rw [← hrelease]; rfl
      have hsessions : (recorded (release decided) session reply status).2.sessions =
          (releaseAnchor decided session anchor turn).sessions := by rw [← hrelease]; rfl
      exact released_of_decided hdecide htasks hsessions
    · change status = .RESPONDED ∨ status = .FAILED at hother
      rcases hstatus with rfl | rfl
      · rcases hother with h | h
        · cases h
        · cases h
      · rcases hother with h | h
        · cases h
        · cases h

theorem decideGate_rejects {gate : GateDecision} {store : Store} {input : ApprovalDecisionInput}
    {anchor : ApplyPreviewAnchor} {verdict : ApprovalDecisionVerdict} {turn : Turn}
    {result : ApprovalDecisionReply × Store} (hverdict : verdict ≠ .approve)
    (hgate : anchorAfterRejection anchor = some gate.rejected)
    (h : decideGate gate store input anchor verdict turn = .ok result) :
    RejectsOrRefuses store input.session anchor turn result := by
  have hrelease : ∀ decided, anchorFlow decided input.session gate.rejected turn =
      releaseAnchor decided input.session anchor turn := by
    intro decided
    simp only [releaseAnchor, hgate]
  unfold decideGate at h
  split at h
  · obtain rfl := Except.ok.inj h
    exact refuses (.inr rfl)
  · split_ifs at h with hstale
    · obtain rfl := Except.ok.inj h
      exact refuses (.inr rfl)
    · cases verdict with
      | approve => exact absurd rfl hverdict
      | deny => exact rejects hrelease (.inl rfl) h
      | cancel => exact rejects hrelease (.inr rfl) h

theorem decideApply_rejects {store : Store} {input : ApprovalDecisionInput}
    {anchor : ApplyPreviewAnchor} {verdict : ApprovalDecisionVerdict} {turn : Turn}
    {result : ApprovalDecisionReply × Store} (hverdict : verdict ≠ .approve)
    (hgate : anchorAfterRejection anchor = none)
    (h : decideApply store input anchor verdict turn = .ok result) :
    RejectsOrRefuses store input.session anchor turn result := by
  have hrelease : ∀ decided, clearFlow decided input.session turn =
      releaseAnchor decided input.session anchor turn := by
    intro decided
    simp only [releaseAnchor, hgate]
  unfold decideApply at h
  split at h
  · obtain rfl := Except.ok.inj h
    exact refuses (.inl rfl)
  · cases verdict with
    | approve => exact absurd rfl hverdict
    | deny => exact rejects hrelease (.inl rfl) h
    | cancel => exact rejects hrelease (.inr rfl) h

theorem decideAnchored_rejects {settledByOpsUi : Id → Bool} {store : Store}
    {input : ApprovalDecisionInput} {anchor : ApplyPreviewAnchor} {verdict : ApprovalDecisionVerdict}
    {turn : Turn} {result : ApprovalDecisionReply × Store} (hverdict : verdict ≠ .approve)
    (h : decideAnchored settledByOpsUi store input anchor verdict turn = .ok result) :
    RejectsOrRefuses store input.session anchor turn result := by
  unfold decideAnchored at h
  split_ifs at h with hsettled
  · obtain rfl := Except.ok.inj h
    exact refuses (.inl rfl)
  · split at h
    · rename_i hstatus
      exact decideApply_rejects hverdict (by simp only [anchorAfterRejection, hstatus]) h
    · rename_i hstatus
      exact decideGate_rejects hverdict (by simp only [anchorAfterRejection, hstatus]; rfl) h
    · rename_i hstatus
      exact decideGate_rejects hverdict (by simp only [anchorAfterRejection, hstatus]; rfl) h
    · rename_i hstatus
      exact decideGate_rejects hverdict (by simp only [anchorAfterRejection, hstatus]; rfl) h
    · rename_i hstatus
      exact decideGate_rejects hverdict (by simp only [anchorAfterRejection, hstatus]; rfl) h
    · rename_i hstatus
      exact decideGate_rejects hverdict (by simp only [anchorAfterRejection, hstatus]; rfl) h
    · cases h

/-! ## Expiry and denial -/

/-- Expiring a pending approval, at the start of a turn or before a positive decision, and denying or
cancelling it save the anchor `anchorAfterRejection` gives, or clear it; a decision that is refused
saves no anchor. The fields outside the rejected gate are kept. The anchor that is left has no gate,
and rejecting it once more would clear it. -/
theorem rejection_releases_alike :
    (∀ (settledByOpsUi : Id → Bool) (store : Store) (input : ApprovalDecisionInput)
      (anchor : ApplyPreviewAnchor) (verdict : ApprovalDecisionVerdict) (turn : Turn)
      (result : ApprovalDecisionReply × Store), verdict ≠ .approve →
      decideAnchored settledByOpsUi store input anchor verdict turn = .ok result →
        RejectsOrRefuses store input.session anchor turn result) ∧
    (∀ (settledByOpsUi : Id → Bool) (store : Store) (session : Session) (approval : ApprovalRequest)
      (anchor : ApplyPreviewAnchor) (turn : Turn) (after : Store),
      expire settledByOpsUi store session approval anchor turn = .ok (true, after) →
        Released store session anchor turn after) ∧
    (∀ (store : Store) (input : ApprovalDecisionInput) (approval : ApprovalRequest)
      (anchor : ApplyPreviewAnchor) (turn : Turn) (result : ApprovalDecisionReply × Store),
      expiredBeforeApprove store input approval anchor turn = some (.ok result) →
        Released store input.session anchor turn result.2) ∧
    (∀ anchor released : ApplyPreviewAnchor, anchorAfterRejection anchor = some released →
      withGateOf released anchor = anchor ∧ pendingApprovalIdOf released = none) ∧
    ∀ anchor : ApplyPreviewAnchor, (anchorAfterRejection anchor).bind anchorAfterRejection = none := by
  refine ⟨?_, ?_, ?_, ?_, anchorAfterRejection_twice⟩
  · intro settledByOpsUi store input anchor verdict turn result hverdict h
    exact decideAnchored_rejects hverdict h
  · intro settledByOpsUi store session approval anchor turn after h
    exact expire_releases h
  · intro store input approval anchor turn result h
    exact expiredBeforeApprove_releases h
  · intro anchor released h
    exact ⟨withGateOf_rejected h, pendingApprovalIdOf_rejected h⟩

/-- A commit that waits for its approval. -/
def commitPending : ApplyPreviewAnchor where
  status := .COMMIT_APPROVAL_PENDING
  executionPlanRef := ⟨"plan"⟩
  workspaceRef := ⟨"workspace"⟩
  targetFiles := ["a.ts"]
  codeGenerationRef := ⟨"generation"⟩
  codeProposalRef := ⟨"proposal"⟩
  instruction := "change a.ts"
  createdAt := "t0"
  commitApprovalId := some "approval"
  proposedCommitMessage := some "change a.ts"
  commitCandidateFiles := some ["a.ts"]

/-- Rejected once the workspace stays applied, rejected twice the anchor is cleared. -/
theorem anchorAfterRejection_not_idempotent :
    (anchorAfterRejection commitPending).map ApplyPreviewAnchor.status = some .WORKSPACE_APPLIED ∧
      (anchorAfterRejection commitPending).bind anchorAfterRejection ≠
        anchorAfterRejection commitPending := by
  refine ⟨rfl, fun hsame => ?_⟩
  rw [anchorAfterRejection_twice] at hsame
  cases hsame

def commitSession : Session where
  id := "session"
  actorId := "owner"
  context := ⟨"telegram", none, "dm", none, "owner", some true⟩
  status := .ACTIVE
  projectId := none
  activeProjectId := none
  activeTaskId := some "task"
  createdAt := "t0"
  lastActivityAt := "t0"
  metadata := none

def commitRequest : ApprovalRequest where
  id := "approval"
  executionPlanRef := ⟨"plan"⟩
  status := .PENDING
  decision := none
  decidedBy := none
  decidedAt := none
  comment := none
  createdAt := "t0"
  updatedAt := "t0"

def commitStore : Store where
  approvals := fun id => if id = "approval" then some commitRequest else none
  tasks := fun id => if id = "task" then some ⟨none, some commitPending⟩ else none
  sessions := ⟨fun _ => none, fun _ _ h => by cases h⟩
  history := []

def commitTurn : Turn := ⟨"t1", "next", fun _ => some 0⟩

theorem rejection_releases_alike_commit :
    (∃ result, decideAnchored (fun _ => false) commitStore ⟨commitSession, "owner", .chat⟩
        commitPending .deny commitTurn = .ok result ∧
      RejectsOrRefuses commitStore commitSession commitPending commitTurn result) ∧
    (∃ after, expire (fun _ => false) commitStore commitSession commitRequest commitPending
        commitTurn = .ok (true, after) ∧
      Released commitStore commitSession commitPending commitTurn after) := by
  refine ⟨⟨_, rfl, ?_⟩, ⟨_, rfl, ?_⟩⟩
  · exact rejection_releases_alike.1 (fun _ => false) commitStore ⟨commitSession, "owner", .chat⟩
      commitPending .deny commitTurn _ (by decide) rfl
  · exact rejection_releases_alike.2.1 (fun _ => false) commitStore commitSession commitRequest
      commitPending commitTurn _ rfl

end QuokyPlatform.Approvals
