import QuokyPlatform.Foundations.Table
import QuokyPlatform.TaskRuns.Evidence

/-! # The SQLite task run store

Task runs, the continuation bindings of tasks, and the documents the start of an attempt is checked
against. Every operation is one immediate transaction: when it throws, nothing changed. A document
is kept as what the operations read of it and the rest, which only equality looks at. -/

namespace QuokyPlatform.TaskRuns

set_option autoImplicit false
set_option maxHeartbeats 250000

/-! ## Documents -/

inductive TaskRunStatus
  | started
  | succeeded
  | failed
  | canceled
deriving DecidableEq, Repr

inductive ProviderDispatchState
  | preDispatch
  | dispatchCommitted
  | legacyUnknown
deriving DecidableEq, Repr

inductive Capability
  | generalChat
  | summarization
  | documentAnalysis
  | codeImplementation
  | codeReview
  | architecturePlanning
  | testExecution
  | readonlyLookup
  | projectAnalysis
  | embedding
  | policySensitiveChat
  | imageUnderstanding
deriving DecidableEq, Repr

/-- The metadata of a run: the evidence, and the other members. -/
structure Metadata where
  containmentAudit : Option EvidenceValue := none
  rest : List (String × String) := []
deriving DecidableEq, Repr

structure TaskRun where
  id : Id
  taskId : Id
  attempt : ℤ
  status : TaskRunStatus
  /-- `none` when the document has no known dispatch state. -/
  dispatchState : Option ProviderDispatchState
  capability : Capability
  providerId : Option String := none
  artifactIds : List Id := []
  startedAt : IsoTimestamp
  finishedAt : Option IsoTimestamp := none
  durationMs : Option ℤ := none
  error : Option String := none
  metadata : Option Metadata := none
deriving DecidableEq, Repr

structure ContinuationBinding where
  handoffId : Id
  taskId : Id
  recordedAt : IsoTimestamp
deriving DecidableEq, Repr

inductive TaskStatus
  | pending
  | planning
  | waitingApproval
  | running
  | testing
  | failed
  | canceled
  | completed
  | needsReview
deriving DecidableEq, Repr

inductive WorkItemStatus
  | active
  | completed
  | canceled
deriving DecidableEq, Repr

inductive ApprovalStatus
  | pending
  | approved
  | rejected
deriving DecidableEq, Repr

structure Task where
  id : Id
  status : TaskStatus
  capability : Capability
  actorId : Option Id
  projectId : Option Id
  planId : Option Id
  rest : String
deriving DecidableEq, Repr

structure WorkItem where
  id : Id
  status : WorkItemStatus
  actorId : Option Id
  projectId : Option Id
  rest : String
deriving DecidableEq, Repr

structure WorkHandoff where
  id : Id
  workItemId : Id
  rest : String
deriving DecidableEq, Repr

structure ExecutionPlanRef where
  id : Id
  rest : String
deriving DecidableEq, Repr

structure ApprovalRequest where
  id : Id
  status : ApprovalStatus
  executionPlanRef : Option ExecutionPlanRef
  rest : String
deriving DecidableEq, Repr

inductive GuardedApproval
  | notRequired (planRef : Option ExecutionPlanRef)
  | approved (request : ApprovalRequest) (planRef : ExecutionPlanRef)
deriving DecidableEq, Repr

def GuardedApproval.planId : GuardedApproval → Option Id
  | .notRequired planRef => planRef.map (·.id)
  | .approved _ planRef => some planRef.id

structure GuardedTaskRunStartFacts where
  handoff : WorkHandoff
  binding : ContinuationBinding
  workItem : WorkItem
  task : Task
  approval : GuardedApproval
deriving DecidableEq, Repr

/-- What the other repositories hold. -/
structure Documents where
  tasks : List Task
  workItems : List WorkItem
  workHandoffs : List WorkHandoff
  approvals : List ApprovalRequest
deriving DecidableEq, Repr

/-! ## Tables -/

structure RunRow where
  id : Id
  taskId : Id
  data : TaskRun
deriving DecidableEq, Repr

/-- The primary key, and the index over `(task_id, attempt)`. -/
def RunRow.Clash (r s : RunRow) : Prop :=
  r.id = s.id ∨ (r.taskId = s.taskId ∧ r.data.attempt = s.data.attempt)

instance : DecidableRel RunRow.Clash := fun r s =>
  inferInstanceAs (Decidable (r.id = s.id ∨ (r.taskId = s.taskId ∧ r.data.attempt = s.data.attempt)))

instance : Std.Symm RunRow.Clash where
  symm _ _ h := h.imp Eq.symm fun h => ⟨h.1.symm, h.2.symm⟩

abbrev RunTable := Table RunRow RunRow.Clash

/-- `handoff_id TEXT PRIMARY KEY` and `task_id TEXT UNIQUE`. -/
def ContinuationBinding.Clash (a b : ContinuationBinding) : Prop :=
  a.handoffId = b.handoffId ∨ a.taskId = b.taskId

instance : DecidableRel ContinuationBinding.Clash := fun a b =>
  inferInstanceAs (Decidable (a.handoffId = b.handoffId ∨ a.taskId = b.taskId))

abbrev BindingTable := Table ContinuationBinding ContinuationBinding.Clash

structure Store where
  runs : RunTable
  bindings : BindingTable
  documents : Documents

def Store.empty (documents : Documents) : Store where
  runs := Table.empty
  bindings := Table.empty
  documents := documents

inductive Failure
  | guardedTaskRunStart (code : String)
  | containmentEvidenceConflict (reason : String)
  | continuationAdmission (code : String)
  | error (message : String)
  /-- A uniqueness constraint. -/
  | constraint
deriving DecidableEq, Repr

/-! ## Writing a run -/

def maxSafeInteger : ℤ := 9007199254740991

/-- The triggers `task_runs_validate_insert` and `task_runs_validate_update`. -/
def RunRow.validIdentity (row : RunRow) : Bool :=
  row.id != "" && row.taskId != "" && row.data.id == row.id && row.data.taskId == row.taskId &&
    1 ≤ row.data.attempt && row.data.attempt ≤ maxSafeInteger

/-- The trigger `task_runs_immutable_start`. -/
def RunRow.sameStart (old new : RunRow) : Bool :=
  new.id == old.id && new.taskId == old.taskId && new.data.attempt == old.data.attempt &&
    new.data.startedAt == old.data.startedAt && new.data.capability == old.data.capability

def hasId (id : Id) (row : RunRow) : Bool := row.id == id

def insertRow (runs : RunTable) (row : RunRow) : Except Failure RunTable :=
  if !row.validIdentity then .error (.error "INVALID_TASK_RUN_IDENTITY")
  else match runs.insert row with
    | some runs => .ok runs
    | none => .error .constraint

def replaceRow (runs : RunTable) (old new : RunRow) : Except Failure RunTable :=
  if !new.validIdentity then .error (.error "INVALID_TASK_RUN_IDENTITY")
  else if !old.sameStart new then .error (.error "TASK_RUN_START_IDENTITY_IMMUTABLE")
  else match runs.update (hasId old.id) (fun _ => new) with
    | some runs => .ok runs
    | none => .error .constraint

def rowOf (run : TaskRun) : RunRow := { id := run.id, taskId := run.taskId, data := run }

/-- `INSERT … ON CONFLICT(id) DO UPDATE SET task_id, data`. -/
def upsertRun (runs : RunTable) (run : TaskRun) : Except Failure RunTable :=
  match runs.find (hasId run.id) with
  | none => insertRow runs (rowOf run)
  | some old => replaceRow runs old (rowOf run)

/-! ## Reading -/

/-- A row from before the dispatch state existed reads as committed when it names a provider. -/
def decode (data : TaskRun) : TaskRun :=
  match data.dispatchState with
  | some _ => data
  | none =>
    let named := data.providerId.any fun id => id != ""
    let state := if named then .dispatchCommitted else .legacyUnknown
    { data with dispatchState := some state }

def isBound (bindings : BindingTable) (taskId : Id) : Bool :=
  (bindings.find fun binding => binding.taskId == taskId).isSome

def isStartedOf (taskId : Id) (row : RunRow) : Bool :=
  row.taskId == taskId && row.data.status == .started

section operations

variable (sha256Canonical : BindingFacts → String)

def extractContainmentAudit (run : TaskRun) : Option ContinuationContainmentAudit :=
  (run.metadata.bind (·.containmentAudit)).bind fun raw =>
    snapshotContainmentAudit sha256Canonical raw run.id run.id

/-- Whether the document has the evidence key at all, well formed or not. -/
def hasEvidenceKey (run : TaskRun) : Bool := (run.metadata.bind (·.containmentAudit)).isSome

/-! ## Starting -/

def insertStarted (store : Store) (id : Id) (now : IsoTimestamp) (taskId : Id)
    (capability : Capability) : Except Failure Store := do
  let previous := ((store.runs.select fun row => row.taskId == taskId).map (·.data.attempt)).foldr max 0
  let attempt := previous + 1
  if maxSafeInteger < attempt then .error (.error "TASK_RUN_ATTEMPT_EXHAUSTED")
  else
    let runs ← insertRow store.runs (rowOf
      { id, taskId, attempt, status := .started, dispatchState := some .preDispatch, capability,
        startedAt := now })
    return { store with runs }

def start (store : Store) (id : Id) (now : IsoTimestamp) (task : Task) (capability : Capability) :
    Except Failure Store :=
  if isBound store.bindings task.id then .error (.guardedTaskRunStart "CONTINUATION_GUARD_REQUIRED")
  else if task.status ≠ .running ∨ (store.documents.tasks.find? (·.id == task.id)) ≠ some task then
    .error (.error "TASK_RUN_START_INVALID_OR_STALE_TASK")
  else insertStarted store id now task.id capability

def bindingMatches (store : Store) (expected : GuardedTaskRunStartFacts) : Bool :=
  match store.bindings.find fun binding => binding.handoffId == expected.handoff.id with
  | none => false
  | some bound =>
    expected.binding.handoffId == expected.handoff.id &&
      expected.binding.taskId == expected.task.id && bound == expected.binding

def approvalFresh (store : Store) : GuardedApproval → Bool
  | .notRequired _ => true
  | .approved request planRef =>
    match store.documents.approvals.find? (·.id == request.id) with
    | none => false
    | some persisted =>
      persisted.status == .approved && persisted == request &&
        persisted.executionPlanRef == some planRef

def presentId (id : Option Id) : Bool := id.any fun id => id != ""

def guardedStart (store : Store) (id : Id) (now : IsoTimestamp)
    (expected : GuardedTaskRunStartFacts) (capability : Capability) : Except Failure Store :=
  let { handoff, workItem, task, approval, .. } := expected
  if (store.documents.workHandoffs.find? (·.id == handoff.id)) ≠ some handoff then
    .error (.guardedTaskRunStart "STALE_HANDOFF")
  else if (store.documents.workItems.find? (·.id == workItem.id)) ≠ some workItem then
    .error (.guardedTaskRunStart "WORK_ITEM_NOT_CONTINUABLE")
  else if (store.documents.tasks.find? (·.id == task.id)) ≠ some task then
    .error (.guardedTaskRunStart "TASK_NOT_EXECUTABLE")
  else if !bindingMatches store expected then .error (.guardedTaskRunStart "BINDING_MISMATCH")
  else if handoff.workItemId ≠ workItem.id ∨ workItem.status ≠ .active then
    .error (.guardedTaskRunStart "WORK_ITEM_NOT_CONTINUABLE")
  else if task.status ≠ .running ∨ !presentId workItem.actorId ∨ task.actorId ≠ workItem.actorId ∨
      task.projectId ≠ workItem.projectId ∨ capability ≠ task.capability then
    .error (.guardedTaskRunStart "TASK_NOT_EXECUTABLE")
  else if task.planId ≠ approval.planId then .error (.guardedTaskRunStart "APPROVAL_STALE")
  else if !approvalFresh store approval then .error (.guardedTaskRunStart "APPROVAL_STALE")
  else if (store.runs.find (isStartedOf task.id)).isSome then
    .error (.guardedTaskRunStart "UNRESOLVED_STARTED_RUN")
  else insertStarted store id now task.id capability

/-- The admission of a continuation: the binding of a task that has no run yet. -/
def admitRun (store : Store) (handoff : WorkHandoff) (workItem : WorkItem) (task : Task)
    (now : IsoTimestamp) : Except Failure Store :=
  if (store.documents.workHandoffs.find? (·.id == handoff.id)) ≠ some handoff ∨
      (store.documents.workItems.find? (·.id == workItem.id)) ≠ some workItem ∨
      (store.documents.tasks.find? (·.id == task.id)) ≠ some task then
    .error (.continuationAdmission "STALE_STATE")
  else if handoff.workItemId ≠ workItem.id ∨ workItem.status ≠ .active ∨ task.status ≠ .pending ∨
      !presentId workItem.actorId ∨ task.actorId ≠ workItem.actorId ∨
      task.projectId ≠ workItem.projectId then
    .error (.continuationAdmission "INCONSISTENT_STATE")
  else match store.bindings.select fun b => b.handoffId == handoff.id || b.taskId == task.id with
    | [row] =>
      if row.handoffId ≠ handoff.id ∨ row.taskId ≠ task.id then
        .error (.continuationAdmission "CONFLICT")
      else .ok store
    | _ :: _ => .error (.continuationAdmission "CONFLICT")
    | [] =>
      if (store.runs.find fun row => row.taskId == task.id).isSome then
        .error (.continuationAdmission "STALE_STATE")
      else match store.bindings.insert
          { handoffId := handoff.id, taskId := task.id, recordedAt := now } with
        | some bindings => .ok { store with bindings }
        | none => .error .constraint

/-! ## The generic save -/

/-- The dispatch state a generic save stores: the persisted marker, never a new commitment. -/
def savedDispatchState (persisted : Option TaskRun) (run : TaskRun) : Option ProviderDispatchState :=
  (persisted.bind (·.dispatchState)) <|>
    some (if run.dispatchState = some .preDispatch then .preDispatch else .legacyUnknown)

def terminatesGenerically (bindings : BindingTable) (persisted run : TaskRun) : Bool :=
  persisted.status == .started && (run.status == .succeeded || run.status == .failed) &&
    isBound bindings persisted.taskId

def conflictReason (current incoming : Option ContinuationContainmentAudit) : String :=
  if current.isNone then "MALFORMED_EVIDENCE"
  else if incoming.isNone then "EVIDENCE_REMOVED"
  else "BINDING_DIGEST_CONFLICT"

def save (store : Store) (run : TaskRun) : Except Failure Store :=
  let existing := (store.runs.find (hasId run.id)).map (·.data)
  let persisted := existing.map decode
  if persisted.any fun p => run.dispatchState == some .dispatchCommitted &&
      p.dispatchState != some .dispatchCommitted then
    .error (.error "PROVIDER_DISPATCH_GENERIC_SAVE_FORBIDDEN")
  else if persisted.any fun p => p.status == .started && run.status != .started && hasEvidenceKey p then
    .error (.guardedTaskRunStart "CONTINUATION_GUARD_REQUIRED")
  else if persisted.any fun p => terminatesGenerically store.bindings p run then
    .error (.guardedTaskRunStart "CONTINUATION_TERMINALIZATION_REQUIRES_SECURE_PATH")
  else if isBound store.bindings run.taskId &&
      !(existing.any fun old => !(run.status == .started && old.status != .started)) then
    .error (.guardedTaskRunStart "CONTINUATION_GUARD_REQUIRED")
  else
    let current := existing.bind (extractContainmentAudit sha256Canonical)
    let incoming := extractContainmentAudit sha256Canonical run
    if isBound store.bindings run.taskId && !containmentEvidenceIdentical current incoming then
      .error (.containmentEvidenceConflict (conflictReason current incoming))
    else do
      let runs ← upsertRun store.runs
        { run with dispatchState := savedDispatchState persisted run }
      return { store with runs }

/-! ## The semantic operations -/

def commitProviderDispatchIfPreDispatch (store : Store) (taskRunId executionId : Id) :
    Except Failure Store :=
  if taskRunId = "" ∨ taskRunId ≠ executionId then
    .error (.error "PROVIDER_DISPATCH_IDENTITY_MISMATCH")
  else match store.runs.find (hasId taskRunId) with
    | none => .error (.error "PROVIDER_DISPATCH_RUN_NOT_FOUND")
    | some row =>
      let run := decode row.data
      if run.id ≠ taskRunId ∨ run.taskId ≠ row.taskId ∨ run.status ≠ .started ∨
          run.dispatchState ≠ some .preDispatch then
        .error (.error "PROVIDER_DISPATCH_NOT_PRE_DISPATCH")
      else do
        let committed := { run with dispatchState := some .dispatchCommitted }
        let runs ← replaceRow store.runs row { row with data := committed }
        return { store with runs }

def loadStartedRunOrThrow (store : Store) (id : Id) : Except Failure TaskRun :=
  match store.runs.find (hasId id) with
  | none => .error (.containmentEvidenceConflict "RUN_NOT_FOUND")
  | some row =>
    let run := decode row.data
    if !isBound store.bindings run.taskId then
      .error (.containmentEvidenceConflict "RUN_NOT_CONTINUATION_BOUND")
    else if run.status ≠ .started then .error (.containmentEvidenceConflict "RUN_NOT_STARTED")
    else .ok run

def withAudit (run : TaskRun) (audit : ContinuationContainmentAudit) : TaskRun :=
  let metadata := { run.metadata.getD {} with containmentAudit := some (.audit audit) }
  { run with metadata := some metadata }

def writeContainmentAudit (store : Store) (run : TaskRun) (audit : ContinuationContainmentAudit) :
    Except Failure Store := do
  let runs ← upsertRun store.runs (withAudit run audit)
  return { store with runs }

def recordContainmentBindingIfAbsent (store : Store) (exactTaskRunId : Id)
    (containmentAudit : EvidenceValue) : Except Failure Store := do
  let run ← loadStartedRunOrThrow store exactTaskRunId
  match snapshotContainmentAudit sha256Canonical containmentAudit exactTaskRunId exactTaskRunId with
  | none => .error (.containmentEvidenceConflict "MALFORMED_EVIDENCE")
  | some projected =>
    if projected.postAttempt.isSome then .error (.containmentEvidenceConflict "MALFORMED_EVIDENCE")
    else match extractContainmentAudit sha256Canonical run with
      | some current =>
        if !bindingIdentical current.binding projected.binding then
          .error (.containmentEvidenceConflict "BINDING_DIGEST_CONFLICT")
        else .ok store
      | none => writeContainmentAudit store run projected

def recordContainmentPostEvidenceIfAbsent (store : Store) (exactTaskRunId : Id)
    (containmentAudit : EvidenceValue) : Except Failure Store := do
  let run ← loadStartedRunOrThrow store exactTaskRunId
  match snapshotContainmentAudit sha256Canonical containmentAudit exactTaskRunId exactTaskRunId with
  | none => .error (.containmentEvidenceConflict "MALFORMED_EVIDENCE")
  | some projected =>
    match projected.postAttempt with
    | none => .error (.containmentEvidenceConflict "MALFORMED_EVIDENCE")
    | some post =>
      match extractContainmentAudit sha256Canonical run with
      | none => .error (.containmentEvidenceConflict "BINDING_MISSING")
      | some current =>
        if !bindingIdentical current.binding projected.binding then
          .error (.containmentEvidenceConflict "BINDING_DIGEST_CONFLICT")
        else match current.postAttempt with
          | some recorded =>
            if !postAttemptIdentical recorded post then
              .error (.containmentEvidenceConflict "POST_ATTEMPT_CONFLICT")
            else .ok store
          | none => writeContainmentAudit store run projected

structure TerminalizeRequest where
  terminalStatus : TaskRunStatus
  finishedAt : IsoTimestamp
  artifactIds : Option (List Id) := none
  providerId : Option String := none
  error : Option String := none
  metadata : Option Metadata := none
deriving DecidableEq, Repr

/-- The members of both, those of the second where both have one. -/
def mergeRest (a b : List (String × String)) : List (String × String) :=
  (a.filter fun p => !b.any fun q => q.1 == p.1) ++ b

/-- The metadata of the terminal run: the evidence is that of the stored run alone. -/
def terminalMetadata (run : TaskRun) (preserved : Option ContinuationContainmentAudit)
    (metadata : Option Metadata) : Option Metadata :=
  let rest := mergeRest (run.metadata.getD {}).rest (metadata.getD {}).rest
  if rest.isEmpty && preserved.isNone then run.metadata
  else some { containmentAudit := preserved.map .audit, rest }

def nonEmpty (text : Option String) : Option String := text.filter fun t => t != ""

def terminalRun (run : TaskRun) (preserved : Option ContinuationContainmentAudit)
    (request : TerminalizeRequest) : TaskRun :=
  { run with
    status := request.terminalStatus
    finishedAt := some request.finishedAt
    durationMs := do return max 0 ((← Date.parse request.finishedAt) - (← Date.parse run.startedAt))
    artifactIds := request.artifactIds.getD run.artifactIds
    providerId := nonEmpty request.providerId <|> run.providerId
    error := nonEmpty request.error <|> run.error
    metadata := terminalMetadata run preserved request.metadata }

def terminalizePreservingSecurityEvidence (store : Store) (exactTaskRunId : Id)
    (request : TerminalizeRequest) : Except Failure Store := do
  let run ← loadStartedRunOrThrow store exactTaskRunId
  if request.terminalStatus ≠ .succeeded ∧ request.terminalStatus ≠ .failed then
    .error (.containmentEvidenceConflict "MALFORMED_EVIDENCE")
  else if (request.metadata.bind (·.containmentAudit)).isSome then
    .error (.containmentEvidenceConflict "CALLER_SUPPLIED_EVIDENCE")
  else
    let preserved := extractContainmentAudit sha256Canonical run
    if preserved.any (·.vetoes) then .ok store
    else do
      let runs ← upsertRun store.runs (terminalRun run preserved request)
      return { store with runs }

def delete (store : Store) (id : Id) : Except Failure Store :=
  match store.runs.find (hasId id) with
  | none => .ok store
  | some row =>
    if isBound store.bindings row.taskId then
      .error (.guardedTaskRunStart "CONTINUATION_RUN_DELETE_FORBIDDEN")
    else .ok { store with runs := store.runs.delete (hasId id) }

/-! ## Actions -/

inductive Action
  | start (id : Id) (now : IsoTimestamp) (task : Task) (capability : Capability)
  | guardedStart (id : Id) (now : IsoTimestamp) (expected : GuardedTaskRunStartFacts)
      (capability : Capability)
  | admitRun (handoff : WorkHandoff) (workItem : WorkItem) (task : Task) (now : IsoTimestamp)
  | save (run : TaskRun)
  | commitProviderDispatchIfPreDispatch (taskRunId executionId : Id)
  | recordContainmentBindingIfAbsent (exactTaskRunId : Id) (containmentAudit : EvidenceValue)
  | recordContainmentPostEvidenceIfAbsent (exactTaskRunId : Id) (containmentAudit : EvidenceValue)
  | terminalizePreservingSecurityEvidence (exactTaskRunId : Id) (request : TerminalizeRequest)
  | delete (id : Id)
  /-- The other repositories write. -/
  | write (documents : Documents)
deriving DecidableEq, Repr

def perform (store : Store) : Action → Except Failure Store
  | .start id now task capability => TaskRuns.start store id now task capability
  | .guardedStart id now expected capability => TaskRuns.guardedStart store id now expected capability
  | .admitRun handoff workItem task now => TaskRuns.admitRun store handoff workItem task now
  | .save run => TaskRuns.save sha256Canonical store run
  | .commitProviderDispatchIfPreDispatch taskRunId executionId =>
    TaskRuns.commitProviderDispatchIfPreDispatch store taskRunId executionId
  | .recordContainmentBindingIfAbsent id audit =>
    TaskRuns.recordContainmentBindingIfAbsent sha256Canonical store id audit
  | .recordContainmentPostEvidenceIfAbsent id audit =>
    TaskRuns.recordContainmentPostEvidenceIfAbsent sha256Canonical store id audit
  | .terminalizePreservingSecurityEvidence id request =>
    TaskRuns.terminalizePreservingSecurityEvidence sha256Canonical store id request
  | .delete id => TaskRuns.delete store id
  | .write documents => .ok { store with documents }

/-- One operation; a transaction that throws leaves the store as it was. -/
def storeStep (store : Store) (action : Action) : Option Store :=
  some ((perform sha256Canonical store action).toOption.getD store)

end operations

end QuokyPlatform.TaskRuns
