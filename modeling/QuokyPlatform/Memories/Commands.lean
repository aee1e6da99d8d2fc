import QuokyPlatform.Foundations.LinkClosure
import QuokyPlatform.Memories.Writer

/-!
# The memory commands

What a confirmed forget, edit, restore and permanent delete do to a record and its earlier versions.
-/

namespace QuokyPlatform.Memories
open Chunking Script
set_option autoImplicit false
set_option maxHeartbeats 250000

def MEMORY_COMMAND_MAX_RECORDS : ℕ := 2000
def EDIT_CASCADE_ATTEMPTS : ℕ := 2
def DAY_MS : ℤ := 24 * 60 * 60 * 1000

structure MemoryCommandRequest where
  actorId : ScopeId
  now : Instant
  sessionId : Option Id

structure MemoryCommandServiceDeps where
  /-- The names of the cascades. -/
  cascades : List String
  archiveDays : ℕ
  /-- The actor's history of a session can be cleared. -/
  sessionHistory : Bool

/-- Whether the confirmed record itself is certainly kept. -/
inductive Current where
  | kept
  | unknown
  deriving DecidableEq, Repr

inductive MemoryCommandOutcome where
  | forgotten (removedVersions : ℕ) (archived sensitive sessionCleared : Bool)
  | forgetIncomplete (removedVersions : ℕ) (current : Current)
  | restored
  | restoreIncomplete
  | purged (removedVersions : ℕ)
  | purgeIncomplete
  | edited (cleanupPending sessionCleared : Bool)
  | editDuplicate
  | editSensitive
  | editRejected
  deriving DecidableEq, Repr

section
variable (runtime : Runtime) (deps : MemoryCommandServiceDeps)

/-! ## Versions and cascades -/

/-- The record that superseded a version, for versions of one actor and write scope. -/
def versionLink (actorId : ScopeId) (scope : Option DurableMemoryScope) (record : MemoryRecord) :
    Option Id :=
  if record.type = .LONG_TERM ∧ record.scope.userId = some actorId ∧
      durableScopeOfRecord record = scope then
    metadataText record "supersededBy"
  else none

/-- The records whose `supersededBy` chain leads to the record, nearest first. -/
def earlierVersions (actorId : ScopeId) (record : MemoryRecord) : Task (List MemoryRecord) := do
  let all ← findDurableCandidates actorId MEMORY_COMMAND_MAX_RECORDS
  return LinkClosure.earlier (·.id) (versionLink actorId (durableScopeOfRecord record)) record.id all

def removalEvent (actorId : ScopeId) (reason : RemovalReason) (records : List MemoryRecord) :
    MemoryRemovalEvent :=
  { actorId := actorId
    reason := reason
    memoryIds := records.map (·.id)
    vectorIds := records.flatMap fun record => record.vectorId.toList
    contents := records.map (·.content) }

/-- Every cascade in turn; what one throws ends them. -/
def runCascades (event : MemoryRemovalEvent) : List String → Task Unit
  | [] => pure ()
  | name :: rest => do
    callOut (.cascade name event)
    runCascades event rest

/-- Clears the actor's history of the request's session; true when it ran. -/
def clearSessionHistory (request : MemoryCommandRequest) : Task Bool := do
  if !deps.sessionHistory || request.sessionId.isNone then return false
  callOut .cleared
  return true

/-! ## Forgetting -/

/-- Archive one record in place; true when it is archived. -/
def archiveOne (actorId : ScopeId) (target : MemoryRecord) (now expiresAt : JsString) :
    Task Bool := do
  if target.type ≠ .LONG_TERM ∨ target.scope.userId ≠ some actorId then return false
  else if durableScopeOfRecord target = none then return false
  else if isArchivedMemory target then return true
  else
    tryCatch (do
      saveRecord (withArchive target now expiresAt)
      return true) fun _ => return false

/-- Delete one record; true when it is gone. -/
def forgetOne (actorId : ScopeId) (target : MemoryRecord) : Task Bool := do
  match durableScopeOfRecord target with
  | none => return false
  | some scope =>
    if target.scope.userId ≠ some actorId then return false
    else
      tryCatch (do
        match ← forget target.id scope with
        | .rejected _ => return false
        | _ => return true) fun _ => return false

/-- The targets in turn, until one is not removed; how many were, and whether all were. -/
def removeVersions (removeOne : MemoryRecord → Task Bool) :
    List MemoryRecord → ℕ → Task (ℕ × Bool)
  | [], removed => return (removed, true)
  | target :: rest, removed => do
    if ← removeOne target then removeVersions removeOne rest (removed + 1)
    else return (removed, false)

def executeForget (request : MemoryCommandRequest) (record : MemoryRecord) :
    Task MemoryCommandOutcome := do
  let actorId := request.actorId
  let history ← earlierVersions actorId record
  -- one credential-like version keeps the whole chain out of the archive
  let sensitive := (record :: history).any fun version =>
    isStrictCredentialMemoryText runtime version.content
  let archive := decide (0 < deps.archiveDays) && !sensitive
  let cleared ← tryCatch (do
      runCascades (removalEvent actorId .forget (record :: history)) deps.cascades
      some <$> clearSessionHistory deps request) fun _ => return none
  match cleared with
  | none => return .forgetIncomplete 0 .kept
  | some sessionCleared =>
    let expiresAt := runtime.toIso (request.now.1 + deps.archiveDays * DAY_MS)
    let removeOne (target : MemoryRecord) : Task Bool :=
      if archive then archiveOne actorId target (runtime.toIso request.now.1) expiresAt
      else forgetOne actorId target
    match ← removeVersions removeOne history.reverse 0 with
    | (removed, false) => return .forgetIncomplete removed .kept
    | (removed, true) =>
      if ← removeOne record then return .forgotten removed archive sensitive sessionCleared
      else return .forgetIncomplete removed (if archive then .kept else .unknown)

/-! ## Restore and permanent delete -/

/-- Each target, read again right before it is written. -/
def restoreEach : List MemoryRecord → Task Unit
  | [] => pure ()
  | target :: rest => do
    match ← getRecord target.id with
    | none => throw .archiveStateChanged
    | some current =>
      if archiveGenerationOf current ≠ archiveGenerationOf target then throw .archiveStateChanged
      else
        saveRecord (withoutArchive current)
        restoreEach rest

def executeRestore (actorId : ScopeId) (record : MemoryRecord) : Task MemoryCommandOutcome := do
  let versions := (← earlierVersions actorId record).filter isArchivedMemory
  tryCatch (do
    restoreEach (versions.reverse ++ [record])
    if archiveGenerationOf record = none then throw .archiveStateChanged
    return .restored) fun _ => return .restoreIncomplete

def executePurge (actorId : ScopeId) (record : MemoryRecord) : Task MemoryCommandOutcome := do
  let versions ← earlierVersions actorId record
  match ← removeVersions (forgetOne actorId) versions.reverse 0 with
  | (_, false) => return .purgeIncomplete
  | (removed, true) =>
    if ← forgetOne actorId record then return .purged removed else return .purgeIncomplete

/-! ## Editing -/

/-- The candidate of an edit, carried from the record; none when the record lacks a part of it. -/
def editInput (record : MemoryRecord) (text sourceText : JsString) : Option MemoryCandidateInput := do
  let scope ← durableScopeOfRecord record
  let kind ← metadataText record "kind"
  let provenance ← metadataText record "provenance"
  let authorityLevel ← metadataText record "authorityLevel"
  let metadata : Metadata :=
    Function.update (fun _ => none) "supersedesMemoryId" (some (.text record.id))
  return {
    content := text
    sourceContent := sourceText
    trigger := units "EXPLICIT_USER_INSTRUCTION"
    kind := kind
    provenance := provenance
    authorityLevel := authorityLevel
    scope := scope
    metadata := Function.update metadata "editedBy" (some (.text (units "memory-command"))) }

/-- The cleanup after an edit: whether it is pending, and whether the session was cleared. -/
def editCleanup (request : MemoryCommandRequest) (record : MemoryRecord) : ℕ → Task (Bool × Bool)
  | 0 => return (true, false)
  | attempts + 1 => do
    let cleared ← tryCatch (do
      runCascades (removalEvent request.actorId .edit [record]) deps.cascades
      some <$> clearSessionHistory deps request) fun _ => return none
    match cleared with
    | some sessionCleared => return (false, sessionCleared)
    | none => editCleanup request record attempts

/-- A validation error of the writer refuses the edit; any other is thrown on. -/
def rejectInvalid : MemoryError → Task (Option MemoryWriteDecision)
  | .validation _ => return none
  | error => throw error

def executeEdit (request : MemoryCommandRequest) (record : MemoryRecord)
    (text sourceText : JsString) : Task MemoryCommandOutcome := do
  match editInput record text sourceText with
  | none => return .editRejected
  | some input =>
    match createMemoryCandidate input with
    | .error _ => return .editRejected
    | .ok candidate =>
      match ← tryCatch (some <$> promote runtime candidate) rejectInvalid with
      | none => return .editRejected
      | some (.duplicate _ _) => return .editDuplicate
      | some (.rejected reason) =>
        if reason = CREDENTIAL_REJECTION_REASON then return .editSensitive else return .editRejected
      | some _ =>
        let (cleanupPending, sessionCleared) ←
          editCleanup deps request record EDIT_CASCADE_ATTEMPTS
        return .edited cleanupPending sessionCleared

end

end QuokyPlatform.Memories
