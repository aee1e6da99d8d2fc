import QuokyPlatform.Memories.Store

/-!
# The writer of durable memories

A candidate is validated, checked against the memories of its scope, and stored. A candidate that
supersedes a memory takes two saves; when the second throws, the new record is deleted again.
-/

namespace QuokyPlatform.Memories
open Chunking Script
set_option autoImplicit false
set_option maxHeartbeats 250000

/-! ## Candidates -/

structure MemoryCandidateInput where
  content : JsString
  sourceContent : JsString
  trigger : JsString
  kind : JsString
  provenance : JsString
  authorityLevel : JsString
  scope : DurableMemoryScope
  metadata : Metadata := fun _ => none

structure MemoryCandidate extends MemoryCandidateInput where
  validationState : JsString

def requireText (value : JsString) (field : String) : Except MemoryError Unit :=
  if trim value = [] then .error (.validation s!"{field} must not be empty") else .ok ()

def validateScope (scope : DurableMemoryScope) : Except MemoryError Unit := do
  let values := [scope.sessionId, scope.projectId, scope.actorId]
  if values.all (·.isNone) then throw (.validation "scope must contain at least one constraint")
  values.forM fun value =>
    match value with
    | some id => requireText id.1 "scope identifier"
    | none => pure ()

def AUTHORITY_BY_PROVENANCE : List (String × String) :=
  [("USER_PROVIDED", "USER_CLAIM_OR_INTENT"),
   ("ASSISTANT_GENERATED", "ASSISTANT_NON_AUTHORITATIVE"),
   ("CORE_RUNTIME", "NON_AUTHORITATIVE_BACKGROUND"),
   ("CANONICAL_PROJECT", "NON_AUTHORITATIVE_BACKGROUND"),
   ("TOOL_OR_CONNECTOR", "NON_AUTHORITATIVE_BACKGROUND"),
   ("LEGACY_UNKNOWN", "NON_AUTHORITATIVE_BACKGROUND")]

def validateKind (kind : JsString) : Except MemoryError Unit :=
  if kind ∈ [units "EPISODIC", units "SEMANTIC"] then .ok ()
  else .error (.validation "kind must be EPISODIC or SEMANTIC")

def validateProvenanceAuthority (provenance authorityLevel : JsString) : Except MemoryError Unit :=
  if authorityLevel = units "AUTHORITATIVE_CURRENT_FACT" then
    .error (.validation "durable memory cannot have AUTHORITATIVE_CURRENT_FACT authority")
  else if authorityLevel ∉ AUTHORITY_BY_PROVENANCE.map fun entry => units entry.2 then
    .error (.validation "authorityLevel is not valid for durable memory")
  else
    match AUTHORITY_BY_PROVENANCE.find? fun entry => units entry.1 = provenance with
    | none => .error (.validation "provenance is not valid for durable memory")
    | some (name, required) =>
      if authorityLevel ≠ units required then
        .error (.validation s!"{name} provenance requires {required} authority")
      else .ok ()

def createMemoryCandidate (input : MemoryCandidateInput) : Except MemoryError MemoryCandidate := do
  requireText input.content "content"
  requireText input.sourceContent "sourceContent"
  validateKind input.kind
  validateProvenanceAuthority input.provenance input.authorityLevel
  validateScope input.scope
  return { input with validationState := units "PENDING" }

/-! ## Durable memories -/

structure DurableMemory where
  id : Id
  content : JsString
  kind : JsString
  provenance : JsString
  authorityLevel : JsString
  scope : DurableMemoryScope
  createdAt : JsString
  updatedAt : JsString
  expiresAt : Option JsString
  supersededBy : Option JsString
  metadata : Metadata

section
variable (runtime : Runtime)

def requireTimestamp (value : JsString) (field : String) : Except MemoryError Unit :=
  match runtime.parse value with
  | some ms =>
    if runtime.toIso ms = value then .ok ()
    else .error (.validation s!"{field} must be an ISO-8601 timestamp")
  | none => .error (.validation s!"{field} must be an ISO-8601 timestamp")

def createDurableMemory (input : DurableMemory) : Except MemoryError DurableMemory := do
  requireText input.id "id"
  requireText input.content "content"
  validateKind input.kind
  validateProvenanceAuthority input.provenance input.authorityLevel
  validateScope input.scope
  requireTimestamp runtime input.createdAt "createdAt"
  requireTimestamp runtime input.updatedAt "updatedAt"
  if input.updatedAt < input.createdAt then
    throw (.validation "updatedAt must not precede createdAt")
  if let some expiresAt := input.expiresAt then
    requireTimestamp runtime expiresAt "expiresAt"
    if expiresAt ≤ input.createdAt then throw (.validation "expiresAt must follow createdAt")
  if let some supersededBy := input.supersededBy then
    requireText supersededBy "supersededBy"
    if supersededBy = input.id then throw (.validation "a memory cannot supersede itself")
  return input

/-- The memory of a record; an empty `expiresAt` or `supersededBy` is left out. -/
def toDurableMemory (record : MemoryRecord) : Except MemoryError DurableMemory :=
  createDurableMemory runtime
    { id := record.id
      content := record.content
      kind := (metadataText record "kind").getD []
      provenance := (metadataText record "provenance").getD []
      authorityLevel := (metadataText record "authorityLevel").getD []
      scope := { sessionId := record.scope.sessionId, projectId := record.scope.projectId
                 actorId := record.scope.userId }
      createdAt := record.createdAt
      updatedAt := record.updatedAt
      expiresAt := (metadataText record "expiresAt").filter (· ≠ [])
      supersededBy := (metadataText record "supersededBy").filter (· ≠ [])
      metadata := record.metadata }

/-! ## Promotion -/

def MAX_DURABLE_CONTENT_CHARACTERS : ℕ := 4000

def WRITER_OWNED_LIFECYCLE_METADATA : List String :=
  ["expiresAt", "supersededBy", MEMORY_ARCHIVED_AT_KEY, MEMORY_ARCHIVE_EXPIRES_AT_KEY]

def CREDENTIAL_REJECTION_REASON : String :=
  "candidate contains credential or authentication material"

def validationMessage : MemoryError → String
  | .validation message => s!"candidate validation failed: {message}"
  | _ => "candidate validation failed"

def promotionRejection (candidate : MemoryCandidate) : Option String :=
  match createMemoryCandidate candidate.toMemoryCandidateInput with
  | .error error => some (validationMessage error)
  | .ok _ =>
    if candidate.validationState ≠ units "PENDING" then
      some "candidate must be pending application validation"
    else match WRITER_OWNED_LIFECYCLE_METADATA.find? fun key => (candidate.metadata key).isSome with
      | some key => some s!"candidate metadata cannot set writer-owned lifecycle field: {key}"
      | none =>
        if candidate.content.length > MAX_DURABLE_CONTENT_CHARACTERS then
          some s!"candidate exceeds {MAX_DURABLE_CONTENT_CHARACTERS} characters"
        else if runtime.isCredentialLikeMemoryText candidate.content ||
            runtime.isCredentialLikeMemoryText candidate.sourceContent then
          some CREDENTIAL_REJECTION_REASON
        else none

inductive MemoryWriteDecision where
  | promoted (memory : DurableMemory) (policyReason : String)
  | duplicate (existingMemoryId : Id) (policyReason : String)
  | rejected (policyReason : String)
  | superseding (memory : DurableMemory) (supersededMemoryId : Id) (policyReason : String)

/-- `throw new MemoryWriterPersistenceError(operation, cause)` for what a call throws. -/
def orPersistenceError {α : Type} (operation : String) (call : Task α) : Task α :=
  tryCatch call fun _ => throw (.persistence operation)

/-- A stored record makes a candidate a duplicate. -/
def duplicates (record : MemoryRecord) (candidate : MemoryCandidate) : Bool :=
  !isArchivedMemory record && sameScope record candidate.scope &&
    metadataText record "provenance" = some candidate.provenance &&
    normalizedContent runtime record.content = normalizedContent runtime candidate.content

def validateSupersession (supersededMemoryId : Id) (candidate : MemoryCandidate) :
    Task (Except String MemoryRecord) := do
  let prior ← orPersistenceError "PROMOTE" (getRecord supersededMemoryId)
  match prior with
  | none => return .error "superseded memory does not exist"
  | some prior =>
    if prior.type ≠ .LONG_TERM ∨ !sameScope prior candidate.scope then
      return .error "supersession requires an exact LONG_TERM memory scope match"
    else if metadataText prior "provenance" ≠ some candidate.provenance then
      return .error "supersession cannot change memory provenance"
    else if (metadataText prior "supersededBy").isSome then
      return .error "superseded memory is already superseded"
    else if isArchivedMemory prior then
      return .error "an archived memory cannot be superseded"
    else return .ok prior

/-- `candidate.metadata['supersedesMemoryId']`, when it is a string. -/
def supersedesMemoryId (candidate : MemoryCandidate) : Option Id :=
  match candidate.metadata "supersedesMemoryId" with
  | some (.text id) => some id
  | _ => none

/-- The metadata of a stored record; `supersedesMemoryId` is the candidate's own. -/
def recordMetadata (candidate : MemoryCandidate) : Metadata :=
  let metadata := Function.update candidate.metadata "kind" (some (.text candidate.kind))
  let metadata := Function.update metadata "provenance" (some (.text candidate.provenance))
  let metadata := Function.update metadata "authorityLevel" (some (.text candidate.authorityLevel))
  let metadata := Function.update metadata "sourceContent" (some (.text candidate.sourceContent))
  Function.update metadata "trigger" (some (.text candidate.trigger))

/-- `{ ...record, metadata: { ...record.metadata, supersededBy }, updatedAt }` -/
def supersededBy (record : MemoryRecord) (id : Id) (updatedAt : JsString) : MemoryRecord :=
  { record with
    metadata := Function.update record.metadata "supersededBy" (some (.text id))
    updatedAt := updatedAt }

/-- The record of a candidate. -/
def newRecord (candidate : MemoryCandidate) (id : Id) (timestamp : JsString) : MemoryRecord :=
  { id := id
    type := .LONG_TERM
    scope := persistenceScope candidate.scope
    content := trim candidate.content
    metadata := recordMetadata candidate
    createdAt := timestamp
    updatedAt := timestamp }

/-- The superseded record is marked, or the new one goes again. -/
def markSuperseded (record saved : MemoryRecord) (timestamp : JsString) : Task Unit :=
  tryCatch (saveRecord (supersededBy record saved.id timestamp)) fun _ => do
    orPersistenceError "PROMOTE" (deleteRecord saved.id)
    throw (.persistence "PROMOTE")

/-- The candidate is stored, over the memory it supersedes. -/
def storeCandidate (candidate : MemoryCandidate) (superseded : Option MemoryRecord) :
    Task MemoryWriteDecision := do
  let world ← get
  let timestamp := runtime.toIso world.clock.1
  let record := newRecord candidate (runtime.newId (world.table.rows.map (·.id))) timestamp
  orPersistenceError "PROMOTE" (saveRecord record)
  match superseded with
  | none => pure ()
  | some prior => markSuperseded prior record timestamp
  match toDurableMemory runtime record with
  | .error error => throw error
  | .ok memory =>
    match superseded with
    | none => return .promoted memory "candidate passed durable-memory policy"
    | some prior =>
      return .superseding memory prior.id
        "changed scoped knowledge preserves its superseded memory reference"

def promote (candidate : MemoryCandidate) : Task MemoryWriteDecision := do
  match promotionRejection runtime candidate with
  | some reason => return .rejected reason
  | none =>
    let existing ← orPersistenceError "PROMOTE"
      (findByScope (persistenceScope candidate.scope) .LONG_TERM)
    match existing.find? fun record => duplicates runtime record candidate with
    | some duplicate =>
      return .duplicate duplicate.id
        "normalized content already exists with matching scope and provenance"
    | none =>
      match supersedesMemoryId candidate with
      | none => storeCandidate runtime candidate none
      | some id =>
        match ← validateSupersession id candidate with
        | .error reason => return .rejected reason
        | .ok prior => storeCandidate runtime candidate (some prior)

end

/-! ## Forgetting -/

inductive MemoryForgetResult where
  | forgotten (policyReason : String)
  | notFound (policyReason : String)
  | rejected (policyReason : String)
  deriving DecidableEq, Repr

/-- `DefaultMemoryWriter.forget` -/
def forget (memoryId : Id) (scope : DurableMemoryScope) : Task MemoryForgetResult := do
  let record ← orPersistenceError "FORGET" (getRecord memoryId)
  match record with
  | none => return .notFound "no memory exists for the exact id"
  | some record =>
    if record.type ≠ .LONG_TERM ∨ !sameScope record scope then
      return .rejected "forget policy requires an exact LONG_TERM memory scope match"
    else
      orPersistenceError "FORGET" (deleteRecord record.id)
      return .forgotten "exact scoped forget request passed policy"

end QuokyPlatform.Memories
