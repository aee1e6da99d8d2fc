import QuokyPlatform.Chunking.TokenEstimate
import QuokyPlatform.Foundations.PlainObject

/-!
# Durable memory records

A record of the memory store: its scope, its text and its metadata, which says whether it is
archived, superseded or expired. An id in a scope is not empty: the writer never stores an empty one.
-/

namespace QuokyPlatform.Memories
open Chunking
set_option autoImplicit false
set_option maxHeartbeats 250000

abbrev Id := JsString

/-- An id that a scope names. -/
abbrev ScopeId := { id : Id // id ≠ [] }

inductive MemoryType where
  | SHORT_TERM
  | WORKING
  | LONG_TERM
  | PROJECT
  | TOOL
  | CONNECTOR
  deriving DecidableEq, Repr

structure MemoryScope where
  userId : Option ScopeId := none
  channelId : Option ScopeId := none
  threadId : Option ScopeId := none
  sessionId : Option ScopeId := none
  taskId : Option ScopeId := none
  projectId : Option ScopeId := none
  deriving DecidableEq, Repr

structure DurableMemoryScope where
  sessionId : Option ScopeId := none
  projectId : Option ScopeId := none
  actorId : Option ScopeId := none
  deriving DecidableEq, Repr

/-- A JSON value under a metadata key. -/
inductive MetadataValue where
  | text (value : JsString)
  | null
  | other (value : Json)

abbrev Metadata := String → Option MetadataValue

def MEMORY_ARCHIVED_AT_KEY : String := "archivedAt"
def MEMORY_ARCHIVE_EXPIRES_AT_KEY : String := "archiveExpiresAt"

structure MemoryRecord where
  id : Id
  type : MemoryType
  scope : MemoryScope
  content : JsString
  vectorId : Option Id := none
  metadata : Metadata
  createdAt : JsString
  updatedAt : JsString

/-- The string under a metadata key. -/
def metadataText (record : MemoryRecord) (key : String) : Option JsString :=
  match record.metadata key with
  | some (.text value) => some value
  | _ => none

/-- It carries an `archivedAt` metadata value. -/
def isArchivedMemory (record : MemoryRecord) : Bool :=
  match record.metadata MEMORY_ARCHIVED_AT_KEY with
  | none | some .null => false
  | some _ => true

def persistenceScope (scope : DurableMemoryScope) : MemoryScope :=
  { sessionId := scope.sessionId, projectId := scope.projectId, userId := scope.actorId }

def sameScope (record : MemoryRecord) (scope : DurableMemoryScope) : Bool :=
  record.scope.sessionId = scope.sessionId && record.scope.projectId = scope.projectId &&
    record.scope.userId = scope.actorId && record.scope.channelId = none &&
    record.scope.threadId = none && record.scope.taskId = none

/-- The exact write scope of a durable record, as forgetting and supersession compare it. -/
def durableScopeOfRecord (record : MemoryRecord) : Option DurableMemoryScope :=
  if record.scope.channelId ≠ none ∨ record.scope.threadId ≠ none ∨ record.scope.taskId ≠ none then
    none
  else
    let scope : DurableMemoryScope :=
      { sessionId := record.scope.sessionId, projectId := record.scope.projectId
        actorId := record.scope.userId }
    if scope = {} then none else some scope

/-- A time a clock can read, in milliseconds. -/
abbrev Instant := { t : ℤ // t.natAbs ≤ 8640000000000000 }

/-- What the platform and the guards of the writer do. -/
structure Runtime where
  /-- `toLocaleLowerCase('en-US')` -/
  toLowerCase : JsString → JsString
  /-- `Date.parse`; none is `NaN`. -/
  parse : JsString → Option ℤ
  toIso : ℤ → JsString
  parse_toIso : ∀ now : Instant, parse (toIso now.1) = some now.1
  isCredentialLikeMemoryText : JsString → Bool
  containsCredentialFileContent : JsString → Bool
  newId : List Id → Id
  /-- A new id is in use nowhere. -/
  fresh : ∀ used, newId used ∉ used
  newId_text : ∀ used, trim (newId used) ≠ []

section
variable (runtime : Runtime)

def isStrictCredentialMemoryText (text : JsString) : Bool :=
  runtime.isCredentialLikeMemoryText text || runtime.containsCredentialFileContent text

def normalizedContent (content : JsString) : JsString :=
  runtime.toLowerCase (collapseWhiteSpace (trim content))

/-- Not expired at `nowMs`. -/
def inForce (record : MemoryRecord) (nowMs : ℤ) : Bool :=
  match metadataText record "expiresAt" with
  | none => true
  | some expiresAt =>
    match runtime.parse expiresAt with
    | none => false
    | some expiresMs => decide (nowMs ≤ expiresMs)

/-- A record the owner's durable recall can return. -/
def isListableMemory (record : MemoryRecord) (actorId : ScopeId) (nowMs : ℤ) : Bool :=
  if record.type ≠ .LONG_TERM ∨ record.scope.userId ≠ some actorId then false
  else if durableScopeOfRecord record = none then false
  else if metadataText record "supersededBy" ≠ none then false
  else if isArchivedMemory record then false
  else inForce runtime record nowMs

/-- When an archived record is due for deletion. -/
def archiveExpiryMs (record : MemoryRecord) : Option ℤ :=
  (metadataText record MEMORY_ARCHIVE_EXPIRES_AT_KEY).bind runtime.parse

/-- A record the owner's archive view shows. -/
def isArchiveListableMemory (record : MemoryRecord) (actorId : ScopeId) (nowMs : ℤ) : Bool :=
  if record.type ≠ .LONG_TERM ∨ record.scope.userId ≠ some actorId then false
  else if durableScopeOfRecord record = none then false
  else if metadataText record "supersededBy" ≠ none then false
  else if !isArchivedMemory record then false
  else (archiveExpiryMs runtime record).any fun expiresMs => decide (nowMs < expiresMs)

end

/-- The archive generation of a record. -/
def archiveGenerationOf (record : MemoryRecord) : Option JsString :=
  metadataText record MEMORY_ARCHIVED_AT_KEY

/-- The record with the archive keys set. -/
def withArchive (record : MemoryRecord) (now expiresAt : JsString) : MemoryRecord :=
  let metadata := Function.update record.metadata MEMORY_ARCHIVED_AT_KEY (some (.text now))
  { record with
    metadata := Function.update metadata MEMORY_ARCHIVE_EXPIRES_AT_KEY (some (.text expiresAt)) }

/-- The record without the archive keys. -/
def withoutArchive (record : MemoryRecord) : MemoryRecord :=
  let metadata := Function.update record.metadata MEMORY_ARCHIVED_AT_KEY none
  { record with metadata := Function.update metadata MEMORY_ARCHIVE_EXPIRES_AT_KEY none }

/-! ## What archiving changes -/

section
variable (record : MemoryRecord) (now expiresAt : JsString)

@[simp] theorem withArchive_id : (withArchive record now expiresAt).id = record.id := rfl

@[simp] theorem withArchive_content : (withArchive record now expiresAt).content = record.content := rfl

@[simp] theorem withArchive_scope : (withArchive record now expiresAt).scope = record.scope := rfl

@[simp] theorem withArchive_type : (withArchive record now expiresAt).type = record.type := rfl

@[simp] theorem isArchivedMemory_withArchive :
    isArchivedMemory (withArchive record now expiresAt) = true := by
  simp [isArchivedMemory, withArchive, Function.update, MEMORY_ARCHIVED_AT_KEY,
    MEMORY_ARCHIVE_EXPIRES_AT_KEY]

@[simp] theorem supersededBy_withArchive :
    metadataText (withArchive record now expiresAt) "supersededBy" =
      metadataText record "supersededBy" := by
  simp [metadataText, withArchive, Function.update, MEMORY_ARCHIVED_AT_KEY,
    MEMORY_ARCHIVE_EXPIRES_AT_KEY]

@[simp] theorem withoutArchive_id : (withoutArchive record).id = record.id := rfl

@[simp] theorem withoutArchive_scope : (withoutArchive record).scope = record.scope := rfl

@[simp] theorem withoutArchive_type : (withoutArchive record).type = record.type := rfl

@[simp] theorem isArchivedMemory_withoutArchive :
    isArchivedMemory (withoutArchive record) = false := by
  simp [isArchivedMemory, withoutArchive, Function.update, MEMORY_ARCHIVED_AT_KEY,
    MEMORY_ARCHIVE_EXPIRES_AT_KEY]

@[simp] theorem supersededBy_withoutArchive :
    metadataText (withoutArchive record) "supersededBy" = metadataText record "supersededBy" := by
  simp [metadataText, withoutArchive, Function.update, MEMORY_ARCHIVED_AT_KEY,
    MEMORY_ARCHIVE_EXPIRES_AT_KEY]

end

theorem durableScopeOfRecord_congr {a b : MemoryRecord} (h : a.scope = b.scope) :
    durableScopeOfRecord a = durableScopeOfRecord b := by
  unfold durableScopeOfRecord
  rw [h]

/-- A durable record is in its own write scope. -/
theorem sameScope_durableScopeOfRecord {record : MemoryRecord} {scope : DurableMemoryScope}
    (h : durableScopeOfRecord record = some scope) : sameScope record scope = true := by
  unfold durableScopeOfRecord at h
  split at h
  · cases h
  · rename_i hplain
    rw [not_or, not_or, not_not, not_not, not_not] at hplain
    dsimp only at h
    split at h
    · cases h
    · cases h
      simp [sameScope, hplain]

end QuokyPlatform.Memories
