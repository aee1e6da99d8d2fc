import QuokyPlatform.Foundations.KeyedMutex
import QuokyPlatform.Foundations.PlainObject

/-!
# The session row and its writers

A session is one row of the store. Callers hold copies of it that may be arbitrarily old. Every
write runs under the session's write lock: a field-scoped save reads the live row and puts its own
fields onto it, a close saves the caller's copy. A caller that holds the lock passes its hold to the
operations it calls, and these run inside its section.

The log and the list of calls that returned are history: the program has neither.
-/

namespace QuokyPlatform.Sessions
set_option autoImplicit false
set_option maxHeartbeats 250000

/-! ## Sessions -/

abbrev Id := String
abbrev IsoTimestamp := String
abbrev Metadata := PlainObject String Json

inductive SessionStatus where
  | ACTIVE
  | IDLE
  | CLOSED
  deriving DecidableEq, Repr

structure ConversationContext where
  platform : String
  spaceId : Option String
  channelId : String
  threadId : Option String
  userId : String
  direct : Option Bool
  deriving DecidableEq, Repr

structure Session where
  id : Id
  actorId : Id
  context : ConversationContext
  status : SessionStatus
  projectId : Option Id
  activeProjectId : Option Id
  activeTaskId : Option Id
  createdAt : IsoTimestamp
  lastActivityAt : IsoTimestamp
  metadata : Option Metadata

/-- A caller's copy of the session, of any age. -/
abbrev SessionCopy (id : Id) := { session : Session // session.id = id }

/-- `Partial<Session>`: the fields that are named, and what they are set to. The id is never one of
them. -/
structure SessionFields where
  actorId : Option Id := none
  context : Option ConversationContext := none
  status : Option SessionStatus := none
  projectId : Option (Option Id) := none
  activeProjectId : Option (Option Id) := none
  activeTaskId : Option (Option Id) := none
  createdAt : Option IsoTimestamp := none
  lastActivityAt : Option IsoTimestamp := none
  metadata : Option (Option Metadata) := none

/-- `{ ...live, ...fields }` -/
def SessionFields.onto (fields : SessionFields) (live : Session) : Session where
  id := live.id
  actorId := fields.actorId.getD live.actorId
  context := fields.context.getD live.context
  status := fields.status.getD live.status
  projectId := fields.projectId.getD live.projectId
  activeProjectId := fields.activeProjectId.getD live.activeProjectId
  activeTaskId := fields.activeTaskId.getD live.activeTaskId
  createdAt := fields.createdAt.getD live.createdAt
  lastActivityAt := fields.lastActivityAt.getD live.lastActivityAt
  metadata := fields.metadata.getD live.metadata

/-! ## Entries of the metadata -/

/-- The names `Object.prototype` gives every object. -/
def OBJECT_PROTOTYPE_NAMES : List String :=
  ["constructor", "__defineGetter__", "__defineSetter__", "hasOwnProperty", "__lookupGetter__",
    "__lookupSetter__", "isPrototypeOf", "propertyIsEnumerable", "toString", "valueOf",
    "__proto__", "toLocaleString"]

/-- What `metadata[key]` reads. -/
inductive EntryValue where
  | own (value : Json)
  | inherited
  | undefined

def readEntry (key : String) : Option Json → EntryValue
  | some value => .own value
  | none => if key ∈ OBJECT_PROTOTYPE_NAMES then .inherited else .undefined

/-- Whether `metadata[key] = next` makes an entry: `__proto__` does not, unless it is one. -/
def assignable (key : String) (own : Option Json) : Bool := key ≠ "__proto__" || own.isSome

/-- `delete metadata[key]`, or `metadata[key] = next` -/
def setEntry (metadata : Metadata) (key : String) : Option Json → Metadata
  | none => metadata.delete key
  | some next => if assignable key (metadata.get key) then metadata.set key next else metadata

/-! ## The operations on one session -/

abbrev Failure := String

/-- What a call returns. -/
inductive Outcome where
  | saved (session : Session)
  | updated (session : Option Session)
  | released (released : Bool)

/-- A call of the write lock or of the session manager, with the caller's arguments. -/
inductive SessionOp (id : Id) where
  | saveFields (session : SessionCopy id) (fields : SessionFields)
  | releasePointer (session : SessionCopy id) (taskId : Id) (fields : SessionFields)
  | touch (session : SessionCopy id) (now : IsoTimestamp)
  | setActiveProject (session : SessionCopy id) (projectId : Id) (now : IsoTimestamp)
  | updateMetadataEntry (key : String) (update : EntryValue → Except Failure (Option Json))
      (onCommitted : Session → Except Failure Unit)
  | close (session : SessionCopy id)

/-- An operation in the log, with the reading of the clock at its save. -/
structure Commit (id : Id) where
  op : SessionOp id
  now : IsoTimestamp

/-! ## The store -/

/-- The rows of the table, each under its own id. The status column of a row is that of its
data: one statement writes both. -/
structure SessionTable where
  rows : Id → Option Session
  keyed : ∀ id session, rows id = some session → session.id = id

namespace SessionTable

/-- The row a save leaves: a closed one is not reopened. -/
def upserted (stored : Option Session) (session : Session) : Session :=
  match stored with
  | some row => if row.status = .CLOSED ∧ session.status ≠ .CLOSED then row else session
  | none => session

theorem upserted_id {stored : Option Session} {session : Session}
    (h : ∀ row, stored = some row → row.id = session.id) :
    (upserted stored session).id = session.id := by
  cases stored with
  | none => rfl
  | some row =>
    simp only [upserted]
    split
    · exact h row rfl
    · rfl

def save (table : SessionTable) (session : Session) : SessionTable where
  rows := Function.update table.rows session.id
    (some (upserted (table.rows session.id) session))
  keyed := by
    intro id found h
    by_cases hid : id = session.id
    · subst hid
      rw [Function.update_self] at h
      cases h
      exact upserted_id fun row hrow => table.keyed _ row hrow
    · rw [Function.update_of_ne hid] at h
      exact table.keyed id found h

end SessionTable

structure World where
  table : SessionTable
  log : (id : Id) → List (Commit id)
  returned : (id : Id) → List (SessionOp id)

/-- What happens outside at a call of the store: the clock, and whether the call throws. -/
structure Input where
  now : IsoTimestamp
  failure : Option Failure

abbrev Work (α : Type) := Program World Input Failure α

/-- `sessions.get` -/
def getSession (id : Id) : Work (Option Session) :=
  .perform fun w input => some (match input.failure with
    | some e => (.error e, w)
    | none => (.ok (w.table.rows id), w))

/-- `sessions.save` of the session the operation makes at this time. -/
def saveSession {id : Id} (op : SessionOp id) (session : IsoTimestamp → Session) : Work Session :=
  .perform fun w input => some (match input.failure with
    | some e => (.error e, w)
    | none => (.ok (SessionTable.upserted (w.table.rows (session input.now).id) (session input.now)),
        { w with
          table := w.table.save (session input.now)
          log := Function.update w.log id (w.log id ++ [⟨op, input.now⟩]) }))

/-- The operation leaves the row as it is. -/
def leaveSession {id : Id} (op : SessionOp id) : Work Unit :=
  .perform fun w input => some (.ok (),
    { w with log := Function.update w.log id (w.log id ++ [⟨op, input.now⟩]) })

/-! ## The work of an operation, inside the section -/

namespace SessionWriteLock

variable {id : Id} (op : SessionOp id) (session : SessionCopy id)

def saveFields (fields : SessionFields) : Work Session := do
  let live := (← getSession id).getD session
  saveSession op fun _ => fields.onto live

def releasePointer (taskId : Id) (fields : SessionFields) : Work Bool := do
  let live := (← getSession id).getD session
  if live.activeTaskId ≠ some taskId then
    leaveSession op
    return false
  let _ ← saveSession op fun _ => { fields with activeTaskId := some none }.onto live
  return true

end SessionWriteLock

namespace SessionManager

variable {id : Id} (op : SessionOp id)

def touch (session : SessionCopy id) (now : IsoTimestamp) : Work Session :=
  SessionWriteLock.saveFields op session { lastActivityAt := now }

def setActiveProject (session : SessionCopy id) (projectId : Id) (now : IsoTimestamp) :
    Work Session :=
  SessionWriteLock.saveFields op session
    { activeProjectId := some projectId, lastActivityAt := now }

/-- The metadata with the entry changed; an object without entries is dropped. -/
def withEntry (live : Session) (key : String) (next : Option Json) : Session :=
  let metadata := setEntry (live.metadata.getD .empty) key next
  { live with metadata := if metadata.size > 0 then some metadata else none }

def updateMetadataEntry (key : String) (update : EntryValue → Except Failure (Option Json))
    (onCommitted : Session → Except Failure Unit) : Work (Option Session) := do
  match ← getSession id with
  | none =>
    leaveSession op
    return none
  | some live =>
    if live.status ≠ .ACTIVE then
      leaveSession op
      return none
    let next ← .ofExcept (update (readEntry key ((live.metadata.getD .empty).get key)))
    let saved ← saveSession op fun _ => withEntry live key next
    .ofExcept (onCommitted saved)
    return some saved

def close (session : SessionCopy id) : Work Session :=
  saveSession op fun now => { session.val with status := .CLOSED, lastActivityAt := now }

end SessionManager

def SessionOp.work {id : Id} (op : SessionOp id) : Work Outcome :=
  match op with
  | .saveFields session fields => .saved <$> SessionWriteLock.saveFields op session fields
  | .releasePointer session taskId fields =>
    .released <$> SessionWriteLock.releasePointer op session taskId fields
  | .touch session now => .saved <$> SessionManager.touch op session now
  | .setActiveProject session projectId now =>
    .saved <$> SessionManager.setActiveProject op session projectId now
  | .updateMetadataEntry key update onCommitted =>
    .updated <$> SessionManager.updateMetadataEntry op key update onCommitted
  | .close session => .saved <$> SessionManager.close op session

/-! ## Sections -/

/-- What a holder of the lock does with its hold. A call without a hold is a section of its
own. -/
inductive LockedSection (id : Id) where
  | finish
  | call (op : SessionOp id) (next : Except Failure Outcome → LockedSection id)

def LockedSection.once {id : Id} (op : SessionOp id) : LockedSection id := .call op fun _ => .finish

/-- The operation is over; it is listed if it did not throw. -/
def noteReturned {id : Id} (op : SessionOp id) (result : Except Failure Outcome) : Work Unit :=
  match result with
  | .error _ => .done (.ok ())
  | .ok _ => .perform fun w _ => some (.ok (),
      { w with returned := Function.update w.returned id (w.returned id ++ [op]) })

def LockedSection.work (id : Id) : LockedSection id → Work Unit
  | .finish => .done (.ok ())
  | .call op next => (Program.attempt op.work).andThen fun
    | .ok result => (noteReturned op result).andThen fun _ => (next result).work
    | .error e => .done (.error e)

abbrev SessionAction := MutexAction LockedSection Input

/-- The table as it is, nothing logged. -/
def World.of (table : SessionTable) : World where
  table := table
  log _ := []
  returned _ := []

abbrev Locks := KeyedMutex Id World Input Failure

def step : Locks → SessionAction → Option Locks := KeyedMutex.step LockedSection.work

def start (table : SessionTable) : Locks := KeyedMutex.start (World.of table)

end QuokyPlatform.Sessions
