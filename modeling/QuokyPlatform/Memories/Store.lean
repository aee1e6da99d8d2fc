import Mathlib.Data.List.Sort
import QuokyPlatform.Foundations.Ensures
import QuokyPlatform.Memories.Records

/-!
# The memory store and its calls

The rows of the table, one for each id. Every call may throw: a call that is refused changes
nothing, and a delete that throws may have taken effect.
-/

namespace QuokyPlatform.Memories
open Chunking Script
set_option autoImplicit false
set_option maxHeartbeats 250000

/-! ## Rows -/

structure MemoryTable where
  rows : List MemoryRecord
  distinct : (rows.map (·.id)).Nodup

namespace MemoryTable

def find (table : MemoryTable) (id : Id) : Option MemoryRecord :=
  table.rows.find? fun row => row.id = id

/-- Every row changed in place; ids stay. -/
def change (table : MemoryTable) (f : MemoryRecord → MemoryRecord)
    (hid : ∀ row, (f row).id = row.id) : MemoryTable where
  rows := table.rows.map f
  distinct := by
    rw [List.map_map]
    have hsame : (fun row : MemoryRecord => row.id) ∘ f = fun row => row.id := funext hid
    rw [hsame]
    exact table.distinct

/-- `INSERT … ON CONFLICT(id) DO UPDATE` -/
def save (table : MemoryTable) (record : MemoryRecord) : MemoryTable :=
  if h : record.id ∈ table.rows.map (·.id) then
    table.change (fun row => if row.id = record.id then record else row) fun row => by
      split
      · rename_i hid
        exact hid.symm
      · rfl
  else
    { rows := table.rows ++ [record]
      distinct := by
        rw [List.map_append]
        exact table.distinct.append (List.nodup_singleton _) (by simpa using h) }

/-- `DELETE … WHERE id = ?` -/
def delete (table : MemoryTable) (id : Id) : MemoryTable where
  rows := table.rows.filter fun row => row.id ≠ id
  distinct := table.distinct.sublist (List.filter_sublist.map _)

theorem ext_rows {a b : MemoryTable} (h : a.rows = b.rows) : a = b := by
  cases a
  cases b
  cases h
  rfl

variable {table : MemoryTable} {record row : MemoryRecord} {id : Id}

theorem eq_of_id (hrow : row ∈ table.rows) (hrecord : record ∈ table.rows) (h : row.id = record.id) :
    row = record :=
  List.inj_on_of_nodup_map table.distinct hrow hrecord h

theorem find_of_mem (h : record ∈ table.rows) : table.find record.id = some record := by
  cases hfind : table.find record.id with
  | none =>
    have hnone := List.find?_eq_none.mp hfind record h
    simp at hnone
  | some found =>
    have hmem := List.mem_of_find?_eq_some hfind
    have hid : found.id = record.id := by simpa using List.find?_some hfind
    rw [eq_of_id hmem h hid]

theorem mem_of_find (h : table.find id = some record) : record ∈ table.rows ∧ record.id = id :=
  ⟨List.mem_of_find?_eq_some h, by simpa using List.find?_some h⟩

@[simp] theorem mem_delete : row ∈ (table.delete id).rows ↔ row ∈ table.rows ∧ row.id ≠ id := by
  simp [delete]

/-- A stored record saved again replaces its row. -/
theorem save_of_mem (h : record.id ∈ table.rows.map (·.id)) :
    (table.save record).rows =
      table.rows.map fun row => if row.id = record.id then record else row := by
  unfold save
  rw [dif_pos h]
  rfl

theorem save_of_not_mem (h : record.id ∉ table.rows.map (·.id)) :
    (table.save record).rows = table.rows ++ [record] := by
  unfold save
  rw [dif_neg h]

/-- A new record saved and deleted again leaves nothing. -/
theorem delete_save (h : record.id ∉ table.rows.map (·.id)) :
    (table.save record).delete record.id = table := by
  refine ext_rows ?_
  show (table.save record).rows.filter _ = table.rows
  rw [save_of_not_mem h, List.filter_append]
  have hkept : table.rows.filter (fun row => row.id ≠ record.id) = table.rows := by
    refine List.filter_eq_self.mpr fun row hrow => ?_
    have hne : row.id ≠ record.id := fun heq => h (heq ▸ List.mem_map_of_mem hrow)
    simpa using hne
  rw [hkept]
  simp

end MemoryTable

/-! ## Calls -/

/-- What becomes of a call. -/
inductive Fault where
  | none
  /-- It throws and has changed nothing. -/
  | refused
  /-- It throws; a delete has taken effect. -/
  | lost
  deriving DecidableEq, Repr

/-- Why derived data is removed. -/
inductive RemovalReason where
  | forget
  | edit
  deriving DecidableEq, Repr

structure MemoryRemovalEvent where
  actorId : ScopeId
  reason : RemovalReason
  memoryIds : List Id
  vectorIds : List Id
  contents : List JsString
  deriving DecidableEq

/-- What took effect. -/
inductive Effect where
  | cascade (name : String) (event : MemoryRemovalEvent)
  | cleared
  | saved (id : Id)
  | deleted (id : Id)
  deriving DecidableEq

structure World where
  table : MemoryTable
  clock : Instant
  /-- What becomes of the call of each number. -/
  faults : ℕ → Fault
  calls : ℕ
  trace : List Effect

inductive MemoryError where
  | store
  | persistence (operation : String)
  | archiveStateChanged
  | validation (message : String)
  deriving DecidableEq, Repr

abbrev Task (α : Type) := Script World MemoryError α

/-- The next call, and what becomes of it. -/
def nextFault : Task Fault := do
  let world ← get
  modify fun world => { world with calls := world.calls + 1 }
  return world.faults world.calls

/-- A read of the table. -/
def read {α : Type} (f : MemoryTable → α) : Task α := do
  match ← nextFault with
  | .none => return f (← get).table
  | _ => throw .store

def saveRecord (record : MemoryRecord) : Task Unit := do
  match ← nextFault with
  | .none => modify fun world =>
      { world with table := world.table.save record, trace := world.trace ++ [.saved record.id] }
  | _ => throw .store

def deleteRecord (id : Id) : Task Unit := do
  let effect (world : World) : World :=
    { world with table := world.table.delete id, trace := world.trace ++ [.deleted id] }
  match ← nextFault with
  | .none => modify effect
  | .refused => throw .store
  | .lost => do
    modify effect
    throw .store

/-- A call that keeps no memory: a cascade or the clearing of the session's history. -/
def callOut (effect : Effect) : Task Unit := do
  match ← nextFault with
  | .none => modify fun world => { world with trace := world.trace ++ [effect] }
  | _ => throw .store

def getRecord (id : Id) : Task (Option MemoryRecord) := read (·.find id)

/-- `json_type(data, '$.metadata.archivedAt') IS NULL` -/
def lacksArchiveKey (record : MemoryRecord) : Bool :=
  (record.metadata MEMORY_ARCHIVED_AT_KEY).isNone

/-- A clause for a column, when the scope names it. -/
def columnMatches (wanted stored : Option ScopeId) : Bool :=
  wanted.isNone || wanted = stored

def findByScope (scope : MemoryScope) (type : MemoryType) : Task (List MemoryRecord) :=
  read fun table =>
    (table.rows.filter fun row =>
      columnMatches scope.sessionId row.scope.sessionId &&
        columnMatches scope.projectId row.scope.projectId &&
        columnMatches scope.channelId row.scope.channelId &&
        columnMatches scope.threadId row.scope.threadId &&
        row.type = type && lacksArchiveKey row).insertionSort fun a b => a.createdAt ≤ b.createdAt

/-- The durable records of an actor, archived or not and superseded or not. -/
def findDurableCandidates (userId : ScopeId) (limit : ℕ) : Task (List MemoryRecord) :=
  read fun table =>
    let rows := table.rows.filter fun row => row.type = .LONG_TERM && row.scope.userId = some userId
    let newestFirst (a b : MemoryRecord) : Bool :=
      b.updatedAt < a.updatedAt || (b.updatedAt = a.updatedAt && a.id ≤ b.id)
    (rows.insertionSort fun a b => newestFirst a b = true).take limit

/-! ## Where the calls end -/

section
variable {world : World}

/-- The world after one more call. -/
def World.called (world : World) : World := { world with calls := world.calls + 1 }

theorem lands_read {α : Type} {f : MemoryTable → α} {Q : Except MemoryError α → World → Prop} :
    (read f).Lands world Q ↔
      if world.faults world.calls = .none then Q (.ok (f world.table)) world.called
      else Q (.error .store) world.called := by
  unfold read nextFault
  rw [lands_bind, lands_bind, lands_get, andThen_ok, lands_bind, lands_modify, andThen_ok, lands_pure]
  cases hfault : world.faults world.calls
  · exact Iff.rfl
  · exact Iff.rfl
  · exact Iff.rfl

theorem lands_saveRecord {record : MemoryRecord} {Q : Except MemoryError Unit → World → Prop} :
    (saveRecord record).Lands world Q ↔
      if world.faults world.calls = .none then
        Q (.ok ()) { world.called with
          table := world.table.save record, trace := world.trace ++ [.saved record.id] }
      else Q (.error .store) world.called := by
  unfold saveRecord nextFault
  rw [lands_bind, lands_bind, lands_get, andThen_ok, lands_bind, lands_modify, andThen_ok, lands_pure]
  cases hfault : world.faults world.calls
  · exact Iff.rfl
  · exact Iff.rfl
  · exact Iff.rfl

/-- A delete. -/
def World.deletedAfter (world : World) (id : Id) : World :=
  { world.called with table := world.table.delete id, trace := world.trace ++ [.deleted id] }

theorem lands_deleteRecord {id : Id} {Q : Except MemoryError Unit → World → Prop} :
    (deleteRecord id).Lands world Q ↔
      match world.faults world.calls with
      | .none => Q (.ok ()) (world.deletedAfter id)
      | .refused => Q (.error .store) world.called
      | .lost => Q (.error .store) (world.deletedAfter id) := by
  unfold deleteRecord nextFault
  rw [lands_bind, lands_bind, lands_get, andThen_ok, lands_bind, lands_modify, andThen_ok, lands_pure]
  cases hfault : world.faults world.calls
  · exact Iff.rfl
  · exact Iff.rfl
  · exact Iff.rfl

theorem lands_callOut {effect : Effect} {Q : Except MemoryError Unit → World → Prop} :
    (callOut effect).Lands world Q ↔
      if world.faults world.calls = .none then
        Q (.ok ()) { world.called with trace := world.trace ++ [effect] }
      else Q (.error .store) world.called := by
  unfold callOut nextFault
  rw [lands_bind, lands_bind, lands_get, andThen_ok, lands_bind, lands_modify, andThen_ok, lands_pure]
  cases hfault : world.faults world.calls
  · exact Iff.rfl
  · exact Iff.rfl
  · exact Iff.rfl

end

end QuokyPlatform.Memories
