import QuokyPlatform.Foundations.Machine
import QuokyPlatform.VectorStore.Format

/-! # The local vector store

One collection of the store: its file, the map held in memory, the queries that load it and the
chain of its writes. Every await is a point where another call may take a step, an input or output
may fail, or the process may die. A file that cannot be used is moved aside and the collection
starts empty. -/

namespace QuokyPlatform.VectorStore

set_option autoImplicit false
set_option maxHeartbeats 250000

/-! ## Changes of a collection -/

inductive Overflow
  | evict
  | reject
deriving DecidableEq, Repr

structure Limits where
  maxRecords : ℕ
  overflow : Overflow
  positive : 1 ≤ maxRecords

/-- A number of a vector to store: whether it is finite, and what it narrows to. -/
structure Number where
  finite : Bool
  narrowed : UInt32
deriving DecidableEq, Repr

structure VectorRecord where
  id : String
  vector : List Number
  metadata : Option Json

/-- The checks of `upsert`, made on the numbers before they are narrowed. -/
def VectorRecord.accepted (record : VectorRecord) : Bool :=
  isValidId record.id &&
    (1 ≤ record.vector.length && record.vector.length ≤ maxEmbeddingDimensions &&
      record.vector.all Number.finite) &&
    record.metadata.all isPlainMetadata

def VectorRecord.stored (record : VectorRecord) : String × StoredRecord :=
  (record.id, { vector := record.vector.map Number.narrowed, metadata := record.metadata })

inductive Change
  | upsert (records : List VectorRecord)
  | delete (ids : List String)

/-- The calls that come to the write chain: the others throw, or have nothing to do. -/
def Change.accepted : Change → Bool
  | .upsert records => !records.isEmpty && records.all VectorRecord.accepted
  | .delete ids => !ids.isEmpty

/-- The oldest-written records beyond the cap go. -/
def dropOldest (limits : Limits) (records : Records) : Records where
  entries := records.entries.drop (records.size - limits.maxRecords)
  distinct := records.distinct.sublist ((List.drop_sublist _ _).map _)

/-- The map after a change; `none` is the `VectorCapacityError`. -/
def Change.apply (limits : Limits) (current : Records) : Change → Option Records
  | .upsert records =>
    let next := (records.map VectorRecord.stored).foldl put current
    if limits.overflow = .reject ∧ limits.maxRecords < next.size then none
    else some (dropOldest limits next)
  | .delete ids => some (ids.foldl PlainObject.delete current)

/-- A delete of ids that are not stored writes nothing. -/
def Change.writes (current : Records) : Change → Bool
  | .upsert _ => true
  | .delete ids => ids.any fun id => decide (id ∈ current.keys)

/-! ## The file -/

inductive DiskFile
  | absent
  | unreadable
  | text (content : FileText)

/-- What a read of the file gives: the records of it, a reason to start empty, or the error of a
file over the cap. -/
inductive Loaded
  | ready (records : Records)
  | corrupt
  | over

def loadText (limits : Limits) (content : FileText) : Loaded :=
  match parseCollectionEntries content with
  | none => .corrupt
  | some entries =>
    let records := readEntries entries
    if limits.overflow = .reject ∧ limits.maxRecords < records.size then .over
    else .ready (dropOldest limits records)

/-- The records a fresh load of the file comes to, when it is usable. -/
def DiskFile.view (limits : Limits) : DiskFile → Option Records
  | .absent => some PlainObject.empty
  | .unreadable => none
  | .text content =>
    match loadText limits content with
    | .ready records => some records
    | _ => none

/-! ## The store -/

inductive Memory
  | unloaded
  | reading
  | movingAside
  | ready (records : Records)

/-- How far the write at the head of the chain is. -/
inductive Stage
  | loading
  | writable
  | directory (next : Records)
  | temporary (next : Records)
  | replacing (next : Records)
  | installing (next : Records)

/-- A call of `upsert` or `delete`, numbered in the order of the calls. -/
structure Mutation where
  ticket : ℕ
  change : Change

/-- What happened to the contents of the file. -/
inductive LogEntry
  | committed (mutation : Mutation)
  | movedAside

structure Store where
  target : DiskFile
  aside : List DiskFile
  memory : Memory
  /-- The bad file is still in place: reads are empty and writes have to move it first. -/
  blocked : Bool
  waiting : List Mutation
  active : Option (Mutation × Stage)
  issued : ℕ
  log : List LogEntry
  acknowledged : List ℕ
  failed : List ℕ

def Store.start (target : DiskFile) : Store where
  target := target
  aside := []
  memory := .unloaded
  blocked := false
  waiting := []
  active := none
  issued := 0
  log := []
  acknowledged := []
  failed := []

/-- The steps; the flag says whether the input or output of the step works. -/
inductive Action
  | query
  | mutate (change : Change)
  | read (ok : Bool)
  | moveAside (ok : Bool)
  | proceed (ok : Bool)
  | crash

def DiskFile.isAbsent : DiskFile → Bool
  | .absent => true
  | _ => false

/-- The rename of `quarantine` and `assertWritable`. -/
def Store.setAside (s : Store) : Store :=
  { s with target := .absent, aside := s.target :: s.aside, log := s.log ++ [.movedAside] }

def Store.fail (s : Store) (mutation : Mutation) : Store :=
  { s with active := none, failed := s.failed ++ [mutation.ticket] }

def Store.acknowledge (s : Store) (mutation : Mutation) : Store :=
  { s with active := none, acknowledged := s.acknowledged ++ [mutation.ticket] }

/-- A load that throws: the attempt is forgotten, and the write that waits for it fails. -/
def Store.loadFails (s : Store) : Store :=
  match s.active with
  | some (mutation, .loading) => { s.fail mutation with memory := .unloaded }
  | _ => { s with memory := .unloaded }

/-- The pending read of the file returns. -/
def Store.read (limits : Limits) (s : Store) (ok : Bool) : Store :=
  match ok, s.target with
  | true, .absent => { s with memory := .ready PlainObject.empty }
  | true, .text content =>
    match loadText limits content with
    | .ready records => { s with memory := .ready records }
    | .corrupt => { s with memory := .movingAside }
    | .over => s.loadFails
  | _, _ => { s with memory := .movingAside }

/-- The pending rename of a bad file returns. -/
def Store.quarantine (s : Store) (ok : Bool) : Store :=
  if ok && !s.target.isAbsent then { s.setAside with memory := .ready PlainObject.empty }
  else { s with memory := .ready PlainObject.empty, blocked := true }

/-- `assertWritable`: what is left of the block, or `none` where it throws. -/
def Store.assertWritable (s : Store) (ok : Bool) : Option Store :=
  if !s.blocked then some s
  else if s.target.isAbsent then some { s with blocked := false }
  else if ok then some { s.setAside with blocked := false }
  else none

/-- The change is computed; it is written unless nothing changed. -/
def Store.plan (limits : Limits) (s : Store) (mutation : Mutation) (current : Records) : Store :=
  match mutation.change.apply limits current with
  | none => s.fail mutation
  | some next =>
    if mutation.change.writes current then { s with active := some (mutation, .directory next) }
    else ({ s with log := s.log ++ [.committed mutation] } : Store).acknowledge mutation

/-- The next await of the write chain returns. -/
def Store.proceed (limits : Limits) (s : Store) (ok : Bool) : Option Store :=
  match s.active with
  | none =>
    match s.waiting with
    | [] => none
    | mutation :: rest => some { s with
        waiting := rest, active := some (mutation, .loading),
        memory := match s.memory with
          | .unloaded => .reading
          | memory => memory }
  | some (mutation, .loading) =>
    match s.memory with
    | .ready _ => some { s with active := some (mutation, .writable) }
    | _ => none
  | some (mutation, .writable) =>
    match s.memory with
    | .ready current =>
      match s.assertWritable ok with
      | none => some (s.fail mutation)
      | some unblocked => some (unblocked.plan limits mutation current)
    | _ => none
  | some (mutation, .directory next) =>
    if ok then some { s with active := some (mutation, .temporary next) } else some (s.fail mutation)
  | some (mutation, .temporary next) =>
    if ok then some { s with active := some (mutation, .replacing next) } else some (s.fail mutation)
  | some (mutation, .replacing next) =>
    if ok then some { s with
      target := .text (fileOf next), log := s.log ++ [.committed mutation],
      active := some (mutation, .installing next) }
    else some (s.fail mutation)
  | some (mutation, .installing next) =>
    some (({ s with memory := .ready next } : Store).acknowledge mutation)

def step (limits : Limits) (s : Store) : Action → Option Store
  | .query => some { s with
      memory := match s.memory with
        | .unloaded => .reading
        | memory => memory }
  | .mutate change =>
    if change.accepted then
      some { s with waiting := s.waiting ++ [{ ticket := s.issued, change }], issued := s.issued + 1 }
    else none
  | .read ok =>
    match s.memory with
    | .reading => some (s.read limits ok)
    | _ => none
  | .moveAside ok =>
    match s.memory with
    | .movingAside => some (s.quarantine ok)
    | _ => none
  | .proceed ok => s.proceed limits ok
  | .crash => some { s with memory := .unloaded, blocked := false, waiting := [], active := none }

/-! ## What the file should hold -/

/-- The records after what happened to the file. -/
def replay (limits : Limits) (base : Records) (log : List LogEntry) : Records :=
  log.foldl (fun records entry =>
    match entry with
    | .committed mutation => (mutation.change.apply limits records).getD records
    | .movedAside => PlainObject.empty) base

/-- The tickets of the changes on file, in the order they got there. -/
def tickets (log : List LogEntry) : List ℕ :=
  log.filterMap fun entry =>
    match entry with
    | .committed mutation => some mutation.ticket
    | .movedAside => none

end QuokyPlatform.VectorStore
