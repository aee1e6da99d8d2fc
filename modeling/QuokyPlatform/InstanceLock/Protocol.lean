import QuokyPlatform.Foundations.Program
import QuokyPlatform.InstanceLock.Generations

/-! # The single-instance lock

The processes of one host run `acquireInstanceLock` and `release` over one lock directory. Each file
operation is atomic, may fail, and is taken by a live process only. The host hands out process ids no
live process has and tokens nobody had before, and makes no generation from 10^14 on; a crash takes a
process off at any point, and a reboot takes all of them off and goes on to the next boot. -/

namespace QuokyPlatform.InstanceLock

set_option autoImplicit false
set_option maxHeartbeats 250000

inductive InstanceLockErrorCode where
  | instanceAlreadyRunning | instanceLockUnavailable
  deriving DecidableEq

/-- What is thrown: `EEXIST` or another error of a file operation, or an error of the lock. -/
inductive Fault where
  | alreadyExists | failed
  | lock (code : InstanceLockErrorCode)
  deriving DecidableEq

/-! ## The host -/

/-- A live process: what it is known by, how its `acquireInstanceLock` ended, and the generation of
the lock it was given and no marker has released. -/
structure Process where
  pid : ℤ
  bootId : Option String
  token : String
  outcome : Option (Except Fault ℕ)
  lock : Option ℕ

structure Host where
  files : Directory
  processes : AList fun _ : ℕ => Process
  /-- The tokens of all processes so far, and those the directory came with. -/
  tokens : List String
  boot : ℕ

/-- What comes from outside at a step. -/
inductive Input where
  | fine
  /-- The file operation fails. -/
  | fault
  /-- Whether a process that is none of these has the pid. -/
  | inUse (used : Bool)
  | time (reading : String)
  | started (pid : ℤ) (bootKnown : Bool) (startedAt token : String)
  deriving DecidableEq

abbrev Call := Program Host Input Fault

variable (bootId : ℕ → String) (i : ℕ)

/-! ## Operations -/

/-- A file operation of a live process. -/
def file {α : Type} (op : Host → Except Fault α × Host) : Call α :=
  .perform fun host input =>
    if i ∈ host.processes then
      match input with
      | .fine => some (op host)
      | .fault => some (.error .failed, host)
      | _ => none
    else none

def mkdir : Call Unit := file i fun host => (.ok (), host)

def readdir : Call (List String) := file i fun host => (.ok host.files.keys, host)

def readFile (name : String) : Call Contents := file i fun host =>
  match host.files.lookup name with
  | some contents => (.ok contents, host)
  | none => (.error .failed, host)

def writeNew (name : String) (contents : Contents) : Call Unit := file i fun host =>
  if name ∈ host.files then (.error .alreadyExists, host)
  else (.ok (), { host with files := host.files.insert name contents })

def unlink (name : String) : Call Unit := file i fun host =>
  if name ∈ host.files then (.ok (), { host with files := host.files.erase name })
  else (.error .failed, host)

/-- A lock that is marked as released is not held any more. -/
def Process.afterLink (record : InstanceLockRecord) (process : Process) : Process :=
  match record with
  | .held .. => process
  | .released .. => { process with lock := none }

/-- Link a temporary file as its generation. -/
def link (record : InstanceLockRecord) (generation : ℕ) : Call Unit :=
  .perform fun host input =>
    match host.processes.lookup i, input with
    | some _, .fault => some (.error .failed, host)
    | some process, .fine =>
      match host.files.lookup (tempPath record generation) with
      | none => some (.error .failed, host)
      | some contents =>
        if generationPath generation ∈ host.files then some (.error .alreadyExists, host)
        else if generation < 10 ^ 14 then
          some (.ok (), { host with
            files := host.files.insert (generationPath generation) contents
            processes := host.processes.insert i (process.afterLink record) })
        else none
    | _, _ => none

/-- `kill(pid, 0)` finds the pid of a live process. -/
def isProcessAlive (pid : ℤ) : Call Bool :=
  .perform fun host input =>
    if i ∈ host.processes then
      match input with
      | .inUse used =>
        some (.ok (host.processes.entries.any (fun entry => entry.2.pid = pid) || used), host)
      | _ => none
    else none

def now : Call String :=
  .perform fun host input =>
    if i ∈ host.processes then
      match input with
      | .time reading => some (.ok reading, host)
      | _ => none
    else none

/-! ## The protocol -/

/-- `try … catch { throw lockError(INSTANCE_LOCK_UNAVAILABLE) }` -/
def orUnavailable {α : Type} (call : Call α) : Call α := do
  match ← call.attempt with
  | .ok a => return a
  | .error _ => .raise (.lock .instanceLockUnavailable)

def listed : Call (List ℕ) := do return listGenerations (← orUnavailable (readdir i))

def highestGeneration : Call ℕ := do return highest (← listed i)

def readOrUndefined (name : String) : Call (Option Contents) := do
  match ← (readFile i name).attempt with
  | .ok contents => return some contents
  | .error _ => return none

def removeQuietly (name : String) : Call Unit := do
  let _ ← (unlink i name).attempt

/-- Exclusive create of a generation: `false` if it already exists. -/
def createGeneration (generation : ℕ) (record : InstanceLockRecord) : Call Bool := do
  orUnavailable (writeNew i (tempPath record generation) (some record.toJson))
  let linked ← (link i record generation).attempt
  removeQuietly i (tempPath record generation)
  match linked with
  | .ok _ => return true
  | .error .alreadyExists => return false
  | .error _ => .raise (.lock .instanceLockUnavailable)

def removeEach : List ℕ → Call Unit
  | [] => return ()
  | generation :: rest => do
    removeQuietly i (generationPath generation)
    removeEach rest

def removeGenerationsBelow (generation : ℕ) : Call Unit := do
  match ← (listed i).attempt with
  | .ok generations => removeEach i (generations.filter (· < generation))
  | .error _ => return ()

structure Self where
  pid : ℤ
  bootId : Option String

/-- Whether both boots are known and differ. -/
def rebooted (existing current : Option String) : Bool :=
  match existing, current with
  | some existing, some current => existing ≠ current
  | _, _ => false

/-- Whether the current generation may be superseded. -/
def isFree (existing : Option InstanceLockRecord) (self : Self) : Call Bool :=
  match existing with
  | some (.held pid _ bootId _) =>
    if pid = self.pid then return true
    else do
      let alive ← isProcessAlive i pid
      return !alive || rebooted bootId self.bootId
  | _ => return true

/-- Create the generation after `top` and verify it; `none` calls for another round. -/
def takeOver (record : InstanceLockRecord) (top : ℕ) : Call (Option ℕ) := do
  if !(← createGeneration i (top + 1) record) then return none
  else if (← highestGeneration i) > top + 1 then
    removeQuietly i (generationPath (top + 1))
    return none
  else
    removeGenerationsBelow i (top + 1)
    return some (top + 1)

def round (self : Self) (record : InstanceLockRecord) : Call (Option ℕ) := do
  let top ← highestGeneration i
  if top > 0 then
    match ← readOrUndefined i (generationPath top) with
    | none => return none
    | some text =>
      if ← isFree i (parseLockRecord text) self then takeOver i record top
      else .raise (.lock .instanceAlreadyRunning)
  else takeOver i record top

def MAX_ROUNDS : ℕ := 8

def rounds (self : Self) (record : InstanceLockRecord) : ℕ → Call ℕ
  | 0 => .raise (.lock .instanceAlreadyRunning)
  | more + 1 => do
    match ← round i self record with
    | some mine => return mine
    | none => rounds self record more

def acquireInstanceLock (self : Self) (record : InstanceLockRecord) : Call ℕ := do
  orUnavailable (mkdir i)
  rounds i self record MAX_ROUNDS

/-- The first call of `release`, which later ones do not repeat. Whatever it throws is dropped. -/
def release (record : InstanceLockRecord) (generation : ℕ) : Call Unit := do
  let _ ← Program.attempt do
    if (← highestGeneration i) ≠ generation then return ()
    else
      match ← readOrUndefined i (generationPath generation) with
      | none => return ()
      | some current =>
        if (parseLockRecord current).map (·.token) ≠ some record.token then return ()
        else
          let releasedAt ← now i
          let marker := .released record.pid releasedAt record.token
          if !(← createGeneration i (generation + 1) marker) then return ()
          else removeGenerationsBelow i (generation + 1)

/-! ## Processes -/

/-- A process starts: it reads its boot id, if it can, and draws its token. -/
def start : Call (Self × InstanceLockRecord) :=
  .perform fun host input =>
    match input with
    | .started pid bootKnown startedAt token =>
      if i ∉ host.processes ∧ isProcessId pid = true ∧
          (∀ entry ∈ host.processes.entries, entry.2.pid ≠ pid) ∧ token ∉ host.tokens then
        let boot := if bootKnown then some (bootId host.boot) else none
        some (.ok (⟨pid, boot⟩, .held pid startedAt boot token), { host with
          processes := host.processes.insert i ⟨pid, boot, token, none, none⟩
          tokens := token :: host.tokens })
      else none
    | _ => none

/-- The lock that was acquired is held. -/
def Process.afterAcquire (result : Except Fault ℕ) (process : Process) : Process :=
  { process with outcome := some result, lock := result.toOption }

/-- How `acquireInstanceLock` ended. -/
def ended (result : Except Fault ℕ) : Call Unit :=
  .perform fun host input =>
    match host.processes.lookup i, input with
    | some process, .fine => some (.ok (), { host with
        processes := host.processes.insert i (process.afterAcquire result) })
    | _, _ => none

/-- The process goes on until it calls `release`, if it ever does. -/
def running : Call Unit :=
  .perform fun host input =>
    if i ∈ host.processes ∧ input = .fine then some (.ok (), host) else none

/-- A process is gone. -/
def crash (process : ℕ) : Call Unit :=
  .perform fun host _ => some (.ok (), { host with processes := host.processes.erase process })

inductive Activity where
  | starter
  | crash (process : ℕ)
  deriving DecidableEq

def main (activity : Activity) : Call Unit :=
  match activity with
  | .starter => do
    let (self, record) ← start bootId i
    let result ← (acquireInstanceLock i self record).attempt
    ended i result
    match result with
    | .ok generation => do
      running i
      release i record generation
    | .error _ => return ()
  | .crash process => crash process

/-- A reboot ends every process and goes on to another boot. -/
def reboot (host : Host) : Host := { host with processes := ∅, boot := host.boot + 1 }

end QuokyPlatform.InstanceLock
