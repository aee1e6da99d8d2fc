import QuokyPlatform.Foundations.Regex
import QuokyPlatform.WorkspaceWrites.Calls

/-!
# Applying a change set

The writer checks and computes every file first, then stages each result in a temp file of its own,
then promotes the staged files one by one. On the first failure it restores what it promoted and
removes what it made. What it makes is noted as it makes it.
-/

namespace QuokyPlatform.WorkspaceWrites
set_option autoImplicit false
set_option maxHeartbeats 250000

def MAX_CHANGE_SET_OPS : ℕ := 5
def MAX_CHANGE_SET_FILE_BYTES : ℕ := 64 * 1024
def MAX_CHANGE_SET_TOTAL_BYTES : ℕ := 256 * 1024
def CHANGE_SET_TMP_INFIX : String := ".quoky-tmp-"

inductive PatchOperationKind where
  | add
  | update
  | delete
  deriving DecidableEq, Repr

structure PatchOperation where
  path : String
  operation : PatchOperationKind
  diff : String
  binary : Bool

/-- The workspace, by its root path as `path.resolve` gives it. -/
structure WorkspaceRef where
  rootPath : Path
  resolved : ".." ∉ rootPath

/-- What the writer takes from its packages and its host. -/
structure Host where
  /-- `none` when the diff is malformed, `some none` when it does not apply. -/
  applyPatch : String → String → Option (Option String)
  sha256 : Bytes → String
  encode : String → Bytes
  decode : Bytes → String
  /-- The random part of the temp names, in the order they are drawn. -/
  randomName : ℕ → String
  /-- The mode of a new file. -/
  fileMode : ℕ
  errnoMessage : Errno → String

/-! ## Names -/

/-- Equal under the `i` flag. -/
def sameLetter (c d : Char) : Bool := c.toLower == d.toLower

def letter (c : Char) : Regex Char := .char (sameLetter c)

def anyOf (words : List String) : Regex Char := Regex.words letter (words.map String.toList)

def CREDENTIAL_FILE_NAME : Regex Char :=
  .alt
    (.seq (anyOf ["service"]) (.seq (Regex.optional (anyOf ["-", "_"])) (.seq (anyOf ["account"])
      (.seq (.repeated (.char fun c => c ∉ ['\n', '\r', '\u2028', '\u2029']) 0 none)
        (.seq (anyOf [".json"]) Regex.atEnd)))))
  (.alt (.seq (anyOf ["."]) (.seq (anyOf ["pem", "p12", "pfx", "jks"]) Regex.atEnd))
  (.alt (.seq Regex.atStart (.seq (anyOf ["id_"]) (anyOf ["rsa", "dsa", "ecdsa", "ed25519"])))
    (.seq Regex.atStart (.seq (anyOf ["."])
      (.seq (anyOf ["npmrc", "pypirc", "netrc"]) Regex.atEnd)))))

def isSecretLookingFileName (name : String) : Bool :=
  (Regex.seq (anyOf [".env"]) (.alt (anyOf ["."]) Regex.atEnd)).test sameLetter name.toList ||
  (anyOf ["secret", "token", "key", "credential", "password"]).test sameLetter name.toList ||
  CREDENTIAL_FILE_NAME.test sameLetter name.toList

def isAbsolute (path : String) : Bool := path.toList.head? = some '/'

/-- The parts of a path between its separators. -/
def pathParts (path : String) : List String := (path.toList.splitOn '/').map String.ofList

def resolvePart (path : Path) (part : String) : Path :=
  if part = "" ∨ part = "." then path
  else if part = ".." then path.dropLast
  else path ++ [part]

/-- `path.resolve(root, relPath)`, for a relative path. -/
def resolve (root : Path) (relPath : String) : Path := (pathParts relPath).foldl resolvePart root

/-- `path.basename`: the last part that is not empty. -/
def basename (path : String) : String := ((pathParts path).filter (· ≠ "")).getLast?.getD ""

/-- `path.startsWith(root + sep)`; the root directory itself has no such paths. -/
def isBelow (root path : Path) : Bool :=
  root ≠ [] && root.isPrefixOf path && root.length < path.length

/-- `dirname` -/
def dirname (path : Path) : Path := path.dropLast

/-- The last component with this text behind it. -/
def extended (path : Path) (text : String) : Path :=
  path.dropLast ++ [path.getLast?.getD "" ++ text]

/-! ## Checks and temp files -/

section
variable (host : Host) (fault : Fault)

def FsError.message : FsError → String
  | .errno code => host.errnoMessage code
  | .refused message => message

/-- A NUL byte in the first 8 KB. -/
def looksBinary (buf : Bytes) : Bool := (buf.take 8000).any (· = 0)

def sameIdentity (st : Option Entry) (id : Option ℕ) : Bool :=
  match st, id with
  | some st, some id => st.id = id
  | _, _ => false

def changeSetTempPath (abs : Path) : Fs Path := do
  let w ← Fs.get
  Fs.update fun w => { w with drawn := w.drawn + 1 }
  return extended abs (CHANGE_SET_TMP_INFIX ++ host.randomName w.drawn)

def noteTemp (tmp : Path) (id : Option ℕ) : Fs Unit :=
  Fs.update fun w => { w with tmpFiles := w.tmpFiles.set tmp id }

def forgetTemp (tmp : Path) : Fs Unit :=
  Fs.update fun w => { w with tmpFiles := w.tmpFiles.delete tmp }

def identityOrUndefined (abs : Path) : Fs (Option ℕ) := do
  match ← Fs.attempt (lstatOrNull fault abs) with
  | .ok (some st) => return if st.isFile then some st.id else none
  | _ => return none

def writeExclusiveTemp (abs : Path) (data : Bytes) : Fs Path := do
  let tmp ← changeSetTempPath host abs
  match ← Fs.attempt (writeFileSync fault tmp host.fileMode data) with
  | .error e =>
    if e ≠ .errno .EEXIST then
      noteTemp tmp (← identityOrUndefined fault tmp)
    Fs.raise e
  | .ok _ =>
    let st ← lstatSync fault tmp
    if !st.isFile then Fs.refuse s!"temp file is not a regular file"
    noteTemp tmp (some st.id)
    return tmp

/-- Unlink a path only if it is still the very file this apply created; `false` when it is not. -/
def unlinkOwned (abs : Path) (id : Option ℕ) : Fs Bool := do
  match ← lstatOrNull fault abs with
  | none => return true
  | some st =>
    if !st.isFile || !sameIdentity st id then return false
    unlinkSync fault abs
    return true

/-- Each of the components, below the path so far, is a directory and no symbolic link. -/
def assertDirectories (relPath : String) : Path → List String → Fs Unit
  | _, [] => return ()
  | path, component :: components => do
    let dir := path ++ [component]
    match ← lstatOrNull fault dir with
    | none => Fs.refuse s!"parent directory is missing: {relPath}"
    | some st =>
      if st.isSymbolicLink then
        Fs.refuse s!"refusing to write through a symlinked directory: {relPath}"
      if !st.isDirectory then Fs.refuse s!"parent is not a directory: {relPath}"
      assertDirectories relPath dir components

def assertInside (realRoot path : Path) (relPath : String) : Fs Unit := do
  if path ≠ realRoot ∧ !isBelow realRoot path then
    Fs.refuse s!"path escapes the workspace root via symlink: {relPath}"

def assertWriteContained (rootAbs realRoot abs : Path) (relPath : String) : Fs Unit := do
  if (← realpathSync fault rootAbs) ≠ realRoot then
    Fs.refuse s!"workspace root changed since it was checked: {relPath}"
  if !isBelow rootAbs abs then Fs.refuse s!"path escapes the workspace root: {relPath}"
  assertDirectories fault relPath rootAbs (abs.drop rootAbs.length).dropLast
  assertInside realRoot (← realpathSync fault (dirname abs)) relPath

/-- The nearest ancestor that exists, and the missing directories below it, shallowest first. -/
def missingAncestors (rootAbs : Path) : ℕ → Path → List Path → Fs (Path × List Path)
  | 0, ancestor, missingDirs => return (ancestor, missingDirs)
  | fuel + 1, ancestor, missingDirs => do
    if ancestor = rootAbs then return (ancestor, missingDirs)
    match ← lstatOrNull fault ancestor with
    | some _ => return (ancestor, missingDirs)
    | none => missingAncestors rootAbs fuel (dirname ancestor) (ancestor :: missingDirs)

def resolveWithinForWrite (rootAbs : Path) (relPath : String) : Fs (Path × List Path) := do
  if isAbsolute relPath then Fs.refuse s!"absolute paths are not allowed: {relPath}"
  let abs := resolve rootAbs relPath
  if !isBelow rootAbs abs then Fs.refuse s!"path escapes the workspace root: {relPath}"
  let realRoot ← realpathSync fault rootAbs
  let (ancestor, missingDirs) ← missingAncestors fault rootAbs abs.length (dirname abs) []
  let realAncestor ← realpathSync fault ancestor
  assertInside realRoot realAncestor relPath
  if !(← statSync fault ancestor).isDirectory then
    Fs.refuse s!"parent is not a directory: {relPath}"
  assertWriteContained fault rootAbs realRoot (missingDirs.head?.getD abs) relPath
  return (abs, missingDirs)

/-! ## Phase 1 -/

/-- What an update replaces. -/
structure PreImage where
  buf : Bytes
  sha256 : String
  mode : ℕ

/-- One operation after phase 1: checked, resolved and computed. -/
structure PlannedChange where
  op : PatchOperation
  abs : Path
  next : String
  pre : Option PreImage
  missingDirs : List Path

/-- `applyPatch`; a malformed diff is one that does not apply. -/
def applyPatchOrFalse (source diff : String) : Option String := (host.applyPatch source diff).join

def checkResult (op : PatchOperation) (next : Option String) : Fs String := do
  match next with
  | none => Fs.refuse s!"unified diff did not apply cleanly: {op.path}"
  | some next =>
    let nextBuf := host.encode next
    if nextBuf.length > MAX_CHANGE_SET_FILE_BYTES then
      Fs.refuse s!"result too large ({nextBuf.length} > {MAX_CHANGE_SET_FILE_BYTES} bytes): {op.path}"
    if looksBinary nextBuf then Fs.refuse s!"result is binary, not text: {op.path}"
    return next

def planUpdate (op : PatchOperation) (abs : Path) (st : Option Entry) : Fs PlannedChange := do
  match st with
  | none => Fs.refuse s!"file does not exist (update): {op.path}"
  | some st =>
    if !st.isFile then Fs.refuse s!"not a regular file: {op.path}"
    if st.size > MAX_CHANGE_SET_FILE_BYTES then
      Fs.refuse s!"file too large ({st.size} > {MAX_CHANGE_SET_FILE_BYTES} bytes): {op.path}"
    let buf ← readFileSync fault abs
    if looksBinary buf then Fs.refuse s!"binary file cannot be updated as text: {op.path}"
    let next ← checkResult host op (applyPatchOrFalse host (host.decode buf) op.diff)
    return ⟨op, abs, next, some ⟨buf, host.sha256 buf, st.mode⟩, []⟩

def planAdd (op : PatchOperation) (abs : Path) (missingDirs : List Path) (st : Option Entry) :
    Fs PlannedChange := do
  if st.isSome then Fs.refuse s!"path already exists (add never overwrites): {op.path}"
  let next ← checkResult host op (applyPatchOrFalse host "" op.diff)
  return ⟨op, abs, next, none, missingDirs⟩

def planChange (ref : WorkspaceRef) (op : PatchOperation) : Fs PlannedChange := do
  if op.operation = .delete then Fs.refuse "delete is not allowed in a change set"
  if op.binary then Fs.refuse "binary changes are not allowed in a change set"
  if isSecretLookingFileName (basename op.path) then
    Fs.refuse s!"refusing to write a secret-looking file: {op.path}"
  let (abs, missingDirs) ← resolveWithinForWrite fault ref.rootPath op.path
  let st ← lstatOrNull fault abs
  if op.operation = .update then planUpdate host fault op abs st
  else planAdd host op abs missingDirs st

/-- The checks of one planned change against those before it. -/
def checkAgainst (planned : List PlannedChange) (totalBytes : ℕ) (change : PlannedChange) :
    Fs ℕ := do
  if planned.any (fun p => p.abs = change.abs) then
    Fs.refuse s!"duplicate path in a change set: {change.op.path}"
  match planned.find? fun p => change.abs ∈ p.missingDirs || p.abs ∈ change.missingDirs with
  | some nested =>
    Fs.refuse s!"conflicting paths in a change set: {nested.op.path} and {change.op.path}"
  | none =>
    let totalBytes := totalBytes + (host.encode change.next).length
    if totalBytes > MAX_CHANGE_SET_TOTAL_BYTES then
      Fs.refuse s!"change set too large (> {MAX_CHANGE_SET_TOTAL_BYTES} bytes in total)"
    return totalBytes

/-- Every operation planned, or the index of the one that was refused. -/
def planAll (ref : WorkspaceRef) : List PatchOperation → List PlannedChange → ℕ →
    Fs (Except (ℕ × FsError) (List PlannedChange))
  | [], planned, _ => return .ok planned
  | op :: ops, planned, totalBytes => do
    let step ← Fs.attempt do
      let change ← planChange host fault ref op
      return (change, ← checkAgainst host planned totalBytes change)
    match step with
    | .error e => return .error (planned.length, e)
    | .ok (change, totalBytes) => planAll ref ops (planned ++ [change]) totalBytes

/-! ## Phase 2 -/

/-- An update's target is still a regular file, an add's target is still absent. -/
def assertTargetState (p : PlannedChange) : Fs Unit := do
  let st ← lstatOrNull fault p.abs
  if p.pre.isSome then
    if !st.any Entry.isFile then Fs.refuse s!"not a regular file: {p.op.path}"
  else if st.isSome then Fs.refuse s!"path already exists (add never overwrites): {p.op.path}"

/-- A missing directory, unless an earlier operation of the set made it. -/
def makeDirectory (rootAbs realRoot : Path) (p : PlannedChange) (dir : Path) : Fs Unit := do
  if (← Fs.get).createdDirs.any (fun d => d.dir = dir) then return ()
  assertWriteContained fault rootAbs realRoot dir p.op.path
  mkdirSync fault dir
  let st ← lstatSync fault dir
  if !st.isDirectory then Fs.refuse s!"created path is not a directory: {p.op.path}"
  Fs.update fun w => { w with createdDirs := w.createdDirs ++ [⟨dir, st.id, p.op.path⟩] }
  assertWriteContained fault rootAbs realRoot dir p.op.path

def makeDirectories (rootAbs realRoot : Path) (p : PlannedChange) : List Path → Fs Unit
  | [] => return ()
  | dir :: dirs => do
    makeDirectory fault rootAbs realRoot p dir
    makeDirectories rootAbs realRoot p dirs

def stageChange (rootAbs realRoot : Path) (index : ℕ) (p : PlannedChange) : Fs Unit := do
  Fs.update fun w => { w with current := index }
  makeDirectories fault rootAbs realRoot p p.missingDirs
  assertWriteContained fault rootAbs realRoot p.abs p.op.path
  assertTargetState fault p
  let tmp ← writeExclusiveTemp host fault p.abs (host.encode p.next)
  Fs.update fun w => { w with staged := w.staged.set index (tmp, (w.tmpFiles.get tmp).join) }
  assertWriteContained fault rootAbs realRoot p.abs p.op.path
  match p.pre with
  | some pre => chmodSync fault tmp pre.mode
  | none => return ()

def stageAll (rootAbs realRoot : Path) : ℕ → List PlannedChange → Fs Unit
  | _, [] => return ()
  | index, p :: planned => do
    stageChange host fault rootAbs realRoot index p
    stageAll rootAbs realRoot (index + 1) planned

/-- The temp file of a staged operation and its identity. -/
def stagedOf (index : ℕ) : Fs (Path × Option ℕ) := do
  return ((← Fs.get).staged.get index).getD ([], none)

def notePromoted (index : ℕ) : Fs Unit :=
  Fs.update fun w => { w with promoted := w.promoted ++ [index] }

def promoteUpdate (index : ℕ) (p : PlannedChange) (pre : PreImage) (tmp : Path) : Fs Unit := do
  if host.sha256 (← readFileSync fault p.abs) ≠ pre.sha256 then
    Fs.refuse s!"file changed since it was checked: {p.op.path}"
  renameSync fault tmp p.abs
  forgetTemp tmp
  notePromoted index

def promoteAdd (index : ℕ) (p : PlannedChange) (tmp : Path) (id : Option ℕ) : Fs Unit := do
  match ← Fs.attempt (linkSync fault tmp p.abs) with
  | .error (.errno .EEXIST) =>
    Fs.refuse s!"path already exists (add never overwrites): {p.op.path}"
  | .error e => Fs.raise e
  | .ok _ => return ()
  notePromoted index
  let _ ← unlinkOwned fault tmp id
  forgetTemp tmp

def promoteChange (rootAbs realRoot : Path) (index : ℕ) (p : PlannedChange) : Fs Unit := do
  Fs.update fun w => { w with current := index }
  let (tmp, id) ← stagedOf index
  assertWriteContained fault rootAbs realRoot p.abs p.op.path
  assertTargetState fault p
  if !sameIdentity (← lstatOrNull fault tmp) id then
    Fs.refuse s!"staged file changed: {p.op.path}"
  match p.pre with
  | some pre => promoteUpdate host fault index p pre tmp
  | none => promoteAdd fault index p tmp id
  assertWriteContained fault rootAbs realRoot p.abs p.op.path
  if !sameIdentity (← lstatOrNull fault p.abs) id then
    Fs.refuse s!"promoted file changed: {p.op.path}"

def promoteAll (rootAbs realRoot : Path) : ℕ → List PlannedChange → Fs Unit
  | _, [] => return ()
  | index, p :: planned => do
    promoteChange host fault rootAbs realRoot index p
    promoteAll rootAbs realRoot (index + 1) planned

/-! ## Rollback -/

def restoreUpdate (rootAbs realRoot : Path) (p : PlannedChange) (pre : PreImage)
    (id : Option ℕ) : Fs Unit := do
  assertWriteContained fault rootAbs realRoot p.abs p.op.path
  if !sameIdentity (← lstatOrNull fault p.abs) id then
    Fs.refuse s!"file changed after it was written, not restored: {p.op.path}"
  let tmp ← writeExclusiveTemp host fault p.abs pre.buf
  chmodSync fault tmp pre.mode
  assertWriteContained fault rootAbs realRoot p.abs p.op.path
  renameSync fault tmp p.abs
  forgetTemp tmp

def restoreChange (rootAbs realRoot : Path) (index : ℕ) (p : PlannedChange) : Fs Unit := do
  let (_, id) ← stagedOf index
  match p.pre with
  | some pre => restoreUpdate host fault rootAbs realRoot p pre id
  | none =>
    if !(← unlinkOwned fault p.abs id) then
      Fs.refuse s!"file changed after it was created, not removed: {p.op.path}"

/-- The promoted operations restored, the last one first; the failures by index. -/
def restoreAll (rootAbs realRoot : Path) : List (PlannedChange × ℕ) → Fs (List (ℕ × FsError))
  | [] => return []
  | (p, index) :: planned => do
    if index ∉ (← Fs.get).promoted then restoreAll rootAbs realRoot planned
    else
      match ← Fs.attempt (restoreChange host fault rootAbs realRoot index p) with
      | .ok _ => restoreAll rootAbs realRoot planned
      | .error e => return (index, e) :: (← restoreAll rootAbs realRoot planned)

/-- The temp files that are left removed; the failures as they are reported. -/
def removeTemps : List (Path × Option ℕ) → Fs (List String)
  | [] => return []
  | (tmp, id) :: temps => do
    match ← Fs.attempt (unlinkOwned fault tmp id) with
    | .ok true => removeTemps temps
    | .ok false =>
      let name := tmp.getLast?.getD ""
      return s!"temp file changed, not removed: {name}" :: (← removeTemps temps)
    | .error (.errno .ENOENT) => removeTemps temps
    | .error e => return e.message host :: (← removeTemps temps)

/-- Remove a directory this apply made; the failure when it is not that one any more. -/
def removeDirectory (d : CreatedDir) : Fs (Option String) := do
  match ← lstatOrNull fault d.dir with
  | none => return none
  | some st =>
    if !st.isDirectory || !sameIdentity st (some d.id) then
      let name := d.dir.getLast?.getD ""
      return some s!"directory changed, not removed: {name}"
    rmdirSync fault d.dir
    return none

def removeDirectories : List CreatedDir → Fs (List String)
  | [] => return []
  | d :: dirs => do
    match ← Fs.attempt (removeDirectory fault d) with
    | .ok none => removeDirectories dirs
    | .ok (some failure) => return failure :: (← removeDirectories dirs)
    | .error e => return e.message host :: (← removeDirectories dirs)

/-! ## The outcome -/

inductive FileChangeStatus where
  | applied
  | failed
  | skipped
  | rolled_back
  deriving DecidableEq, Repr

structure FileChangeResult where
  path : String
  operation : PatchOperationKind
  status : FileChangeStatus
  message : String
  deriving DecidableEq, Repr

inductive ChangeSetOutcome where
  | applied
  | rolled_back
  | rollback_failed
  deriving DecidableEq, Repr

structure ChangeSetApplyResult where
  outcome : ChangeSetOutcome
  results : List FileChangeResult
  deriving DecidableEq, Repr

def result (op : PatchOperation) (status : FileChangeStatus) (message : String) :
    FileChangeResult :=
  ⟨op.path, op.operation, status, message⟩

/-- Nothing was planned. -/
def refuseAll (ops : List PatchOperation) (message : String) : ChangeSetApplyResult :=
  ⟨.rolled_back, ops.map fun op => result op .failed s!"change set refused: {message}"⟩

/-- One operation was refused in phase 1. -/
def refusePlan (ops : List PatchOperation) (index : ℕ) (e : FsError) : ChangeSetApplyResult :=
  let refused := (ops[index]?.map PatchOperation.path).getD ""
  ⟨.rolled_back, ops.zipIdx.map fun (op, i) =>
    if i = index then result op .failed (e.message host)
    else result op .skipped s!"not applied: change set refused ({refused} failed)"⟩

def appliedMessage (op : PatchOperation) : String :=
  if op.operation = .add then "created" else "updated"

/-- Both phases went through. -/
def allApplied (planned : List PlannedChange) : ChangeSetApplyResult :=
  ⟨.applied, planned.map fun p => result p.op .applied (appliedMessage p.op)⟩

/-- What is reported of one operation after a rollback. -/
def rolledBackResult (planned : List PlannedChange) (promoted : List ℕ) (failedIndex : ℕ)
    (failure : FsError) (restoreFailed : List (ℕ × FsError)) (cleanupErrors : List String)
    (p : PlannedChange) (index : ℕ) : FileChangeResult :=
  match restoreFailed.find? fun entry => entry.1 = index with
  | some (_, e) =>
    result p.op .applied s!"rollback failed, the change may have applied: {e.message host}"
  | none =>
    if index = failedIndex then
      let errors := String.intercalate "; " cleanupErrors
      let cleanupNote := if cleanupErrors = [] then "" else s!"; rollback cleanup failed: {errors}"
      result p.op .failed (failure.message host ++ cleanupNote)
    else if index ∈ promoted then
      result p.op .rolled_back (if p.op.operation = .add then "created, then removed (rolled back)"
        else "updated, then restored (rolled back)")
    else
      let failed := (planned[failedIndex]?.map fun q => q.op.path).getD ""
      result p.op .skipped s!"not applied: change set rolled back ({failed} failed)"

def rollback (rootAbs realRoot : Path) (planned : List PlannedChange) (failure : FsError) :
    Fs ChangeSetApplyResult := do
  let failedIndex := (← Fs.get).current
  let restoreFailed ← restoreAll host fault rootAbs realRoot planned.zipIdx.reverse
  let tempErrors ← removeTemps host fault (← Fs.get).tmpFiles.entries
  let dirErrors ← removeDirectories host fault (← Fs.get).createdDirs.reverse
  let promoted := (← Fs.get).promoted
  let cleanupErrors := tempErrors ++ dirErrors
  let outcome := if restoreFailed = [] ∧ cleanupErrors = [] then .rolled_back else .rollback_failed
  return ⟨outcome, planned.zipIdx.map fun (p, index) =>
    rolledBackResult host planned promoted failedIndex failure restoreFailed cleanupErrors p index⟩

/-- Both phases of writing; the root's real path is captured first. -/
def writePlanned (rootAbs : Path) (planned : List PlannedChange) : Fs ChangeSetApplyResult := do
  match ← Fs.attempt (realpathSync fault rootAbs) with
  | .error e => rollback host fault rootAbs [] planned e
  | .ok realRoot =>
    let written ← Fs.attempt do
      stageAll host fault rootAbs realRoot 0 planned
      promoteAll host fault rootAbs realRoot 0 planned
    match written with
    | .ok _ => return allApplied planned
    | .error e => rollback host fault rootAbs realRoot planned e

def applyChangeSet (ref : WorkspaceRef) (ops : List PatchOperation) : Fs ChangeSetApplyResult := do
  if ops.length = 0 then return refuseAll ops "empty change set"
  if ops.length > MAX_CHANGE_SET_OPS then
    return refuseAll ops s!"too many files ({ops.length} > {MAX_CHANGE_SET_OPS})"
  match ← planAll host fault ref ops [] 0 with
  | .error (index, e) => return refusePlan host ops index e
  | .ok planned => writePlanned host fault ref.rootPath planned

end

end QuokyPlatform.WorkspaceWrites
