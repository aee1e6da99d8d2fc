import Mathlib.Data.Finset.Card
import QuokyPlatform.Chunking.TokenEstimate

/-!
# Commit candidates

At commit time the approved candidates are checked against a fresh `git status`. Every check reads the
paths in their normal form, while git acts on the paths it reported.
-/

namespace QuokyPlatform.CodeWork
open Chunking
set_option autoImplicit false
set_option maxHeartbeats 250000

/-! ## Paths -/

def slash : CodeUnit := 0x2F

def isSeparator (unit : CodeUnit) : Bool := unit == slash || unit == 0x5C

def isLetter (unit : CodeUnit) : Bool :=
  (0x41 ≤ unit && unit ≤ 0x5A) || (0x61 ≤ unit && unit ≤ 0x7A)

/-- `/^([a-zA-Z]:[\\/]|[\\/])/` -/
def isAbsolutePath : JsString → Bool
  | [] => false
  | first :: rest =>
    isSeparator first || isLetter first && match rest with
      | colon :: second :: _ => colon == 0x3A && isSeparator second
      | _ => false

/-- `path.replace(/^\.\//, '')` -/
def dropDotSlash : JsString → JsString
  | 0x2E :: 0x2F :: rest => rest
  | path => path

/-- `path.replace(/\/+/g, '/')` -/
def collapseSlashes : JsString → JsString
  | [] => []
  | [unit] => [unit]
  | first :: second :: rest =>
    if first = slash ∧ second = slash then collapseSlashes (second :: rest)
    else first :: collapseSlashes (second :: rest)

/-- `path.replace(/\/$/, '')` -/
def dropTrailingSlash (path : JsString) : JsString :=
  if path.getLast? = some slash then path.dropLast else path

def normalizeRelativePath (path : JsString) : JsString :=
  dropTrailingSlash (collapseSlashes (dropDotSlash path))

def normalizedSet (paths : Option (List JsString)) : List JsString :=
  (paths.getD []).map normalizeRelativePath

/-- A path as a safe project-relative one, unless it is absolute, empty or goes up. -/
def safeStatusPath (raw : JsString) : Option JsString :=
  let trimmed := trim raw
  if trimmed.length = 0 then none
  else if isAbsolutePath trimmed then none
  else
    let normalized := normalizeRelativePath trimmed
    if normalized.length = 0 then none
    else if units ".." ∈ normalized.splitOn slash then none
    else some normalized

/-! ## The partition -/

structure ChangeSetScope where
  targetFiles : List JsString
  newFileTargets : Option (List JsString)

structure GitStatus where
  staged : List JsString
  unstaged : List JsString
  untracked : List JsString

namespace GitStatus

/-- Every path the status reports. -/
def changed (status : GitStatus) : List JsString :=
  status.staged ++ status.unstaged ++ status.untracked

end GitStatus

structure PartitionInput where
  candidates : List JsString
  scope : ChangeSetScope
  status : GitStatus

inductive PartitionRefusal where
  | unsafeCandidate
  | candidateOutOfScope
  | unsafeChangedPath
  | untrackedUnsupported
  | scopeDrift
  deriving DecidableEq, Repr

inductive CommitCandidatePartition where
  | ok (files newFiles : List JsString)
  | refused (reason : PartitionRefusal)
  deriving DecidableEq, Repr

/-- The candidates that are only untracked; `none` when one of them is no approved new file. -/
def newFilesOf (trackedChanged untrackedSet allowedNew : List JsString) :
    List JsString → Option (List JsString)
  | [] => some []
  | c :: rest =>
    if c ∈ trackedChanged ∨ c ∉ untrackedSet then
      newFilesOf trackedChanged untrackedSet allowedNew rest
    else if c ∉ allowedNew then none
    else (newFilesOf trackedChanged untrackedSet allowedNew rest).map (c :: ·)

def partitionCommitCandidates (input : PartitionInput) : CommitCandidatePartition :=
  match input.candidates.mapM safeStatusPath with
  | none => .refused .unsafeCandidate
  | some raw =>
    let candidates := raw.eraseDups
    let scope := normalizedSet (some input.scope.targetFiles)
    if ∃ c ∈ candidates, c ∉ scope then .refused .candidateOutOfScope
    else
      match input.status.staged.mapM safeStatusPath, input.status.unstaged.mapM safeStatusPath,
          input.status.untracked.mapM safeStatusPath with
      | some staged, some unstaged, some untracked =>
        let trackedChanged := staged ++ unstaged
        let allowedNew := normalizedSet input.scope.newFileTargets
        match newFilesOf trackedChanged untracked allowedNew candidates with
        | none => .refused .untrackedUnsupported
        | some newFiles =>
          let committable := trackedChanged ++ newFiles
          let missing := candidates.filter fun c => c ∉ committable
          let extraInScope := (trackedChanged ++ untracked).filter fun c => c ∈ scope ∧ c ∉ candidates
          let outOfScope := (trackedChanged ++ untracked).filter fun c => c ∉ scope
          let stagedOutside := staged.filter fun c => c ∉ candidates
          if missing ≠ [] ∨ extraInScope ≠ [] ∨ outOfScope ≠ [] ∨ stagedOutside ≠ [] then
            .refused .scopeDrift
          else .ok candidates newFiles
      | _, _, _ => .refused .unsafeChangedPath

end QuokyPlatform.CodeWork
