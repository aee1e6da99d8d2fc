import QuokyPlatform.CodeWork.CommitCandidates

/-!
# Commits through git

The commit of the git adapter as the commands it runs one after another. Git is a parameter: for each
command it says whether the command takes effect and what it reports. A path names one file; git's
pathspec patterns are left out.
-/

namespace QuokyPlatform.CodeWork
open Chunking
set_option autoImplicit false
set_option maxHeartbeats 250000

abbrev Path := JsString

/-! ## Repositories and commands -/

section Repositories

variable (Content : Type)

abbrev Tree := Path → Option Content

structure Commit where
  message : JsString
  tree : Tree Content

/-- The commits of HEAD, newest first, the index and the working tree. -/
structure Repository where
  commits : List (Commit Content)
  index : Tree Content
  workTree : Tree Content

variable {Content}

namespace Repository

/-- The tree of HEAD, empty before the first commit. -/
def headTree (repository : Repository Content) : Tree Content :=
  match repository.commits with
  | [] => fun _ => none
  | commit :: _ => commit.tree

def Staged (repository : Repository Content) (path : Path) : Prop :=
  repository.index path ≠ repository.headTree path

end Repository

/-- `tree` with the entries of `paths` taken from `source`. -/
def Tree.update (tree source : Tree Content) (paths : List Path) : Tree Content :=
  fun path => if path ∈ paths then source path else tree path

/-- The git commands of a commit, by what follows `git --no-pager`. -/
inductive GitCommand
  | lsFiles (paths : List Path)
  | add (paths : List Path)
  | commitOnly (message : JsString) (paths : List Path)
  | rmCached (paths : List Path)
  | revParseHead

/-- What a command does when it takes effect. -/
def GitCommand.effect : GitCommand → Repository Content → Repository Content
  | .lsFiles _, repository => repository
  | .add paths, repository =>
    { repository with index := repository.index.update repository.workTree paths }
  | .commitOnly message paths, repository =>
    { repository with
      commits := { message, tree := repository.headTree.update repository.workTree paths } ::
        repository.commits
      index := repository.index.update repository.workTree paths }
  | .rmCached paths, repository =>
    { repository with index := repository.index.update (fun _ => none) paths }
  | .revParseHead, repository => repository

structure GitRunResult where
  code : Option ℤ
  stdout : JsString
  stderr : JsString
  timedOut : Bool
  failed : Bool

structure GitReaction where
  takesEffect : Bool
  result : GitRunResult

variable (Content) in
/-- How git reacts to a command in a repository. -/
abbrev Git := GitCommand → Repository Content → GitReaction

end Repositories

/-! ## The adapter -/

/-- A thrown error, by its message. -/
structure GitError where
  message : JsString

structure GitCommitResult where
  commitHash : JsString
  committedFiles : List Path
  message : JsString

def GIT_TIMEOUT_MS : ℕ := 5000

def assertSafeCommitPath (raw : Path) : Except GitError Path :=
  let p := trim raw
  if p.length = 0 then .error ⟨units "git commit rejects an empty file path"⟩
  else if isAbsolutePath p then
    .error ⟨units "git commit rejects an absolute file path: " ++ p⟩
  else if units ".." ∈ p.splitOnP isSeparator then
    .error ⟨units "git commit rejects a traversal file path: " ++ p⟩
  else .ok p

def assertSafeCommitPaths (files : List Path) : Except GitError (List Path) :=
  if files.length = 0 then .error ⟨units "git commit requires at least one file"⟩
  else return (← files.mapM assertSafeCommitPath).eraseDups

/-- `/[*?[\\]/.test(p) || p.startsWith(':')` -/
def hasPathspecMagic (p : Path) : Bool :=
  p.any (fun unit => unit == 0x2A || unit == 0x3F || unit == 0x5B || unit == 0x5C) ||
    p.head? == some 0x3A

def checkNewFile (safeFiles : List Path) (p : Path) : Except GitError Unit :=
  if p ∉ safeFiles then
    .error ⟨units "git commit rejects a new file that is not in the commit set: " ++ p⟩
  else if hasPathspecMagic p then
    .error ⟨units "git commit rejects a new file path with pathspec magic: " ++ p⟩
  else .ok ()

def assertSafeNewFiles (newFiles safeFiles : List Path) : Except GitError (List Path) := do
  let safe ← assertSafeCommitPaths newFiles
  safe.forM (checkNewFile safeFiles)
  return safe

section Adapter

variable {Content : Type} (git : Git Content) (sanitizeGitStderr : JsString → JsString)

def exec (command : GitCommand) (repository : Repository Content) :
    GitRunResult × Repository Content :=
  let reaction := git command repository
  (reaction.result,
    if reaction.takesEffect then command.effect repository else repository)

/-- Every command of a commit has the time-out of local commands. -/
def failure (label : String) (result : GitRunResult) : GitError :=
  if result.timedOut then ⟨units s!"git {label} timed out after {GIT_TIMEOUT_MS}ms"⟩
  else if result.failed then ⟨units s!"git {label} could not run (is git installed?)"⟩
  else
    let code := match result.code with
      | none => "null"
      | some code => toString code
    ⟨units s!"git {label} failed (exit {code}): " ++ sanitizeGitStderr result.stderr⟩

/-- The approved new files, once they are checked. -/
def checkNewFiles (newFiles safeFiles : List Path) : Except GitError (List Path) :=
  if newFiles.length > 0 then assertSafeNewFiles newFiles safeFiles else .ok []

/-- The paths of a commit and the approved new files among them. -/
def checkPaths (files newFiles : List Path) : Except GitError (List Path × List Path) := do
  let safeFiles ← assertSafeCommitPaths files
  let safeNew ← checkNewFiles newFiles safeFiles
  return (safeFiles, safeNew)

/-- The new files go to the index, unless one of them is tracked. -/
def stageNewFiles (newFiles : List Path) (repository : Repository Content) :
    Except GitError Unit × Repository Content :=
  let (tracked, repository) := exec git (.lsFiles newFiles) repository
  if tracked.code ≠ some 0 then (.error (failure sanitizeGitStderr "ls-files" tracked), repository)
  else if (trim tracked.stdout).length > 0 then
    (.error ⟨units "git commit rejects a new file that is already tracked"⟩, repository)
  else
    let (addRes, repository) := exec git (.add newFiles) repository
    if addRes.code ≠ some 0 then (.error (failure sanitizeGitStderr "add" addRes), repository)
    else (.ok (), repository)

/-- Best-effort compensation after a failed new-file commit. -/
def unstageNewFiles (newFiles : List Path) (repository : Repository Content) : Repository Content :=
  (exec git (.rmCached newFiles) repository).2

def commitStaged (safeFiles newFiles : List Path) (message : JsString)
    (repository : Repository Content) : Except GitError GitCommitResult × Repository Content :=
  let (commitRes, repository) := exec git (.commitOnly message safeFiles) repository
  if commitRes.code ≠ some 0 then
    (.error (failure sanitizeGitStderr "commit" commitRes),
      if newFiles.length > 0 then unstageNewFiles git newFiles repository else repository)
  else
    let (headRes, repository) := exec git .revParseHead repository
    if headRes.code ≠ some 0 then (.error (failure sanitizeGitStderr "commit" headRes), repository)
    else
      (.ok { commitHash := trim headRes.stdout, committedFiles := safeFiles, message }, repository)

/-- `commitFiles`; no `newFiles` option is the empty list. -/
def commitFiles (files : List Path) (message : JsString) (newFiles : List Path)
    (repository : Repository Content) : Except GitError GitCommitResult × Repository Content :=
  match checkPaths files newFiles with
  | .error error => (.error error, repository)
  | .ok (safeFiles, newFiles) =>
    if newFiles.length > 0 then
      match stageNewFiles git sanitizeGitStderr newFiles repository with
      | (.error error, repository) => (.error error, repository)
      | (.ok (), repository) =>
        commitStaged git sanitizeGitStderr safeFiles newFiles message repository
    else commitStaged git sanitizeGitStderr safeFiles newFiles message repository

end Adapter

end QuokyPlatform.CodeWork
