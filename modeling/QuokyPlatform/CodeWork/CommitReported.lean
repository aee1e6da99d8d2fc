import QuokyPlatform.CodeWork.GitCommit

/-!
# What a reported commit says about the repository

A commit that returns has made one commit of the files. A commit that throws has changed nothing only
when no command that took effect was reported as failed: the adapter reads a failed report as a command
that did nothing.
-/

namespace QuokyPlatform.CodeWork
open Chunking
set_option autoImplicit false
set_option maxHeartbeats 250000

variable {Content : Type}

/-! ## Honest outcomes -/

/-- Git as documented: a command takes effect or not, and is only reported as successful when it did.
The compensating command takes effect. -/
structure GitBehaves (git : Git Content) : Prop where
  reported : ∀ command repository,
    (git command repository).result.code = some 0 → (git command repository).takesEffect = true
  listed : ∀ paths repository, (∀ path ∈ paths, ∃ unit ∈ path, ¬ isWhiteSpace unit) →
    (git (.lsFiles paths) repository).result.code = some 0 →
      ((trim (git (.lsFiles paths) repository).result.stdout).length > 0 ↔
        ∃ path ∈ paths, repository.index path ≠ none)
  compensates : ∀ paths repository, (git (.rmCached paths) repository).takesEffect = true

/-- HEAD is the same, and no path is staged that was not. -/
def Harmless (before after : Repository Content) : Prop :=
  after.commits = before.commits ∧ ∀ path, after.Staged path → before.Staged path

/-- HEAD has one new commit, which takes exactly the files from the working tree, and the index is the
same at every other path. -/
def CommitsFiles (files : List Path) (before after : Repository Content) : Prop :=
  (∃ commit, after.commits = commit :: before.commits ∧
    ∀ path, commit.tree path =
      if path ∈ files then before.workTree path else before.headTree path) ∧
  ∀ path, path ∉ files → after.index path = before.index path

/-- What a reported outcome promises. -/
def Honest (files : List Path) (before : Repository Content)
    (outcome : Except GitError GitCommitResult × Repository Content) : Prop :=
  match outcome.1 with
  | .ok _ => CommitsFiles files before outcome.2
  | .error _ => Harmless before outcome.2

/-! ## The condition -/

section Condition

variable (git : Git Content)

/-- The new files are about to be added. -/
def ReachesAdd (newFiles : List Path) (before : Repository Content) : Prop :=
  (git (.lsFiles newFiles) before).result.code = some 0 ∧ ∀ path ∈ newFiles, before.index path = none

/-- The repository the commit is made in. -/
def stagedFor (newFiles : List Path) (before : Repository Content) : Repository Content :=
  if newFiles.length > 0 then (GitCommand.add newFiles).effect before else before

def ReachesCommit (newFiles : List Path) (before : Repository Content) : Prop :=
  newFiles.length > 0 →
    ReachesAdd git newFiles before ∧ (git (.add newFiles) before).result.code = some 0

/-- An addition that is reported as failed stages no file that HEAD does not have. -/
def AddShown (newFiles : List Path) (before : Repository Content) : Prop :=
  newFiles.length > 0 → ReachesAdd git newFiles before →
    (git (.add newFiles) before).takesEffect = true →
      (git (.add newFiles) before).result.code = some 0 ∨
        ∀ path ∈ newFiles, before.headTree path = none → before.workTree path = none

/-- A commit that takes effect is reported as successful, and its hash is read. -/
def CommitShown (safeFiles newFiles : List Path) (message : JsString)
    (before : Repository Content) : Prop :=
  let staged := stagedFor newFiles before
  (git (.commitOnly message safeFiles) staged).takesEffect = true →
    (git (.commitOnly message safeFiles) staged).result.code = some 0 ∧
      (git .revParseHead ((GitCommand.commitOnly message safeFiles).effect staged)).result.code = some 0

/-- The trimmed names are the given ones, or nothing is changed where they differ. -/
def NamesKept (files safeFiles : List Path) (before : Repository Content) : Prop :=
  (∀ path ∈ files, path ∉ safeFiles → before.workTree path = before.headTree path) ∧
    ∀ path ∈ safeFiles, path ∉ files →
      before.workTree path = before.headTree path ∧ before.workTree path = before.index path

/-- No command that took effect is reported as failed, and the committed names are the given ones. -/
def NothingHidden (files : List Path) (message : JsString) (newFiles : List Path)
    (before : Repository Content) : Prop :=
  ∀ safeFiles safeNew, checkPaths files newFiles = .ok (safeFiles, safeNew) →
    AddShown git safeNew before ∧
      (ReachesCommit git safeNew before → CommitShown git safeFiles safeNew message before ∧
        ((git (.commitOnly message safeFiles) (stagedFor safeNew before)).takesEffect = true →
          NamesKept files safeFiles before))

end Condition

/-! ## Single commands -/

section Commands

variable {git : Git Content} {sanitize : JsString → JsString}

theorem harmless_refl (repository : Repository Content) : Harmless repository repository :=
  ⟨rfl, fun _ h => h⟩

theorem exec_eq (command : GitCommand) (repository : Repository Content) :
    exec git command repository = ((git command repository).result,
      if (git command repository).takesEffect then command.effect repository else repository) := rfl

theorem exec_listed (paths : List Path) (repository : Repository Content) :
    exec git (.lsFiles paths) repository =
      ((git (.lsFiles paths) repository).result, repository) := by
  rw [exec_eq]
  exact Prod.ext rfl (ite_self _)

theorem exec_revParse (repository : Repository Content) :
    exec git .revParseHead repository = ((git .revParseHead repository).result, repository) := by
  rw [exec_eq]
  exact Prod.ext rfl (ite_self _)

theorem exec_reported (hgit : GitBehaves git) {command : GitCommand} {repository : Repository Content}
    (h : (git command repository).result.code = some 0) :
    exec git command repository = ((git command repository).result, command.effect repository) := by
  rw [exec_eq, if_pos (hgit.reported command repository h)]

/-- The ways in which the new files come to the index. -/
theorem stageNewFiles_cases (hgit : GitBehaves git) (newFiles : List Path)
    (hnames : ∀ path ∈ newFiles, ∃ unit ∈ path, ¬ isWhiteSpace unit) (before : Repository Content) :
    (¬ ReachesAdd git newFiles before ∧
        ∃ error, stageNewFiles git sanitize newFiles before = (.error error, before)) ∨
      (ReachesAdd git newFiles before ∧ (git (.add newFiles) before).result.code ≠ some 0 ∧
        ∃ error, stageNewFiles git sanitize newFiles before =
          (.error error, (exec git (.add newFiles) before).2)) ∨
      (ReachesAdd git newFiles before ∧ (git (.add newFiles) before).result.code = some 0 ∧
        stageNewFiles git sanitize newFiles before =
          (.ok (), (GitCommand.add newFiles).effect before)) := by
  unfold stageNewFiles
  rw [exec_listed]
  simp only []
  by_cases hlisted : (git (.lsFiles newFiles) before).result.code = some 0
  · rw [if_neg (not_not.mpr hlisted)]
    by_cases htracked : (trim (git (.lsFiles newFiles) before).result.stdout).length > 0
    · rw [if_pos htracked]
      refine .inl ⟨?_, _, rfl⟩
      obtain ⟨path, hpath, hindex⟩ := (hgit.listed newFiles before hnames hlisted).mp htracked
      exact fun h => hindex (h.2 path hpath)
    · rw [if_neg htracked]
      have hreaches : ReachesAdd git newFiles before := by
        refine ⟨hlisted, fun path hpath => ?_⟩
        by_contra hindex
        exact htracked ((hgit.listed newFiles before hnames hlisted).mpr ⟨path, hpath, hindex⟩)
      have hcode : (exec git (.add newFiles) before).1 = (git (.add newFiles) before).result := rfl
      rw [hcode]
      by_cases hadd : (git (.add newFiles) before).result.code = some 0
      · rw [if_neg (not_not.mpr hadd), exec_reported hgit hadd]
        exact .inr (.inr ⟨hreaches, hadd, rfl⟩)
      · rw [if_pos hadd]
        exact .inr (.inl ⟨hreaches, hadd, _, rfl⟩)
  · rw [if_pos hlisted]
    exact .inl ⟨fun h => hlisted h.1, _, rfl⟩

/-- The ways in which the commit ends. -/
theorem commitStaged_cases (hgit : GitBehaves git) (safeFiles newFiles : List Path)
    (message : JsString) (staged : Repository Content) :
    ((git (.commitOnly message safeFiles) staged).result.code ≠ some 0 ∧
        ∃ error, commitStaged git sanitize safeFiles newFiles message staged =
          (.error error, if newFiles.length > 0 then (GitCommand.rmCached newFiles).effect
            (exec git (.commitOnly message safeFiles) staged).2
            else (exec git (.commitOnly message safeFiles) staged).2)) ∨
      ((git (.commitOnly message safeFiles) staged).result.code = some 0 ∧
        (git .revParseHead ((GitCommand.commitOnly message safeFiles).effect staged)).result.code ≠
          some 0 ∧
        ∃ error, commitStaged git sanitize safeFiles newFiles message staged =
          (.error error, (GitCommand.commitOnly message safeFiles).effect staged)) ∨
      ((git (.commitOnly message safeFiles) staged).result.code = some 0 ∧
        (git .revParseHead ((GitCommand.commitOnly message safeFiles).effect staged)).result.code =
          some 0 ∧
        ∃ result, commitStaged git sanitize safeFiles newFiles message staged =
          (.ok result, (GitCommand.commitOnly message safeFiles).effect staged)) := by
  unfold commitStaged
  by_cases hcommit : (git (.commitOnly message safeFiles) staged).result.code = some 0
  · rw [exec_reported hgit hcommit]
    simp only []
    rw [if_neg (not_not.mpr hcommit), exec_revParse]
    simp only []
    by_cases hhead : (git .revParseHead
        ((GitCommand.commitOnly message safeFiles).effect staged)).result.code = some 0
    · rw [if_neg (not_not.mpr hhead)]
      exact .inr (.inr ⟨hcommit, hhead, _, rfl⟩)
    · rw [if_pos hhead]
      exact .inr (.inl ⟨hcommit, hhead, _, rfl⟩)
  · refine .inl ⟨hcommit, failure sanitize "commit" (git (.commitOnly message safeFiles) staged).result,
      ?_⟩
    have hundo : ∀ repository, unstageNewFiles git newFiles repository =
        (GitCommand.rmCached newFiles).effect repository := by
      intro repository
      unfold unstageNewFiles
      rw [exec_eq, hgit.compensates]
      rfl
    rw [exec_eq]
    simp only []
    rw [if_pos hcommit, hundo]

end Commands

/-! ## Checked paths -/

theorem forM_ok {α : Type} {check : α → Except GitError Unit} {paths : List α}
    (h : paths.forM check = .ok ()) : ∀ path ∈ paths, check path = .ok () := by
  induction paths with
  | nil => exact fun _ hpath => absurd hpath List.not_mem_nil
  | cons path rest ih =>
    rw [List.forM_eq_forM, List.forM_cons] at h
    cases hpath : check path with
    | error error =>
      rw [hpath] at h
      cases h
    | ok done =>
      rw [hpath] at h
      exact List.forall_mem_cons.mpr ⟨hpath, ih h⟩

theorem assertSafeNewFiles_subset {newFiles safeFiles safeNew : List Path}
    (h : assertSafeNewFiles newFiles safeFiles = .ok safeNew) : ∀ path ∈ safeNew, path ∈ safeFiles := by
  unfold assertSafeNewFiles at h
  cases hnew : assertSafeCommitPaths newFiles with
  | error error =>
    rw [hnew] at h
    cases h
  | ok safe =>
    rw [hnew] at h
    change (safe.forM (checkNewFile safeFiles)) >>= _ = _ at h
    cases hcheck : safe.forM (checkNewFile safeFiles) with
    | error error =>
      rw [hcheck] at h
      cases h
    | ok done =>
      rw [hcheck] at h
      rw [← Except.ok.inj h]
      intro path hpath
      have hone := forM_ok hcheck path hpath
      unfold checkNewFile at hone
      by_contra hnot
      rw [if_pos hnot] at hone
      cases hone

theorem newFiles_subset {files newFiles safeFiles safeNew : List Path}
    (h : checkPaths files newFiles = .ok (safeFiles, safeNew)) : ∀ path ∈ safeNew, path ∈ safeFiles := by
  unfold checkPaths at h
  cases hfiles : assertSafeCommitPaths files with
  | error error =>
    rw [hfiles] at h
    cases h
  | ok safe =>
    rw [hfiles] at h
    change (checkNewFiles newFiles safe) >>= _ = _ at h
    cases hnew : checkNewFiles newFiles safe with
    | error error =>
      rw [hnew] at h
      cases h
    | ok found =>
      rw [hnew] at h
      have hpair := Prod.mk.inj (Except.ok.inj h)
      rw [← hpair.1, ← hpair.2]
      unfold checkNewFiles at hnew
      split at hnew
      · exact assertSafeNewFiles_subset hnew
      · rw [← Except.ok.inj hnew]
        exact fun _ hpath => absurd hpath List.not_mem_nil

theorem mapM_ok {α β : Type} {check : α → Except GitError β} {paths : List α} {checked : List β}
    (h : paths.mapM check = .ok checked) : ∀ b ∈ checked, ∃ a ∈ paths, check a = .ok b := by
  induction paths generalizing checked with
  | nil =>
    rw [List.mapM_nil] at h
    rw [← Except.ok.inj h]
    exact fun _ hb => absurd hb List.not_mem_nil
  | cons path rest ih =>
    rw [List.mapM_cons] at h
    cases hpath : check path with
    | error error =>
      rw [hpath] at h
      cases h
    | ok first =>
      rw [hpath] at h
      change (rest.mapM check) >>= _ = _ at h
      cases hrest : rest.mapM check with
      | error error =>
        rw [hrest] at h
        cases h
      | ok others =>
        rw [hrest] at h
        rw [← Except.ok.inj h]
        intro b hb
        rcases List.mem_cons.mp hb with rfl | hb
        · exact ⟨path, List.mem_cons_self, hpath⟩
        · obtain ⟨a, ha, hcheck⟩ := ih hrest b hb
          exact ⟨a, List.mem_cons_of_mem path ha, hcheck⟩

theorem assertSafeCommitPath_named {raw path : Path} (h : assertSafeCommitPath raw = .ok path) :
    ∃ unit ∈ path, ¬ isWhiteSpace unit := by
  unfold assertSafeCommitPath at h
  simp only [] at h
  by_cases hempty : (trim raw).length = 0
  · rw [if_pos hempty] at h
    cases h
  · have hne : (raw.dropWhile isWhiteSpace).rdropWhile isWhiteSpace ≠ [] := fun hnil =>
      hempty (congrArg List.length hnil)
    rw [if_neg hempty] at h
    split at h
    · cases h
    · split at h
      · cases h
      · rw [← Except.ok.inj h]
        exact ⟨_, List.getLast_mem hne, List.rdropWhile_last_not _ _ hne⟩

theorem assertSafeCommitPaths_named {files safeFiles : List Path}
    (h : assertSafeCommitPaths files = .ok safeFiles) :
    ∀ path ∈ safeFiles, ∃ unit ∈ path, ¬ isWhiteSpace unit := by
  unfold assertSafeCommitPaths at h
  split at h
  · cases h
  · cases hsafe : files.mapM assertSafeCommitPath with
    | error error =>
      rw [hsafe] at h
      cases h
    | ok safe =>
      rw [hsafe] at h
      rw [← Except.ok.inj h]
      intro path hpath
      obtain ⟨raw, -, hraw⟩ := mapM_ok hsafe path (List.mem_eraseDups.mp hpath)
      exact assertSafeCommitPath_named hraw

theorem newFiles_named {files newFiles safeFiles safeNew : List Path}
    (h : checkPaths files newFiles = .ok (safeFiles, safeNew)) :
    ∀ path ∈ safeNew, ∃ unit ∈ path, ¬ isWhiteSpace unit := by
  intro path hpath
  have hsafe := newFiles_subset h path hpath
  unfold checkPaths at h
  cases hfiles : assertSafeCommitPaths files with
  | error error =>
    rw [hfiles] at h
    cases h
  | ok safe =>
    rw [hfiles] at h
    change (checkNewFiles newFiles safe) >>= _ = _ at h
    cases hnew : checkNewFiles newFiles safe with
    | error error =>
      rw [hnew] at h
      cases h
    | ok found =>
      rw [hnew] at h
      rw [← (Prod.mk.inj (Except.ok.inj h)).1] at hsafe
      exact assertSafeCommitPaths_named hfiles path hsafe

/-! ## Effects on the repository -/

section Effects

variable {before : Repository Content} {newFiles safeFiles files : List Path} {message : JsString}

theorem update_mem {tree source : Tree Content} {paths : List Path} {path : Path}
    (h : path ∈ paths) : tree.update source paths path = source path := if_pos h

theorem update_not_mem {tree source : Tree Content} {paths : List Path} {path : Path}
    (h : path ∉ paths) : tree.update source paths path = tree path := if_neg h

/-- Untracked files that are added are newly staged, unless HEAD has them or they do not exist. -/
theorem harmless_add (huntracked : ∀ path ∈ newFiles, before.index path = none) :
    Harmless before ((GitCommand.add newFiles).effect before) ↔
      ∀ path ∈ newFiles, before.headTree path = none → before.workTree path = none := by
  have hstaged : ∀ path, ((GitCommand.add newFiles).effect before).Staged path ↔
      before.index.update before.workTree newFiles path ≠ before.headTree path := fun _ => Iff.rfl
  constructor
  · rintro ⟨-, h⟩ path hpath hhead
    by_contra hwork
    have hbefore := h path (by rwa [hstaged, update_mem hpath, hhead])
    exact hbefore (by rw [huntracked path hpath, hhead])
  · refine fun h => ⟨rfl, fun path hafter => ?_⟩
    rw [hstaged] at hafter
    by_cases hpath : path ∈ newFiles
    · rw [update_mem hpath] at hafter
      intro hindex
      rw [huntracked path hpath] at hindex
      rw [h path hpath hindex.symm, hindex] at hafter
      exact hafter rfl
    · rwa [update_not_mem hpath] at hafter

theorem stagedFor_commits : (stagedFor newFiles before).commits = before.commits := by
  unfold stagedFor
  split
  · rfl
  · rfl

theorem stagedFor_workTree : (stagedFor newFiles before).workTree = before.workTree := by
  unfold stagedFor
  split
  · rfl
  · rfl

theorem stagedFor_headTree : (stagedFor newFiles before).headTree = before.headTree := by
  unfold Repository.headTree
  rw [stagedFor_commits]

theorem stagedFor_index {path : Path} (h : path ∉ newFiles) :
    (stagedFor newFiles before).index path = before.index path := by
  unfold stagedFor
  split
  · exact update_not_mem h
  · rfl

/-- The compensation gives the index back. -/
theorem harmless_undone (huntracked : newFiles.length > 0 → ∀ path ∈ newFiles, before.index path = none) :
    Harmless before (if newFiles.length > 0 then
      (GitCommand.rmCached newFiles).effect (stagedFor newFiles before)
      else stagedFor newFiles before) := by
  by_cases hnew : newFiles.length > 0
  · rw [if_pos hnew]
    have hindex : ((GitCommand.rmCached newFiles).effect (stagedFor newFiles before)).index =
        before.index := by
      funext path
      show (stagedFor newFiles before).index.update (fun _ => none) newFiles path = _
      by_cases hpath : path ∈ newFiles
      · rw [update_mem hpath, huntracked hnew path hpath]
      · rw [update_not_mem hpath, stagedFor_index hpath]
    refine ⟨stagedFor_commits, fun path hafter => ?_⟩
    unfold Repository.Staged at hafter ⊢
    rw [hindex] at hafter
    have hhead : ((GitCommand.rmCached newFiles).effect (stagedFor newFiles before)).headTree =
        before.headTree := stagedFor_headTree
    rwa [hhead] at hafter
  · rw [if_neg hnew, stagedFor, if_neg hnew]
    exact harmless_refl before

theorem not_harmless_commit {after : Repository Content} {commit : Commit Content}
    (h : after.commits = commit :: before.commits) : ¬ Harmless before after := fun hharmless =>
  List.cons_ne_self commit before.commits (h.symm.trans hharmless.1)

/-- A commit takes the given files when the trimmed names are the given ones, or nothing is changed
where they differ. -/
theorem commitsFiles_iff (hsubset : ∀ path ∈ newFiles, path ∈ safeFiles) :
    CommitsFiles files before ((GitCommand.commitOnly message safeFiles).effect
      (stagedFor newFiles before)) ↔ NamesKept files safeFiles before := by
  have htree : ∀ path, (stagedFor newFiles before).headTree.update
      (stagedFor newFiles before).workTree safeFiles path =
        if path ∈ safeFiles then before.workTree path else before.headTree path := by
    intro path
    rw [stagedFor_headTree, stagedFor_workTree]
    rfl
  have hindex : ∀ path, ((GitCommand.commitOnly message safeFiles).effect
      (stagedFor newFiles before)).index path =
        if path ∈ safeFiles then before.workTree path else before.index path := by
    intro path
    show (stagedFor newFiles before).index.update (stagedFor newFiles before).workTree safeFiles path = _
    rw [stagedFor_workTree]
    by_cases hpath : path ∈ safeFiles
    · rw [update_mem hpath, if_pos hpath]
    · rw [update_not_mem hpath, if_neg hpath, stagedFor_index fun h => hpath (hsubset path h)]
  constructor
  · rintro ⟨⟨commit, hcommits, htree'⟩, hindex'⟩
    have hcommit := (List.cons.inj hcommits).1
    rw [← hcommit] at htree'
    have hboth : ∀ path, (if path ∈ safeFiles then before.workTree path else before.headTree path) =
        if path ∈ files then before.workTree path else before.headTree path := fun path =>
      (htree path).symm.trans (htree' path)
    refine ⟨fun path hfile hsafe => ?_, fun path hsafe hfile => ⟨?_, ?_⟩⟩
    · have heq := hboth path
      rw [if_neg hsafe, if_pos hfile] at heq
      exact heq.symm
    · have heq := hboth path
      rwa [if_pos hsafe, if_neg hfile] at heq
    · have heq := hindex' path hfile
      rwa [hindex, if_pos hsafe] at heq
  · rintro ⟨hfiles, hsafes⟩
    refine ⟨⟨_, congrArg _ stagedFor_commits, fun path => (htree path).trans ?_⟩,
      fun path hfile => ?_⟩
    · by_cases hsafe : path ∈ safeFiles
      · by_cases hfile : path ∈ files
        · rw [if_pos hsafe, if_pos hfile]
        · rw [if_pos hsafe, if_neg hfile, (hsafes path hsafe hfile).1]
      · by_cases hfile : path ∈ files
        · rw [if_neg hsafe, if_pos hfile, hfiles path hfile hsafe]
        · rw [if_neg hsafe, if_neg hfile]
    · rw [hindex]
      by_cases hsafe : path ∈ safeFiles
      · rw [if_pos hsafe, (hsafes path hsafe hfile).2]
      · rw [if_neg hsafe]

end Effects

/-! ## When a reported outcome is honest -/

section Honesty

variable {git : Git Content} {sanitize : JsString → JsString} {before : Repository Content}
  {files safeFiles newFiles : List Path} {message : JsString}

theorem commits_effect (repository : Repository Content)
    (h : repository.commits = before.commits) : ∃ commit : Commit Content,
      ((GitCommand.commitOnly message safeFiles).effect repository).commits =
        commit :: before.commits := ⟨_, congrArg _ h⟩

/-- The commit in the repository with the new files staged. -/
theorem commitStaged_honest (hgit : GitBehaves git)
    (huntracked : newFiles.length > 0 → ∀ path ∈ newFiles, before.index path = none)
    (hsubset : ∀ path ∈ newFiles, path ∈ safeFiles) :
    Honest files before (commitStaged git sanitize safeFiles newFiles message
        (stagedFor newFiles before)) ↔
      CommitShown git safeFiles newFiles message before ∧
        ((git (.commitOnly message safeFiles) (stagedFor newFiles before)).takesEffect = true →
          NamesKept files safeFiles before) := by
  obtain ⟨commit, hcommits⟩ :=
    @commits_effect _ before safeFiles message (stagedFor newFiles before) stagedFor_commits
  rcases @commitStaged_cases _ git sanitize hgit safeFiles newFiles message
      (stagedFor newFiles before) with
    ⟨hcode, error, houtcome⟩ | ⟨hcode, hhead, error, houtcome⟩ | ⟨hcode, hhead, result, houtcome⟩
  · rw [houtcome]
    by_cases heffect :
        (git (.commitOnly message safeFiles) (stagedFor newFiles before)).takesEffect = true
    · -- the commit is there, whatever the compensation does to the index
      refine iff_of_false (fun h => ?_) (fun h => hcode (h.1 heffect).1)
      have hharmless : Harmless before (if newFiles.length > 0 then (GitCommand.rmCached newFiles).effect
          (exec git (.commitOnly message safeFiles) (stagedFor newFiles before)).2
          else (exec git (.commitOnly message safeFiles) (stagedFor newFiles before)).2) := h
      rw [exec_eq, if_pos heffect] at hharmless
      by_cases hnew : newFiles.length > 0
      · rw [if_pos hnew] at hharmless
        have hundone : ((GitCommand.rmCached newFiles).effect ((GitCommand.commitOnly message
            safeFiles).effect (stagedFor newFiles before))).commits = commit :: before.commits :=
          hcommits
        exact not_harmless_commit hundone hharmless
      · rw [if_neg hnew] at hharmless
        exact not_harmless_commit hcommits hharmless
    · refine iff_of_true ?_ ⟨fun h => absurd h heffect, fun h => absurd h heffect⟩
      show Harmless before _
      rw [exec_eq, if_neg heffect]
      exact harmless_undone huntracked
  · rw [houtcome]
    have heffect := hgit.reported _ _ hcode
    exact iff_of_false (not_harmless_commit hcommits) fun h => hhead (h.1 heffect).2
  · rw [houtcome]
    have heffect := hgit.reported _ _ hcode
    refine (commitsFiles_iff hsubset).trans ⟨fun h => ⟨fun _ => ⟨hcode, hhead⟩, fun _ => h⟩,
      fun h => h.2 heffect⟩

theorem nothingHidden_iff {safeNew : List Path}
    (hcheck : checkPaths files newFiles = .ok (safeFiles, safeNew)) :
    NothingHidden git files message newFiles before ↔ AddShown git safeNew before ∧
      (ReachesCommit git safeNew before → CommitShown git safeFiles safeNew message before ∧
        ((git (.commitOnly message safeFiles) (stagedFor safeNew before)).takesEffect = true →
          NamesKept files safeFiles before)) := by
  constructor
  · exact fun h => h safeFiles safeNew hcheck
  · intro h safe found hok
    rw [hcheck] at hok
    obtain ⟨rfl, rfl⟩ := Prod.mk.inj (Except.ok.inj hok)
    exact h

/-- A git whose commits take effect and are reported as timed out, as with a slow hook. -/
def slowHookGit : Git ℕ := fun command repository =>
  match command with
  | .lsFiles paths =>
    let tracked := paths.any fun path => (repository.index path).isSome
    ⟨true, ⟨some 0, if tracked then units "a" else [], [], false, false⟩⟩
  | .commitOnly _ _ => ⟨true, ⟨none, [], [], true, false⟩⟩
  | _ => ⟨true, ⟨some 0, [], [], false, false⟩⟩

/-- One commit without files, and the file `n` in the working tree. -/
def oneNewFile : Repository ℕ where
  commits := [⟨units "first", fun _ => none⟩]
  index := fun _ => none
  workTree := fun path => if path = units "n" then some 1 else none

theorem slowHookGit_behaves : GitBehaves slowHookGit where
  reported := fun command _ _ => by cases command <;> rfl
  listed := by
    intro paths repository _ _
    have hany : paths.any (fun path => (repository.index path).isSome) = true ↔
        ∃ path ∈ paths, repository.index path ≠ none := by
      rw [List.any_eq_true]
      exact exists_congr fun path => and_congr_right fun _ => Option.isSome_iff_ne_none
    rw [← hany]
    show (trim (if paths.any (fun path => (repository.index path).isSome) = true then units "a"
      else [])).length > 0 ↔ _
    by_cases htracked : paths.any (fun path => (repository.index path).isSome) = true
    · rw [if_pos htracked]
      exact iff_of_true (by decide) htracked
    · rw [if_neg htracked]
      exact iff_of_false (by decide) htracked
  compensates := fun _ _ => rfl

theorem slowHookGit_throws :
    commitFiles slowHookGit id [units "n"] (units "m") [units "n"] oneNewFile =
      (.error (failure id "commit" ⟨none, [], [], true, false⟩),
        (GitCommand.rmCached [units "n"]).effect ((GitCommand.commitOnly (units "m") [units "n"]).effect
          ((GitCommand.add [units "n"]).effect oneNewFile))) := by
  rfl

theorem slowHookGit_not_honest : ¬ Honest [units "n"] oneNewFile
    (commitFiles slowHookGit id [units "n"] (units "m") [units "n"] oneNewFile) := by
  rw [slowHookGit_throws]
  exact fun h => List.cons_ne_self _ _ h.1

end Honesty

end QuokyPlatform.CodeWork
