import QuokyPlatform.CodeWork.CommitCandidates

/-!
# What a partition that answers `ok` says

The answer is decided by the normal forms alone. What git acts on are the reported paths, so the
answer is about the changed files only where these are the normal forms.
-/

namespace QuokyPlatform.CodeWork
open Chunking
set_option autoImplicit false
set_option maxHeartbeats 250000

/-! ## Normal forms of many paths -/

def Safe (path : JsString) : Prop := ∃ normal, safeStatusPath path = some normal

/-- The normal forms of the safe paths. -/
def normalForms (paths : List JsString) : List JsString := paths.filterMap safeStatusPath

theorem mem_normalForms {paths : List JsString} {normal : JsString} :
    normal ∈ normalForms paths ↔ ∃ path ∈ paths, safeStatusPath path = some normal :=
  List.mem_filterMap

theorem mapM_safeStatusPath (paths : List JsString) :
    paths.mapM safeStatusPath = some (normalForms paths) ∧ (∀ path ∈ paths, Safe path) ∨
      paths.mapM safeStatusPath = none ∧ ∃ path ∈ paths, ¬ Safe path := by
  induction paths with
  | nil => exact .inl ⟨rfl, by simp⟩
  | cons path rest ih =>
    rw [List.mapM_cons]
    cases hpath : safeStatusPath path with
    | none =>
      refine .inr ⟨rfl, path, List.mem_cons_self, ?_⟩
      rintro ⟨normal, hnormal⟩
      rw [hpath] at hnormal
      cases hnormal
    | some normal =>
      rcases ih with ⟨hrest, hsafe⟩ | ⟨hrest, other, hother, hunsafe⟩
      · refine .inl ⟨?_, ?_⟩
        · rw [hrest]
          simp [normalForms, hpath]
        · intro found hfound
          rcases List.mem_cons.mp hfound with rfl | hfound
          · exact ⟨normal, hpath⟩
          · exact hsafe found hfound
      · refine .inr ⟨?_, other, List.mem_cons_of_mem _ hother, hunsafe⟩
        rw [hrest]
        rfl

/-- Some candidate that is only untracked is no approved new file. -/
theorem newFilesOf_spec (trackedChanged untrackedSet allowedNew candidates : List JsString) :
    newFilesOf trackedChanged untrackedSet allowedNew candidates =
      if ∃ c ∈ candidates, c ∉ trackedChanged ∧ c ∈ untrackedSet ∧ c ∉ allowedNew then none
      else some (candidates.filter fun c => c ∉ trackedChanged ∧ c ∈ untrackedSet) := by
  induction candidates with
  | nil => simp [newFilesOf]
  | cons c rest ih =>
    unfold newFilesOf
    rw [ih]
    by_cases htracked : c ∈ trackedChanged
    · simp [htracked]
    · by_cases huntracked : c ∈ untrackedSet
      · by_cases hallowed : c ∈ allowedNew
        · simp only [htracked, huntracked, hallowed, not_true_eq_false, or_self, if_false]
          split <;> simp_all
        · simp [htracked, huntracked, hallowed]
      · simp [htracked, huntracked]

/-! ## When the answer is `ok` -/

/-- The conditions on the normal forms. -/
structure Committable (input : PartitionInput) : Prop where
  candidates : ∀ path ∈ input.candidates, Safe path
  changed : ∀ path ∈ input.status.changed, Safe path
  same : ∀ normal, normal ∈ normalForms input.status.changed ↔ normal ∈ normalForms input.candidates
  inside : ∀ normal ∈ normalForms input.status.changed,
    normal ∈ normalizedSet (some input.scope.targetFiles)
  newFiles : ∀ normal ∈ normalForms input.candidates,
    normal ∉ normalForms (input.status.staged ++ input.status.unstaged) →
      normal ∈ normalizedSet input.scope.newFileTargets

variable {input : PartitionInput}

theorem normalForms_append (xs ys : List JsString) :
    normalForms (xs ++ ys) = normalForms xs ++ normalForms ys := List.filterMap_append

/-- What the checks on the normal forms come to. -/
theorem noDrift_iff (scope : List JsString)
    {candidates staged unstaged untracked newFiles : List JsString}
    (hnew : newFiles = candidates.filter fun c => c ∉ staged ++ unstaged ∧ c ∈ untracked) :
    ¬ ((candidates.filter fun c => c ∉ staged ++ unstaged ++ newFiles) ≠ [] ∨
      ((staged ++ unstaged ++ untracked).filter fun c => c ∈ scope ∧ c ∉ candidates) ≠ [] ∨
      ((staged ++ unstaged ++ untracked).filter fun c => c ∉ scope) ≠ [] ∨
      (staged.filter fun c => c ∉ candidates) ≠ []) ↔
    (∀ c, c ∈ staged ++ unstaged ++ untracked ↔ c ∈ candidates) ∧
      ∀ c ∈ staged ++ unstaged ++ untracked, c ∈ scope := by
  subst hnew
  simp only [ne_eq, not_or, not_not, List.filter_eq_nil_iff, decide_eq_true_eq]
  constructor
  · rintro ⟨hmissing, hextra, hout, hstaged⟩
    have hinside : ∀ c ∈ staged ++ unstaged ++ untracked, c ∈ scope := fun c hc => hout c hc
    refine ⟨fun c => ⟨fun hc => ?_, fun hc => ?_⟩, hinside⟩
    · by_contra hcandidate
      exact hextra c hc ⟨hinside c hc, hcandidate⟩
    · have hcommittable := hmissing c hc
      simp only [List.mem_append, List.mem_filter, decide_eq_true_eq] at hcommittable ⊢
      tauto
  · rintro ⟨hsame, hinside⟩
    refine ⟨fun c hc => ?_, fun c hc h => h.2 ((hsame c).mp hc), fun c hc => ?_, fun c hc => ?_⟩
    · have hchanged := (hsame c).mpr hc
      simp only [List.mem_append, List.mem_filter, decide_eq_true_eq] at hchanged ⊢
      tauto
    · exact hinside c hc
    · exact (hsame c).mp (List.mem_append_left _ (List.mem_append_left _ hc))

theorem partition_spec :
    (Committable input ∧ ∃ newFiles, partitionCommitCandidates input =
      .ok (normalForms input.candidates).eraseDups newFiles) ∨
    (¬ Committable input ∧ ∃ reason, partitionCommitCandidates input = .refused reason) := by
  unfold partitionCommitCandidates
  rcases mapM_safeStatusPath input.candidates with ⟨hcandidates, hsafe⟩ | ⟨hcandidates, path, hpath, hunsafe⟩
  swap
  · rw [hcandidates]
    exact .inr ⟨fun h => hunsafe (h.candidates path hpath), _, rfl⟩
  rw [hcandidates]
  dsimp only
  have hmem (c : JsString) : c ∈ (normalForms input.candidates).eraseDups ↔
      c ∈ normalForms input.candidates := List.mem_eraseDups
  by_cases hscope : ∃ c ∈ (normalForms input.candidates).eraseDups,
      c ∉ normalizedSet (some input.scope.targetFiles)
  · rw [if_pos hscope]
    obtain ⟨c, hc, hout⟩ := hscope
    refine .inr ⟨fun h => hout (h.inside c ((h.same c).mpr ((hmem c).mp hc))), _, rfl⟩
  rw [if_neg hscope]
  have hunsafeChanged {paths : List JsString} (hsub : ∀ path ∈ paths, path ∈ input.status.changed)
      (h : ∃ path ∈ paths, ¬ Safe path) : ¬ Committable input := by
    obtain ⟨path, hpath, hunsafe⟩ := h
    exact fun h => hunsafe (h.changed path (hsub path hpath))
  rcases mapM_safeStatusPath input.status.staged with ⟨hstaged, hsafeStaged⟩ | ⟨hstaged, hbad⟩
  swap
  · rw [hstaged]
    exact .inr ⟨hunsafeChanged (by simp [GitStatus.changed]; tauto) hbad, _, rfl⟩
  rcases mapM_safeStatusPath input.status.unstaged with ⟨hunstaged, hsafeUnstaged⟩ | ⟨hunstaged, hbad⟩
  swap
  · rw [hstaged, hunstaged]
    exact .inr ⟨hunsafeChanged (by simp [GitStatus.changed]; tauto) hbad, _, rfl⟩
  rcases mapM_safeStatusPath input.status.untracked with ⟨huntracked, hsafeUntracked⟩ | ⟨huntracked, hbad⟩
  swap
  · rw [hstaged, hunstaged, huntracked]
    exact .inr ⟨hunsafeChanged (by simp [GitStatus.changed]; tauto) hbad, _, rfl⟩
  rw [hstaged, hunstaged, huntracked]
  dsimp only
  have hforms : normalForms input.status.changed = normalForms input.status.staged ++
      normalForms input.status.unstaged ++ normalForms input.status.untracked := by
    simp [GitStatus.changed, normalForms_append]
  have htracked : normalForms (input.status.staged ++ input.status.unstaged) =
      normalForms input.status.staged ++ normalForms input.status.unstaged := normalForms_append _ _
  rw [newFilesOf_spec]
  by_cases hforeign : ∃ c ∈ (normalForms input.candidates).eraseDups,
      c ∉ normalForms input.status.staged ++ normalForms input.status.unstaged ∧
      c ∈ normalForms input.status.untracked ∧ c ∉ normalizedSet input.scope.newFileTargets
  · rw [if_pos hforeign]
    obtain ⟨c, hc, hnotTracked, -, hnotAllowed⟩ := hforeign
    refine .inr ⟨fun h => hnotAllowed (h.newFiles c ((hmem c).mp hc) ?_), _, rfl⟩
    rw [htracked]
    exact hnotTracked
  · rw [if_neg hforeign]
    dsimp only
    have hdrift := noDrift_iff (normalizedSet (some input.scope.targetFiles))
      (rfl : _ = (normalForms input.candidates).eraseDups.filter fun c =>
        c ∉ normalForms input.status.staged ++ normalForms input.status.unstaged ∧
          c ∈ normalForms input.status.untracked)
    rw [← hforms] at hdrift
    split
    · rename_i hdrifted
      refine .inr ⟨fun h => hdrift.mpr ⟨?_, h.inside⟩ ?_, _, rfl⟩
      · intro c
        rw [h.same c, hmem c]
      · rw [← hforms] at hdrifted
        exact hdrifted
    · rename_i hnone
      rw [← hforms] at hnone
      obtain ⟨hsame, hinside⟩ := hdrift.mp hnone
      refine .inl ⟨⟨hsafe, ?_, fun c => (hsame c).trans (hmem c), hinside, ?_⟩, _, rfl⟩
      · intro path hpath
        simp only [GitStatus.changed, List.mem_append] at hpath
        rcases hpath with (hpath | hpath) | hpath
        · exact hsafeStaged path hpath
        · exact hsafeUnstaged path hpath
        · exact hsafeUntracked path hpath
      · intro c hc hnotTracked
        rw [htracked] at hnotTracked
        have hchanged := (hsame c).mpr ((hmem c).mpr hc)
        rw [hforms, List.mem_append] at hchanged
        have huntracked := hchanged.resolve_left hnotTracked
        by_contra hnotAllowed
        exact hforeign ⟨c, (hmem c).mpr hc, hnotTracked, huntracked, hnotAllowed⟩

/-! ## The files of the commit -/

/-- The partition is `ok` just under its conditions, and then commits exactly the changed files: no two
reported paths are one candidate, every file is a target, and every reported path is a file. -/
structure CommitsExactly (input : PartitionInput) : Prop where
  decides : (∃ files newFiles, partitionCommitCandidates input = .ok files newFiles) ↔ Committable input
  distinct : ∀ files newFiles, partitionCommitCandidates input = .ok files newFiles →
    ∀ path ∈ input.status.changed, ∀ other ∈ input.status.changed,
      safeStatusPath path = safeStatusPath other → path = other
  inside : ∀ files newFiles, partitionCommitCandidates input = .ok files newFiles →
    ∀ file ∈ files, file ∈ normalizedSet (some input.scope.targetFiles)
  complete : ∀ files newFiles, partitionCommitCandidates input = .ok files newFiles →
    ∀ path ∈ input.status.changed, path ∈ files

/-- When every reported path is the normal form of one, no two have the same normal form. -/
theorem safeStatusPath_injective {paths : List JsString}
    (h : ∀ path ∈ paths, ∃ other ∈ paths, safeStatusPath other = some path) :
    ∀ path ∈ paths, ∀ other ∈ paths, safeStatusPath path = safeStatusPath other → path = other := by
  have hsub : (paths.toFinset.image some) ⊆ paths.toFinset.image safeStatusPath := by
    intro found hfound
    obtain ⟨path, hpath, rfl⟩ := Finset.mem_image.mp hfound
    obtain ⟨other, hother, heq⟩ := h path (List.mem_toFinset.mp hpath)
    exact Finset.mem_image.mpr ⟨other, List.mem_toFinset.mpr hother, heq⟩
  have hcard : (paths.toFinset.image safeStatusPath).card = paths.toFinset.card := by
    refine le_antisymm Finset.card_image_le ?_
    calc paths.toFinset.card = (paths.toFinset.image some).card :=
          (Finset.card_image_of_injective _ (Option.some_injective _)).symm
      _ ≤ (paths.toFinset.image safeStatusPath).card := Finset.card_le_card hsub
  have hinjective := Finset.card_image_iff.mp hcard
  intro path hpath other hother heq
  exact hinjective (List.mem_toFinset.mpr hpath) (List.mem_toFinset.mpr hother) heq

theorem mem_files_iff (h : Committable input) {path : JsString} :
    path ∈ (normalForms input.candidates).eraseDups ↔
      ∃ other ∈ input.status.changed, safeStatusPath other = some path := by
  rw [List.mem_eraseDups, ← h.same, mem_normalForms]

/-- The commit is exactly the changed files just when the partition refuses or every path git reported
is the normal form of one it reported. -/
theorem commitsExactly_iff (input : PartitionInput) :
    CommitsExactly input ↔ (Committable input →
      ∀ path ∈ input.status.changed, ∃ other ∈ input.status.changed,
        safeStatusPath other = some path) := by
  rcases @partition_spec input with ⟨hcommittable, newFiles, hok⟩ | ⟨hnot, reason, hrefused⟩
  · constructor
    · intro h _ path hpath
      exact (mem_files_iff hcommittable).mp (h.complete _ _ hok path hpath)
    · intro h
      have hnormal := h hcommittable
      refine ⟨⟨fun _ => hcommittable, fun _ => ⟨_, _, hok⟩⟩, ?_, ?_, ?_⟩
      · intro _ _ _
        exact safeStatusPath_injective hnormal
      · intro files newFiles' hfiles file hfile
        rw [hok, CommitCandidatePartition.ok.injEq] at hfiles
        rw [← hfiles.1, List.mem_eraseDups, ← hcommittable.same] at hfile
        exact hcommittable.inside file hfile
      · intro files newFiles' hfiles path hpath
        rw [hok, CommitCandidatePartition.ok.injEq] at hfiles
        rw [← hfiles.1]
        exact (mem_files_iff hcommittable).mpr (hnormal path hpath)
  · have hnever : ∀ files newFiles, partitionCommitCandidates input ≠ .ok files newFiles := by
      intro files newFiles hok
      rw [hrefused] at hok
      cases hok
    constructor
    · intro _ hcommittable
      exact absurd hcommittable hnot
    · intro _
      refine ⟨⟨fun ⟨files, newFiles, hok⟩ => absurd hok (hnever files newFiles), fun h => absurd h hnot⟩,
        ?_, ?_, ?_⟩
      · intro files newFiles hok
        exact absurd hok (hnever files newFiles)
      · intro files newFiles hok
        exact absurd hok (hnever files newFiles)
      · intro files newFiles hok
        exact absurd hok (hnever files newFiles)

/-- The target `src/a.ts` was changed, and so was a file whose name ends in an ideographic space. -/
def spacedInput : PartitionInput where
  candidates := [units "src/a.ts"]
  scope := ⟨[units "src/a.ts"], none⟩
  status := ⟨[], [units "src/a.ts", units "src/a.ts\u3000"], []⟩

/-- Both are the one candidate: the partition is `ok` and leaves the other file out. -/
theorem spacedInput_merged : ¬ CommitsExactly spacedInput := by
  intro h
  have hok : partitionCommitCandidates spacedInput = .ok [units "src/a.ts"] [] := by decide +kernel
  have hsame : safeStatusPath (units "src/a.ts") = safeStatusPath (units "src/a.ts\u3000") := by
    decide +kernel
  have heq := h.distinct _ _ hok (units "src/a.ts") (by decide +kernel) (units "src/a.ts\u3000")
    (by decide +kernel) hsame
  revert heq
  decide +kernel

end QuokyPlatform.CodeWork
