import QuokyPlatform.Backups.Retention

/-! # Pruning the backup directory

The directory a copy is written to, what pruning removes from it, and runs of copies that are each
followed by pruning. -/

namespace QuokyPlatform.Backups

set_option autoImplicit false
set_option maxHeartbeats 250000

open Reminders (LocalDate)
open scoped List

/-! ## The directory -/

inductive EntryKind
  | file
  | directory
  | other
deriving DecidableEq, Repr

structure Entry where
  name : FileName
  kind : EntryKind
  mtimeMs : ℤ
deriving DecidableEq, Repr

/-- The entries in the order they are listed in, no name twice. -/
structure Directory where
  entries : List Entry
  distinct : (entries.map Entry.name).Nodup

namespace Directory

def listNames (dir : Directory) : List FileName := dir.entries.map Entry.name

def isOfKind (dir : Directory) (kind : EntryKind) (name : FileName) : Bool :=
  dir.entries.any fun entry => entry.name == name && entry.kind == kind

def isRegularFile (dir : Directory) (name : FileName) : Bool := dir.isOfKind .file name

def isDirectory (dir : Directory) (name : FileName) : Bool := dir.isOfKind .directory name

def BACKUP_TIMEOUT_MS : ℤ := 5 * Date.msPerMinute

def PARTIAL_STALE_MS : ℤ := 3 * BACKUP_TIMEOUT_MS

def isStalePartial (dir : Directory) (now : ℤ) (name : FileName) : Bool :=
  dir.entries.any fun entry => entry.name == name && decide (entry.mtimeMs < now - PARTIAL_STALE_MS)

def remove (dir : Directory) (name : FileName) : Directory :=
  { entries := dir.entries.filter fun entry => entry.name != name
    distinct := dir.distinct.sublist (List.filter_sublist.map _) }

/-- The job's copies in the directory. -/
def copies (dir : Directory) : List BackupFile :=
  listBackupFiles (dir.listNames.filter dir.isRegularFile)

end Directory

/-- One of the loops of pruning: each name that is doomed is removed, unless its deletion fails. -/
def sweep (doomed : Directory → FileName → Bool) (deletes : FileName → Bool)
    (names : List FileName) (dir : Directory) : Directory :=
  names.foldl (fun dir name => if doomed dir name && deletes name then dir.remove name else dir) dir

def doomedSnapshot (keep : Finset FileName) (dir : Directory) (name : FileName) : Bool :=
  match vectorSnapshotDbName name with
  | none => false
  | some dbName => !decide (dbName ∈ keep) && dir.isDirectory name

def doomedPartial (ownKinds : BackupKind → Bool) (now : ℤ) (dir : Directory) (name : FileName) :
    Bool :=
  match partialBackupKind name with
  | none => false
  | some kind =>
    (ownKinds kind || dir.isStalePartial now name) &&
      if isPartialVectorSnapshotName name then dir.isDirectory name else dir.isRegularFile name

/-- `BackupJob.prune`. A deletion of a name fails where `deletes` says so. -/
def prune (localDateOf : ℤ → LocalDate) (ownKinds : BackupKind → Bool) (now : ℤ)
    (deletes : FileName → Bool) (dir : Directory) : Directory :=
  let names := dir.listNames
  let files := dir.copies
  let keep := selectBackupsToKeep localDateOf files
  let dir := sweep (fun _ name => !decide (name ∈ keep)) deletes (files.map BackupFile.name) dir
  let dir := sweep (doomedSnapshot keep) deletes names dir
  sweep (doomedPartial ownKinds now) deletes names dir

/-! ## What a loop removes -/

section Sweep

variable {doomed : Directory → FileName → Bool} {deletes : FileName → Bool}

theorem mem_remove {dir : Directory} {name : FileName} {entry : Entry} :
    entry ∈ (dir.remove name).entries ↔ entry ∈ dir.entries ∧ entry.name ≠ name := by
  show entry ∈ dir.entries.filter _ ↔ _
  rw [List.mem_filter, bne_iff_ne]

theorem sweep_cons (name : FileName) (names : List FileName) (dir : Directory) :
    sweep doomed deletes (name :: names) dir = sweep doomed deletes names
      (if doomed dir name && deletes name then dir.remove name else dir) := rfl

theorem sweep_step_subset (dir : Directory) (name : FileName) :
    (if doomed dir name && deletes name then dir.remove name else dir).entries ⊆ dir.entries := by
  split
  · exact fun entry hentry => (mem_remove.mp hentry).1
  · exact List.Subset.refl _

theorem sweep_subset (names : List FileName) (dir : Directory) :
    (sweep doomed deletes names dir).entries ⊆ dir.entries := by
  induction names generalizing dir with
  | nil => exact List.Subset.refl _
  | cons name names ih =>
    rw [sweep_cons]
    exact List.Subset.trans (ih _) (sweep_step_subset dir name)

/-- A removed entry was doomed when its turn came. -/
theorem doomed_of_swept {names : List FileName} {dir : Directory} {entry : Entry}
    (hin : entry ∈ dir.entries) (hout : entry ∉ (sweep doomed deletes names dir).entries) :
    entry.name ∈ names ∧ ∃ seen : Directory, entry ∈ seen.entries ∧
      seen.entries ⊆ dir.entries ∧ doomed seen entry.name := by
  induction names generalizing dir with
  | nil => exact absurd hin hout
  | cons name names ih =>
    rw [sweep_cons] at hout
    by_cases hstay :
        entry ∈ (if doomed dir name && deletes name then dir.remove name else dir).entries
    · obtain ⟨hname, seen, hseen, hsub, hdoomed⟩ := ih hstay hout
      exact ⟨List.mem_cons_of_mem _ hname, seen, hseen,
        List.Subset.trans hsub (sweep_step_subset dir name), hdoomed⟩
    · split at hstay
      · rename_i hdoomed
        have hname : entry.name = name := by
          by_contra hne
          exact hstay (mem_remove.mpr ⟨hin, hne⟩)
        rw [Bool.and_eq_true] at hdoomed
        rw [hname]
        exact ⟨List.mem_cons_self, dir, hin, List.Subset.refl _, hdoomed.1⟩
      · exact absurd hin hstay

/-- A name that is doomed in every directory is gone. -/
theorem swept_of_doomed {names : List FileName} {dir : Directory} {entry : Entry}
    (hname : entry.name ∈ names) (hdoomed : ∀ seen, doomed seen entry.name = true)
    (hdeletes : deletes entry.name = true) :
    entry ∉ (sweep doomed deletes names dir).entries := by
  induction names generalizing dir with
  | nil => cases hname
  | cons name names ih =>
    rw [sweep_cons]
    rcases List.mem_cons.mp hname with hfirst | hrest
    · rw [← hfirst, hdoomed, hdeletes]
      exact fun hin => (mem_remove.mp (sweep_subset names _ hin)).2 rfl
    · exact ih hrest

end Sweep

/-! ## Names a loop may remove -/

theorem isOfKind_iff {dir : Directory} {kind : EntryKind} {name : FileName} :
    dir.isOfKind kind name = true ↔ ∃ entry ∈ dir.entries, entry.name = name ∧ entry.kind = kind := by
  unfold Directory.isOfKind
  rw [List.any_eq_true]
  simp only [Bool.and_eq_true, beq_iff_eq]

theorem entry_unique {dir : Directory} {a b : Entry} (ha : a ∈ dir.entries) (hb : b ∈ dir.entries)
    (hname : a.name = b.name) : a = b :=
  List.inj_on_of_nodup_map dir.distinct ha hb hname

theorem isOfKind_entry {dir : Directory} {kind : EntryKind} {entry : Entry}
    (hin : entry ∈ dir.entries) : dir.isOfKind kind entry.name = true ↔ entry.kind = kind := by
  rw [isOfKind_iff]
  constructor
  · rintro ⟨other, hother, hname, hkind⟩
    rwa [← entry_unique hother hin hname]
  · exact fun hkind => ⟨entry, hin, rfl, hkind⟩

theorem mem_listBackupFiles {names : List FileName} {file : BackupFile} :
    file ∈ listBackupFiles names ↔ ∃ name ∈ names, parseBackupFileName name = some file := by
  unfold listBackupFiles
  rw [(List.mergeSort_perm _ _).mem_iff, List.mem_filterMap]

/-- The copies of a directory are its regular files with a copy's name. -/
theorem mem_copies {dir : Directory} {file : BackupFile} :
    file ∈ dir.copies ↔ parseBackupFileName file.name = some file ∧
      ∃ entry ∈ dir.entries, entry.name = file.name ∧ entry.kind = .file := by
  unfold Directory.copies
  rw [mem_listBackupFiles]
  constructor
  · rintro ⟨name, hname, hparse⟩
    rw [List.mem_filter] at hname
    rw [(parse_name hparse).1]
    exact ⟨hparse, isOfKind_iff.mp hname.2⟩
  · rintro ⟨hparse, entry, hentry, hname, hkind⟩
    refine ⟨file.name, List.mem_filter.mpr ⟨?_, ?_⟩, hparse⟩
    · rw [← hname]
      exact List.mem_map_of_mem hentry
    · exact isOfKind_iff.mpr ⟨entry, hentry, hname, hkind⟩

theorem copies_of_directory (dir : Directory) : Copies dir.copies := by
  refine ⟨fun file hfile => (mem_copies.mp hfile).1, ?_⟩
  unfold Directory.copies listBackupFiles
  rw [(List.mergeSort_perm _ _).nodup_iff]
  refine (dir.distinct.filter _).filterMap fun a b file ha hb => ?_
  rw [← (parse_name (Option.mem_def.mp ha)).1, ← (parse_name (Option.mem_def.mp hb)).1]

theorem finalName_eq (s : List Char) (kind : BackupKind) :
    finalName s kind = ("quoky-".toList ++ s ++ '-' :: kind.text) ++ ".db".toList := rfl

theorem quoky_head : "quoky-".toList = 'q' :: "uoky-".toList := rfl

theorem partial_head : ".quoky-".toList = '.' :: "quoky-".toList := rfl

/-- The names of copies and of snapshots start with a letter, those of partials with a dot. -/
theorem not_partial {name rest : List Char} (h : name = "quoky-".toList ++ rest) :
    partialBackupKind name = none := by
  have hnot : ∀ endings found, matchName ".quoky-".toList endings name ≠ some found := by
    rintro endings ⟨s, kind⟩ hmatch
    obtain ⟨-, ending, -, hname⟩ := matchName_eq_some hmatch
    rw [h, quoky_head, partial_head] at hname
    exact absurd (List.cons.inj hname).1 (by decide)
  have hhalf : PARTIAL_NAME name = none := Option.eq_none_iff_forall_ne_some.mpr (hnot _)
  have hvector : VECTOR_PARTIAL_NAME name = none := Option.eq_none_iff_forall_ne_some.mpr (hnot _)
  rw [partialBackupKind, hhalf, hvector]
  rfl

theorem last_differs (l l' : List Char) : l ++ ".vectors".toList ≠ l' ++ ".db".toList := by
  intro h
  have hvectors : l ++ ".vectors".toList = (l ++ ".vector".toList) ++ ['s'] := by
    rw [List.append_assoc]
    rfl
  have hdb : l' ++ ".db".toList = (l' ++ ".d".toList) ++ ['b'] := by
    rw [List.append_assoc]
    rfl
  rw [hvectors, hdb] at h
  exact absurd (List.cons.inj (List.append_inj_right' h rfl)).1 (by decide)

theorem vectorSnapshotName_append (stem : List Char) :
    vectorSnapshotName (stem ++ ".db".toList) = stem ++ ".vectors".toList := by
  rw [vectorSnapshotName, if_pos (List.isSuffixOf_iff_suffix.mpr (List.suffix_append _ _))]
  have hlength : (stem ++ ".db".toList).length - 3 = stem.length := by
    rw [List.length_append]
    rfl
  rw [hlength, List.take_left]

/-- A copy's snapshot name leads back to the copy, if anywhere. -/
theorem vectorSnapshotDbName_snapshot {s : List Char} {kind : BackupKind} {dbName : FileName}
    (h : vectorSnapshotDbName (vectorSnapshotName (finalName s kind)) = some dbName) :
    dbName = finalName s kind := by
  rw [finalName_eq, vectorSnapshotName_append] at h
  unfold vectorSnapshotDbName at h
  rw [Option.bind_eq_bind, Option.bind_eq_some_iff] at h
  obtain ⟨⟨s', kind'⟩, hmatch, h⟩ := h
  obtain ⟨-, ending, hending, hname⟩ := matchName_eq_some hmatch
  rw [List.mem_singleton.mp hending] at hname
  have hstem := List.append_cancel_right hname
  change (if _ then some (finalName s' kind') else none) = _ at h
  rw [Option.ite_none_right_eq_some] at h
  rw [← Option.some.inj h.2, finalName_eq, finalName_eq, hstem]

/-- The patterns of the job's own names. -/
def isOwnName (name : FileName) : Bool :=
  (parseBackupFileName name).isSome || (VECTOR_NAME name).isSome || (partialBackupKind name).isSome

/-! ## What pruning leaves -/

section Prune

variable {localDateOf : ℤ → LocalDate} {ownKinds : BackupKind → Bool} {now : ℤ}
  {deletes : FileName → Bool} {dir : Directory} {entry : Entry}

theorem prune_eq : prune localDateOf ownKinds now deletes dir =
    sweep (doomedPartial ownKinds now) deletes dir.listNames
      (sweep (doomedSnapshot (selectBackupsToKeep localDateOf dir.copies)) deletes dir.listNames
        (sweep (fun _ name => !decide (name ∈ selectBackupsToKeep localDateOf dir.copies)) deletes
          (dir.copies.map BackupFile.name) dir)) := rfl

theorem prune_subset : (prune localDateOf ownKinds now deletes dir).entries ⊆ dir.entries := by
  rw [prune_eq]
  exact List.Subset.trans (sweep_subset _ _)
    (List.Subset.trans (sweep_subset _ _) (sweep_subset _ _))

theorem isOfKind_subset {seen : Directory} {kind : EntryKind} (hsub : seen.entries ⊆ dir.entries)
    (hin : entry ∈ dir.entries) (h : seen.isOfKind kind entry.name = true) : entry.kind = kind := by
  obtain ⟨other, hother, hname, hkind⟩ := isOfKind_iff.mp h
  rwa [← entry_unique (hsub hother) hin hname]

theorem doomedSnapshot_cases {keep : Finset FileName} {seen : Directory}
    (hsub : seen.entries ⊆ dir.entries) (hin : entry ∈ dir.entries)
    (h : doomedSnapshot keep seen entry.name = true) :
    ∃ dbName, vectorSnapshotDbName entry.name = some dbName ∧ dbName ∉ keep ∧
      entry.kind = .directory := by
  unfold doomedSnapshot at h
  split at h
  · cases h
  · rename_i dbName hdb
    rw [Bool.and_eq_true, Bool.not_eq_true', decide_eq_false_iff_not] at h
    exact ⟨dbName, hdb, h.1, isOfKind_subset hsub hin h.2⟩

theorem doomedPartial_cases {seen : Directory} {name : FileName}
    (h : doomedPartial ownKinds now seen name = true) : (partialBackupKind name).isSome := by
  unfold doomedPartial at h
  split at h
  · cases h
  · rename_i kind hkind
    rw [hkind]
    rfl

/-- Why an entry was removed: one case for each loop. -/
theorem pruned_cases (hin : entry ∈ dir.entries)
    (hout : entry ∉ (prune localDateOf ownKinds now deletes dir).entries) :
    (entry.name ∉ selectBackupsToKeep localDateOf dir.copies ∧
        ∃ file ∈ dir.copies, file.name = entry.name) ∨
      (∃ dbName, vectorSnapshotDbName entry.name = some dbName ∧
        dbName ∉ selectBackupsToKeep localDateOf dir.copies ∧ entry.kind = .directory) ∨
      (partialBackupKind entry.name).isSome := by
  rw [prune_eq] at hout
  generalize hkeep : selectBackupsToKeep localDateOf dir.copies = keep at hout ⊢
  generalize hfirst : sweep (fun _ name => !decide (name ∈ keep)) deletes
    (dir.copies.map BackupFile.name) dir = first at hout
  generalize hsecond : sweep (doomedSnapshot keep) deletes dir.listNames first = second at hout
  have hsub : first.entries ⊆ dir.entries := by
    rw [← hfirst]
    exact sweep_subset _ _
  by_cases hin₁ : entry ∈ first.entries
  · by_cases hin₂ : entry ∈ second.entries
    · obtain ⟨-, seen, -, -, hdoomed⟩ := doomed_of_swept hin₂ hout
      exact .inr (.inr (doomedPartial_cases hdoomed))
    · rw [← hsecond] at hin₂
      obtain ⟨-, seen, -, hseen, hdoomed⟩ := doomed_of_swept hin₁ hin₂
      exact .inr (.inl (doomedSnapshot_cases (List.Subset.trans hseen hsub) hin hdoomed))
  · rw [← hfirst] at hin₁
    obtain ⟨hname, seen, -, -, hdoomed⟩ := doomed_of_swept hin hin₁
    rw [Bool.not_eq_true', decide_eq_false_iff_not] at hdoomed
    exact .inl ⟨hdoomed, List.mem_map.mp hname⟩

theorem copy_entry_name {file : BackupFile} (h : parseBackupFileName file.name = some file) :
    file.name = finalName (stamp file.takenAtMs) file.kind := (parse_name h).2

/-- Only the job's own names are removed, and no snapshot of a kept copy. -/
theorem pruned_own (hin : entry ∈ dir.entries)
    (hout : entry ∉ (prune localDateOf ownKinds now deletes dir).entries) :
    isOwnName entry.name = true ∧
      ∀ file ∈ keptOf localDateOf dir.copies, entry.name ≠ vectorSnapshotName file.name := by
  have hsnapshot : ∀ file ∈ keptOf localDateOf dir.copies,
      file.name = finalName (stamp file.takenAtMs) file.kind ∧
        vectorSnapshotName file.name =
          ("quoky-".toList ++ stamp file.takenAtMs ++ '-' :: file.kind.text) ++
            ".vectors".toList := by
    intro file hfile
    have hname := copy_entry_name ((copies_of_directory dir).parsed file (mem_keptOf.mp hfile).1)
    refine ⟨hname, ?_⟩
    rw [hname, finalName_eq, vectorSnapshotName_append]
  unfold isOwnName
  rcases pruned_cases hin hout with ⟨-, file, hfile, hname⟩ | ⟨dbName, hdb, hdropped, -⟩ | hhalf
  · have hparsed := (copies_of_directory dir).parsed file hfile
    refine ⟨?_, fun kept hkept heq => ?_⟩
    · rw [← hname, hparsed]
      rfl
    · rw [← hname, copy_entry_name hparsed, finalName_eq, (hsnapshot kept hkept).2] at heq
      exact last_differs _ _ heq.symm
  · refine ⟨?_, fun kept hkept heq => ?_⟩
    · have hvector : (VECTOR_NAME entry.name).isSome = true := by
        unfold vectorSnapshotDbName at hdb
        rw [Option.bind_eq_bind, Option.bind_eq_some_iff] at hdb
        obtain ⟨found, hmatch, -⟩ := hdb
        rw [hmatch]
        rfl
      rw [hvector, Bool.or_true, Bool.true_or]
    · rw [heq, (hsnapshot kept hkept).1] at hdb
      have hsame := vectorSnapshotDbName_snapshot hdb
      rw [hsame, ← (hsnapshot kept hkept).1] at hdropped
      exact hdropped (mem_keptOf.mp hkept).2
  · refine ⟨by rw [hhalf, Bool.or_true], fun kept hkept heq => ?_⟩
    rw [heq, (hsnapshot kept hkept).2, List.append_assoc, List.append_assoc,
      not_partial rfl] at hhalf
    cases hhalf

/-- When every deletion succeeds, the copies left are those the selection keeps. -/
theorem mem_copies_prune {file : BackupFile} :
    file ∈ (prune localDateOf ownKinds now (fun _ => true) dir).copies ↔
      file ∈ keptOf localDateOf dir.copies := by
  rw [mem_keptOf]
  constructor
  · intro hfile
    obtain ⟨hparse, entry, hentry, hname, hkind⟩ := mem_copies.mp hfile
    have hcopy : file ∈ dir.copies :=
      mem_copies.mpr ⟨hparse, entry, prune_subset hentry, hname, hkind⟩
    refine ⟨hcopy, ?_⟩
    by_contra hdropped
    refine absurd (sweep_subset _ _ (sweep_subset _ _ hentry)) (swept_of_doomed ?_ ?_ rfl)
    · rw [hname]
      exact List.mem_map_of_mem hcopy
    · intro seen
      rw [hname, Bool.not_eq_true', decide_eq_false_iff_not]
      exact hdropped
  · rintro ⟨hcopy, hkept⟩
    obtain ⟨hparse, entry, hentry, hname, hkind⟩ := mem_copies.mp hcopy
    refine mem_copies.mpr ⟨hparse, entry, ?_, hname, hkind⟩
    by_contra hout
    rcases pruned_cases hentry hout with ⟨hdropped, -⟩ | ⟨dbName, -, -, hdirectory⟩ | hhalf
    · rw [hname] at hdropped
      exact hdropped hkept
    · rw [hkind] at hdirectory
      cases hdirectory
    · rw [hname, copy_entry_name hparse, finalName_eq, List.append_assoc, List.append_assoc,
        not_partial rfl] at hhalf
      cases hhalf

end Prune

end QuokyPlatform.Backups
