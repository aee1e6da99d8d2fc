import QuokyPlatform.Backups.Prune

/-! # Runs of copies

Copies taken one after another, each followed by pruning: what is on disk is what one selection
would keep of all copies ever taken. -/

namespace QuokyPlatform.Backups

set_option autoImplicit false
set_option maxHeartbeats 250000

open Reminders (LocalDate)
open scoped List

variable {localDateOf : ℤ → LocalDate}

/-! ## Runs -/

variable (localDateOf) in
/-- The directory after a chronological run of copies, with all copies ever taken. A run starts at
a directory that pruning left, such as one without copies. While a copy is taken, names that are
not copies come and go. -/
inductive Ran : Directory → List BackupFile → Prop
  | start (dir : Directory) (settled : keptOf localDateOf dir.copies = dir.copies) :
      Ran dir dir.copies
  | copy {dir : Directory} {all : List BackupFile} (ran : Ran dir all) (written : Directory)
      (x : BackupFile) (hwritten : written.copies ~ x :: dir.copies)
      (hlater : ∀ file ∈ all, file.takenAtMs < x.takenAtMs) (ownKinds : BackupKind → Bool)
      (now : ℤ) : Ran (prune localDateOf ownKinds now (fun _ => true) written) (x :: all)

/-- What a run of copies keeps to. -/
structure Retained (localDateOf : ℤ → LocalDate) (dir : Directory) (all : List BackupFile) : Prop where
  copies : Copies all
  onDisk : dir.copies ~ keptOf localDateOf all

theorem perm_of_mem_iff {files files' : List BackupFile} (h : files.Nodup) (h' : files'.Nodup)
    (hmem : ∀ file, file ∈ files ↔ file ∈ files') : files ~ files' :=
  (List.perm_ext_iff_of_nodup h h').mpr hmem

theorem keptOf_perm {files files' : List BackupFile} (hcopies : Copies files)
    (hperm : files' ~ files) : keptOf localDateOf files' ~ keptOf localDateOf files := by
  unfold keptOf
  rw [select_perm hcopies hperm]
  exact hperm.filter _

/-- One copy and the pruning after it. -/
theorem Retained.copy {dir written : Directory} {all : List BackupFile} {x : BackupFile}
    {ownKinds : BackupKind → Bool} {now : ℤ} (h : Retained localDateOf dir all)
    (hwritten : written.copies ~ x :: dir.copies)
    (hlater : ∀ file ∈ all, file.takenAtMs < x.takenAtMs) :
    Retained localDateOf (prune localDateOf ownKinds now (fun _ => true) written) (x :: all) := by
  have hx : parseBackupFileName x.name = some x :=
    (copies_of_directory written).parsed x (hwritten.symm.subset List.mem_cons_self)
  have hall : Copies (x :: all) := by
    refine ⟨fun file hfile => ?_, List.nodup_cons.mpr ⟨fun hin => ?_, h.copies.distinct⟩⟩
    · rcases List.mem_cons.mp hfile with rfl | hfile
      · exact hx
      · exact h.copies.parsed file hfile
    · exact lt_irrefl _ (hlater x hin)
  have hrest : written.copies ~ x :: keptOf localDateOf all := hwritten.trans (h.onDisk.cons x)
  have hselect : selectBackupsToKeep localDateOf written.copies =
      selectBackupsToKeep localDateOf (x :: all) :=
    select_again hall hlater (List.Perm.refl _) hrest
  refine ⟨hall, perm_of_mem_iff (copies_of_directory _).distinct
    (hall.filter _).distinct fun file => ?_⟩
  rw [mem_copies_prune, mem_keptOf, hselect, mem_keptOf, hrest.mem_iff]
  constructor
  · rintro ⟨hfile, hkept⟩
    refine ⟨?_, hkept⟩
    rcases List.mem_cons.mp hfile with rfl | hfile
    · exact List.mem_cons_self
    · exact List.mem_cons_of_mem _ (mem_keptOf.mp hfile).1
  · rintro ⟨hfile, hkept⟩
    -- a copy dropped before is not kept again: its name would be that of a file on disk
    rw [← hselect] at hkept
    obtain ⟨other, hother, hname⟩ := exists_of_mem_select hkept
    have hother' : other ∈ x :: all := by
      rcases List.mem_cons.mp (hrest.subset hother) with rfl | hother
      · exact List.mem_cons_self
      · exact List.mem_cons_of_mem _ (mem_keptOf.mp hother).1
    have hsame : other = file := by
      have hparsed := hall.parsed other hother'
      rw [hname, hall.parsed file hfile] at hparsed
      exact (Option.some.inj hparsed).symm
    rw [hselect] at hkept
    exact ⟨hsame ▸ hrest.subset hother, hkept⟩

theorem Ran.retained {dir : Directory} {all : List BackupFile} (h : Ran localDateOf dir all) :
    Retained localDateOf dir all := by
  induction h with
  | start dir settled =>
    refine ⟨copies_of_directory dir, ?_⟩
    rw [settled]
  | copy ran written x hwritten hlater ownKinds now ih => exact ih.copy hwritten hlater

/-! ## Retention after every copy -/

/-- Pruning after every copy is one selection from all copies: a selection after a later copy does
not see what earlier ones dropped, the directory of a run holds what is kept of all copies, the
latest copy and the newest one of each of the latest days and weeks among them, and pruning removes
none but the job's own names, no snapshot of a kept copy among them. -/
theorem retention_after_every_copy (localDateOf : ℤ → LocalDate) :
    (∀ files rest all : List BackupFile, ∀ x : BackupFile, Copies all →
      (∀ file ∈ files, file.takenAtMs < x.takenAtMs) → all ~ x :: files →
      rest ~ x :: keptOf localDateOf files →
      selectBackupsToKeep localDateOf rest = selectBackupsToKeep localDateOf all) ∧
    (∀ (dir : Directory) (all : List BackupFile), Ran localDateOf dir all →
      dir.copies ~ keptOf localDateOf all ∧
      (∀ file, NewestOfLatest (dayOf localDateOf) 7 all file ∨
        NewestOfLatest (weekOf localDateOf) 4 all file → file ∈ dir.copies) ∧
      ∀ (written : Directory) (x : BackupFile) (ownKinds : BackupKind → Bool) (now : ℤ),
        written.copies ~ x :: dir.copies → (∀ file ∈ all, file.takenAtMs < x.takenAtMs) →
        x ∈ (prune localDateOf ownKinds now (fun _ => true) written).copies) ∧
    ∀ (dir : Directory) (ownKinds : BackupKind → Bool) (now : ℤ) (deletes : FileName → Bool),
      ∀ entry ∈ dir.entries,
        entry ∉ (prune localDateOf ownKinds now deletes dir).entries →
        isOwnName entry.name = true ∧
          ∀ file ∈ keptOf localDateOf dir.copies, entry.name ≠ vectorSnapshotName file.name := by
  refine ⟨fun files rest all x hcopies hlater hall hrest =>
    select_again hcopies hlater hall hrest, fun dir all hran => ?_,
    fun dir ownKinds now deletes entry hin hout => pruned_own hin hout⟩
  have hretained := hran.retained
  refine ⟨hretained.onDisk, fun file hlatest => ?_, fun written x ownKinds now hwritten hlater => ?_⟩
  · refine hretained.onDisk.symm.subset (mem_keptOf.mpr ?_)
    rcases hlatest with hday | hweek
    · exact ⟨List.mem_of_mem_filter hday.daily, day_mem_select hretained.copies hday⟩
    · exact ⟨List.mem_of_mem_filter hweek.daily, week_mem_select hretained.copies hweek⟩
  · have hafter : Retained localDateOf
        (prune localDateOf ownKinds now (fun _ => true) written) (x :: all) :=
      hretained.copy hwritten hlater
    refine hafter.onDisk.symm.subset (mem_keptOf.mpr ⟨List.mem_cons_self, ?_⟩)
    exact latest_mem_select hafter.copies hlater (List.Perm.refl _)

/-- The daily copy of a day of January 1970. -/
def januaryCopy (day : ℤ) : BackupFile :=
  { name := backupFileName .daily (day * Date.msPerDay), kind := .daily
    takenAtMs := day * Date.msPerDay / 1000 * 1000 }

theorem parse_januaryCopy {day : ℤ} (h : FourDigitYear (day * Date.msPerDay)) :
    parseBackupFileName (januaryCopy day).name = some (januaryCopy day) :=
  parse_backupFileName h .daily

theorem second_copy_selected :
    selectBackupsToKeep Date.utcDate (januaryCopy 1 :: keptOf Date.utcDate [januaryCopy 0]) =
      selectBackupsToKeep Date.utcDate [januaryCopy 1, januaryCopy 0] := by
  have hlater : (januaryCopy 0).takenAtMs < (januaryCopy 1).takenAtMs := by decide
  have hcopies : Copies [januaryCopy 1, januaryCopy 0] := by
    refine ⟨fun file hfile => ?_, ?_⟩
    · rcases List.mem_pair.mp hfile with rfl | rfl
      · exact parse_januaryCopy (by unfold FourDigitYear; decide)
      · exact parse_januaryCopy (by unfold FourDigitYear; decide)
    · refine List.nodup_cons.mpr ⟨fun hin => ?_, List.nodup_singleton _⟩
      rw [List.mem_singleton] at hin
      rw [hin] at hlater
      exact lt_irrefl _ hlater
  refine (retention_after_every_copy Date.utcDate).1 [januaryCopy 0] _ _ (januaryCopy 1) hcopies
    (fun file hfile => ?_) (List.Perm.refl _) (List.Perm.refl _)
  rw [List.mem_singleton.mp hfile]
  exact hlater

end QuokyPlatform.Backups
