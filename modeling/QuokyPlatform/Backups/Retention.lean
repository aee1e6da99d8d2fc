import Mathlib.Data.List.Sort
import Mathlib.Data.Set.Card
import QuokyPlatform.Foundations.Leaders
import QuokyPlatform.Backups.Names

/-! # Retention of copies

The loop of the selection keeps the first copies of its two counted kinds and the leaders of the
days and of the weeks. Taking out what a selection drops therefore changes no later selection. -/

namespace QuokyPlatform.Backups

set_option autoImplicit false
set_option maxHeartbeats 250000

open Reminders (LocalDate)
open scoped List

variable {localDateOf : ℤ → LocalDate}

/-! ## What the loop keeps -/

def ofKind (kind : BackupKind) (files : List BackupFile) : List BackupFile :=
  files.filter fun file => file.kind = kind

section Loop

variable (localDateOf) in
/-- The copies the loop keeps of the files it has still to see. -/
@[mk_iff]
inductive KeptFrom (tally : Tally) (files : List BackupFile) (file : BackupFile) : Prop
  | preMigration (h : file ∈ (ofKind .preMigration files).take
      (BACKUP_RETENTION.preMigration - tally.preMigration))
  | manual (h : file ∈ (ofKind .manual files).take (BACKUP_RETENTION.manual - tally.manual))
  | day (h : file ∈ leaders (dayOf localDateOf) BACKUP_RETENTION.dailyDays tally.days
      (ofKind .daily files))
  | week (h : file ∈ leaders (weekOf localDateOf) BACKUP_RETENTION.weeklyWeeks tally.weeks
      (ofKind .daily files))

theorem mem_keepIf {tally : Tally} {room : Prop} [Decidable room] {file : BackupFile}
    {name : FileName} :
    name ∈ tally.keepIf room file ↔ name ∈ tally.keep ∨ (room ∧ file.name = name) := by
  unfold Tally.keepIf
  split
  · rename_i hroom
    rw [Finset.mem_insert, or_comm, eq_comm]
    simp only [hroom, true_and]
  · rename_i hroom
    simp only [hroom, false_and, or_false]

theorem mem_take_sub {file first : BackupFile} {rest : List BackupFile} {limit seen : ℕ} :
    file ∈ (first :: rest).take (limit - seen) ↔
      (seen < limit ∧ file = first) ∨ file ∈ rest.take (limit - (seen + 1)) := by
  by_cases hroom : seen < limit
  · have hsucc : limit - seen = limit - (seen + 1) + 1 := by omega
    rw [hsucc, List.take_succ_cons, List.mem_cons]
    simp only [hroom, true_and]
  · have hzero : limit - seen = 0 := by omega
    have hzero' : limit - (seen + 1) = 0 := by omega
    rw [hzero, hzero', List.take_zero, List.take_zero]
    simp only [hroom, List.not_mem_nil, false_and, or_self]

theorem mem_leaders_cons {κ : Type} [DecidableEq κ] {key : BackupFile → κ} {limit : ℕ}
    {seen : Finset κ} {file first : BackupFile} {rest : List BackupFile} :
    file ∈ leaders key limit seen (first :: rest) ↔
      ((key first ∉ seen ∧ seen.card < limit) ∧ file = first) ∨
        file ∈ leaders key limit (insert (key first) seen) rest := by
  rw [leaders]
  by_cases hseen : key first ∈ seen
  · rw [if_pos hseen, Finset.insert_eq_of_mem hseen]
    simp only [hseen, not_true_eq_false, false_and, false_or]
  · rw [if_neg hseen]
    by_cases hroom : seen.card < limit
    · rw [if_pos hroom, List.mem_cons]
      simp only [hseen, hroom, not_false_eq_true, true_and]
    · rw [if_neg hroom]
      simp only [hroom, and_false, false_and, false_or]

theorem seeDay_keep {tally : Tally} {file : BackupFile} {name : FileName} :
    name ∈ (tally.seeDay localDateOf file).keep ↔ name ∈ tally.keep ∨
      ((dayOf localDateOf file ∉ tally.days ∧ tally.days.card < BACKUP_RETENTION.dailyDays) ∧
        file.name = name) := by
  unfold Tally.seeDay
  split
  · rename_i hseen
    simp only [hseen, not_true_eq_false, false_and, or_false]
  · rename_i hseen
    show name ∈ tally.keepIf _ file ↔ _
    rw [mem_keepIf]
    simp only [hseen, not_false_eq_true, true_and]

theorem seeWeek_keep {tally : Tally} {file : BackupFile} {name : FileName} :
    name ∈ (tally.seeWeek localDateOf file).keep ↔ name ∈ tally.keep ∨
      ((weekOf localDateOf file ∉ tally.weeks ∧
        tally.weeks.card < BACKUP_RETENTION.weeklyWeeks) ∧ file.name = name) := by
  unfold Tally.seeWeek
  split
  · rename_i hseen
    simp only [hseen, not_true_eq_false, false_and, or_false]
  · rename_i hseen
    show name ∈ tally.keepIf _ file ↔ _
    rw [mem_keepIf]
    simp only [hseen, not_false_eq_true, true_and]

theorem seeDay_days (tally : Tally) (file : BackupFile) :
    (tally.seeDay localDateOf file).days = insert (dayOf localDateOf file) tally.days := by
  unfold Tally.seeDay
  split
  · rename_i hseen
    exact (Finset.insert_eq_of_mem hseen).symm
  · rfl

/-- A day changes nothing but the days and the kept names. -/
theorem seeDay_rest (tally : Tally) (file : BackupFile) :
    (tally.seeDay localDateOf file).weeks = tally.weeks ∧
      (tally.seeDay localDateOf file).preMigration = tally.preMigration ∧
      (tally.seeDay localDateOf file).manual = tally.manual := by
  unfold Tally.seeDay
  split
  · exact ⟨rfl, rfl, rfl⟩
  · exact ⟨rfl, rfl, rfl⟩

theorem seeWeek_weeks (tally : Tally) (file : BackupFile) :
    (tally.seeWeek localDateOf file).weeks = insert (weekOf localDateOf file) tally.weeks := by
  unfold Tally.seeWeek
  split
  · rename_i hseen
    exact (Finset.insert_eq_of_mem hseen).symm
  · rfl

theorem seeWeek_rest (tally : Tally) (file : BackupFile) :
    (tally.seeWeek localDateOf file).days = tally.days ∧
      (tally.seeWeek localDateOf file).preMigration = tally.preMigration ∧
      (tally.seeWeek localDateOf file).manual = tally.manual := by
  unfold Tally.seeWeek
  split
  · exact ⟨rfl, rfl, rfl⟩
  · exact ⟨rfl, rfl, rfl⟩

theorem ofKind_cons (kind : BackupKind) (first : BackupFile) (rest : List BackupFile) :
    ofKind kind (first :: rest) =
      if first.kind = kind then first :: ofKind kind rest else ofKind kind rest := by
  unfold ofKind
  rw [List.filter_cons]
  simp only [decide_eq_true_eq]

theorem keptFrom_cons (tally : Tally) (first : BackupFile) (rest : List BackupFile)
    (name : FileName) :
    (name ∈ (tally.see localDateOf first).keep ∨
        ∃ file, KeptFrom localDateOf (tally.see localDateOf first) rest file ∧ file.name = name) ↔
      name ∈ tally.keep ∨
        ∃ file, KeptFrom localDateOf tally (first :: rest) file ∧ file.name = name := by
  simp only [keptFrom_iff, ofKind_cons, Tally.see]
  cases hkind : first.kind with
  | preMigration =>
    simp only [mem_keepIf, mem_take_sub, reduceCtorEq, if_true, if_false, or_and_right, exists_or,
      and_assoc, exists_eq_left, exists_and_left, or_assoc]
  | manual =>
    simp only [mem_keepIf, mem_take_sub, reduceCtorEq, if_true, if_false, or_and_right, exists_or,
      and_assoc, exists_eq_left, exists_and_left]
    exact iff_of_eq (by ac_rfl)
  | daily =>
    simp only [seeWeek_keep, seeDay_keep, seeDay_days, seeDay_rest, seeWeek_weeks, seeWeek_rest,
      mem_leaders_cons, reduceCtorEq, if_true, if_false, or_and_right, exists_or, and_assoc,
      exists_eq_left, exists_and_left]
    exact iff_of_eq (by ac_rfl)

/-- The loop adds the names of the kept copies. -/
theorem mem_foldl_see (files : List BackupFile) (tally : Tally) (name : FileName) :
    name ∈ (files.foldl (Tally.see localDateOf) tally).keep ↔
      name ∈ tally.keep ∨ ∃ file, KeptFrom localDateOf tally files file ∧ file.name = name := by
  induction files generalizing tally with
  | nil =>
    have hnone : ¬ ∃ file, KeptFrom localDateOf tally [] file ∧ file.name = name := by
      rintro ⟨file, hfile, -⟩
      cases hfile with
      | preMigration h => exact absurd (List.mem_of_mem_take h) List.not_mem_nil
      | manual h => exact absurd (List.mem_of_mem_take h) List.not_mem_nil
      | day h => exact absurd (mem_of_mem_leaders h) List.not_mem_nil
      | week h => exact absurd (mem_of_mem_leaders h) List.not_mem_nil
    rw [List.foldl_nil, or_iff_left hnone]
  | cons first rest ih =>
    rw [List.foldl_cons, ih, keptFrom_cons]

end Loop

/-! ## Sets of copies -/

/-- A set of copies as the job reads them. -/
structure Copies (files : List BackupFile) : Prop where
  parsed : ∀ file ∈ files, parseBackupFileName file.name = some file
  distinct : files.Nodup

theorem Copies.perm {files files' : List BackupFile} (h : Copies files) (hperm : files' ~ files) :
    Copies files' :=
  ⟨fun file hfile => h.parsed file (hperm.subset hfile), hperm.nodup_iff.mpr h.distinct⟩

theorem Copies.filter {files : List BackupFile} (h : Copies files) (keep : BackupFile → Bool) :
    Copies (files.filter keep) :=
  ⟨fun file hfile => h.parsed file (List.mem_of_mem_filter hfile), h.distinct.filter _⟩

/-- Copies of one kind and one instant are the same file. -/
theorem Copies.eq_of_takenAt {files : List BackupFile} (h : Copies files) {a b : BackupFile}
    (ha : a ∈ files) (hb : b ∈ files) (hkind : a.kind = b.kind)
    (htaken : a.takenAtMs = b.takenAtMs) : a = b := by
  have hnames : a.name = b.name := by
    rw [(parse_name (h.parsed a ha)).2, (parse_name (h.parsed b hb)).2, hkind, htaken]
  have hparsed := h.parsed a ha
  rw [hnames, h.parsed b hb] at hparsed
  exact (Option.some.inj hparsed).symm

/-! ## The copies of one kind, newest first -/

def newestOfKind (kind : BackupKind) (files : List BackupFile) : List BackupFile :=
  ofKind kind (newestFirst files)

def Newer (a b : BackupFile) : Prop := b.takenAtMs ≤ a.takenAtMs

theorem newestOfKind_sorted (kind : BackupKind) (files : List BackupFile) :
    (newestOfKind kind files).Pairwise Newer := by
  have hsorted : (newestFirst files).Pairwise fun a b => decide (b.takenAtMs ≤ a.takenAtMs) := by
    refine List.pairwise_mergeSort (fun a b c hab hbc => ?_) (fun a b => ?_) files
    · rw [decide_eq_true_eq] at hab hbc ⊢
      exact hbc.trans hab
    · rw [Bool.or_eq_true, decide_eq_true_eq, decide_eq_true_eq]
      exact le_total _ _
  exact (hsorted.imp fun hab => of_decide_eq_true hab).filter _

theorem newestOfKind_perm (kind : BackupKind) (files : List BackupFile) :
    newestOfKind kind files ~ ofKind kind files :=
  (List.mergeSort_perm files _).filter _

theorem mem_newestOfKind {kind : BackupKind} {files : List BackupFile} {file : BackupFile} :
    file ∈ newestOfKind kind files ↔ file ∈ files ∧ file.kind = kind := by
  rw [(newestOfKind_perm kind files).mem_iff, ofKind, List.mem_filter, decide_eq_true_eq]

/-- The only way to sort the copies of a kind. -/
theorem newestOfKind_unique {kind : BackupKind} {files l : List BackupFile} (hcopies : Copies files)
    (hperm : l ~ ofKind kind files) (hsorted : l.Pairwise Newer) : newestOfKind kind files = l := by
  have hmem : ∀ a ∈ newestOfKind kind files, a ∈ files ∧ a.kind = kind := fun a ha =>
    mem_newestOfKind.mp ha
  have hperm' := (newestOfKind_perm kind files).trans hperm.symm
  refine hperm'.eq_of_pairwise (fun a b ha hb hab hba => ?_) (newestOfKind_sorted kind files) hsorted
  have hb' := hmem b (hperm'.symm.subset hb)
  exact hcopies.eq_of_takenAt (hmem a ha).1 hb'.1 ((hmem a ha).2.trans hb'.2.symm) (le_antisymm hba hab)

theorem newestOfKind_filter {files : List BackupFile} (hcopies : Copies files) (kind : BackupKind)
    (keep : BackupFile → Bool) :
    newestOfKind kind (files.filter keep) = (newestOfKind kind files).filter keep := by
  refine newestOfKind_unique (hcopies.filter keep) ?_ ((newestOfKind_sorted kind files).filter _)
  have hcomm : ofKind kind (files.filter keep) = (ofKind kind files).filter keep := by
    unfold ofKind
    rw [List.filter_filter, List.filter_filter]
    exact List.filter_congr fun file _ => Bool.and_comm _ _
  rw [hcomm]
  exact (newestOfKind_perm kind files).filter _

/-- A later copy comes first. -/
theorem newestOfKind_cons {files more : List BackupFile} {x : BackupFile} (hcopies : Copies more)
    (hperm : more ~ x :: files) (hlater : ∀ file ∈ files, file.takenAtMs < x.takenAtMs)
    (kind : BackupKind) :
    newestOfKind kind more = (if x.kind = kind then [x] else []) ++ newestOfKind kind files := by
  have hfiles : ofKind kind more ~ (if x.kind = kind then [x] else []) ++ ofKind kind files := by
    refine (hperm.filter _).trans ?_
    rw [show (x :: files).filter (fun file => decide (file.kind = kind)) = _ from
      ofKind_cons kind x files]
    split
    · exact List.Perm.refl _
    · exact List.Perm.refl _
  refine newestOfKind_unique hcopies ?_ ?_
  · exact ((newestOfKind_perm kind files).append_left _).trans hfiles.symm
  · rw [List.pairwise_append]
    refine ⟨?_, newestOfKind_sorted kind files, fun a ha b hb => ?_⟩
    · split
      · exact List.pairwise_singleton _ _
      · exact List.Pairwise.nil
    · have ha' : a = x := by
        split at ha
        · exact List.mem_singleton.mp ha
        · cases ha
      rw [ha']
      exact (hlater b (mem_newestOfKind.mp hb).1).le

/-! ## What a selection keeps -/

theorem mem_select {files : List BackupFile} {name : FileName} :
    name ∈ selectBackupsToKeep localDateOf files ↔
      ∃ file, KeptFrom localDateOf {} (newestFirst files) file ∧ file.name = name := by
  unfold selectBackupsToKeep
  rw [mem_foldl_see]
  exact or_iff_right (Finset.notMem_empty name)

theorem mem_of_keptFrom {tally : Tally} {files : List BackupFile} {file : BackupFile}
    (h : KeptFrom localDateOf tally files file) : file ∈ files := by
  cases h with
  | preMigration h => exact List.mem_of_mem_filter (List.mem_of_mem_take h)
  | manual h => exact List.mem_of_mem_filter (List.mem_of_mem_take h)
  | day h => exact List.mem_of_mem_filter (mem_of_mem_leaders h)
  | week h => exact List.mem_of_mem_filter (mem_of_mem_leaders h)

theorem mem_newestFirst {files : List BackupFile} {file : BackupFile} :
    file ∈ newestFirst files ↔ file ∈ files := (List.mergeSort_perm files _).mem_iff

/-- Only names of the given copies are kept. -/
theorem exists_of_mem_select {files : List BackupFile} {name : FileName}
    (h : name ∈ selectBackupsToKeep localDateOf files) : ∃ file ∈ files, file.name = name := by
  obtain ⟨file, hkept, hname⟩ := mem_select.mp h
  exact ⟨file, mem_newestFirst.mp (mem_of_keptFrom hkept), hname⟩

/-- Two sets of copies from which the same is kept of each kind. -/
theorem select_congr {files files' : List BackupFile}
    (hpre : (newestOfKind .preMigration files).take BACKUP_RETENTION.preMigration =
      (newestOfKind .preMigration files').take BACKUP_RETENTION.preMigration)
    (hmanual : (newestOfKind .manual files).take BACKUP_RETENTION.manual =
      (newestOfKind .manual files').take BACKUP_RETENTION.manual)
    (hday : leaders (dayOf localDateOf) BACKUP_RETENTION.dailyDays ∅ (newestOfKind .daily files) =
      leaders (dayOf localDateOf) BACKUP_RETENTION.dailyDays ∅ (newestOfKind .daily files'))
    (hweek : leaders (weekOf localDateOf) BACKUP_RETENTION.weeklyWeeks ∅ (newestOfKind .daily files) =
      leaders (weekOf localDateOf) BACKUP_RETENTION.weeklyWeeks ∅ (newestOfKind .daily files')) :
    selectBackupsToKeep localDateOf files = selectBackupsToKeep localDateOf files' := by
  have hkept : ∀ file, KeptFrom localDateOf {} (newestFirst files) file ↔
      KeptFrom localDateOf {} (newestFirst files') file := by
    intro file
    rw [keptFrom_iff, keptFrom_iff]
    show (file ∈ (newestOfKind .preMigration files).take BACKUP_RETENTION.preMigration ∨
        file ∈ (newestOfKind .manual files).take BACKUP_RETENTION.manual ∨
        file ∈ leaders _ _ ∅ (newestOfKind .daily files) ∨
        file ∈ leaders _ _ ∅ (newestOfKind .daily files)) ↔ _
    rw [hpre, hmanual, hday, hweek]
    exact Iff.rfl
  ext name
  rw [mem_select, mem_select]
  exact exists_congr fun file => and_congr_left' (hkept file)

theorem select_perm {files files' : List BackupFile} (hcopies : Copies files)
    (hperm : files' ~ files) :
    selectBackupsToKeep localDateOf files' = selectBackupsToKeep localDateOf files := by
  have hkind : ∀ kind, newestOfKind kind files' = newestOfKind kind files := fun kind =>
    newestOfKind_unique (hcopies.perm hperm)
      ((newestOfKind_perm kind files).trans (hperm.symm.filter _)) (newestOfKind_sorted kind files)
  refine select_congr ?_ ?_ ?_ ?_
  · rw [hkind]
  · rw [hkind]
  · rw [hkind]
  · rw [hkind]

variable (localDateOf) in
/-- The copies a selection keeps. -/
def keptOf (files : List BackupFile) : List BackupFile :=
  files.filter fun file => file.name ∈ selectBackupsToKeep localDateOf files

theorem mem_keptOf {files : List BackupFile} {file : BackupFile} :
    file ∈ keptOf localDateOf files ↔
      file ∈ files ∧ file.name ∈ selectBackupsToKeep localDateOf files := by
  rw [keptOf, List.mem_filter, decide_eq_true_eq]

/-- Dropping what a selection drops changes no selection made after a later copy. -/
theorem select_again {files rest all : List BackupFile} {x : BackupFile} (hcopies : Copies all)
    (hlater : ∀ file ∈ files, file.takenAtMs < x.takenAtMs) (hall : all ~ x :: files)
    (hrest : rest ~ x :: keptOf localDateOf files) :
    selectBackupsToKeep localDateOf rest = selectBackupsToKeep localDateOf all := by
  have hcons : Copies (x :: files) := hcopies.perm hall.symm
  have hfiles : Copies files :=
    ⟨fun file hfile => hcons.parsed file (List.mem_cons_of_mem _ hfile), hcons.distinct.of_cons⟩
  have hkept : Copies (x :: keptOf localDateOf files) := by
    refine ⟨fun file hfile => hcons.parsed file ?_, ?_⟩
    · rcases List.mem_cons.mp hfile with rfl | hfile
      · exact List.mem_cons_self
      · exact List.mem_cons_of_mem _ (List.mem_of_mem_filter hfile)
    · exact hcons.distinct.sublist (List.filter_sublist.cons_cons x)
  have hall' : ∀ kind, newestOfKind kind all =
      (if x.kind = kind then [x] else []) ++ newestOfKind kind files := fun kind =>
    newestOfKind_cons hcopies hall hlater kind
  have hrest' : ∀ kind, newestOfKind kind rest = (if x.kind = kind then [x] else []) ++
      (newestOfKind kind files).filter fun file =>
        file.name ∈ selectBackupsToKeep localDateOf files := by
    intro kind
    rw [newestOfKind_cons (hkept.perm hrest) hrest
      (fun file hfile => hlater file (List.mem_of_mem_filter hfile)) kind, keptOf,
      newestOfKind_filter hfiles]
  have hname : ∀ file, KeptFrom localDateOf {} (newestFirst files) file →
      decide (file.name ∈ selectBackupsToKeep localDateOf files) = true := fun file hfile =>
    decide_eq_true (mem_select.mpr ⟨file, hfile, rfl⟩)
  refine select_congr ?_ ?_ ?_ ?_
  · rw [hall', hrest']
    exact take_append_filter fun file hfile => hname file (.preMigration hfile)
  · rw [hall', hrest']
    exact take_append_filter fun file hfile => hname file (.manual hfile)
  · rw [hall', hrest']
    exact leaders_append_filter _ (Finset.Subset.refl ∅) fun file hfile => hname file (.day hfile)
  · rw [hall', hrest']
    exact leaders_append_filter _ (Finset.Subset.refl ∅) fun file hfile => hname file (.week hfile)

/-- The latest copy is kept. -/
theorem latest_mem_select {files all : List BackupFile} {x : BackupFile} (hcopies : Copies all)
    (hlater : ∀ file ∈ files, file.takenAtMs < x.takenAtMs) (hall : all ~ x :: files) :
    x.name ∈ selectBackupsToKeep localDateOf all := by
  have hfirst : newestOfKind x.kind all = x :: newestOfKind x.kind files := by
    rw [newestOfKind_cons hcopies hall hlater, if_pos rfl, List.singleton_append]
  refine mem_select.mpr ⟨x, ?_, rfl⟩
  cases hkind : x.kind with
  | preMigration =>
    refine .preMigration ?_
    show x ∈ (newestOfKind .preMigration all).take 3
    rw [← hkind, hfirst]
    exact List.mem_cons_self
  | manual =>
    refine .manual ?_
    show x ∈ (newestOfKind .manual all).take 5
    rw [← hkind, hfirst]
    exact List.mem_cons_self
  | daily =>
    refine .day ?_
    show x ∈ leaders (dayOf localDateOf) 7 ∅ (newestOfKind .daily all)
    rw [← hkind, hfirst]
    exact List.mem_cons_self

/-! ## The latest days and weeks -/

/-- The newest daily copy of its day or week, when fewer than `n` others have a later copy. -/
structure NewestOfLatest (key : BackupFile → LocalDate) (n : ℕ) (files : List BackupFile)
    (file : BackupFile) : Prop where
  daily : file ∈ ofKind .daily files
  newest : ∀ other ∈ ofKind .daily files, key other = key file → other.takenAtMs ≤ file.takenAtMs
  latest : (((ofKind .daily files).filter fun other =>
    decide (file.takenAtMs < other.takenAtMs)).map key).toFinset.card < n

/-- Whatever order the days or weeks have, if later copies are of later ones: a day with fewer than
`n` later ones is among the `n` latest. -/
theorem newestOfLatest_of_order {key : BackupFile → LocalDate} {n : ℕ} {files : List BackupFile}
    {file : BackupFile} (later : LocalDate → LocalDate → Bool)
    (horder : ∀ a ∈ ofKind .daily files, ∀ b ∈ ofKind .daily files,
      a.takenAtMs < b.takenAtMs → key a = key b ∨ later (key a) (key b))
    (hdaily : file ∈ ofKind .daily files)
    (hnewest : ∀ other ∈ ofKind .daily files, key other = key file →
      other.takenAtMs ≤ file.takenAtMs)
    (hlatest : (((ofKind .daily files).map key).toFinset.filter fun k =>
      later (key file) k).card < n) : NewestOfLatest key n files file := by
  refine ⟨hdaily, hnewest, Nat.lt_of_le_of_lt (Finset.card_le_card fun k hk => ?_) hlatest⟩
  rw [List.mem_toFinset, List.mem_map] at hk
  obtain ⟨other, hother, rfl⟩ := hk
  rw [List.mem_filter, decide_eq_true_eq] at hother
  rw [Finset.mem_filter, List.mem_toFinset]
  refine ⟨List.mem_map_of_mem hother.1, ?_⟩
  rcases horder file hdaily other hother.1 hother.2 with hsame | hlater
  · exact absurd (hnewest other hother.1 hsame.symm) (Int.not_le.mpr hother.2)
  · exact hlater

theorem mem_leaders_of_latest {key : BackupFile → LocalDate} {n : ℕ} {files : List BackupFile}
    {file : BackupFile} (hcopies : Copies files) (h : NewestOfLatest key n files file) :
    file ∈ leaders key n ∅ (newestOfKind .daily files) := by
  have hperm := newestOfKind_perm .daily files
  have hsorted := newestOfKind_sorted .daily files
  have hdistinct : (newestOfKind .daily files).Nodup :=
    hperm.nodup_iff.mpr (hcopies.distinct.filter _)
  obtain ⟨before, after, hsplit⟩ := List.append_of_mem (hperm.symm.subset h.daily)
  have hmem : ∀ other ∈ before, other ∈ ofKind .daily files := fun other hother => by
    refine hperm.subset ?_
    rw [hsplit]
    exact List.mem_append_left _ hother
  have hbefore : ∀ other ∈ before, file.takenAtMs < other.takenAtMs := by
    intro other hother
    rw [hsplit, List.pairwise_append] at hsorted
    rw [hsplit, List.nodup_append] at hdistinct
    have hle : file.takenAtMs ≤ other.takenAtMs :=
      hsorted.2.2 other hother file List.mem_cons_self
    refine lt_of_le_of_ne hle fun heq => ?_
    have hkind : ∀ f ∈ ofKind .daily files, f ∈ files ∧ f.kind = .daily := fun f hf => by
      rw [ofKind, List.mem_filter, decide_eq_true_eq] at hf
      exact hf
    obtain ⟨hfile, hfkind⟩ := hkind file h.daily
    obtain ⟨hother', hokind⟩ := hkind other (hmem other hother)
    exact hdistinct.2.2 other hother file List.mem_cons_self
      (hcopies.eq_of_takenAt hother' hfile (hokind.trans hfkind.symm) heq.symm)
  rw [hsplit]
  refine mem_leaders_append (Finset.notMem_empty _) (fun other hother hkey => ?_) ?_
  · exact absurd (h.newest other (hmem other hother) hkey) (Int.not_le.mpr (hbefore other hother))
  · refine Nat.lt_of_le_of_lt (Finset.card_le_card fun k hk => ?_) h.latest
    rw [Finset.empty_union, List.mem_toFinset, List.mem_map] at hk
    obtain ⟨other, hother, rfl⟩ := hk
    rw [List.mem_toFinset]
    refine List.mem_map_of_mem (List.mem_filter.mpr ⟨hmem other hother, ?_⟩)
    exact decide_eq_true (hbefore other hother)

theorem day_mem_select {files : List BackupFile} {file : BackupFile} (hcopies : Copies files)
    (h : NewestOfLatest (dayOf localDateOf) BACKUP_RETENTION.dailyDays files file) :
    file.name ∈ selectBackupsToKeep localDateOf files :=
  mem_select.mpr ⟨file, .day (mem_leaders_of_latest hcopies h), rfl⟩

theorem week_mem_select {files : List BackupFile} {file : BackupFile} (hcopies : Copies files)
    (h : NewestOfLatest (weekOf localDateOf) BACKUP_RETENTION.weeklyWeeks files file) :
    file.name ∈ selectBackupsToKeep localDateOf files :=
  mem_select.mpr ⟨file, .week (mem_leaders_of_latest hcopies h), rfl⟩

end QuokyPlatform.Backups
