import Mathlib.Data.Finset.Insert
import Mathlib.Data.Finset.Card
import QuokyPlatform.Foundations.Text
import QuokyPlatform.Reminders.ZonedTime

/-! # Backup files

The names of the copies a backup job writes, what is read back from a name, and which of the copies
retention keeps. The local date of an instant is a parameter: it stands for the time zone. -/

namespace QuokyPlatform.Backups

set_option autoImplicit false
set_option maxHeartbeats 250000

open Reminders (LocalDate addLocalDays weekdayOf)

/-! ## Names -/

abbrev FileName := List Char

inductive BackupKind
  | daily
  | preMigration
  | manual
deriving DecidableEq, Repr

namespace BackupKind

def text : BackupKind → List Char
  | daily => "daily".toList
  | preMigration => "pre-migration".toList
  | manual => "manual".toList

end BackupKind

def BACKUP_KINDS : List BackupKind := [.daily, .preMigration, .manual]

structure BackupRetention where
  dailyDays : ℕ
  weeklyWeeks : ℕ
  preMigration : ℕ
  manual : ℕ

def BACKUP_RETENTION : BackupRetention :=
  { dailyDays := 7, weeklyWeeks := 4, preMigration := 3, manual := 5 }

/-- `\d{8}T\d{6}Z` -/
def isStamp (s : List Char) : Bool :=
  s.length == 16 && (s.take 8).all isDigitAscii && (s.drop 8).take 1 == ['T'] &&
    ((s.drop 9).take 6).all isDigitAscii && s.drop 15 == ['Z']

/-- The stamp and the kind of a name `<before><stamp>-<kind><after>`. -/
def matchName (before : List Char) (endings : List (List Char)) (name : FileName) :
    Option (List Char × BackupKind) := do
  let rest ← name.dropPrefix? before
  let s := rest.take 16
  let rest ← (rest.drop 16).dropPrefix? ['-']
  let kind ← BACKUP_KINDS.find? fun kind => kind.text.isPrefixOf rest
  if isStamp s && endings.contains (rest.drop kind.text.length) then some (s, kind) else none

def FINAL_NAME : FileName → Option (List Char × BackupKind) :=
  matchName "quoky-".toList [".db".toList]

def PARTIAL_NAME : FileName → Option (List Char × BackupKind) :=
  matchName ".quoky-".toList [".db.partial".toList, ".db.partial-journal".toList,
    ".db.partial-wal".toList, ".db.partial-shm".toList]

def VECTOR_NAME : FileName → Option (List Char × BackupKind) :=
  matchName "quoky-".toList [".vectors".toList]

def VECTOR_PARTIAL_NAME : FileName → Option (List Char × BackupKind) :=
  matchName ".quoky-".toList [".vectors.partial".toList]

structure BackupFile where
  name : FileName
  kind : BackupKind
  takenAtMs : ℤ
deriving DecidableEq, Repr

/-- The last `width` decimal digits of a number. -/
def padded (width n : ℕ) : List Char :=
  (List.range width).reverse.map fun place => Nat.digitChar (n / 10 ^ place % 10)

/-- The year as `toISOString` writes it. -/
def isoYear (year : ℤ) : List Char :=
  if 0 ≤ year ∧ year ≤ 9999 then padded 4 year.toNat
  else (if 0 ≤ year then '+' else '-') :: padded 6 year.natAbs

/-- `toISOString` up to the milliseconds. -/
def isoSeconds (epochMs : ℤ) : List Char :=
  let date := Date.utcDate epochMs
  let second := epochMs % Date.msPerDay / 1000
  isoYear date.year ++ '-' :: padded 2 date.month.toNat ++ '-' :: padded 2 date.day.toNat ++
    'T' :: padded 2 (second / 3600).toNat ++ ':' :: padded 2 (second / 60 % 60).toNat ++
    ':' :: padded 2 (second % 60).toNat

/-- 2026-10-06T19:00:00.000Z becomes 20261006T190000Z. -/
def stamp (epochMs : ℤ) : List Char :=
  (isoSeconds epochMs ++ ['Z']).filter fun c => c != '-' && c != ':'

def finalName (s : List Char) (kind : BackupKind) : FileName :=
  "quoky-".toList ++ s ++ '-' :: kind.text ++ ".db".toList

def backupFileName (kind : BackupKind) (epochMs : ℤ) : FileName :=
  finalName (stamp epochMs) kind

def readDigits (digits : List Char) : ℕ :=
  digits.foldl (fun n c => 10 * n + (c.toNat - 48)) 0

/-- `Date.parse` of the timestamp a stamp spells out. A day past the end of its month is read on
into the next one. -/
def parseStamp (s : List Char) : Option ℤ :=
  let part (first width : ℕ) : ℤ := readDigits ((s.drop first).take width)
  let month := part 4 2
  let day := part 6 2
  let hour := part 9 2
  let minute := part 11 2
  let second := part 13 2
  if 1 ≤ month ∧ month ≤ 12 ∧ 1 ≤ day ∧ day ≤ 31 ∧ minute ≤ 59 ∧ second ≤ 59 ∧
      (hour ≤ 23 ∨ hour = 24 ∧ minute = 0 ∧ second = 0) then
    some (Date.daysFromCivil (part 0 4) month day * Date.msPerDay + hour * 3600000 +
      minute * Date.msPerMinute + second * 1000)
  else none

def parseBackupFileName (name : FileName) : Option BackupFile := do
  let (s, kind) ← FINAL_NAME name
  let takenAtMs ← parseStamp s
  if stamp takenAtMs = s then some { name, kind, takenAtMs } else none

/-- The kind of a partial copy or partial vector snapshot name. -/
def partialBackupKind (name : FileName) : Option BackupKind :=
  ((PARTIAL_NAME name).or (VECTOR_PARTIAL_NAME name)).map (·.2)

def isPartialVectorSnapshotName (name : FileName) : Bool := (VECTOR_PARTIAL_NAME name).isSome

/-- The vector snapshot paired with a copy: the ending `.db` becomes `.vectors`. -/
def vectorSnapshotName (dbFileName : FileName) : FileName :=
  if ".db".toList.isSuffixOf dbFileName then
    dbFileName.take (dbFileName.length - 3) ++ ".vectors".toList
  else dbFileName

/-- The copy a vector snapshot name belongs to. -/
def vectorSnapshotDbName (name : FileName) : Option FileName := do
  let (s, kind) ← VECTOR_NAME name
  let dbName := finalName s kind
  if (parseBackupFileName dbName).isSome then some dbName else none

/-- The final copies among the names, newest first. -/
def listBackupFiles (names : List FileName) : List BackupFile :=
  (names.filterMap parseBackupFileName).mergeSort fun a b =>
    decide (b.takenAtMs < a.takenAtMs) || (a.takenAtMs == b.takenAtMs && !decide (a.name < b.name))

/-! ## Retention -/

section Retention

variable (localDateOf : ℤ → LocalDate)

/-- The Monday of the date's week. The keys of days and weeks are only compared, so the dates stand
for the texts the program builds from them. -/
def weekKey (date : LocalDate) : LocalDate :=
  addLocalDays date (-((weekdayOf date + 6) % 7))

def dayOf (file : BackupFile) : LocalDate := localDateOf file.takenAtMs

def weekOf (file : BackupFile) : LocalDate := weekKey (dayOf localDateOf file)

/-- What the loop over the copies holds. -/
structure Tally where
  keep : Finset FileName := ∅
  days : Finset LocalDate := ∅
  weeks : Finset LocalDate := ∅
  preMigration : ℕ := 0
  manual : ℕ := 0

def Tally.keepIf (tally : Tally) (room : Prop) [Decidable room] (file : BackupFile) : Finset FileName :=
  if room then insert file.name tally.keep else tally.keep

def Tally.seeDay (tally : Tally) (file : BackupFile) : Tally :=
  if dayOf localDateOf file ∈ tally.days then tally
  else
    { tally with
      keep := tally.keepIf (tally.days.card < BACKUP_RETENTION.dailyDays) file
      days := insert (dayOf localDateOf file) tally.days }

def Tally.seeWeek (tally : Tally) (file : BackupFile) : Tally :=
  if weekOf localDateOf file ∈ tally.weeks then tally
  else
    { tally with
      keep := tally.keepIf (tally.weeks.card < BACKUP_RETENTION.weeklyWeeks) file
      weeks := insert (weekOf localDateOf file) tally.weeks }

def Tally.see (tally : Tally) (file : BackupFile) : Tally :=
  match file.kind with
  | .preMigration =>
    { tally with
      keep := tally.keepIf (tally.preMigration < BACKUP_RETENTION.preMigration) file
      preMigration := tally.preMigration + 1 }
  | .manual =>
    { tally with
      keep := tally.keepIf (tally.manual < BACKUP_RETENTION.manual) file
      manual := tally.manual + 1 }
  | .daily => (tally.seeDay localDateOf file).seeWeek localDateOf file

def newestFirst (files : List BackupFile) : List BackupFile :=
  files.mergeSort fun a b => decide (b.takenAtMs ≤ a.takenAtMs)

/-- Which of the job's copies retention keeps. -/
def selectBackupsToKeep (files : List BackupFile) : Finset FileName :=
  ((newestFirst files).foldl (Tally.see localDateOf) {}).keep

end Retention

end QuokyPlatform.Backups
