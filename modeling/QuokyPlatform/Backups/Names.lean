import Mathlib.Data.List.Basic
import Mathlib.Tactic.Ring
import QuokyPlatform.Foundations.Calendar
import QuokyPlatform.Backups.Files

/-! # Names of copies

What a name that is read as a copy's looks like, and that the name of a copy is read back as the
copy, its instant cut down to the second. -/

namespace QuokyPlatform.Backups

set_option autoImplicit false
set_option maxHeartbeats 250000

/-! ## What is read of a name -/

theorem matchName_eq_some {before : List Char} {endings : List (List Char)} {name s : List Char}
    {kind : BackupKind} (h : matchName before endings name = some (s, kind)) :
    isStamp s = true ∧ ∃ ending ∈ endings, name = before ++ s ++ '-' :: kind.text ++ ending := by
  simp only [matchName, Option.bind_eq_bind, Option.bind_eq_some_iff, Option.ite_none_right_eq_some,
    Option.some.injEq, Prod.mk.injEq, Bool.and_eq_true, List.contains_iff_mem] at h
  obtain ⟨rest, hrest, tail, htail, found, hfound, ⟨hstamp, hending⟩, rfl, rfl⟩ := h
  rw [List.dropPrefix?_eq_some_iff] at hrest htail
  obtain ⟨pre, rfl, hpre⟩ := hrest
  obtain ⟨dash, hdash, hdash'⟩ := htail
  have hkind := List.find?_some hfound
  rw [eq_of_beq hdash'] at hdash
  obtain ⟨ending, hsplit⟩ := List.isPrefixOf_iff_prefix.mp hkind
  refine ⟨hstamp, _, hending, ?_⟩
  have hrest : rest = rest.take 16 ++ ('-' :: found.text ++ ending) := by
    calc rest = rest.take 16 ++ rest.drop 16 := (List.take_append_drop 16 rest).symm
      _ = rest.take 16 ++ ('-' :: found.text ++ ending) := by
        rw [hdash, ← hsplit]
        rfl
  rw [← hsplit, List.drop_left, eq_of_beq hpre, List.append_assoc, List.append_assoc]
  exact congrArg (before ++ ·) hrest

/-- A copy's name spells out its kind and its instant. -/
theorem parse_name {name : FileName} {file : BackupFile}
    (h : parseBackupFileName name = some file) :
    file.name = name ∧ name = backupFileName file.kind file.takenAtMs := by
  unfold parseBackupFileName at h
  rw [Option.bind_eq_bind, Option.bind_eq_some_iff] at h
  obtain ⟨⟨s, kind⟩, hmatch, h⟩ := h
  change (parseStamp s).bind _ = _ at h
  rw [Option.bind_eq_some_iff] at h
  obtain ⟨takenAtMs, -, h⟩ := h
  rw [Option.ite_none_right_eq_some] at h
  obtain ⟨hstamp, hfile⟩ := h
  replace hfile := Option.some.inj hfile
  obtain ⟨-, ending, hending, hname⟩ := matchName_eq_some hmatch
  rw [List.mem_singleton.mp hending] at hname
  subst hfile
  refine ⟨rfl, ?_⟩
  show name = finalName (stamp takenAtMs) kind
  rw [hstamp]
  exact hname

/-! ## Digits -/

theorem digit_read {n : ℕ} (h : n < 10) : (Nat.digitChar n).toNat - 48 = n := by
  have hall : ∀ k < 10, (Nat.digitChar k).toNat - 48 = k := by decide
  exact hall n h

theorem digit_isDigit {n : ℕ} (h : n < 10) : isDigitAscii (Nat.digitChar n) = true := by
  have hall : ∀ k < 10, isDigitAscii (Nat.digitChar k) = true := by decide
  exact hall n h

theorem padded_succ (width n : ℕ) :
    padded (width + 1) n = Nat.digitChar (n / 10 ^ width % 10) :: padded width n := by
  rw [padded, List.range_succ, List.reverse_append, List.map_append]
  rfl

theorem length_padded (width n : ℕ) : (padded width n).length = width := by
  rw [padded, List.length_map, List.length_reverse, List.length_range]

theorem padded_digits (width n : ℕ) : (padded width n).all isDigitAscii = true := by
  rw [List.all_eq_true]
  intro c hc
  rw [padded, List.mem_map] at hc
  obtain ⟨place, -, rfl⟩ := hc
  exact digit_isDigit (Nat.mod_lt _ (by decide))

theorem foldl_padded (width n acc : ℕ) :
    (padded width n).foldl (fun n c => 10 * n + (c.toNat - 48)) acc =
      acc * 10 ^ width + n % 10 ^ width := by
  induction width generalizing acc with
  | zero =>
    show acc = acc * 10 ^ 0 + n % 10 ^ 0
    rw [pow_zero, Nat.mod_one]
    omega
  | succ width ih =>
    rw [padded_succ, List.foldl_cons, ih, digit_read (Nat.mod_lt _ (by decide)), Nat.pow_succ,
      Nat.mod_mul]
    ring

/-- Padded digits are read back, as long as they have room. -/
theorem readDigits_padded {width n : ℕ} (h : n < 10 ^ width) : readDigits (padded width n) = n := by
  rw [readDigits, foldl_padded, Nat.zero_mul, Nat.zero_add, Nat.mod_eq_of_lt h]

/-! ## Reading back the name of a copy -/

theorem matchName_stem {before : List Char} {endings : List (List Char)} {s ending : List Char}
    (hstamp : isStamp s = true) (hending : ending ∈ endings) (kind : BackupKind) :
    matchName before endings (before ++ (s ++ '-' :: (kind.text ++ ending))) = some (s, kind) := by
  have hlength : s.length = 16 := by
    simp only [isStamp, Bool.and_eq_true, beq_iff_eq] at hstamp
    exact hstamp.1.1.1.1
  have hbefore : (before ++ (s ++ '-' :: (kind.text ++ ending))).dropPrefix? before =
      some (s ++ '-' :: (kind.text ++ ending)) :=
    List.dropPrefix?_eq_some_iff.mpr ⟨before, rfl, BEq.rfl⟩
  have htake : (s ++ '-' :: (kind.text ++ ending)).take 16 = s := by
    rw [← hlength, List.take_left]
  have hdrop : (s ++ '-' :: (kind.text ++ ending)).drop 16 = '-' :: (kind.text ++ ending) := by
    rw [← hlength, List.drop_left]
  have hdash : ('-' :: (kind.text ++ ending)).dropPrefix? ['-'] = some (kind.text ++ ending) :=
    List.dropPrefix?_eq_some_iff.mpr ⟨['-'], rfl, BEq.rfl⟩
  have hkind : BACKUP_KINDS.find? (fun kind' => kind'.text.isPrefixOf (kind.text ++ ending)) =
      some kind := by
    cases kind with
    | daily => rfl
    | preMigration => rfl
    | manual => rfl
  unfold matchName
  simp only [hbefore, htake, hdrop, hdash, hkind, Option.bind_eq_bind, Option.bind_some,
    List.drop_left, hstamp, Bool.true_and, List.contains_iff_mem, hending, if_true]

/-- Instants of the years that are written with four digits. -/
def FourDigitYear (epochMs : ℤ) : Prop :=
  0 ≤ (Date.utcDate epochMs).year ∧ (Date.utcDate epochMs).year ≤ 9999

theorem filter_padded (width n : ℕ) :
    (padded width n).filter (fun c => c != '-' && c != ':') = padded width n := by
  rw [List.filter_eq_self]
  intro c hc
  have hdigit := List.all_eq_true.mp (padded_digits width n) c hc
  have hnot : isDigitAscii '-' = false ∧ isDigitAscii ':' = false := by decide
  rw [Bool.and_eq_true, bne_iff_ne, bne_iff_ne]
  constructor
  · rintro rfl
    rw [hnot.1] at hdigit
    cases hdigit
  · rintro rfl
    rw [hnot.2] at hdigit
    cases hdigit

def stampOf (year month day hour minute second : ℕ) : List Char :=
  padded 4 year ++ (padded 2 month ++ (padded 2 day ++ ('T' :: (padded 2 hour ++
    (padded 2 minute ++ (padded 2 second ++ ['Z']))))))

theorem stamp_eq {epochMs : ℤ} (h : FourDigitYear epochMs) :
    stamp epochMs = stampOf (Date.utcDate epochMs).year.toNat (Date.utcDate epochMs).month.toNat
      (Date.utcDate epochMs).day.toNat (epochMs % Date.msPerDay / 1000 / 3600).toNat
      (epochMs % Date.msPerDay / 1000 / 60 % 60).toNat
      (epochMs % Date.msPerDay / 1000 % 60).toNat := by
  have hyear : isoYear (Date.utcDate epochMs).year =
      padded 4 (Date.utcDate epochMs).year.toNat := if_pos h
  unfold stamp isoSeconds stampOf
  simp only [hyear, List.filter_append, filter_padded, List.append_assoc, List.cons_append,
    List.filter_cons, List.filter_nil]
  rfl

theorem isStamp_stampOf (year month day hour minute second : ℕ) :
    isStamp (stampOf year month day hour minute second) = true := by
  have hdate : (stampOf year month day hour minute second).take 8 =
      padded 4 year ++ (padded 2 month ++ padded 2 day) := rfl
  have htime : ((stampOf year month day hour minute second).drop 9).take 6 =
      padded 2 hour ++ (padded 2 minute ++ padded 2 second) := rfl
  have hlength : (stampOf year month day hour minute second).length = 16 := rfl
  have hT : ((stampOf year month day hour minute second).drop 8).take 1 = ['T'] := rfl
  have hZ : (stampOf year month day hour minute second).drop 15 = ['Z'] := rfl
  unfold isStamp
  simp only [hlength, hdate, htime, hT, hZ, List.all_append, padded_digits, Bool.and_self,
    beq_self_eq_true]

theorem parseStamp_stampOf {year month day hour minute second : ℕ} (hyear : year ≤ 9999)
    (hmonth : 1 ≤ month ∧ month ≤ 12) (hday : 1 ≤ day ∧ day ≤ 31) (hhour : hour ≤ 23)
    (hminute : minute ≤ 59) (hsecond : second ≤ 59) :
    parseStamp (stampOf year month day hour minute second) =
      some (Date.daysFromCivil year month day * Date.msPerDay + hour * 3600000 +
        minute * Date.msPerMinute + second * 1000) := by
  have hparts : readDigits (padded 4 year) = year ∧ readDigits (padded 2 month) = month ∧
      readDigits (padded 2 day) = day ∧ readDigits (padded 2 hour) = hour ∧
      readDigits (padded 2 minute) = minute ∧ readDigits (padded 2 second) = second :=
    ⟨readDigits_padded (by omega), readDigits_padded (by omega), readDigits_padded (by omega),
      readDigits_padded (by omega), readDigits_padded (by omega), readDigits_padded (by omega)⟩
  obtain ⟨hy, hm, hd, hh, hmin, hs⟩ := hparts
  have hread : parseStamp (stampOf year month day hour minute second) =
      if 1 ≤ (readDigits (padded 2 month) : ℤ) ∧ (readDigits (padded 2 month) : ℤ) ≤ 12 ∧
          1 ≤ (readDigits (padded 2 day) : ℤ) ∧ (readDigits (padded 2 day) : ℤ) ≤ 31 ∧
          (readDigits (padded 2 minute) : ℤ) ≤ 59 ∧ (readDigits (padded 2 second) : ℤ) ≤ 59 ∧
          ((readDigits (padded 2 hour) : ℤ) ≤ 23 ∨ (readDigits (padded 2 hour) : ℤ) = 24 ∧
            (readDigits (padded 2 minute) : ℤ) = 0 ∧ (readDigits (padded 2 second) : ℤ) = 0) then
        some (Date.daysFromCivil (readDigits (padded 4 year)) (readDigits (padded 2 month))
          (readDigits (padded 2 day)) * Date.msPerDay +
          (readDigits (padded 2 hour) : ℤ) * 3600000 +
          (readDigits (padded 2 minute) : ℤ) * Date.msPerMinute +
          (readDigits (padded 2 second) : ℤ) * 1000)
      else none := rfl
  rw [hread, hy, hm, hd, hh, hmin, hs, if_pos (by omega)]

theorem civilFromDays_day (days : ℤ) :
    1 ≤ (Date.civilFromDays days).day ∧ (Date.civilFromDays days).day ≤ 31 := by
  obtain ⟨era, yearOfEra, dayOfYear, mp, -, hday, hmp, -, -, -, hd⟩ :=
    Date.civilFromDays_parts days
  rw [hd]
  omega

/-- The instant of a stamp is that of the copy, cut down to the second. -/
theorem parseStamp_stamp {epochMs : ℤ} (h : FourDigitYear epochMs) :
    parseStamp (stamp epochMs) = some (epochMs / 1000 * 1000) := by
  have hmonth := Date.civilFromDays_month (epochMs / Date.msPerDay)
  have hday := civilFromDays_day (epochMs / Date.msPerDay)
  have hdays := Date.daysFromCivil_civilFromDays (epochMs / Date.msPerDay)
  obtain ⟨hlow, hhigh⟩ := h
  rw [stamp_eq ⟨hlow, hhigh⟩]
  unfold Date.utcDate at hlow hhigh ⊢
  have hms : Date.msPerDay = 86400000 := rfl
  have hmod : 0 ≤ epochMs % Date.msPerDay ∧ epochMs % Date.msPerDay < 86400000 := by
    rw [hms]
    omega
  rw [parseStamp_stampOf (by omega) (by omega) (by omega) (by omega) (by omega) (by omega),
    Int.toNat_of_nonneg hlow, Int.toNat_of_nonneg (by omega), Int.toNat_of_nonneg (by omega), hdays]
  congr 1
  have hminute : Date.msPerMinute = 60000 := rfl
  rw [hms, hminute]
  omega

theorem stamp_second {epochMs : ℤ} : stamp (epochMs / 1000 * 1000) = stamp epochMs := by
  have hday : epochMs / 1000 * 1000 / Date.msPerDay = epochMs / Date.msPerDay := by
    have hms : Date.msPerDay = 86400000 := rfl
    rw [hms]
    omega
  have hsecond : epochMs / 1000 * 1000 % Date.msPerDay / 1000 =
      epochMs % Date.msPerDay / 1000 := by
    have hms : Date.msPerDay = 86400000 := rfl
    rw [hms]
    omega
  unfold stamp isoSeconds Date.utcDate
  rw [hday, hsecond]

/-- The name of a copy is read back as the copy. -/
theorem parse_backupFileName {epochMs : ℤ} (h : FourDigitYear epochMs) (kind : BackupKind) :
    parseBackupFileName (backupFileName kind epochMs) =
      some { name := backupFileName kind epochMs, kind, takenAtMs := epochMs / 1000 * 1000 } := by
  have hstamp : isStamp (stamp epochMs) = true := by
    rw [stamp_eq h]
    exact isStamp_stampOf _ _ _ _ _ _
  have hname : backupFileName kind epochMs = "quoky-".toList ++
      (stamp epochMs ++ '-' :: (kind.text ++ ".db".toList)) := by
    show "quoky-".toList ++ stamp epochMs ++ '-' :: kind.text ++ ".db".toList = _
    rw [List.append_assoc, List.append_assoc]
    rfl
  have hmatch : FINAL_NAME (backupFileName kind epochMs) = some (stamp epochMs, kind) := by
    rw [hname]
    exact matchName_stem hstamp (List.mem_singleton.mpr rfl) kind
  unfold parseBackupFileName
  simp only [hmatch, parseStamp_stamp h, Option.bind_eq_bind, Option.bind_some, stamp_second, if_true]

end QuokyPlatform.Backups
