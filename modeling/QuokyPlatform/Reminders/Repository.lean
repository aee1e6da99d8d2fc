import Mathlib.Data.List.Sort
import QuokyPlatform.Foundations.Table
import QuokyPlatform.Reminders.Transitions

/-! # The SQLite reminder store

One row per reminder: the JSON document and the columns that mirror it for the due index and the
compare-and-set predicates. Every operation is one immediate transaction, so an operation that
throws leaves the table as it was. The document is kept as the reminder it encodes. -/

namespace QuokyPlatform.Reminders

set_option autoImplicit false
set_option maxHeartbeats 250000

/-- The first instant of the year 0 and the first instant of the year 10000. -/
def firstCanonicalMs : ℤ := -62167219200000
def endCanonicalMs : ℤ := 253402300800000

/-- The text `new Date(ms).toISOString()` of an instant of the years 0000 to 9999. In these years
the lexical order of the texts, which the due query uses, is the order of the instants. -/
structure CanonicalInstant where
  ms : ℤ
  fourDigitYear : firstCanonicalMs ≤ ms ∧ ms < endCanonicalMs
deriving DecidableEq, Repr

/-- The canonical text of an instant; it throws on an unparseable one. The model ends where the
text order stops being the time order: an instant of any other year is refused too. -/
def canonicalInstant (value : IsoTimestamp) : Except Failure CanonicalInstant :=
  match Date.parse value with
  | none => .error (.error "REMINDER_INSTANT_INVALID")
  | some ms =>
    if h : firstCanonicalMs ≤ ms ∧ ms < endCanonicalMs then .ok ⟨ms, h⟩ else .error .rangeError

theorem canonicalInstant_ok {value : IsoTimestamp} {instant : CanonicalInstant}
    (h : canonicalInstant value = .ok instant) : Date.parse value = some instant.ms := by
  unfold canonicalInstant at h
  split at h
  · cases h
  · rename_i ms hms
    split at h
    · cases h
      exact hms
    · cases h

structure ReminderRow where
  id : Id
  actorId : Id
  displayNo : ℕ
  status : ReminderStatus
  nextFireAt : Option CanonicalInstant
  data : Reminder
deriving DecidableEq, Repr

/-- `id TEXT PRIMARY KEY` and `UNIQUE(actor_id, display_no)`. -/
def ReminderRow.Clash (r s : ReminderRow) : Prop :=
  r.id = s.id ∨ (r.actorId = s.actorId ∧ r.displayNo = s.displayNo)

instance : DecidableRel ReminderRow.Clash := fun r s =>
  inferInstanceAs (Decidable (r.id = s.id ∨ (r.actorId = s.actorId ∧ r.displayNo = s.displayNo)))

instance : Std.Symm ReminderRow.Clash where
  symm _ _ h := h.imp Eq.symm fun h => ⟨h.1.symm, h.2.symm⟩

abbrev ReminderTable := Table ReminderRow ReminderRow.Clash

/-! ## Queries -/

def isActiveOf (actorId : Id) (row : ReminderRow) : Bool :=
  row.actorId == actorId && isActiveReminderStatus row.status

def countActive (table : ReminderTable) (actorId : Id) : ℕ := table.count (isActiveOf actorId)

def maxSafeInteger : ℤ := 9007199254740991

def isSafeInteger (n : ℤ) : Bool := -maxSafeInteger ≤ n && n ≤ maxSafeInteger

def findByDisplayNo (table : ReminderTable) (actorId : Id) (displayNo : ℤ) : Option ReminderRow :=
  if !isSafeInteger displayNo || displayNo < 1 then none
  else table.find fun row => row.actorId == actorId && (row.displayNo : ℤ) == displayNo

def getByDisplayNo (table : ReminderTable) (actorId : Id) (displayNo : ℤ) : Option Reminder :=
  (findByDisplayNo table actorId displayNo).map ReminderRow.data

def findById (table : ReminderTable) (id : Id) : Option ReminderRow :=
  table.find fun row => row.id == id

/-- `ORDER BY next_fire_at ASC, id ASC`; a missing instant sorts first. -/
def dueOrder (r s : ReminderRow) : Prop :=
  match r.nextFireAt, s.nextFireAt with
  | none, none => r.id ≤ s.id
  | none, some _ => True
  | some _, none => False
  | some a, some b => a.ms < b.ms ∨ (a.ms = b.ms ∧ r.id ≤ s.id)

instance : DecidableRel dueOrder := fun r s => by
  unfold dueOrder
  cases r.nextFireAt <;> cases s.nextFireAt <;> infer_instance

def isDue (dueBy : CanonicalInstant) (row : ReminderRow) : Bool :=
  row.status == .scheduled && row.nextFireAt.any fun instant => instant.ms ≤ dueBy.ms

def listFiring (table : ReminderTable) : List Reminder :=
  ((table.select fun row => row.status == .firing).insertionSort dueOrder).map ReminderRow.data

/-! ## The update path -/

/-- The mirror column of a reminder: its next fire while it is active. -/
def nextFireColumn (reminder : Reminder) : Except Failure (Option CanonicalInstant) :=
  match if isActiveReminderStatus reminder.status then reminder.nextFireAt else none with
  | none => .ok none
  | some nextFireAt => do return some (← canonicalInstant nextFireAt)

/-- The `WHERE` clause of the update: the id, the stored status and, when given, the attempt. -/
def matchesWrite (id : Id) (expectedStatus : ReminderStatus) (expectedAttemptId : Option Id)
    (row : ReminderRow) : Bool :=
  row.id == id && row.status == expectedStatus &&
    expectedAttemptId.all fun attemptId => row.data.firingAttemptId == some attemptId

def ReminderRow.rewrite (reminder : Reminder) (nextFireAt : Option CanonicalInstant)
    (row : ReminderRow) : ReminderRow :=
  { row with status := reminder.status, nextFireAt := nextFireAt, data := reminder }

/-- The single update path: the document and its mirror columns together, conditional on the stored
status. Exactly one row must change. -/
def write (table : ReminderTable) (reminder : Reminder) (expectedStatus : ReminderStatus)
    (expectedAttemptId : Option Id) : Except Failure ReminderTable := do
  let nextFireAt ← nextFireColumn reminder
  let selected := matchesWrite reminder.id expectedStatus expectedAttemptId
  match table.update selected (ReminderRow.rewrite reminder nextFireAt) with
  | none => .error (.error "UNIQUE constraint failed")
  | some updated =>
    if table.count selected ≠ 1 then .error (.error "REMINDER_CAS_LOST") else return updated

/-! ## Operations -/

inductive CreateReminderResult
  | stopped
  | limitReached (activeCount : ℕ)
  | created (reminder : Reminder)
deriving DecidableEq, Repr

inductive CancelReminderResult
  | stopped
  | notFound
  | inFlight (reminder : Reminder)
  | alreadyFinal (reminder : Reminder)
  | canceled (reminder : Reminder)
deriving DecidableEq, Repr

inductive CompleteFiringResult
  | conflict
  | completed (reminder : Reminder)
deriving DecidableEq, Repr

inductive ReactivateReminderResult
  | stopped
  | notFound
  | changed (reminder : Reminder)
  | limitReached (activeCount : ℕ)
  | reactivated (reminder : Reminder)
deriving DecidableEq, Repr

/-- `SELECT MAX(display_no) … WHERE actor_id = ?`, 0 when the actor has no row. -/
def maxDisplayNo (table : ReminderTable) (actorId : Id) : ℕ :=
  ((table.select fun row => row.actorId == actorId).map ReminderRow.displayNo).foldl max 0

/-- `condition` says whether the action switch lets the write happen. -/
def createWithinLimit (table : ReminderTable) (draft : ReminderDraft) (maxActive : ℤ)
    (condition : Bool) : Except Failure (CreateReminderResult × ReminderTable) :=
  if !isSafeInteger maxActive || maxActive < 0 then .error (.error "REMINDER_LIMIT_INVALID")
  else if draft.status ≠ .scheduled then .error (.error "REMINDER_DRAFT_INVALID")
  else match draft.nextFireAt with
    | none => .error (.error "REMINDER_DRAFT_INVALID")
    | some value => do
      let nextFireAt ← canonicalInstant value
      if !condition then return (.stopped, table)
      else
        let activeCount := countActive table draft.actorId
        if maxActive ≤ activeCount then return (.limitReached activeCount, table)
        else
          let reminder : Reminder :=
            { toReminderDraft := draft, displayNo := maxDisplayNo table draft.actorId + 1 }
          match table.insert {
              id := reminder.id, actorId := reminder.actorId, displayNo := reminder.displayNo,
              status := reminder.status, nextFireAt := some nextFireAt, data := reminder } with
          | none => .error (.error "UNIQUE constraint failed")
          | some table => return (.created reminder, table)

def cancel (table : ReminderTable) (actorId : Id) (displayNo : ℤ) (now : IsoTimestamp)
    (condition : Bool) : Except Failure (CancelReminderResult × ReminderTable) :=
  if !condition then .ok (.stopped, table)
  else match findByDisplayNo table actorId displayNo with
    | none => .ok (.notFound, table)
    | some row =>
      if row.status = .firing then .ok (.inFlight row.data, table)
      else if row.status ≠ .scheduled then .ok (.alreadyFinal row.data, table)
      else do
        let canceled ← cancelReminder row.data now
        let table ← write table canceled .scheduled none
        return (.canceled canceled, table)

/-- The loop of `claimDue` over the rows it selected. -/
def claimRows (attemptId : Id) (now : IsoTimestamp) :
    List ReminderRow → ReminderTable → Except Failure (List Reminder × ReminderTable)
  | [], table => .ok ([], table)
  | row :: rows, table => do
    let claimed ← claimReminder row.data attemptId now
    let table ← write table claimed .scheduled none
    let (rest, table) ← claimRows attemptId now rows table
    return (claimed :: rest, table)

def claimDue (table : ReminderTable) (now : IsoTimestamp) (limit : ℤ) (attemptId : Id) :
    Except Failure (List Reminder × ReminderTable) :=
  if !isSafeInteger limit || limit < 0 then .error (.error "REMINDER_LIMIT_INVALID")
  else if limit = 0 then .ok ([], table)
  else do
    let dueBy ← canonicalInstant now
    let rows := ((table.select (isDue dueBy)).insertionSort dueOrder).take limit.toNat
    claimRows attemptId now rows table

def completeFiring (table : ReminderTable) (id attemptId : Id)
    (completion : ReminderFiringCompletion) :
    Except Failure (CompleteFiringResult × ReminderTable) :=
  match findById table id with
  | none => .ok (.conflict, table)
  | some row =>
    if row.status ≠ .firing then .ok (.conflict, table)
    else if row.data.firingAttemptId ≠ some attemptId then .ok (.conflict, table)
    else do
      let next ← applyFiringCompletion row.data attemptId completion
      let table ← write table next .firing (some attemptId)
      return (.completed next, table)

def reactivate (table : ReminderTable) (actorId : Id) (next : Reminder)
    (expectedUpdatedAt : IsoTimestamp) (maxActive : ℤ) (condition : Bool) :
    Except Failure (ReactivateReminderResult × ReminderTable) :=
  if !isSafeInteger maxActive || maxActive < 0 then .error (.error "REMINDER_LIMIT_INVALID")
  else if next.status ≠ .scheduled ∨ next.nextFireAt = none ∨ next.actorId ≠ actorId then
    .error (.error "REMINDER_REACTIVATION_INVALID")
  else match next.nextFireAt with
    | none => .error (.error "REMINDER_REACTIVATION_INVALID")
    | some value => do
      let _ ← canonicalInstant value
      if !condition then return (.stopped, table)
      else match table.find fun row => row.id == next.id && row.actorId == actorId with
        | none => return (.notFound, table)
        | some row =>
          if row.status ≠ .canceled ∨ row.data.updatedAt ≠ expectedUpdatedAt ∨
              row.data.displayNo ≠ next.displayNo then return (.changed row.data, table)
          else
            let activeCount := countActive table actorId
            if maxActive ≤ activeCount then return (.limitReached activeCount, table)
            else
              let table ← write table next .canceled none
              return (.reactivated next, table)

/-! ## What the operations do

A successful operation either leaves the table alone, appends one row or rewrites one row. -/

theorem nextFireColumn_ok {reminder : Reminder} {column : Option CanonicalInstant}
    (h : nextFireColumn reminder = .ok column) :
    column.map CanonicalInstant.ms =
      if isActiveReminderStatus reminder.status then reminder.nextFireAt.bind Date.parse else none := by
  unfold nextFireColumn at h
  split at h
  · rename_i hnone
    cases h
    split at hnone <;> rename_i hactive
    · simp [hactive, hnone]
    · simp [hactive]
  · rename_i value hsome
    obtain ⟨instant, hinstant, h⟩ := bind_ok.mp h
    cases pure_ok.mp h
    split at hsome <;> rename_i hactive
    · simp [hactive, hsome, canonicalInstant_ok hinstant]
    · cases hsome

/-- The second table is the first with the document of one row replaced. -/
structure Rewritten (table updated : ReminderTable) (old : ReminderRow) (next : Reminder) : Prop where
  mem : old ∈ table.rows
  effect : ∃ column, nextFireColumn next = .ok column ∧ updated.rows =
    Table.updateRows table.rows (fun row => row.id == old.id) (ReminderRow.rewrite next column)

theorem row_of_id {table : ReminderTable} {r s : ReminderRow} (hr : r ∈ table.rows)
    (hs : s ∈ table.rows) (hid : r.id = s.id) : r = s :=
  table.eq_of_clash hr hs (Or.inl hid)

theorem Rewritten.mem_iff {table updated : ReminderTable} {old : ReminderRow} {next : Reminder}
    (h : Rewritten table updated old next) : ∃ column, nextFireColumn next = .ok column ∧
      ∀ row, row ∈ updated.rows ↔
        (row ∈ table.rows ∧ row.id ≠ old.id) ∨ row = old.rewrite next column := by
  obtain ⟨column, hcolumn, hrows⟩ := h.effect
  refine ⟨column, hcolumn, fun row => ?_⟩
  rw [hrows, Table.mem_updateRows]
  constructor
  · rintro ⟨r, hr, rfl⟩
    by_cases hid : r.id = old.id
    · obtain rfl := row_of_id hr h.mem hid
      exact Or.inr (by rw [beq_self_eq_true, cond_true])
    · rw [beq_eq_false_iff_ne.mpr hid, cond_false]
      exact Or.inl ⟨hr, hid⟩
  · rintro (⟨hr, hid⟩ | rfl)
    · exact ⟨row, hr, by rw [beq_eq_false_iff_ne.mpr hid, cond_false]⟩
    · exact ⟨old, h.mem, by rw [beq_self_eq_true, cond_true]⟩

theorem matchesWrite_iff {id : Id} {expectedStatus : ReminderStatus} {expectedAttemptId : Option Id}
    {row : ReminderRow} :
    matchesWrite id expectedStatus expectedAttemptId row = true ↔
      row.id = id ∧ row.status = expectedStatus ∧
        ∀ attemptId, expectedAttemptId = some attemptId → row.data.firingAttemptId = some attemptId := by
  cases expectedAttemptId <;> simp [matchesWrite, and_assoc]

/-- A write rewrites the one row of its id, which had the expected status and attempt. -/
theorem write_ok {table updated : ReminderTable} {reminder : Reminder}
    {expectedStatus : ReminderStatus} {expectedAttemptId : Option Id}
    (h : write table reminder expectedStatus expectedAttemptId = .ok updated) :
    ∃ old, Rewritten table updated old reminder ∧
      matchesWrite reminder.id expectedStatus expectedAttemptId old = true := by
  unfold write at h
  obtain ⟨column, hcolumn, h⟩ := bind_ok.mp h
  simp only at h
  split at h
  · cases h
  · rename_i result hresult
    rw [ite_error_ok, not_not, pure_ok] at h
    obtain ⟨hcount, rfl⟩ := h
    obtain ⟨old, hold, hmatch⟩ : ∃ old ∈ table.rows,
        matchesWrite reminder.id expectedStatus expectedAttemptId old = true := by
      rw [← List.countP_pos_iff]
      rw [Table.count] at hcount
      omega
    refine ⟨old, ⟨hold, column, hcolumn, ?_⟩, hmatch⟩
    rw [Table.update_rows hresult]
    refine List.map_congr_left fun row hrow => ?_
    have hid := (matchesWrite_iff.mp hmatch).1
    by_cases hsame : row.id = old.id
    · obtain rfl := row_of_id hrow hold hsame
      simp [hmatch]
    · have hother : matchesWrite reminder.id expectedStatus expectedAttemptId row = false := by
        rw [Bool.eq_false_iff, ne_eq, matchesWrite_iff]
        exact fun h => hsame (h.1.trans hid.symm)
      have hbeq : (row.id == old.id) = false := beq_eq_false_iff_ne.mpr hsame
      simp only [hother, hbeq]

/-- A write on behalf of a stored row whose document has its id. -/
theorem write_of_row {table updated : ReminderTable} {row : ReminderRow} {next : Reminder}
    {expectedStatus : ReminderStatus} {expectedAttemptId : Option Id} (hrow : row ∈ table.rows)
    (hid : next.id = row.id) (h : write table next expectedStatus expectedAttemptId = .ok updated) :
    Rewritten table updated row next := by
  obtain ⟨old, hold, hmatch⟩ := write_ok h
  obtain rfl := row_of_id hold.mem hrow ((matchesWrite_iff.mp hmatch).1.trans hid)
  exact hold

theorem createWithinLimit_ok {table updated : ReminderTable} {draft : ReminderDraft}
    {maxActive : ℤ} {condition : Bool} {result : CreateReminderResult}
    (h : createWithinLimit table draft maxActive condition = .ok (result, updated)) :
    updated = table ∨ ∃ row, updated.rows = table.rows ++ [row] ∧
      (∀ other ∈ table.rows, other.id ≠ row.id) ∧ countActive table draft.actorId < maxActive ∧
      draft.status = .scheduled ∧ row.id = draft.id ∧ row.actorId = draft.actorId ∧
      row.status = .scheduled ∧ row.data = { toReminderDraft := draft, displayNo := row.displayNo } ∧
      row.nextFireAt.map CanonicalInstant.ms = draft.nextFireAt.bind Date.parse := by
  unfold createWithinLimit at h
  simp only [ite_error_ok, ne_eq, not_not] at h
  obtain ⟨-, hstatus, h⟩ := h
  split at h
  · cases h
  · rename_i value hvalue
    obtain ⟨nextFireAt, hcanonical, h⟩ := bind_ok.mp h
    split at h
    · cases pure_ok.mp h
      exact Or.inl rfl
    · split at h
      · cases pure_ok.mp h
        exact Or.inl rfl
      · rename_i hroom
        split at h
        · cases h
        · rename_i inserted hinsert
          cases pure_ok.mp h
          obtain ⟨hfree, hrows⟩ := Table.insert_eq_some hinsert
          refine Or.inr ⟨_, hrows, fun other hother hid => hfree other hother (Or.inl hid),
            by omega, hstatus, rfl, rfl, hstatus, rfl, ?_⟩
          simp [hvalue, canonicalInstant_ok hcanonical]

theorem cancel_ok {table updated : ReminderTable} {actorId : Id} {displayNo : ℤ}
    {now : IsoTimestamp} {condition : Bool} {result : CancelReminderResult}
    (hid : ∀ row ∈ table.rows, row.data.id = row.id)
    (h : cancel table actorId displayNo now condition = .ok (result, updated)) :
    updated = table ∨ ∃ old next, Rewritten table updated old next ∧
      cancelReminder old.data now = .ok next := by
  unfold cancel at h
  split at h
  · cases h
    exact Or.inl rfl
  · split at h
    · cases h
      exact Or.inl rfl
    · rename_i row hfound
      split at h
      · cases h
        exact Or.inl rfl
      · split at h
        · cases h
          exact Or.inl rfl
        · obtain ⟨canceled, hcanceled, h⟩ := bind_ok.mp h
          obtain ⟨written, hwrite, h⟩ := bind_ok.mp h
          cases pure_ok.mp h
          have hrow : row ∈ table.rows := by
            unfold findByDisplayNo at hfound
            split at hfound
            · cases hfound
            · exact (Table.find_some hfound).1
          have hsame : canceled.id = row.id := by
            obtain ⟨-, rfl⟩ := cancelReminder_ok hcanceled
            exact hid row hrow
          exact Or.inr ⟨row, canceled, write_of_row hrow hsame hwrite, hcanceled⟩

theorem completeFiring_ok {table updated : ReminderTable} {id attemptId : Id}
    {completion : ReminderFiringCompletion} {result : CompleteFiringResult}
    (hid : ∀ row ∈ table.rows, row.data.id = row.id)
    (h : completeFiring table id attemptId completion = .ok (result, updated)) :
    updated = table ∨ ∃ old next, Rewritten table updated old next ∧ old.id = id ∧
      applyFiringCompletion old.data attemptId completion = .ok next := by
  unfold completeFiring at h
  split at h
  · cases h
    exact Or.inl rfl
  · rename_i row hfound
    split at h
    · cases h
      exact Or.inl rfl
    · split at h
      · cases h
        exact Or.inl rfl
      · obtain ⟨next, hnext, h⟩ := bind_ok.mp h
        obtain ⟨written, hwrite, h⟩ := bind_ok.mp h
        cases pure_ok.mp h
        obtain ⟨hrow, hwhere⟩ := Table.find_some hfound
        have hsame : next.id = row.id := by
          obtain ⟨-, -, rfl⟩ := applyFiringCompletion_ok hnext
          exact hid row hrow
        exact Or.inr ⟨row, next, write_of_row hrow hsame hwrite, by simpa using hwhere, hnext⟩

theorem reactivate_ok {table updated : ReminderTable} {actorId : Id} {next : Reminder}
    {expectedUpdatedAt : IsoTimestamp} {maxActive : ℤ} {condition : Bool}
    {result : ReactivateReminderResult}
    (h : reactivate table actorId next expectedUpdatedAt maxActive condition =
      .ok (result, updated)) :
    updated = table ∨ ∃ old, Rewritten table updated old next ∧ old.id = next.id ∧
      old.actorId = next.actorId ∧ old.data.displayNo = next.displayNo ∧ old.status = .canceled ∧
      old.data.updatedAt = expectedUpdatedAt ∧ next.status = .scheduled ∧
      countActive table next.actorId < maxActive := by
  unfold reactivate at h
  simp only [ite_error_ok, not_or, ne_eq, not_not] at h
  obtain ⟨-, ⟨hscheduled, -, rfl⟩, h⟩ := h
  split at h
  · cases h
  · obtain ⟨-, -, h⟩ := bind_ok.mp h
    split at h
    · cases pure_ok.mp h
      exact Or.inl rfl
    · split at h
      · cases pure_ok.mp h
        exact Or.inl rfl
      · rename_i row hfound
        split at h
        · cases pure_ok.mp h
          exact Or.inl rfl
        · rename_i hunchanged
          split at h
          · cases pure_ok.mp h
            exact Or.inl rfl
          · rename_i hroom
            obtain ⟨written, hwrite, h⟩ := bind_ok.mp h
            cases pure_ok.mp h
            obtain ⟨hrow, hwhere⟩ := Table.find_some hfound
            rw [Bool.and_eq_true, beq_iff_eq, beq_iff_eq] at hwhere
            rw [not_or, not_or, not_not, not_not, not_not] at hunchanged
            exact Or.inr ⟨row, write_of_row hrow hwhere.1.symm hwrite, hwhere.1, hwhere.2,
              hunchanged.2.2, hunchanged.1, hunchanged.2.1, hscheduled, by omega⟩

/-- The claim loop from one table to another: each row in turn is rewritten by its own claim. -/
inductive ClaimChain (attemptId : Id) (now : IsoTimestamp) :
    List ReminderRow → ReminderTable → List Reminder → ReminderTable → Prop
  | nil (table : ReminderTable) : ClaimChain attemptId now [] table [] table
  | cons {row : ReminderRow} {rows : List ReminderRow} {claimed : Reminder} {rest : List Reminder}
      {table written updated : ReminderTable} (hclaim : claimReminder row.data attemptId now = .ok claimed)
      (hwrite : Rewritten table written row claimed)
      (hrest : ClaimChain attemptId now rows written rest updated) :
      ClaimChain attemptId now (row :: rows) table (claimed :: rest) updated

/-- Distinct rows of the table stay in it, as they were read, until the loop comes to them. -/
theorem claimRows_ok {attemptId : Id} {now : IsoTimestamp} :
    ∀ {rows : List ReminderRow} {table updated : ReminderTable} {claimed : List Reminder},
      (∀ row ∈ rows, row ∈ table.rows ∧ row.data.id = row.id) →
      (rows.Pairwise fun r s => r.id ≠ s.id) →
      claimRows attemptId now rows table = .ok (claimed, updated) →
      ClaimChain attemptId now rows table claimed updated
  | [], table, updated, claimed, _, _, h => by
    cases h
    exact .nil table
  | row :: rows, table, updated, claimed, hmem, hdistinct, h => by
    rw [claimRows] at h
    obtain ⟨first, hfirst, h⟩ := bind_ok.mp h
    obtain ⟨written, hwrite, h⟩ := bind_ok.mp h
    obtain ⟨⟨rest, final⟩, hrest, h⟩ := bind_ok.mp h
    cases pure_ok.mp h
    obtain ⟨hrow, hid⟩ := hmem row List.mem_cons_self
    have hsame : first.id = row.id := by
      obtain ⟨-, rfl⟩ := claimReminder_ok hfirst
      exact hid
    have hwritten := write_of_row hrow hsame hwrite
    rw [List.pairwise_cons] at hdistinct
    refine .cons hfirst hwritten (claimRows_ok (fun other hother => ?_) hdistinct.2 hrest)
    obtain ⟨hin, hother'⟩ := hmem other (List.mem_cons_of_mem _ hother)
    obtain ⟨column, -, hiff⟩ := hwritten.mem_iff
    exact ⟨(hiff other).mpr (Or.inl ⟨hin, (hdistinct.1 other hother).symm⟩), hother'⟩

/-- What `claimDue` claims: a chain over distinct due rows of the table. -/
theorem claimDue_ok {table updated : ReminderTable} {now : IsoTimestamp} {limit : ℤ}
    {attemptId : Id} {claimed : List Reminder} (hid : ∀ row ∈ table.rows, row.data.id = row.id)
    (h : claimDue table now limit attemptId = .ok (claimed, updated)) :
    (claimed = [] ∧ updated = table) ∨ ∃ dueBy rows, Date.parse now = some dueBy ∧
      (∀ row ∈ rows, row ∈ table.rows ∧ row.status = .scheduled ∧
        ∃ instant, row.nextFireAt = some instant ∧ instant.ms ≤ dueBy) ∧
      (rows.Pairwise fun r s => r.id ≠ s.id) ∧
      ClaimChain attemptId now rows table claimed updated := by
  unfold claimDue at h
  rw [ite_error_ok] at h
  obtain ⟨-, h⟩ := h
  split at h
  · cases h
    exact Or.inl ⟨rfl, rfl⟩
  · obtain ⟨dueBy, hdueBy, h⟩ := bind_ok.mp h
    have hdue : ∀ row ∈ ((table.select (isDue dueBy)).insertionSort dueOrder).take limit.toNat,
        row ∈ table.rows ∧ row.status = .scheduled ∧
          ∃ instant, row.nextFireAt = some instant ∧ instant.ms ≤ dueBy.ms := by
      intro row hrow
      have hselected := (List.mem_insertionSort _).mp (List.mem_of_mem_take hrow)
      rw [Table.select, List.mem_filter, isDue, Bool.and_eq_true, beq_iff_eq] at hselected
      refine ⟨hselected.1, hselected.2.1, ?_⟩
      simpa [Option.any_eq_true] using hselected.2.2
    have hdistinct : (((table.select (isDue dueBy)).insertionSort dueOrder).take
        limit.toNat).Pairwise fun r s => r.id ≠ s.id := by
      have hrows : (table.select (isDue dueBy)).Pairwise fun r s => r.id ≠ s.id :=
        (table.distinct.imp fun hclash hid => hclash (Or.inl hid)).filter _
      have hsymm : ∀ {r s : ReminderRow}, r.id ≠ s.id → s.id ≠ r.id := Ne.symm
      exact ((List.perm_insertionSort dueOrder _).pairwise_iff hsymm |>.mpr hrows).take
    refine Or.inr ⟨dueBy.ms, _, canonicalInstant_ok hdueBy, hdue, hdistinct, ?_⟩
    exact claimRows_ok (fun row hrow => ⟨(hdue row hrow).1, hid row (hdue row hrow).1⟩) hdistinct h

end QuokyPlatform.Reminders
