import QuokyPlatform.Foundations.Machine
import QuokyPlatform.Reminders.Repository

/-! # The invariant of the reminder store

The six repository operations run in any order on one table, all with the same limit. Each rewrites
a document and the columns that mirror it; what holds of every row, of every actor and between two
states of the table is proved per operation and carried along the run. -/

namespace QuokyPlatform.Reminders

set_option autoImplicit false
set_option maxHeartbeats 250000

/-! ## The store machine -/

/-- The three planners of a completion, with what the dispatcher hands them. -/
inductive CompletionPlan
  | firing (result : ReminderFiringResult) (context : FiringCompletionContext)
  | eventReschedule (now occurrenceAt : IsoTimestamp)
  | eventCanceled (outcome : NotificationDeliveryOutcome) (now : IsoTimestamp)
deriving DecidableEq, Repr

def CompletionPlan.completion (claimed : Reminder) :
    CompletionPlan → Except Failure ReminderFiringCompletion
  | .firing result context => planFiringCompletion claimed result context
  | .eventReschedule now occurrenceAt => planEventRescheduleCompletion claimed now occurrenceAt
  | .eventCanceled outcome now => planEventCanceledCompletion claimed outcome now

/-- A plan is made at or after the claim it completes. -/
def CompletionPlan.inOrder (claimed : Reminder) : CompletionPlan → Bool
  | .firing _ context => context.inOrder claimed
  | .eventReschedule _ _ => true
  | .eventCanceled _ now => FiringCompletionContext.inOrder { at' := now } claimed

inductive StoreOp
  | create (input : NewReminderInput) (condition : Bool)
  | cancel (actorId : Id) (displayNo : ℤ) (now : IsoTimestamp) (condition : Bool)
  | claimDue (now : IsoTimestamp) (limit : ℤ) (attemptId : Id)
  | complete (claimed : Reminder) (attemptId : Id) (plan : CompletionPlan)
  | reactivate (actorId : Id) (canceled : Reminder) (now nextFireAt : IsoTimestamp)
      (schedule : Option ReminderSchedule) (expectedUpdatedAt : IsoTimestamp) (condition : Bool)
deriving DecidableEq, Repr

def StoreOp.isReactivate : StoreOp → Bool
  | .reactivate .. => true
  | _ => false

/-- The table and every reminder a claim has returned. -/
structure StoreState where
  table : ReminderTable
  claimed : List Reminder

def StoreState.empty : StoreState := { table := Table.empty, claimed := [] }

/-- One operation. A call that throws is rolled back, so no state follows it. -/
def storeStep (maxActive : ℕ) (s : StoreState) : StoreOp → Option StoreState
  | .create input condition => do
    let draft ← (createReminderDraft input).toOption
    let (_, table) ← (createWithinLimit s.table draft maxActive condition).toOption
    return { s with table := table }
  | .cancel actorId displayNo now condition => do
    let (_, table) ← (cancel s.table actorId displayNo now condition).toOption
    return { s with table := table }
  | .claimDue now limit attemptId => do
    let (claimed, table) ← (claimDue s.table now limit attemptId).toOption
    return { table := table, claimed := claimed ++ s.claimed }
  | .complete claimed attemptId plan =>
    if claimed ∈ s.claimed ∧ plan.inOrder claimed = true then do
      let completion ← (plan.completion claimed).toOption
      let (_, table) ← (completeFiring s.table claimed.id attemptId completion).toOption
      return { s with table := table }
    else none
  | .reactivate actorId canceled now nextFireAt schedule expectedUpdatedAt condition => do
    let next ← (reactivateReminder canceled now nextFireAt schedule).toOption
    let (_, table) ←
      (reactivate s.table actorId next expectedUpdatedAt maxActive condition).toOption
    return { s with table := table }

/-! ## The invariant -/

/-- The mirror columns of a row agree with its document. -/
structure ColumnsAgree (row : ReminderRow) : Prop where
  id_eq : row.data.id = row.id
  actorId_eq : row.data.actorId = row.actorId
  displayNo_eq : row.data.displayNo = row.displayNo
  status_eq : row.data.status = row.status
  nextFireAt_eq : row.nextFireAt.map CanonicalInstant.ms =
    if isActiveReminderStatus row.status then row.data.nextFireAt.bind Date.parse else none

structure RowInvariant (row : ReminderRow) : Prop where
  columns : ColumnsAgree row
  shape : Shape row.data

structure TableInvariant (maxActive : ℕ) (table : ReminderTable) : Prop where
  rows : ∀ row ∈ table.rows, RowInvariant row
  limit : ∀ actorId, countActive table actorId ≤ maxActive

structure StateInvariant (maxActive : ℕ) (s : StoreState) : Prop where
  table : TableInvariant maxActive s.table
  claimed : ∀ reminder ∈ s.claimed, FiringShape reminder

structure SameKey (r s : ReminderRow) : Prop where
  id_eq : s.id = r.id
  actorId_eq : s.actorId = r.actorId
  displayNo_eq : s.displayNo = r.displayNo

theorem SameKey.refl (r : ReminderRow) : SameKey r r := ⟨rfl, rfl, rfl⟩

theorem SameKey.trans {r s t : ReminderRow} (h₁ : SameKey r s) (h₂ : SameKey s t) : SameKey r t :=
  ⟨h₂.1.trans h₁.1, h₂.2.trans h₁.2, h₂.3.trans h₁.3⟩

/-- Every row is still there under its id and number, and a row of a final status is untouched. -/
def RowsKept (final : ReminderStatus → Bool) (t t' : ReminderTable) : Prop :=
  ∀ row ∈ t.rows, ∃ row' ∈ t'.rows, SameKey row row' ∧ (final row.status = true → row' = row)

/-- A terminal status other than `CANCELED`. -/
def isSettledStatus (status : ReminderStatus) : Bool :=
  isTerminalReminderStatus status && status != .canceled

theorem RowsKept.refl (final : ReminderStatus → Bool) (t : ReminderTable) : RowsKept final t t :=
  fun row hrow => ⟨row, hrow, SameKey.refl row, fun _ => rfl⟩

theorem RowsKept.trans {final : ReminderStatus → Bool} {t u v : ReminderTable}
    (h₁ : RowsKept final t u) (h₂ : RowsKept final u v) : RowsKept final t v := by
  intro row hrow
  obtain ⟨row', hrow', hkey, hfinal⟩ := h₁ row hrow
  obtain ⟨row'', hrow'', hkey', hfinal'⟩ := h₂ row' hrow'
  refine ⟨row'', hrow'', hkey.trans hkey', fun h => ?_⟩
  have heq := hfinal h
  rw [← heq]
  exact hfinal' (heq ▸ h)

theorem RowsKept.mono {final final' : ReminderStatus → Bool} {t u : ReminderTable}
    (hle : ∀ status, final' status = true → final status = true) (h : RowsKept final t u) :
    RowsKept final' t u := by
  intro row hrow
  obtain ⟨row', hrow', hkey, hfinal⟩ := h row hrow
  exact ⟨row', hrow', hkey, fun h => hfinal (hle _ h)⟩

theorem settled_terminal (status : ReminderStatus) (h : isSettledStatus status = true) :
    isTerminalReminderStatus status = true := by
  rw [isSettledStatus, Bool.and_eq_true] at h
  exact h.1

theorem not_terminal_scheduled : isTerminalReminderStatus .scheduled = false := rfl
theorem not_terminal_firing : isTerminalReminderStatus .firing = false := rfl

/-! ## Rewriting one row -/

section rewritten

variable {table updated : ReminderTable} {old : ReminderRow} {next : Reminder}

theorem Rewritten.row_invariant (h : Rewritten table updated old next)
    (hrows : ∀ row ∈ table.rows, RowInvariant row) (hshape : Shape next) (hid : next.id = old.id)
    (hactor : next.actorId = old.actorId) (hno : next.displayNo = old.displayNo) :
    ∀ row ∈ updated.rows, RowInvariant row := by
  obtain ⟨column, hcolumn, hiff⟩ := h.mem_iff
  intro row hrow
  rcases (hiff row).mp hrow with ⟨hmem, -⟩ | rfl
  · exact hrows row hmem
  · exact ⟨⟨hid, hactor, hno, rfl, nextFireColumn_ok hcolumn⟩, hshape⟩

theorem Rewritten.kept (h : Rewritten table updated old next) {final : ReminderStatus → Bool}
    (hfinal : final old.status = false) : RowsKept final table updated := by
  obtain ⟨column, -, hiff⟩ := h.mem_iff
  intro row hrow
  by_cases hid : row.id = old.id
  · obtain rfl := row_of_id hrow h.mem hid
    refine ⟨row.rewrite next column, (hiff _).mpr (Or.inr rfl), ⟨rfl, rfl, rfl⟩, fun h => ?_⟩
    rw [hfinal] at h
    cases h
  · exact ⟨row, (hiff row).mpr (Or.inl ⟨hrow, hid⟩), SameKey.refl row, fun _ => rfl⟩

/-- Rewriting an active row does not raise the number of active reminders. -/
theorem Rewritten.limit (h : Rewritten table updated old next)
    (hactive : isActiveReminderStatus old.status = true) (actorId : Id) :
    countActive updated actorId ≤ countActive table actorId := by
  obtain ⟨column, -, hrows⟩ := h.effect
  rw [countActive, Table.count, hrows]
  refine Table.countP_updateRows_le fun row hrow hmatch hcounted => ?_
  obtain rfl := row_of_id hrow h.mem (by simpa using hmatch)
  simp only [isActiveOf, ReminderRow.rewrite, Bool.and_eq_true] at hcounted ⊢
  exact ⟨hcounted.1, hactive⟩

/-- Rewriting any row raises the number of its actor by one at most, and of no other actor. -/
theorem Rewritten.limit_succ (h : Rewritten table updated old next) (actorId : Id) :
    countActive updated actorId ≤ countActive table actorId + if old.actorId = actorId then 1 else 0 := by
  obtain ⟨column, -, hrows⟩ := h.effect
  rw [countActive, Table.count, hrows]
  split
  · have hle := Table.countP_updateRows_le_add table.rows (fun row => row.id == old.id)
      (isActiveOf actorId) (ReminderRow.rewrite next column)
    have hone : table.rows.countP (fun row => row.id == old.id) ≤ 1 := by
      refine Table.countP_le_one (fun r s hr hs => Or.inl ?_) table.distinct
      rw [beq_iff_eq] at hr hs
      exact hr.trans hs.symm
    have heq : countActive table actorId = table.rows.countP (isActiveOf actorId) := rfl
    omega
  · rename_i hother
    refine Table.countP_updateRows_le fun row hrow hmatch hcounted => ?_
    obtain rfl := row_of_id hrow h.mem (by simpa using hmatch)
    simp only [isActiveOf, ReminderRow.rewrite, Bool.and_eq_true, beq_iff_eq] at hcounted
    exact absurd hcounted.1 hother

end rewritten

/-! ## The operations -/

section operations

variable {maxActive : ℕ} {table updated : ReminderTable}

theorem RowInvariant.of_status {row : ReminderRow} (h : RowInvariant row) {status : ReminderStatus}
    (hstatus : row.data.status = status) : row.status = status :=
  h.columns.status_eq.symm.trans hstatus

theorem RowInvariant.scheduled {row : ReminderRow} (h : RowInvariant row)
    (hstatus : row.status = .scheduled) : ScheduledShape row.data := by
  have hshape := h.shape
  rw [Shape, h.columns.status_eq, hstatus] at hshape
  exact hshape

theorem RowInvariant.firing {row : ReminderRow} (h : RowInvariant row)
    (hstatus : row.status = .firing) : FiringShape row.data := by
  have hshape := h.shape
  rw [Shape, h.columns.status_eq, hstatus] at hshape
  exact hshape

theorem TableInvariant.ids (hs : TableInvariant maxActive table) :
    ∀ row ∈ table.rows, row.data.id = row.id :=
  fun row hrow => (hs.rows row hrow).columns.id_eq

/-- Rewriting an active row by a successor of its document keeps the table sound. -/
theorem Rewritten.sound {old : ReminderRow} {next : Reminder} (hs : TableInvariant maxActive table)
    (h : Rewritten table updated old next) (hshape : Shape next) (hid : next.id = old.data.id)
    (hactor : next.actorId = old.data.actorId) (hno : next.displayNo = old.data.displayNo)
    (hactive : isActiveReminderStatus old.status = true) :
    TableInvariant maxActive updated ∧ RowsKept isTerminalReminderStatus table updated := by
  have hcolumns := (hs.rows old h.mem).columns
  refine ⟨⟨h.row_invariant hs.rows hshape (hid.trans hcolumns.id_eq)
    (hactor.trans hcolumns.actorId_eq) (hno.trans hcolumns.displayNo_eq), fun actorId => ?_⟩,
    h.kept ?_⟩
  · exact le_trans (h.limit hactive actorId) (hs.limit actorId)
  · rw [isActive_iff_not_terminal] at hactive
    simpa using hactive

/-- The row a creation appends. -/
theorem created_row_invariant {input : NewReminderInput} {draft : ReminderDraft} {row : ReminderRow}
    (hdraft : createReminderDraft input = .ok draft) (hstatus : draft.status = .scheduled)
    (hid : row.id = draft.id) (hactor : row.actorId = draft.actorId) (hrow : row.status = .scheduled)
    (hdata : row.data = { toReminderDraft := draft, displayNo := row.displayNo })
    (hcolumn : row.nextFireAt.map CanonicalInstant.ms = draft.nextFireAt.bind Date.parse) :
    RowInvariant row := by
  refine ⟨⟨?_, ?_, ?_, ?_, ?_⟩, ?_⟩
  · rw [hdata, hid]
  · rw [hdata, hactor]
  · rw [hdata]
  · rw [hdata, hrow, hstatus]
  · rw [hcolumn, hrow, hdata]
    rfl
  · rw [hdata, Shape]
    simpa [hstatus] using shape_of_draft hdraft _

theorem create_sound {input : NewReminderInput} {draft : ReminderDraft} {condition : Bool}
    {result : CreateReminderResult} (hs : TableInvariant maxActive table)
    (hdraft : createReminderDraft input = .ok draft)
    (h : createWithinLimit table draft maxActive condition = .ok (result, updated)) :
    TableInvariant maxActive updated ∧ RowsKept isTerminalReminderStatus table updated := by
  rcases createWithinLimit_ok h with
    rfl | ⟨row, hrows, -, hroom, hstatus, hid, hactor, hrow, hdata, hcolumn⟩
  · exact ⟨hs, RowsKept.refl _ _⟩
  · refine ⟨⟨fun other hother => ?_, fun actorId => ?_⟩, fun other hother => ?_⟩
    · rw [hrows, List.mem_append, List.mem_singleton] at hother
      rcases hother with hother | rfl
      · exact hs.rows other hother
      · exact created_row_invariant hdraft hstatus hid hactor hrow hdata hcolumn
    · have hold := hs.limit actorId
      rw [countActive, Table.count] at hold hroom ⊢
      rw [hrows, List.countP_append, List.countP_singleton]
      split
      · rename_i hcounted
        simp only [isActiveOf, Bool.and_eq_true, beq_iff_eq] at hcounted
        rw [← hactor, hcounted.1] at hroom
        omega
      · omega
    · exact ⟨other, by rw [hrows]; exact List.mem_append_left _ hother, SameKey.refl other,
        fun _ => rfl⟩

theorem cancel_sound {actorId : Id} {displayNo : ℤ} {now : IsoTimestamp} {condition : Bool}
    {result : CancelReminderResult} (hs : TableInvariant maxActive table)
    (h : cancel table actorId displayNo now condition = .ok (result, updated)) :
    TableInvariant maxActive updated ∧ RowsKept isTerminalReminderStatus table updated := by
  rcases cancel_ok hs.ids h with rfl | ⟨old, next, hwrite, hcanceled⟩
  · exact ⟨hs, RowsKept.refl _ _⟩
  · have hshape := shape_of_cancel hcanceled
    obtain ⟨hstatus, rfl⟩ := cancelReminder_ok hcanceled
    exact hwrite.sound hs hshape rfl rfl rfl
      (by rw [(hs.rows old hwrite.mem).of_status hstatus]; rfl)

/-- Each claim of the loop is of a due scheduled row. -/
theorem ClaimChain.sound {attemptId : Id} {now : IsoTimestamp} {started : ℤ}
    (hnow : Date.parse now = some started) {rows : List ReminderRow} {claimed : List Reminder}
    (h : ClaimChain attemptId now rows table claimed updated)
    (hdue : ∀ row ∈ rows, ∃ instant, row.nextFireAt = some instant ∧ instant.ms ≤ started)
    (hs : TableInvariant maxActive table) :
    TableInvariant maxActive updated ∧ RowsKept isTerminalReminderStatus table updated ∧
      ∀ reminder ∈ claimed, FiringShape reminder := by
  induction h with
  | nil table => exact ⟨hs, RowsKept.refl _ _, by simp⟩
  | @cons row rows claimed rest table written updated hclaim hwrite _ ih =>
    have hrow := hs.rows row hwrite.mem
    have hstatus := hrow.of_status (claimReminder_ok hclaim).1
    have hshape : FiringShape claimed := by
      refine shape_of_claim (hrow.scheduled hstatus) hclaim hnow fun nextFire hnext => ?_
      obtain ⟨instant, hinstant, hle⟩ := hdue row List.mem_cons_self
      have hcolumn := hrow.columns.nextFireAt_eq
      rw [hstatus, isActiveReminderStatus, hnext, hinstant] at hcolumn
      obtain rfl : instant.ms = nextFire := by simpa using hcolumn
      exact hle
    have hnext : Shape claimed ∧ claimed.id = row.data.id ∧ claimed.actorId = row.data.actorId ∧
        claimed.displayNo = row.data.displayNo := by
      obtain ⟨-, rfl⟩ := claimReminder_ok hclaim
      exact ⟨hshape, rfl, rfl, rfl⟩
    obtain ⟨hwritten, hkept⟩ := hwrite.sound hs hnext.1 hnext.2.1 hnext.2.2.1 hnext.2.2.2
      (by rw [hstatus]; rfl)
    obtain ⟨hfinal, hkept', hclaimed⟩ :=
      ih (fun other hother => hdue other (List.mem_cons_of_mem _ hother)) hwritten
    refine ⟨hfinal, hkept.trans hkept', fun reminder hmem => ?_⟩
    rcases List.mem_cons.mp hmem with rfl | hmem
    · exact hshape
    · exact hclaimed reminder hmem

theorem claimDue_sound {now : IsoTimestamp} {limit : ℤ} {attemptId : Id} {claimed : List Reminder}
    (hs : TableInvariant maxActive table)
    (h : claimDue table now limit attemptId = .ok (claimed, updated)) :
    TableInvariant maxActive updated ∧ RowsKept isTerminalReminderStatus table updated ∧
      ∀ reminder ∈ claimed, FiringShape reminder := by
  rcases claimDue_ok hs.ids h with ⟨rfl, rfl⟩ | ⟨dueBy, rows, hnow, hdue, -, hchain⟩
  · exact ⟨hs, RowsKept.refl _ _, by simp⟩
  · exact hchain.sound hnow (fun row hrow => (hdue row hrow).2.2) hs

theorem completeFiring_sound {id attemptId : Id} {completion : ReminderFiringCompletion}
    {result : CompleteFiringResult} (hs : TableInvariant maxActive table)
    (hshape : CompletionShape completion)
    (h : completeFiring table id attemptId completion = .ok (result, updated)) :
    TableInvariant maxActive updated ∧ RowsKept isTerminalReminderStatus table updated := by
  rcases completeFiring_ok hs.ids h with rfl | ⟨old, next, hwrite, -, hnext⟩
  · exact ⟨hs, RowsKept.refl _ _⟩
  · have hnextShape := shape_of_completion hshape hnext
    obtain ⟨hstatus, -, rfl⟩ := applyFiringCompletion_ok hnext
    exact hwrite.sound hs hnextShape rfl rfl rfl
      (by rw [(hs.rows old hwrite.mem).of_status hstatus]; rfl)

/-- A reactivation leaves each row alone or schedules it again. -/
theorem reactivate_sound {actorId : Id} {canceled next : Reminder} {now nextFireAt : IsoTimestamp}
    {schedule : Option ReminderSchedule} {expectedUpdatedAt : IsoTimestamp} {condition : Bool}
    {result : ReactivateReminderResult} (hs : TableInvariant maxActive table)
    (hnext : reactivateReminder canceled now nextFireAt schedule = .ok next)
    (h : reactivate table actorId next expectedUpdatedAt maxActive condition =
      .ok (result, updated)) :
    TableInvariant maxActive updated ∧ RowsKept isSettledStatus table updated ∧
      ∀ row ∈ table.rows, ∃ row' ∈ updated.rows,
        SameKey row row' ∧ (row' = row ∨ row'.status = .scheduled) := by
  rcases reactivate_ok h with
    rfl | ⟨old, hwrite, hid, hactor, hno, hstatus, -, hscheduled, hroom⟩
  · exact ⟨hs, RowsKept.refl _ _, fun row hrow => ⟨row, hrow, SameKey.refl row, Or.inl rfl⟩⟩
  · have hshape : Shape next := by
      rw [Shape, hscheduled]
      exact shape_of_reactivate hnext
    have hcolumns := (hs.rows old hwrite.mem).columns
    refine ⟨⟨hwrite.row_invariant hs.rows hshape hid.symm hactor.symm
      (hno.symm.trans hcolumns.displayNo_eq), fun other => ?_⟩,
      hwrite.kept (by rw [hstatus]; rfl), fun row hrow => ?_⟩
    · have hle := hwrite.limit_succ other
      have hold := hs.limit other
      split at hle
      · rename_i hmine
        rw [← hactor, hmine] at hroom
        omega
      · omega
    · obtain ⟨column, -, hiff⟩ := hwrite.mem_iff
      by_cases hsame : row.id = old.id
      · obtain rfl := row_of_id hrow hwrite.mem hsame
        exact ⟨row.rewrite next column, (hiff _).mpr (Or.inr rfl), ⟨rfl, rfl, rfl⟩, Or.inr hscheduled⟩
      · exact ⟨row, (hiff row).mpr (Or.inl ⟨hrow, hsame⟩), SameKey.refl row, Or.inl rfl⟩

end operations

/-! ## Steps and runs -/

/-- What one operation may do to a row of a terminal status: nothing, unless it is a reactivation
of a canceled row. -/
def TerminalRowsStay (op : StoreOp) (t t' : ReminderTable) : Prop :=
  ∀ row ∈ t.rows, isTerminalReminderStatus row.status = true → ∃ row' ∈ t'.rows, SameKey row row' ∧
    (row' = row ∨ op.isReactivate = true ∧ row.status = .canceled ∧ row'.status = .scheduled)

theorem RowsKept.terminalRowsStay {op : StoreOp} {t t' : ReminderTable}
    (h : RowsKept isTerminalReminderStatus t t') : TerminalRowsStay op t t' := by
  intro row hrow hterminal
  obtain ⟨row', hrow', hkey, hsame⟩ := h row hrow
  exact ⟨row', hrow', hkey, Or.inl (hsame hterminal)⟩

theorem CompletionPlan.shape {claimed : Reminder} {plan : CompletionPlan}
    {completion : ReminderFiringCompletion} (hshape : FiringShape claimed)
    (horder : plan.inOrder claimed = true) (h : plan.completion claimed = .ok completion) :
    CompletionShape completion := by
  cases plan with
  | firing result context => exact shape_of_planFiring hshape horder h
  | eventReschedule now occurrenceAt => exact shape_of_planEventReschedule h
  | eventCanceled outcome now => exact shape_of_planEventCanceled hshape horder h

theorem storeStep_sound {maxActive : ℕ} {s t : StoreState} {op : StoreOp}
    (hs : StateInvariant maxActive s) (h : storeStep maxActive s op = some t) :
    StateInvariant maxActive t ∧ RowsKept isSettledStatus s.table t.table ∧
      TerminalRowsStay op s.table t.table := by
  cases op with
  | create input condition =>
    simp only [storeStep, Option.bind_eq_bind, Option.bind_eq_some_iff, toOption_eq_some] at h
    obtain ⟨draft, hdraft, ⟨result, table⟩, hcreate, h⟩ := h
    cases h
    obtain ⟨hsound, hkept⟩ := create_sound hs.table hdraft hcreate
    exact ⟨⟨hsound, hs.claimed⟩, hkept.mono settled_terminal, hkept.terminalRowsStay⟩
  | cancel actorId displayNo now condition =>
    simp only [storeStep, Option.bind_eq_bind, Option.bind_eq_some_iff, toOption_eq_some] at h
    obtain ⟨⟨result, table⟩, hcancel, h⟩ := h
    cases h
    obtain ⟨hsound, hkept⟩ := cancel_sound hs.table hcancel
    exact ⟨⟨hsound, hs.claimed⟩, hkept.mono settled_terminal, hkept.terminalRowsStay⟩
  | claimDue now limit attemptId =>
    simp only [storeStep, Option.bind_eq_bind, Option.bind_eq_some_iff, toOption_eq_some] at h
    obtain ⟨⟨claimed, table⟩, hclaim, h⟩ := h
    cases h
    obtain ⟨hsound, hkept, hclaimed⟩ := claimDue_sound hs.table hclaim
    refine ⟨⟨hsound, fun reminder hmem => ?_⟩, hkept.mono settled_terminal, hkept.terminalRowsStay⟩
    rcases List.mem_append.mp hmem with hmem | hmem
    · exact hclaimed reminder hmem
    · exact hs.claimed reminder hmem
  | complete claimed attemptId plan =>
    simp only [storeStep, Option.bind_eq_bind] at h
    split at h
    · rename_i hguard
      simp only [Option.bind_eq_some_iff, toOption_eq_some] at h
      obtain ⟨completion, hplan, ⟨result, table⟩, hcomplete, h⟩ := h
      cases h
      have hshape := CompletionPlan.shape (hs.claimed claimed hguard.1) hguard.2 hplan
      obtain ⟨hsound, hkept⟩ := completeFiring_sound hs.table hshape hcomplete
      exact ⟨⟨hsound, hs.claimed⟩, hkept.mono settled_terminal, hkept.terminalRowsStay⟩
    · cases h
  | reactivate actorId canceled now nextFireAt schedule expectedUpdatedAt condition =>
    simp only [storeStep, Option.bind_eq_bind, Option.bind_eq_some_iff, toOption_eq_some] at h
    obtain ⟨next, hnext, ⟨result, table⟩, hreactivate, h⟩ := h
    cases h
    obtain ⟨hsound, hkept, hrows⟩ := reactivate_sound hs.table hnext hreactivate
    refine ⟨⟨hsound, hs.claimed⟩, hkept, fun row hrow hterminal => ?_⟩
    by_cases hcanceled : row.status = .canceled
    · obtain ⟨row', hrow', hkey, hsame⟩ := hrows row hrow
      exact ⟨row', hrow', hkey, hsame.imp_right fun h => ⟨rfl, hcanceled, h⟩⟩
    · obtain ⟨row', hrow', hkey, hsame⟩ := hkept row hrow
      exact ⟨row', hrow', hkey, Or.inl (hsame (by simp [isSettledStatus, hterminal, hcanceled]))⟩

theorem StateInvariant.empty (maxActive : ℕ) : StateInvariant maxActive StoreState.empty where
  table := ⟨fun _ h => absurd h List.not_mem_nil, fun _ => Nat.zero_le _⟩
  claimed _ h := absurd h List.not_mem_nil

theorem storeRun_kept {maxActive : ℕ} {s t : StoreState} {ops : List StoreOp}
    (hs : StateInvariant maxActive s) (h : Machine.run (storeStep maxActive) s ops = some t) :
    RowsKept isSettledStatus s.table t.table := by
  have hrefl : Std.Refl fun a b : StoreState => RowsKept isSettledStatus a.table b.table :=
    ⟨fun a => RowsKept.refl _ a.table⟩
  have htrans : IsTrans StoreState fun a b => RowsKept isSettledStatus a.table b.table :=
    ⟨fun _ _ _ => RowsKept.trans⟩
  exact Machine.run_relation (R := fun a b : StoreState => RowsKept isSettledStatus a.table b.table)
    (fun _ _ _ hs h => (storeStep_sound hs h).1) (fun _ _ _ hs h => (storeStep_sound hs h).2.1) hs h

/-! ## The contract of the store -/

/-- What a reader of the table may rely on. -/
structure StoreContract (maxActive : ℕ) (table : ReminderTable) : Prop where
  columns : ∀ row ∈ table.rows, ColumnsAgree row
  displayNo_unique : table.rows.Pairwise fun r s =>
    ¬ (r.actorId = s.actorId ∧ r.displayNo = s.displayNo)
  limit : ∀ actorId, countActive table actorId ≤ maxActive
  scheduled : ∀ row ∈ table.rows, row.status = .scheduled → ScheduledShape row.data
  claimable : ∀ row ∈ table.rows, row.status = .scheduled → ∃ instant,
    row.nextFireAt = some instant ∧ ∀ dueBy, instant.ms ≤ dueBy.ms → isDue dueBy row = true
  firing : ∀ row ∈ table.rows, row.status = .firing → row.data.firingAttemptId.isSome = true
  terminal : ∀ row ∈ table.rows, isTerminalReminderStatus row.status = true →
    TerminalShape row.data

theorem TableInvariant.contract {maxActive : ℕ} {table : ReminderTable}
    (h : TableInvariant maxActive table) : StoreContract maxActive table where
  columns row hrow := (h.rows row hrow).columns
  displayNo_unique := table.distinct.imp fun hclash hsame => hclash (Or.inr hsame)
  limit := h.limit
  scheduled row hrow hstatus := (h.rows row hrow).scheduled hstatus
  claimable row hrow hstatus := by
    obtain ⟨⟨occurrence, nextFire, htimed⟩, -⟩ := (h.rows row hrow).scheduled hstatus
    have hcolumn := (h.rows row hrow).columns.nextFireAt_eq
    rw [hstatus, isActiveReminderStatus, htimed.nextFire_eq] at hcolumn
    obtain ⟨instant, hinstant, -⟩ := Option.map_eq_some_iff.mp hcolumn
    exact ⟨instant, hinstant, fun dueBy hle => by simp [isDue, hstatus, hinstant, hle]⟩
  firing row hrow hstatus := by
    obtain ⟨occurrence, nextFire, started, -, htoken, -⟩ := (h.rows row hrow).firing hstatus
    exact htoken
  terminal row hrow hterminal := by
    have hshape := (h.rows row hrow).shape
    rw [Shape, (h.rows row hrow).columns.status_eq] at hshape
    cases hstatus : row.status <;> rw [hstatus] at hshape hterminal
    case scheduled => cases hterminal
    case firing => cases hterminal
    all_goals exact hshape

def morningInput : NewReminderInput where
  id := "r1"
  actorId := "owner"
  kind := .text
  body := "stretch"
  schedule := .daily { hour := 8, minute := 0 }
  timeZone := "Asia/Seoul"
  origin := { platform := "discord", spaceId := none, channelId := "c1", threadId := none,
              userId := "u1", direct := some true }
  firstFireAt := .iso 1000
  createdAt := .iso 0
  event := none

/-- The reminder as its first claim returns it. -/
def morningClaimed : Reminder where
  id := "r1"
  actorId := "owner"
  displayNo := 1
  status := .firing
  kind := .text
  body := "stretch"
  schedule := .daily { hour := 8, minute := 0 }
  timeZone := "Asia/Seoul"
  origin := morningInput.origin
  occurrenceAt := some (.iso 1000)
  nextFireAt := some (.iso 1000)
  attempt := 0
  firingAttemptId := some "a1"
  firingStartedAt := some (.iso 2000)
  event := none
  createdAt := .iso 0
  updatedAt := .iso 2000

/-- Created, refused for the limit, claimed, retried, canceled and scheduled again. -/
def morningOps : List StoreOp :=
  [.create morningInput true,
   .create { morningInput with id := "r2" } true,
   .claimDue (.iso 2000) 10 "a1",
   .complete morningClaimed "a1"
     (.firing (.delivery (.notSent .rateLimited true)) { at' := .iso 2000 }),
   .cancel "owner" 1 (.iso 3000) true,
   .reactivate "owner" { morningClaimed with status := .canceled } (.iso 4000) (.iso 5000) none
     (.iso 3000) true]

end QuokyPlatform.Reminders
