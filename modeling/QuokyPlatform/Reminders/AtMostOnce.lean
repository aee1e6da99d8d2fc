import QuokyPlatform.Reminders.DispatchRuns

/-! # At most once per occurrence

The deliveries of one reminder are `Clean` for an occurrence when all of them are earlier, or are
attempts of that occurrence that were confirmed not sent, no more of them than the retries counted.
That is what a scheduled row promises, what a claim hands to its dispatcher, and what every
completion restores for the occurrence it schedules. -/

namespace QuokyPlatform.Reminders

set_option autoImplicit false
set_option maxHeartbeats 250000

/-! ## Deliveries of one reminder -/

/-- The sink confirmed that nothing was sent. -/
def Delivery.NotSent (delivery : Delivery) : Prop :=
  ∃ reason retryable, delivery.answer = some (.returned (.notSent reason retryable))

def deliveriesOf (deliveries : List Delivery) (id : Id) : List Delivery :=
  deliveries.filter fun delivery => delivery.id == id

def attemptsAt (deliveries : List Delivery) (occurrence : ℤ) : ℕ :=
  deliveries.countP fun delivery => delivery.occurrence == occurrence

structure Clean (deliveries : List Delivery) (occurrence : ℤ) (attempt : ℕ) : Prop where
  earlier : ∀ d ∈ deliveries, d.occurrence < occurrence ∨ (d.occurrence = occurrence ∧ d.NotSent)
  counted : attemptsAt deliveries occurrence ≤ attempt
  retries : attempt ≤ maxRetries

/-- As `Clean`, with one attempt of the occurrence still waiting for its answer. -/
structure InFlight (deliveries : List Delivery) (attemptId : Id) (occurrence : ℤ) (attempt : ℕ) :
    Prop where
  earlier : ∀ d ∈ deliveries, d.occurrence < occurrence ∨
    (d.occurrence = occurrence ∧ (d.NotSent ∨ (d.attemptId = attemptId ∧ d.answer = none)))
  counted : attemptsAt deliveries occurrence ≤ attempt + 1
  retries : attempt ≤ maxRetries

theorem attemptsAt_eq_zero {deliveries : List Delivery} {bound occurrence : ℤ}
    (hbound : ∀ d ∈ deliveries, d.occurrence ≤ bound) (hlt : bound < occurrence) :
    attemptsAt deliveries occurrence = 0 := by
  refine List.countP_eq_zero.mpr fun d hd heq => ?_
  have hle := hbound d hd
  rw [beq_iff_eq] at heq
  omega

/-- A later occurrence is clean, whatever became of the ones before it. -/
theorem Clean.of_bound {deliveries : List Delivery} {bound occurrence : ℤ}
    (hbound : ∀ d ∈ deliveries, d.occurrence ≤ bound) (hlt : bound < occurrence) :
    Clean deliveries occurrence 0 where
  earlier d hd := Or.inl (lt_of_le_of_lt (hbound d hd) hlt)
  counted := (attemptsAt_eq_zero hbound hlt).le
  retries := Nat.zero_le _

theorem Clean.bound {deliveries : List Delivery} {occurrence : ℤ} {attempt : ℕ}
    (h : Clean deliveries occurrence attempt) : ∀ d ∈ deliveries, d.occurrence ≤ occurrence := by
  intro d hd
  rcases h.earlier d hd with hlt | ⟨heq, -⟩
  · exact hlt.le
  · exact heq.le

theorem InFlight.bound {deliveries : List Delivery} {attemptId : Id} {occurrence : ℤ}
    {attempt : ℕ} (h : InFlight deliveries attemptId occurrence attempt) :
    ∀ d ∈ deliveries, d.occurrence ≤ occurrence := by
  intro d hd
  rcases h.earlier d hd with hlt | ⟨heq, -⟩
  · exact hlt.le
  · exact heq.le

/-- Sending the occurrence itself, or one after it. -/
theorem Clean.send {deliveries : List Delivery} {occurrence delivered : ℤ} {attempt : ℕ}
    (h : Clean deliveries occurrence attempt) (hle : occurrence ≤ delivered) (id attemptId : Id) :
    InFlight (deliveries ++ [⟨id, attemptId, delivered, none⟩]) attemptId delivered attempt where
  earlier d hd := by
    rw [List.mem_append, List.mem_singleton] at hd
    rcases hd with hd | rfl
    · rcases h.earlier d hd with hlt | ⟨heq, hnot⟩
      · exact Or.inl (lt_of_lt_of_le hlt hle)
      · rcases hle.lt_or_eq with hlt | rfl
        · exact Or.inl (heq ▸ hlt)
        · exact Or.inr ⟨heq, Or.inl hnot⟩
    · exact Or.inr ⟨rfl, Or.inr ⟨rfl, rfl⟩⟩
  counted := by
    have hold : attemptsAt deliveries delivered ≤ attempt := by
      rcases hle.lt_or_eq with hlt | rfl
      · rw [attemptsAt_eq_zero h.bound hlt]
        exact Nat.zero_le _
      · exact h.counted
    rw [attemptsAt] at hold ⊢
    rw [List.countP_append, List.countP_singleton]
    simpa using hold
  retries := h.retries

theorem answered_same (id attemptId : Id) (answer : SinkAnswer) (d : Delivery) :
    (d.answered id attemptId answer).id = d.id ∧
      (d.answered id attemptId answer).occurrence = d.occurrence ∧
      (d.NotSent → (d.answered id attemptId answer).NotSent) := by
  unfold Delivery.answered
  split
  · rename_i hwaiting
    refine ⟨rfl, rfl, ?_⟩
    rintro ⟨reason, retryable, hanswer⟩
    rw [hwaiting.2.2] at hanswer
    cases hanswer
  · exact ⟨rfl, rfl, fun h => h⟩

theorem attemptsAt_answered (deliveries : List Delivery) (id attemptId : Id) (answer : SinkAnswer)
    (occurrence : ℤ) :
    attemptsAt (deliveries.map (Delivery.answered id attemptId answer)) occurrence =
      attemptsAt deliveries occurrence := by
  rw [attemptsAt, List.countP_map]
  refine List.countP_congr fun d _ => ?_
  rw [Function.comp_apply, (answered_same id attemptId answer d).2.1]

theorem deliveriesOf_answered (deliveries : List Delivery) (id attemptId : Id) (answer : SinkAnswer)
    (other : Id) :
    deliveriesOf (deliveries.map (Delivery.answered id attemptId answer)) other =
      (deliveriesOf deliveries other).map (Delivery.answered id attemptId answer) := by
  rw [deliveriesOf, List.filter_map, deliveriesOf]
  congr 2
  funext d
  rw [Function.comp_apply, (answered_same id attemptId answer d).1]

theorem deliveriesOf_send (deliveries : List Delivery) (d : Delivery) (id : Id) :
    deliveriesOf (deliveries ++ [d]) id =
      if d.id = id then deliveriesOf deliveries id ++ [d] else deliveriesOf deliveries id := by
  rw [deliveriesOf, List.filter_append, List.filter_singleton]
  by_cases h : d.id = id
  · simp [h, deliveriesOf]
  · rw [beq_eq_false_iff_ne.mpr h, cond_false, if_neg h, List.append_nil, deliveriesOf]

theorem Clean.answered {deliveries : List Delivery} {occurrence : ℤ} {attempt : ℕ}
    (h : Clean deliveries occurrence attempt) (id attemptId : Id) (answer : SinkAnswer) :
    Clean (deliveries.map (Delivery.answered id attemptId answer)) occurrence attempt where
  earlier := by
    intro d hd
    obtain ⟨e, he, rfl⟩ := List.mem_map.mp hd
    obtain ⟨-, hocc, hnot⟩ := answered_same id attemptId answer e
    rw [hocc]
    exact (h.earlier e he).imp_right fun h => ⟨h.1, hnot h.2⟩
  counted := by
    rw [attemptsAt_answered]
    exact h.counted
  retries := h.retries

theorem bound_answered {deliveries : List Delivery} {bound : ℤ} (id attemptId : Id)
    (answer : SinkAnswer) (h : ∀ d ∈ deliveries, d.occurrence ≤ bound) :
    ∀ d ∈ deliveries.map (Delivery.answered id attemptId answer), d.occurrence ≤ bound := by
  intro d hd
  obtain ⟨e, he, rfl⟩ := List.mem_map.mp hd
  rw [(answered_same id attemptId answer e).2.1]
  exact h e he

/-- The waiting attempt was confirmed not sent: the occurrence is clean again, one retry later. -/
theorem InFlight.retry {deliveries : List Delivery} {id attemptId : Id} {occurrence : ℤ}
    {attempt : ℕ} {reason : NotificationNotSentReason} {retryable : Bool}
    (h : InFlight deliveries attemptId occurrence attempt) (hid : ∀ d ∈ deliveries, d.id = id)
    (hretry : attempt < maxRetries) :
    Clean (deliveries.map (Delivery.answered id attemptId (.returned (.notSent reason retryable))))
      occurrence (attempt + 1) where
  earlier := by
    intro d hd
    obtain ⟨e, he, rfl⟩ := List.mem_map.mp hd
    obtain ⟨-, hocc, hnot⟩ :=
      answered_same id attemptId (.returned (.notSent reason retryable)) e
    rw [hocc]
    refine (h.earlier e he).imp_right fun ⟨heq, hsent⟩ => ⟨heq, ?_⟩
    rcases hsent with hsent | ⟨hattempt, hanswer⟩
    · exact hnot hsent
    · rw [Delivery.answered, if_pos ⟨hid e he, hattempt, hanswer⟩]
      exact ⟨reason, retryable, rfl⟩
  counted := by
    rw [attemptsAt_answered]
    exact h.counted
  retries := hretry

/-! ## The invariant of the world -/

/-- What the store says of a row, given the clock and the deliveries made so far. -/
structure RowOk (clock : ℤ) (used : List Id) (deliveries : List Delivery) (row : ReminderRow) :
    Prop where
  stored : RowInvariant row
  scheduled : row.status = .scheduled → ∀ occurrence,
    row.data.occurrenceAt.bind Date.parse = some occurrence →
      Clean (deliveriesOf deliveries row.id) occurrence row.data.attempt
  firing : row.status = .firing → ∃ attemptId ∈ used, ∃ started,
    row.data.firingAttemptId = some attemptId ∧ row.data.firingStartedAt = some (.iso started) ∧
      row.data.updatedAt = .iso started ∧ started ≤ clock
  canceled : row.status = .canceled → ∃ updated, row.data.updatedAt = .iso updated ∧ updated ≤ clock

/-- A dispatch call holds a reminder: its row is firing under the call's attempt, as claimed. -/
def Holds (table : ReminderTable) (attemptId : Id) (now : ℤ) (reminder : Reminder) : Prop :=
  ∃ row ∈ table.rows, row.data = reminder ∧ row.status = .firing ∧
    reminder.firingAttemptId = some attemptId ∧ reminder.updatedAt = .iso now

def Ready (deliveries : List Delivery) (now : ℤ) (reminder : Reminder) : Prop :=
  ∃ occurrence, Claimed reminder now occurrence ∧
    Clean (deliveriesOf deliveries reminder.id) occurrence reminder.attempt

def Stage.current : Stage → List Reminder
  | .delivering reminder _ _ => [reminder]
  | .completing reminder _ => [reminder]
  | _ => []

def Dispatch.held (dispatch : Dispatch) : List Reminder := dispatch.stage.current ++ dispatch.todo

def StageOk (deliveries : List Delivery) (attemptId : Id) (now : ℤ) : Stage → Prop
  | .delivering reminder kind delivered => ∃ occurrence, Claimed reminder now occurrence ∧
      Delivers reminder now occurrence kind delivered ∧
      InFlight (deliveriesOf deliveries reminder.id) attemptId delivered reminder.attempt
  | .completing reminder completion => completion.updatedAt = .iso now ∧
      (completion.status = .scheduled → ∃ occurrence attempt,
        Schedules completion now occurrence attempt ∧
          Clean (deliveriesOf deliveries reminder.id) occurrence attempt)
  | _ => True

structure DispatchOk (clock : ℤ) (used : List Id) (table : ReminderTable)
    (deliveries : List Delivery) (attemptId : Id) (dispatch : Dispatch) : Prop where
  used : attemptId ∈ used
  now_le : dispatch.now ≤ clock
  distinct : (dispatch.held.map fun reminder => reminder.id).Nodup
  holds : ∀ reminder ∈ dispatch.held, Holds table attemptId dispatch.now reminder
  ready : ∀ reminder ∈ dispatch.todo, Ready deliveries dispatch.now reminder
  stage : StageOk deliveries attemptId dispatch.now dispatch.stage

/-- A row to recover: no running call has its attempt, and if it is still firing under it then
nothing was delivered for it after the recovery started. -/
structure RecoverOk (used : List Id) (dispatches : AList fun _ : Id => Dispatch)
    (table : ReminderTable) (deliveries : List Delivery) (now : ℤ) (reminder : Reminder) : Prop where
  orphan : ∃ attemptId ∈ used, reminder.firingAttemptId = some attemptId ∧
    dispatches.lookup attemptId = none
  claimed : ∃ occurrence, Claimed reminder now occurrence
  started : ∃ started, reminder.updatedAt = .iso started ∧ started ≤ now
  untouched : ∀ row ∈ table.rows, row.id = reminder.id →
    (row.data = reminder ∧ row.status = .firing ∧
      ∀ d ∈ deliveriesOf deliveries row.id, d.occurrence ≤ now) ∨
      row.data.firingAttemptId ≠ reminder.firingAttemptId

/-- A row seen from a reactivation planned at `planned` of a cancel made at `canceledAt`: either it
has been updated since, for good, or nothing was delivered for it since the plan. -/
inductive UndoRow (clock : ℤ) (deliveries : List Delivery) (canceledAt planned : ℤ)
    (row : ReminderRow) : Prop
  | moved (updated : ℤ) (hupdated : row.data.updatedAt = .iso updated) (hlater : canceledAt < updated)
      (hclock : updated ≤ clock)
      (hscheduled : row.status = .scheduled → ∀ nextFire,
        row.data.nextFireAt.bind Date.parse = some nextFire → updated < nextFire)
  | waiting (hupdated : row.data.updatedAt = .iso canceledAt)
      (hstatus : row.status = .canceled ∨ (row.status = .scheduled ∧ ∀ nextFire,
        row.data.nextFireAt.bind Date.parse = some nextFire → canceledAt < nextFire))
      (hquiet : ∀ d ∈ deliveriesOf deliveries row.id, d.occurrence ≤ planned)

/-- A planned reactivation: when the cancel and the plan were made, and the time it schedules. -/
structure UndoOk (clock : ℤ) (table : ReminderTable) (deliveries : List Delivery) (undo : Undo) :
    Prop where
  shape : ScheduledShape undo.next
  attempt : undo.next.attempt = 0
  known : ∃ row ∈ table.rows, row.id = undo.next.id
  plan : ∃ canceledAt planned nextFire, undo.expectedUpdatedAt = .iso canceledAt ∧
    undo.next.updatedAt = .iso planned ∧ canceledAt ≤ planned ∧ planned ≤ clock ∧
    Timed undo.next.occurrenceAt undo.next.nextFireAt nextFire nextFire ∧ planned < nextFire ∧
    ∀ row ∈ table.rows, row.id = undo.next.id → UndoRow clock deliveries canceledAt planned row

/-- No delivery follows one of the same reminder, for the same or a later occurrence, unless that
one was confirmed not sent. -/
def AtMostOnce (deliveries : List Delivery) : Prop :=
  deliveries.Pairwise fun d e => d.id = e.id → e.occurrence ≤ d.occurrence → d.NotSent

/-- An occurrence is delivered once and retried at most `maxRetries` times. -/
def BoundedAttempts (deliveries : List Delivery) : Prop :=
  ∀ id occurrence, attemptsAt (deliveriesOf deliveries id) occurrence ≤ 1 + maxRetries

structure WorldInvariant (w : World) : Prop where
  rows : ∀ row ∈ w.table.rows, RowOk w.clock w.usedAttempts w.deliveries row
  known : ∀ d ∈ w.deliveries, ∃ row ∈ w.table.rows, row.id = d.id
  past : ∀ d ∈ w.deliveries, d.occurrence ≤ w.clock
  once : AtMostOnce w.deliveries
  bounded : BoundedAttempts w.deliveries
  dispatches : ∀ attemptId dispatch, w.dispatches.lookup attemptId = some dispatch →
    DispatchOk w.clock w.usedAttempts w.table w.deliveries attemptId dispatch
  recoveries : ∀ recovery ∈ w.recoveries, recovery.now ≤ w.clock ∧ ∀ reminder ∈ recovery.todo,
    RecoverOk w.usedAttempts w.dispatches w.table w.deliveries recovery.now reminder
  undos : ∀ undo ∈ w.undos, UndoOk w.clock w.table w.deliveries undo

/-! ## Frames -/

section frames

variable {w : World}

theorem WorldInvariant.start (clock : ℤ) : WorldInvariant (World.start clock) where
  rows _ h := absurd h List.not_mem_nil
  known _ h := absurd h List.not_mem_nil
  past _ h := absurd h List.not_mem_nil
  once := List.Pairwise.nil
  bounded _ _ := Nat.zero_le _
  dispatches _ _ h := nomatch h
  recoveries _ h := absurd h List.not_mem_nil
  undos _ h := absurd h List.not_mem_nil

theorem WorldInvariant.tick (hw : WorldInvariant w) (ms : ℕ) :
    WorldInvariant { w with clock := w.clock + ms } := by
  have hle : w.clock ≤ w.clock + ms := by omega
  constructor
  · intro row hrow
    obtain ⟨hstored, hscheduled, hfiring, hcanceled⟩ := hw.rows row hrow
    refine ⟨hstored, hscheduled, fun h => ?_, fun h => ?_⟩
    · obtain ⟨attemptId, hused, started, h1, h2, h3, h4⟩ := hfiring h
      exact ⟨attemptId, hused, started, h1, h2, h3, h4.trans hle⟩
    · obtain ⟨updated, h1, h2⟩ := hcanceled h
      exact ⟨updated, h1, h2.trans hle⟩
  · exact hw.known
  · exact fun d hd => (hw.past d hd).trans hle
  · exact hw.once
  · exact hw.bounded
  · intro attemptId dispatch hlookup
    have hd := hw.dispatches attemptId dispatch hlookup
    exact { hd with now_le := hd.now_le.trans hle }
  · exact fun recovery hmem => ⟨(hw.recoveries recovery hmem).1.trans hle,
      (hw.recoveries recovery hmem).2⟩
  · intro undo hmem
    obtain ⟨hshape, hattempt, hknown, canceledAt, planned, nextFire, h1, h2, h3, h4, h5, h6,
      hrows⟩ := hw.undos undo hmem
    refine ⟨hshape, hattempt, hknown, canceledAt, planned, nextFire, h1, h2, h3, h4.trans hle, h5,
      h6, fun row hrow hid => ?_⟩
    cases hrows row hrow hid with
    | moved updated hupdated hlater hclock hscheduled =>
      exact .moved updated hupdated hlater (hclock.trans hle) hscheduled
    | waiting hupdated hstatus hquiet => exact .waiting hupdated hstatus hquiet

theorem WorldInvariant.row_id (hw : WorldInvariant w) {row : ReminderRow} (hrow : row ∈ w.table.rows) :
    row.data.id = row.id :=
  (hw.rows row hrow).stored.columns.id_eq

/-- A row that a call holds is firing, so no call holds any other row. -/
theorem WorldInvariant.not_held (hw : WorldInvariant w) {row : ReminderRow}
    (hrow : row ∈ w.table.rows) (hstatus : row.status ≠ .firing) {attemptId : Id}
    {dispatch : Dispatch} (hlookup : w.dispatches.lookup attemptId = some dispatch) :
    ∀ reminder ∈ dispatch.held, reminder.id ≠ row.id := by
  rintro reminder hmem hid
  obtain ⟨other, hother, rfl, hfiring, -⟩ := (hw.dispatches attemptId dispatch hlookup).holds _ hmem
  rw [hw.row_id hother] at hid
  obtain rfl := row_of_id hother hrow hid
  exact hstatus hfiring

/-- The row of a held reminder. -/
theorem WorldInvariant.held_row (hw : WorldInvariant w) {attemptId : Id} {dispatch : Dispatch}
    (hlookup : w.dispatches.lookup attemptId = some dispatch) {reminder : Reminder}
    (hmem : reminder ∈ dispatch.held) {row : ReminderRow} (hrow : row ∈ w.table.rows)
    (hid : row.id = reminder.id) : row.data = reminder ∧ row.status = .firing := by
  obtain ⟨other, hother, rfl, hfiring, -⟩ := (hw.dispatches attemptId dispatch hlookup).holds _ hmem
  rw [hw.row_id hother] at hid
  obtain rfl := row_of_id hrow hother hid
  exact ⟨rfl, hfiring⟩

/-- Two calls hold different reminders. -/
theorem WorldInvariant.held_apart (hw : WorldInvariant w) {a b : Id} {p q : Dispatch}
    (hp : w.dispatches.lookup a = some p) (hq : w.dispatches.lookup b = some q) (hab : a ≠ b)
    {r s : Reminder} (hr : r ∈ p.held) (hs : s ∈ q.held) : r.id ≠ s.id := by
  intro hid
  obtain ⟨row, hrow, rfl, -, htoken, -⟩ := (hw.dispatches a p hp).holds r hr
  obtain ⟨heq, -⟩ := hw.held_row hq hs hrow ((hw.row_id hrow).symm.trans hid)
  obtain ⟨-, -, -, -, htoken', -⟩ := (hw.dispatches b q hq).holds s hs
  rw [heq, htoken'] at htoken
  exact hab (Option.some.inj htoken).symm

/-- A call's new state, for an attempt that is running. -/
theorem WorldInvariant.setDispatch (hw : WorldInvariant w) {attemptId : Id} {before after : Dispatch}
    (hlookup : w.dispatches.lookup attemptId = some before)
    (hafter : DispatchOk w.clock w.usedAttempts w.table w.deliveries attemptId after) :
    WorldInvariant (w.setDispatch attemptId after) := by
  refine { hw with dispatches := fun other dispatch h => ?_, recoveries := fun recovery hmem => ?_ }
  · by_cases heq : other = attemptId
    · subst heq
      rw [World.setDispatch, AList.lookup_insert] at h
      exact Option.some.inj h ▸ hafter
    · rw [World.setDispatch, AList.lookup_insert_ne heq] at h
      exact hw.dispatches other dispatch h
  · refine ⟨(hw.recoveries recovery hmem).1, fun reminder hr => ?_⟩
    have hok := (hw.recoveries recovery hmem).2 reminder hr
    obtain ⟨token, hused, htoken, hnone⟩ := hok.orphan
    refine { hok with orphan := ⟨token, hused, htoken, ?_⟩ }
    have hne : token ≠ attemptId := by
      rintro rfl
      rw [hlookup] at hnone
      cases hnone
    rw [World.setDispatch, AList.lookup_insert_ne hne]
    exact hnone

theorem WorldInvariant.stop (hw : WorldInvariant w) (attemptId : Id) :
    WorldInvariant { w with dispatches := w.dispatches.erase attemptId } := by
  refine { hw with dispatches := fun other dispatch h => ?_, recoveries := fun recovery hmem => ?_ }
  · by_cases heq : other = attemptId
    · subst heq
      rw [AList.lookup_erase] at h
      cases h
    · rw [AList.lookup_erase_ne heq] at h
      exact hw.dispatches other dispatch h
  · refine ⟨(hw.recoveries recovery hmem).1, fun reminder hr => ?_⟩
    have hok := (hw.recoveries recovery hmem).2 reminder hr
    obtain ⟨token, hused, htoken, hnone⟩ := hok.orphan
    refine { hok with orphan := ⟨token, hused, htoken, ?_⟩ }
    by_cases heq : token = attemptId
    · subst heq
      exact AList.lookup_erase _ _
    · rw [AList.lookup_erase_ne heq]
      exact hnone

/-- Rewriting a row that no call holds: the new row has to be right, its attempt none or a running
one, and every planned reactivation has to see it as it saw the old one. -/
theorem WorldInvariant.rewrite (hw : WorldInvariant w) {updated : ReminderTable} {old : ReminderRow}
    {next : Reminder} (hwrite : Rewritten w.table updated old next)
    (hrow : ∀ column, nextFireColumn next = .ok column →
      RowOk w.clock w.usedAttempts w.deliveries (old.rewrite next column))
    (hheld : ∀ attemptId dispatch, w.dispatches.lookup attemptId = some dispatch →
      ∀ reminder ∈ dispatch.held, reminder.id ≠ old.id)
    (htoken : ∀ attemptId, next.firingAttemptId = some attemptId →
      w.dispatches.lookup attemptId ≠ none)
    (hundo : ∀ canceledAt planned column, canceledAt ≤ planned → planned ≤ w.clock →
      UndoRow w.clock w.deliveries canceledAt planned old →
        UndoRow w.clock w.deliveries canceledAt planned (old.rewrite next column)) :
    WorldInvariant { w with table := updated } := by
  obtain ⟨column, hcolumn, hiff⟩ := hwrite.mem_iff
  have hkept : ∀ row ∈ w.table.rows, ∃ row' ∈ updated.rows, row'.id = row.id := by
    intro row hmem
    by_cases hold : row.id = old.id
    · exact ⟨old.rewrite next column, (hiff _).mpr (Or.inr rfl), hold.symm⟩
    · exact ⟨row, (hiff row).mpr (Or.inl ⟨hmem, hold⟩), rfl⟩
  refine { hw with rows := ?_, known := ?_, dispatches := ?_, recoveries := ?_, undos := ?_ }
  · intro row hmem
    rcases (hiff row).mp hmem with ⟨hmem, -⟩ | rfl
    · exact hw.rows row hmem
    · exact hrow column hcolumn
  · intro d hd
    obtain ⟨row, hmem, hid⟩ := hw.known d hd
    obtain ⟨row', hmem', hid'⟩ := hkept row hmem
    exact ⟨row', hmem', hid'.trans hid⟩
  · intro attemptId dispatch hlookup
    have hd := hw.dispatches attemptId dispatch hlookup
    refine { hd with holds := fun reminder hmem => ?_ }
    obtain ⟨row, hrow', rfl, hrest⟩ := hd.holds reminder hmem
    have hne : row.id ≠ old.id := by
      rw [← hw.row_id hrow']
      exact hheld attemptId dispatch hlookup _ hmem
    exact ⟨row, (hiff row).mpr (Or.inl ⟨hrow', hne⟩), rfl, hrest⟩
  · intro recovery hmem
    refine ⟨(hw.recoveries recovery hmem).1, fun reminder hr => ?_⟩
    have hok := (hw.recoveries recovery hmem).2 reminder hr
    refine { hok with untouched := fun row hrow' hid => ?_ }
    rcases (hiff row).mp hrow' with ⟨hrow', -⟩ | rfl
    · exact hok.untouched row hrow' hid
    · right
      obtain ⟨token, -, htoken', hnone⟩ := hok.orphan
      rw [htoken']
      exact fun h => htoken token h hnone
  · intro undo hmem
    obtain ⟨hshape, hattempt, ⟨row, hmem', hid⟩, canceledAt, planned, nextFire, h1, h2, h3, h4, h5,
      h6, hrows⟩ := hw.undos undo hmem
    obtain ⟨row', hmem'', hid'⟩ := hkept row hmem'
    refine ⟨hshape, hattempt, ⟨row', hmem'', hid'.trans hid⟩, canceledAt, planned, nextFire, h1, h2,
      h3, h4, h5, h6, fun row hrow' hid => ?_⟩
    rcases (hiff row).mp hrow' with ⟨hrow', -⟩ | rfl
    · exact hrows row hrow' hid
    · exact hundo canceledAt planned column h3 h4 (hrows old hwrite.mem hid)

end frames

/-! ## Owner operations -/

section owner

variable {w : World}

theorem WorldInvariant.create (hw : WorldInvariant w) {input : NewReminderInput}
    {draft : ReminderDraft} {maxActive : ℤ} {condition : Bool} {result : CreateReminderResult}
    {updated : ReminderTable} (hdraft : createReminderDraft input = .ok draft)
    (h : createWithinLimit w.table draft maxActive condition = .ok (result, updated)) :
    WorldInvariant { w with table := updated } := by
  rcases createWithinLimit_ok h with
    rfl | ⟨row, hrows, hfresh, -, hstatus, hid, hactor, hrow, hdata, hcolumn⟩
  · exact hw
  have hmem : ∀ other, other ∈ updated.rows ↔ other ∈ w.table.rows ∨ other = row := by
    intro other
    rw [hrows, List.mem_append, List.mem_singleton]
  -- nothing was delivered under an id that is not in the table
  have hnone : deliveriesOf w.deliveries row.id = [] := by
    refine List.filter_eq_nil_iff.mpr fun d hd heq => ?_
    obtain ⟨other, hother, hsame⟩ := hw.known d hd
    rw [beq_iff_eq] at heq
    exact hfresh other hother (hsame.trans heq)
  have hfirst : draft.attempt = 0 := by
    obtain ⟨rfl, -⟩ := createReminderDraft_ok hdraft
    rfl
  refine { hw with rows := ?_, known := ?_, dispatches := ?_, recoveries := ?_, undos := ?_ }
  · intro other hother
    rcases (hmem other).mp hother with hother | rfl
    · exact hw.rows other hother
    · refine ⟨created_row_invariant hdraft hstatus hid hactor hrow hdata hcolumn, fun _ _ _ => ?_,
        fun h => ?_, fun h => ?_⟩
      · rw [hnone, hdata]
        exact ⟨fun _ hd => absurd hd List.not_mem_nil, Nat.zero_le _, by simp [hfirst]⟩
      · rw [hrow] at h
        cases h
      · rw [hrow] at h
        cases h
  · intro d hd
    obtain ⟨other, hother, hsame⟩ := hw.known d hd
    exact ⟨other, (hmem other).mpr (Or.inl hother), hsame⟩
  · intro attemptId dispatch hlookup
    have hd := hw.dispatches attemptId dispatch hlookup
    refine { hd with holds := fun reminder hr => ?_ }
    obtain ⟨other, hother, hrest⟩ := hd.holds reminder hr
    exact ⟨other, (hmem other).mpr (Or.inl hother), hrest⟩
  · intro recovery hr
    refine ⟨(hw.recoveries recovery hr).1, fun reminder hreminder => ?_⟩
    have hok := (hw.recoveries recovery hr).2 reminder hreminder
    refine { hok with untouched := fun other hother hsame => ?_ }
    rcases (hmem other).mp hother with hother | rfl
    · exact hok.untouched other hother hsame
    · right
      obtain ⟨token, -, htoken, -⟩ := hok.orphan
      obtain ⟨rfl, -⟩ := createReminderDraft_ok hdraft
      rw [hdata, htoken]
      exact Option.some_ne_none token |>.symm
  · intro undo hu
    obtain ⟨hshape, hattempt, ⟨seen, hseen, hsame⟩, canceledAt, planned, nextFire, h1, h2, h3, h4,
      h5, h6, hrest⟩ := hw.undos undo hu
    refine ⟨hshape, hattempt, ⟨seen, (hmem seen).mpr (Or.inl hseen), hsame⟩, canceledAt, planned,
      nextFire, h1, h2, h3, h4, h5, h6, fun other hother hid' => ?_⟩
    rcases (hmem other).mp hother with hother | rfl
    · exact hrest other hother hid'
    · exact absurd (hsame.trans hid'.symm) (hfresh seen hseen)

theorem WorldInvariant.cancel (hw : WorldInvariant w) {actorId : Id} {displayNo : ℤ}
    {condition : Bool} {result : CancelReminderResult} {updated : ReminderTable}
    (h : cancel w.table actorId displayNo (.iso w.clock) condition = .ok (result, updated)) :
    WorldInvariant { w with table := updated } := by
  rcases cancel_ok (fun _ => hw.row_id) h with rfl | ⟨old, next, hwrite, hcanceled⟩
  · exact hw
  have hshape := shape_of_cancel hcanceled
  obtain ⟨hdata, rfl⟩ := cancelReminder_ok hcanceled
  have hold := hw.rows old hwrite.mem
  have hstatus : old.status = .scheduled := hold.stored.of_status hdata
  have hcolumns := hold.stored.columns
  refine hw.rewrite hwrite (fun column hcolumn => ?_)
    (fun attemptId dispatch hlookup => hw.not_held hwrite.mem (by rw [hstatus]; decide) hlookup)
    (fun attemptId htoken => nomatch htoken) (fun canceledAt planned column hle hclock hundo => ?_)
  · exact ⟨⟨⟨hcolumns.id_eq, hcolumns.actorId_eq, hcolumns.displayNo_eq, rfl,
      nextFireColumn_ok hcolumn⟩, hshape⟩, (fun h => nomatch h), (fun h => nomatch h),
      fun _ => ⟨w.clock, rfl, le_refl _⟩⟩
  · cases hundo with
    | moved updated hupdated hlater hclock' hscheduled =>
      exact .moved w.clock rfl (lt_of_lt_of_le hlater hclock') (le_refl _) (fun h => nomatch h)
    | waiting hupdated _ hquiet =>
      rcases (hle.trans hclock).lt_or_eq with hlt | rfl
      · exact .moved w.clock rfl hlt (le_refl _) (fun h => nomatch h)
      · exact .waiting rfl (Or.inl rfl) hquiet

theorem getByDisplayNo_mem {table : ReminderTable} {actorId : Id} {displayNo : ℤ}
    {reminder : Reminder} (h : getByDisplayNo table actorId displayNo = some reminder) :
    ∃ row ∈ table.rows, row.data = reminder := by
  obtain ⟨row, hfound, rfl⟩ := Option.map_eq_some_iff.mp h
  unfold findByDisplayNo at hfound
  split at hfound
  · cases hfound
  · exact ⟨row, (Table.find_some hfound).1, rfl⟩

theorem WorldInvariant.planUndo (hw : WorldInvariant w) {actorId : Id} {displayNo : ℤ}
    {current next : Reminder} {nextFireAt : IsoTimestamp} {schedule : Option ReminderSchedule}
    (hread : getByDisplayNo w.table actorId displayNo = some current)
    (h : reactivateReminder current (.iso w.clock) nextFireAt schedule = .ok next) :
    WorldInvariant { w with
      undos := { next := next, expectedUpdatedAt := current.updatedAt } :: w.undos } := by
  refine { hw with undos := fun undo hmem => ?_ }
  rcases List.mem_cons.mp hmem with rfl | hmem
  · obtain ⟨row, hrow, rfl⟩ := getByDisplayNo_mem hread
    have hshape := shape_of_reactivate h
    obtain ⟨hdata, ⟨ms, hms, hafter⟩, rfl⟩ := reactivateReminder_ok h
    have hok := hw.rows row hrow
    have hstatus := hok.stored.of_status hdata
    obtain ⟨canceledAt, hupdated, hle⟩ := hok.canceled hstatus
    refine ⟨hshape, rfl, ⟨row, hrow, (hw.row_id hrow).symm⟩, canceledAt, w.clock, ms, hupdated, rfl,
      hle, le_refl _, Timed.of_same hms, hafter w.clock rfl, fun other hother hid => ?_⟩
    obtain rfl := row_of_id hother hrow (hid.trans (hw.row_id hrow))
    exact .waiting hupdated (Or.inl hstatus)
      fun d hd => hw.past d (List.mem_of_mem_filter hd)
  · exact hw.undos undo hmem

theorem WorldInvariant.undo (hw : WorldInvariant w) {planned : Undo} (hmem : planned ∈ w.undos)
    {actorId : Id} {maxActive : ℤ} {condition : Bool} {result : ReactivateReminderResult}
    {updated : ReminderTable}
    (h : reactivate w.table actorId planned.next planned.expectedUpdatedAt maxActive condition =
      .ok (result, updated)) : WorldInvariant { w with table := updated } := by
  rcases reactivate_ok h with
    rfl | ⟨old, hwrite, hid, hactor, hno, hstatus, hexpected, hscheduled, -⟩
  · exact hw
  have hold := hw.rows old hwrite.mem
  obtain ⟨hshape, hattempt, -, canceledAt, at', nextFire, h1, h2, h3, h4, htimed, h6, hrows⟩ :=
    hw.undos planned hmem
  refine hw.rewrite hwrite (fun column hcolumn => ?_)
    (fun attemptId dispatch hlookup => hw.not_held hwrite.mem (by rw [hstatus]; decide) hlookup)
    (fun attemptId htoken => by rw [hshape.2.1] at htoken; cases htoken)
    (fun canceledAt' planned' column hle hclock hundo => ?_)
  · refine ⟨⟨⟨hid.symm, hactor.symm, hno.symm.trans hold.stored.columns.displayNo_eq, rfl,
      nextFireColumn_ok hcolumn⟩, ?_⟩, fun _ occurrence hocc => ?_, fun hfiring => ?_,
      fun hcanceled => ?_⟩
    · rw [Shape, ReminderRow.rewrite, hscheduled]
      exact hshape
    · have hsame : nextFire = occurrence := Option.some.inj (htimed.occurrence_eq.symm.trans hocc)
      -- the compare-and-set on the cancel's version leaves only the row nothing was delivered for
      cases hrows old hwrite.mem hid with
      | moved updated hupdated hlater _ _ =>
        rw [hexpected, h1, IsoTimestamp.iso.injEq] at hupdated
        omega
      | waiting _ _ hquiet =>
        have hclean := Clean.of_bound hquiet h6
        rw [← hsame, ReminderRow.rewrite, hattempt]
        exact hclean
    · rw [ReminderRow.rewrite, hscheduled] at hfiring
      cases hfiring
    · rw [ReminderRow.rewrite, hscheduled] at hcanceled
      cases hcanceled
  · have hnext : ∀ ms, planned.next.nextFireAt.bind Date.parse = some ms → at' < ms := by
      intro ms hms
      exact Option.some.inj (htimed.nextFire_eq.symm.trans hms) ▸ h6
    cases hundo with
    | moved updated hupdated hlater _ _ =>
      rw [hexpected, h1, IsoTimestamp.iso.injEq] at hupdated
      exact .moved at' h2 (by omega) h4 (fun _ => hnext)
    | waiting hupdated _ hquiet =>
      rw [hexpected, h1, IsoTimestamp.iso.injEq] at hupdated
      subst hupdated
      rcases h3.lt_or_eq with hlt | rfl
      · exact .moved at' h2 hlt h4 (fun _ => hnext)
      · exact .waiting h2 (Or.inr ⟨hscheduled, hnext⟩) hquiet

end owner

/-! ## Dispatch calls -/

section dispatch

variable {w : World} {attemptId : Id} {dispatch : Dispatch}

theorem WorldInvariant.begin (hw : WorldInvariant w) (hfresh : attemptId ∉ w.usedAttempts) :
    WorldInvariant { w.setDispatch attemptId { now := w.clock, todo := [], stage := .begun } with
      usedAttempts := attemptId :: w.usedAttempts } := by
  constructor
  · intro row hrow
    have hok := hw.rows row hrow
    refine { hok with firing := fun h => ?_ }
    obtain ⟨token, hused, hrest⟩ := hok.firing h
    exact ⟨token, List.mem_cons_of_mem _ hused, hrest⟩
  · exact hw.known
  · exact hw.past
  · exact hw.once
  · exact hw.bounded
  · intro other running h
    by_cases heq : other = attemptId
    · subst heq
      rw [World.setDispatch, AList.lookup_insert] at h
      cases h
      exact ⟨List.mem_cons_self, le_refl _, List.nodup_nil, fun _ h => absurd h List.not_mem_nil,
        fun _ h => absurd h List.not_mem_nil, trivial⟩
    · rw [World.setDispatch, AList.lookup_insert_ne heq] at h
      have hd := hw.dispatches other running h
      exact { hd with used := List.mem_cons_of_mem _ hd.used }
  · intro recovery hmem
    refine ⟨(hw.recoveries recovery hmem).1, fun reminder hr => ?_⟩
    have hok := (hw.recoveries recovery hmem).2 reminder hr
    obtain ⟨token, hused, htoken, hnone⟩ := hok.orphan
    refine { hok with orphan := ⟨token, List.mem_cons_of_mem _ hused, htoken, ?_⟩ }
    have hne : token ≠ attemptId := fun heq => hfresh (heq ▸ hused)
    rw [World.setDispatch, AList.lookup_insert_ne hne]
    exact hnone
  · exact hw.undos

/-- A call that gives up reminders, or moves on inside one, holds no other. -/
theorem DispatchOk.shrink {clock : ℤ} {used : List Id} {table : ReminderTable}
    {deliveries : List Delivery} (h : DispatchOk clock used table deliveries attemptId dispatch)
    (todo : List Reminder) (stage : Stage) (hheld : (stage.current ++ todo).Sublist dispatch.held)
    (htodo : ∀ reminder ∈ todo, reminder ∈ dispatch.todo)
    (hstage : StageOk deliveries attemptId dispatch.now stage) :
    DispatchOk clock used table deliveries attemptId { now := dispatch.now, todo, stage } where
  used := h.used
  now_le := h.now_le
  distinct := h.distinct.sublist (hheld.map _)
  holds reminder hmem := h.holds reminder (hheld.subset hmem)
  ready reminder hmem := h.ready reminder (htodo reminder hmem)
  stage := hstage

theorem todo_sublist_held (dispatch : Dispatch) : dispatch.todo.Sublist dispatch.held :=
  List.sublist_append_right _ _

/-- One claim: the row goes to the call. -/
theorem WorldInvariant.claimOne (hw : WorldInvariant w)
    (hlookup : w.dispatches.lookup attemptId = some dispatch) {row : ReminderRow} {claimed : Reminder} {written : ReminderTable}
    (hclaim : claimReminder row.data attemptId (.iso dispatch.now) = .ok claimed)
    (hwrite : Rewritten w.table written row claimed)
    (hdue : ∃ instant, row.nextFireAt = some instant ∧ instant.ms ≤ dispatch.now) :
    WorldInvariant ({ w with table := written }.setDispatch attemptId
      { dispatch with todo := dispatch.todo ++ [claimed] }) := by
  have hrow := hw.rows row hwrite.mem
  have hd := hw.dispatches attemptId dispatch hlookup
  have hstatus := hrow.stored.of_status (claimReminder_ok hclaim).1
  obtain ⟨⟨occurrence, nextFire, htimed⟩, -, -⟩ := hrow.stored.scheduled hstatus
  have hdueAt : nextFire ≤ dispatch.now := by
    obtain ⟨instant, hinstant, hle⟩ := hdue
    have hcolumn := hrow.stored.columns.nextFireAt_eq
    rw [hstatus, isActiveReminderStatus, htimed.nextFire_eq, hinstant] at hcolumn
    obtain rfl : instant.ms = nextFire := by simpa using hcolumn
    exact hle
  have hshape : FiringShape claimed := shape_of_claim (hrow.stored.scheduled hstatus) hclaim rfl
    fun ms hms => Option.some.inj (htimed.nextFire_eq.symm.trans hms) ▸ hdueAt
  have hclean := hrow.scheduled hstatus occurrence htimed.occurrence_eq
  have hfree := hw.not_held hwrite.mem (by rw [hstatus]; decide) hlookup
  have hcolumns := hrow.stored.columns
  obtain ⟨-, rfl⟩ := claimReminder_ok hclaim
  have hwritten := hw.rewrite hwrite (fun column hcolumn =>
      ⟨⟨⟨hcolumns.id_eq, hcolumns.actorId_eq, hcolumns.displayNo_eq, rfl,
        nextFireColumn_ok hcolumn⟩, hshape⟩, (fun h => by cases h),
        (fun _ => ⟨attemptId, hd.used, dispatch.now, rfl, rfl, rfl, hd.now_le⟩),
        fun h => by cases h⟩)
    (fun other running hrunning => hw.not_held hwrite.mem (by rw [hstatus]; decide) hrunning)
    (fun token htoken => by cases htoken; rw [hlookup]; exact Option.some_ne_none _)
    (fun canceledAt planned column hle hclock hundo => by
      cases hundo with
      | moved updated hupdated hlater _ hscheduled =>
        have hlt := hscheduled hstatus nextFire htimed.nextFire_eq
        exact .moved dispatch.now rfl (by omega) hd.now_le fun h => by cases h
      | waiting hupdated hwaiting hquiet =>
        rw [hstatus] at hwaiting
        have hlt := (hwaiting.resolve_left (by decide)).2 nextFire htimed.nextFire_eq
        exact .moved dispatch.now rfl (by omega) hd.now_le fun h => by cases h)
  have hd' := hwritten.dispatches attemptId dispatch hlookup
  refine hwritten.setDispatch hlookup ⟨hd'.used, hd'.now_le, ?_, ?_, ?_, hd'.stage⟩
  · rw [Dispatch.held, ← List.append_assoc, List.map_append]
    refine List.nodup_append'.mpr ⟨hd'.distinct, List.nodup_singleton _, ?_⟩
    rw [List.map_singleton, List.disjoint_singleton, List.mem_map]
    rintro ⟨reminder, hmem, hid⟩
    exact hfree reminder hmem (hid.trans hcolumns.id_eq)
  · intro reminder hmem
    rw [Dispatch.held, ← List.append_assoc, List.mem_append, List.mem_singleton] at hmem
    rcases hmem with hmem | rfl
    · exact hd'.holds reminder hmem
    · obtain ⟨column, -, hiff⟩ := hwrite.mem_iff
      exact ⟨row.rewrite _ column, (hiff _).mpr (Or.inr rfl), rfl, rfl, rfl, rfl⟩
  · intro reminder hmem
    rcases List.mem_append.mp hmem with hmem | hmem
    · exact hd'.ready reminder hmem
    · obtain rfl := List.mem_singleton.mp hmem
      refine ⟨occurrence, ⟨htimed.occurrence_eq, htimed.ordered.trans hdueAt⟩, ?_⟩
      rw [← hcolumns.id_eq] at hclean
      exact hclean

/-- The claim loop, row after row. -/
theorem WorldInvariant.claimChain {now : IsoTimestamp} {rows : List ReminderRow}
    {claimed : List Reminder} {table updated : ReminderTable}
    (hchain : ClaimChain attemptId now rows table claimed updated) :
    ∀ {w : World} (dispatch : Dispatch), WorldInvariant w → w.table = table →
      now = .iso dispatch.now → w.dispatches.lookup attemptId = some dispatch →
      (∀ row ∈ rows, ∃ instant, row.nextFireAt = some instant ∧ instant.ms ≤ dispatch.now) →
      WorldInvariant ({ w with table := updated }.setDispatch attemptId
        { dispatch with todo := dispatch.todo ++ claimed }) := by
  induction hchain with
  | nil table =>
    rintro w dispatch hw rfl rfl hlookup -
    rw [List.append_nil]
    exact hw.setDispatch hlookup (hw.dispatches attemptId dispatch hlookup)
  | @cons row rows claimed rest table written updated hclaim hwrite hrest ih =>
    rintro w dispatch hw rfl rfl hlookup hdue
    have hone := hw.claimOne hlookup hclaim hwrite (hdue row List.mem_cons_self)
    have hnext := ih { dispatch with todo := dispatch.todo ++ [claimed] } hone rfl rfl
      (AList.lookup_insert _) (fun other hother => hdue other (List.mem_cons_of_mem _ hother))
    simpa [World.setDispatch, AList.insert_insert] using hnext

theorem WorldInvariant.claim (hw : WorldInvariant w)
    (hlookup : w.dispatches.lookup attemptId = some dispatch) {claimed : List Reminder}
    {updated : ReminderTable} {limit : ℤ}
    (h : claimDue w.table (.iso dispatch.now) limit attemptId = .ok (claimed, updated)) (n : ℕ) :
    WorldInvariant ({ w with table := updated }.setDispatch attemptId
      { dispatch with todo := claimed.take n, stage := .next }) := by
  have hidle : WorldInvariant (w.setDispatch attemptId
      { now := dispatch.now, todo := [], stage := .next }) :=
    hw.setDispatch hlookup ((hw.dispatches attemptId dispatch hlookup).shrink [] .next (List.nil_sublist _)
      (fun _ h => absurd h List.not_mem_nil) trivial)
  have hclaimed : WorldInvariant ({ w with table := updated }.setDispatch attemptId
      { now := dispatch.now, todo := claimed, stage := .next }) := by
    rcases claimDue_ok (fun _ => hw.row_id) h with ⟨rfl, rfl⟩ | ⟨dueBy, rows, hnow, hdue, -, hchain⟩
    · exact hidle
    · obtain rfl : dispatch.now = dueBy := Option.some.inj hnow
      have hchained := WorldInvariant.claimChain hchain
        { now := dispatch.now, todo := [], stage := .next } hidle rfl rfl
        (AList.lookup_insert _) (fun row hrow => (hdue row hrow).2.2)
      simpa [World.setDispatch, AList.insert_insert] using hchained
  have hd := hclaimed.dispatches attemptId _ (AList.lookup_insert _)
  have htake := hclaimed.setDispatch (AList.lookup_insert _)
    (hd.shrink (claimed.take n) .next (List.take_sublist _ _)
      (fun _ hmem => List.mem_of_mem_take hmem) trivial)
  simpa [World.setDispatch, AList.insert_insert] using htake

/-- Deliveries change for one reminder that the call holds; nothing else looks at them. -/
theorem WorldInvariant.redeliver (hw : WorldInvariant w)
    (hlookup : w.dispatches.lookup attemptId = some dispatch) {reminder : Reminder}
    (hheld : reminder ∈ dispatch.held) {deliveries : List Delivery} {after : Dispatch}
    (hsame : ∀ id, id ≠ reminder.id → deliveriesOf deliveries id = deliveriesOf w.deliveries id)
    (hknown : ∀ d ∈ deliveries, ∃ row ∈ w.table.rows, row.id = d.id)
    (hpast : ∀ d ∈ deliveries, d.occurrence ≤ w.clock) (honce : AtMostOnce deliveries)
    (hbounded : BoundedAttempts deliveries)
    (hafter : DispatchOk w.clock w.usedAttempts w.table deliveries attemptId after) :
    WorldInvariant ({ w with deliveries := deliveries }.setDispatch attemptId after) := by
  have hfiring : ∀ row ∈ w.table.rows, row.status ≠ .firing → row.id ≠ reminder.id :=
    fun row hrow hstatus hid => hstatus (hw.held_row hlookup hheld hrow hid).2
  refine ⟨fun row hrow => ?_, hknown, hpast, honce, hbounded, fun other running h => ?_,
    fun recovery hmem => ?_, fun undo hmem => ?_⟩
  · have hok := hw.rows row hrow
    refine { hok with scheduled := fun hstatus => ?_ }
    have hne := hfiring row hrow (by rw [hstatus]; decide)
    show ∀ occurrence, _ → Clean (deliveriesOf deliveries row.id) occurrence _
    rw [hsame row.id hne]
    exact hok.scheduled hstatus
  · by_cases heq : other = attemptId
    · subst heq
      rw [World.setDispatch, AList.lookup_insert] at h
      exact Option.some.inj h ▸ hafter
    · rw [World.setDispatch, AList.lookup_insert_ne heq] at h
      have hd := hw.dispatches other running h
      have hne : ∀ r ∈ running.held, r.id ≠ reminder.id :=
        fun r hr => hw.held_apart h hlookup heq hr hheld
      refine { hd with ready := fun r hr => ?_, stage := ?_ }
      · obtain ⟨occurrence, hclaimed, hclean⟩ := hd.ready r hr
        refine ⟨occurrence, hclaimed, ?_⟩
        show Clean (deliveriesOf deliveries r.id) occurrence _
        rwa [hsame r.id (hne r ((todo_sublist_held running).subset hr))]
      · have hstage := hd.stage
        cases hcase : running.stage with
        | begun => trivial
        | next => trivial
        | delivering r kind delivered =>
          rw [hcase, StageOk] at hstage
          show StageOk deliveries _ _ _
          rw [StageOk, hsame r.id (hne r (by simp [Dispatch.held, hcase, Stage.current]))]
          exact hstage
        | completing r completion =>
          rw [hcase, StageOk] at hstage
          show StageOk deliveries _ _ _
          rw [StageOk, hsame r.id (hne r (by simp [Dispatch.held, hcase, Stage.current]))]
          exact hstage
  · refine ⟨(hw.recoveries recovery hmem).1, fun r hr => ?_⟩
    have hok := (hw.recoveries recovery hmem).2 r hr
    obtain ⟨token, hused, htoken, hnone⟩ := hok.orphan
    have hne : token ≠ attemptId := by
      rintro rfl
      rw [hlookup] at hnone
      cases hnone
    refine { hok with orphan := ⟨token, hused, htoken, ?_⟩, untouched := fun row hrow hid => ?_ }
    · rw [World.setDispatch, AList.lookup_insert_ne hne]
      exact hnone
    · refine (hok.untouched row hrow hid).imp_left ?_
      rintro ⟨hdata, hstatus, hquiet⟩
      -- the row to recover is not the held one: its attempt is not running
      have hother : row.id ≠ reminder.id := by
        intro hheldId
        obtain ⟨hheldData, -⟩ := hw.held_row hlookup hheld hrow hheldId
        obtain ⟨-, -, -, -, htoken', -⟩ :=
          (hw.dispatches attemptId dispatch hlookup).holds reminder hheld
        rw [← hheldData, hdata, htoken] at htoken'
        exact hne (Option.some.inj htoken')
      refine ⟨hdata, hstatus, ?_⟩
      show ∀ d ∈ deliveriesOf deliveries row.id, _
      rwa [hsame row.id hother]
  · obtain ⟨hshape, hattempt, hknown', canceledAt, planned, nextFire, h1, h2, h3, h4, h5, h6,
      hrows⟩ := hw.undos undo hmem
    refine ⟨hshape, hattempt, hknown', canceledAt, planned, nextFire, h1, h2, h3, h4, h5, h6,
      fun row hrow hid => ?_⟩
    cases hrows row hrow hid with
    | moved updated hupdated hlater hclock hscheduled =>
      exact .moved updated hupdated hlater hclock hscheduled
    | waiting hupdated hstatus hquiet =>
      have hne := hfiring row hrow (by rcases hstatus with h | ⟨h, -⟩ <;> rw [h] <;> decide)
      refine .waiting hupdated hstatus ?_
      show ∀ d ∈ deliveriesOf deliveries row.id, _
      rwa [hsame row.id hne]

/-- A call that goes on with its current reminder: only the deliveries of that one changed. -/
theorem DispatchOk.inside {clock : ℤ} {used : List Id} {table : ReminderTable}
    {before after : List Delivery} (h : DispatchOk clock used table before attemptId dispatch)
    {current : Reminder} {rest : List Reminder} {stage : Stage}
    (hheld : dispatch.held = current :: rest) (htodo : ∀ r ∈ rest, r ∈ dispatch.todo)
    (hcurrent : stage.current = [current] ∨ stage.current = [])
    (hsame : ∀ id, id ≠ current.id → deliveriesOf after id = deliveriesOf before id)
    (hstage : StageOk after attemptId dispatch.now stage) :
    DispatchOk clock used table after attemptId { now := dispatch.now, todo := rest, stage } := by
  have hsub : (stage.current ++ rest).Sublist dispatch.held := by
    rw [hheld]
    rcases hcurrent with h | h <;> rw [h]
    · exact List.Sublist.refl _
    · exact List.sublist_cons_self _ _
  have hnodup := h.distinct
  rw [hheld, List.map_cons, List.nodup_cons] at hnodup
  refine ⟨h.used, h.now_le, h.distinct.sublist (hsub.map _), fun r hr => h.holds r (hsub.subset hr),
    fun r hr => ?_, hstage⟩
  obtain ⟨occurrence, hclaimed, hclean⟩ := h.ready r (htodo r hr)
  have hne : r.id ≠ current.id := fun hid => hnodup.1 (List.mem_map.mpr ⟨r, hr, hid⟩)
  exact ⟨occurrence, hclaimed, by rwa [hsame r.id hne]⟩

theorem WorldInvariant.send (hw : WorldInvariant w)
    (hlookup : w.dispatches.lookup attemptId = some dispatch) {reminder : Reminder}
    {rest : List Reminder} (hheld : dispatch.held = reminder :: rest)
    (htodo : dispatch.todo = reminder :: rest) {kind : DeliveryKind} {occurrence delivered : ℤ}
    (hclaimed : Claimed reminder dispatch.now occurrence)
    (hclean : Clean (deliveriesOf w.deliveries reminder.id) occurrence reminder.attempt)
    (hdelivers : Delivers reminder dispatch.now occurrence kind delivered) :
    WorldInvariant ({ w with
      deliveries := w.deliveries ++ [Delivery.mk reminder.id attemptId delivered none] }.setDispatch
        attemptId
      { now := dispatch.now, todo := rest, stage := .delivering reminder kind delivered }) := by
  have hd := hw.dispatches attemptId dispatch hlookup
  have hmem : reminder ∈ dispatch.held := by rw [hheld]; exact List.mem_cons_self
  have hof : deliveriesOf (w.deliveries ++ [⟨reminder.id, attemptId, delivered, none⟩]) reminder.id =
      deliveriesOf w.deliveries reminder.id ++ [⟨reminder.id, attemptId, delivered, none⟩] := by
    rw [deliveriesOf_send, if_pos rfl]
  have hflight := hclean.send hdelivers.after_claimed reminder.id attemptId
  have hsame : ∀ id, id ≠ reminder.id →
      deliveriesOf (w.deliveries ++ [⟨reminder.id, attemptId, delivered, none⟩]) id =
        deliveriesOf w.deliveries id := by
    intro id hid
    rw [deliveriesOf_send, if_neg (Ne.symm hid)]
  refine hw.redeliver hlookup hmem hsame (fun d hmem' => ?_) (fun d hmem' => ?_) ?_ ?_
    (hd.inside hheld (fun r hr => by rw [htodo]; exact List.mem_cons_of_mem _ hr) (Or.inl rfl) hsame
      ⟨occurrence, hclaimed, hdelivers, by rw [hof]; exact hflight⟩)
  · rcases List.mem_append.mp hmem' with h | h
    · exact hw.known d h
    · obtain rfl := List.mem_singleton.mp h
      obtain ⟨row, hrow, rfl, -⟩ := hd.holds reminder hmem
      exact ⟨row, hrow, (hw.row_id hrow).symm⟩
  · rcases List.mem_append.mp hmem' with h | h
    · exact hw.past d h
    · obtain rfl := List.mem_singleton.mp h
      exact hdelivers.come.trans hd.now_le
  · refine List.pairwise_append.mpr ⟨hw.once, List.pairwise_singleton _ _, fun d hmem' e he => ?_⟩
    obtain rfl := List.mem_singleton.mp he
    intro hid hle
    have hin : d ∈ deliveriesOf w.deliveries reminder.id :=
      List.mem_filter.mpr ⟨hmem', by rw [beq_iff_eq]; exact hid⟩
    have hafter : occurrence ≤ d.occurrence := hdelivers.after_claimed.trans hle
    rcases hclean.earlier d hin with hlt | ⟨-, hnot⟩
    · exact absurd hlt (not_lt.mpr hafter)
    · exact hnot
  · intro id o
    by_cases hid : id = reminder.id
    · subst hid
      by_cases ho : o = delivered
      · subst ho
        rw [hof]
        have hcounted := hflight.counted
        have hretries := hflight.retries
        omega
      · have hold := hw.bounded reminder.id o
        rw [attemptsAt] at hold
        rw [hof, attemptsAt, List.countP_append, List.countP_singleton]
        simpa [Ne.symm ho] using hold
    · rw [hsame id hid]
      exact hw.bounded id o

theorem WorldInvariant.startNext {intl : Intl} {check : EventReminderRecheck} {after : World}
    (hw : WorldInvariant w) (hlookup : w.dispatches.lookup attemptId = some dispatch)
    (h : startNext intl w attemptId check dispatch = some after) : WorldInvariant after := by
  have hd := hw.dispatches attemptId dispatch hlookup
  unfold Reminders.startNext at h
  split at h
  · rename_i reminder rest hstage htodo
    have hheld : dispatch.held = reminder :: rest := by
      rw [Dispatch.held, hstage, htodo]
      rfl
    have hrest : ∀ r ∈ rest, r ∈ dispatch.todo := by
      intro r hr
      rw [htodo]
      exact List.mem_cons_of_mem _ hr
    obtain ⟨occurrence, hclaimed, hclean⟩ := hd.ready reminder (by rw [htodo]; exact List.mem_cons_self)
    split at h
    · cases h
      refine hw.setDispatch hlookup (hd.inside hheld hrest (Or.inr ?_) (fun _ _ => rfl) ?_)
      · rw [hstage]
        rfl
      · rw [hstage]
        trivial
    · rename_i completion hone
      cases h
      obtain ⟨hupdated, hscheduled⟩ := dispatchOne_complete hclaimed rfl hone
      refine hw.setDispatch hlookup (hd.inside hheld hrest (Or.inl rfl) (fun _ _ => rfl)
        ⟨hupdated, fun hstatus => ?_⟩)
      obtain ⟨later, hlater, hschedules⟩ := hscheduled hstatus
      exact ⟨later, 0, hschedules, Clean.of_bound hclean.bound hlater⟩
    · rename_i kind occurrenceAt hone
      obtain ⟨delivered, rfl, hdelivers⟩ := dispatchOne_deliver hclaimed rfl hone
      cases h
      exact hw.send hlookup hheld htodo hclaimed hclean hdelivers
  · cases h

theorem deliveriesOf_answered_other {deliveries : List Delivery} {id other : Id}
    (answer : SinkAnswer) (hne : other ≠ id) :
    deliveriesOf (deliveries.map (Delivery.answered id attemptId answer)) other =
      deliveriesOf deliveries other := by
  rw [deliveriesOf_answered]
  refine (List.map_congr_left fun d hd => ?_).trans (List.map_id _)
  have hid : d.id = other := by simpa [deliveriesOf] using (List.mem_filter.mp hd).2
  rw [Delivery.answered, if_neg (fun h => hne (hid.symm.trans h.1))]
  rfl

theorem AtMostOnce.answered {deliveries : List Delivery} (h : AtMostOnce deliveries)
    (id attemptId : Id) (answer : SinkAnswer) :
    AtMostOnce (deliveries.map (Delivery.answered id attemptId answer)) := by
  refine List.pairwise_map.mpr (h.imp fun {d e} hde hid hle => ?_)
  obtain ⟨hd, hdo, hnot⟩ := answered_same id attemptId answer d
  obtain ⟨he, heo, -⟩ := answered_same id attemptId answer e
  rw [hd, he] at hid
  rw [hdo, heo] at hle
  exact hnot (hde hid hle)

/-- What the answer of the delivery leaves behind for the completion. -/
theorem StageOk.answered {intl : Intl} {deliveries : List Delivery} {reminder : Reminder}
    {kind : DeliveryKind} {now delivered : ℤ} {answer : SinkAnswer}
    {completion : ReminderFiringCompletion}
    (h : StageOk deliveries attemptId now (.delivering reminder kind delivered))
    (hplan : completionAfter intl kind reminder (.iso now) (.iso delivered) answer.outcome =
      .ok completion) :
    StageOk (deliveries.map (Delivery.answered reminder.id attemptId answer)) attemptId now
      (.completing reminder completion) := by
  obtain ⟨occurrence, hclaimed, hdelivers, hflight⟩ := h
  obtain ⟨hupdated, hscheduled⟩ := completionAfter_ok hclaimed rfl hdelivers hplan
  refine ⟨hupdated, fun hstatus => ?_⟩
  rw [deliveriesOf_answered]
  rcases hscheduled hstatus with
    ⟨reason, hanswer, hattempt, hschedules⟩ | ⟨later, hlater, hschedules⟩
  · have hreturned : answer = .returned (.notSent reason true) := by
      cases answer with
      | returned outcome => rw [← hanswer]; rfl
      | threw => cases hanswer
    subst hreturned
    refine ⟨delivered, reminder.attempt + 1, hschedules, hflight.retry (fun d hd => ?_) hattempt⟩
    simpa using (List.mem_filter.mp hd).2
  · exact ⟨later, 0, hschedules, Clean.of_bound (bound_answered _ _ _ hflight.bound) hlater⟩

theorem WorldInvariant.receiveAnswer {intl : Intl} {answer : SinkAnswer} {after : World}
    (hw : WorldInvariant w) (hlookup : w.dispatches.lookup attemptId = some dispatch)
    (h : receiveAnswer intl w attemptId answer dispatch = some after) : WorldInvariant after := by
  have hd := hw.dispatches attemptId dispatch hlookup
  unfold Reminders.receiveAnswer at h
  split at h
  · rename_i reminder kind delivered hstage
    have hheld : dispatch.held = reminder :: dispatch.todo := by
      rw [Dispatch.held, hstage]
      rfl
    have hmem : reminder ∈ dispatch.held := by rw [hheld]; exact List.mem_cons_self
    have hsame : ∀ id, id ≠ reminder.id → deliveriesOf
        (w.deliveries.map (Delivery.answered reminder.id attemptId answer)) id =
          deliveriesOf w.deliveries id :=
      fun id hid => deliveriesOf_answered_other answer hid
    have hold := hd.stage
    rw [hstage] at hold
    -- both ways on give the same deliveries to the rest of the world
    have hon : ∀ stage, (stage.current = [reminder] ∨ stage.current = []) →
        StageOk (w.deliveries.map (Delivery.answered reminder.id attemptId answer)) attemptId
          dispatch.now stage →
        WorldInvariant (({ w with
          deliveries := w.deliveries.map (Delivery.answered reminder.id attemptId answer) } :
            World).setDispatch attemptId { dispatch with stage := stage }) := by
      intro stage hcurrent hok
      refine hw.redeliver hlookup hmem hsame (fun d hd' => ?_) (fun d hd' => ?_)
        (hw.once.answered _ _ _) (fun id o => ?_)
        (hd.inside hheld (fun r hr => hr) hcurrent hsame hok)
      · obtain ⟨e, he, rfl⟩ := List.mem_map.mp hd'
        rw [(answered_same _ _ answer e).1]
        exact hw.known e he
      · exact bound_answered _ _ _ hw.past d hd'
      · rw [deliveriesOf_answered, attemptsAt_answered]
        exact hw.bounded id o
    split at h
    · cases h
      exact hon .next (Or.inr rfl) trivial
    · rename_i completion hplan
      cases h
      exact hon (.completing reminder completion) (Or.inl rfl) (hold.answered hplan)
  · cases h

/-- Completing a firing row at a time not before its claim: what the new row has to satisfy. -/
theorem WorldInvariant.completed (hw : WorldInvariant w) {id token : Id} (now : ℤ)
    {completion : ReminderFiringCompletion} {result : CompleteFiringResult} {updated : ReminderTable}
    (hnow : now ≤ w.clock)
    (hheld : ∀ row ∈ w.table.rows, row.id = id → row.data.firingAttemptId = some token →
      ∀ other running, w.dispatches.lookup other = some running → ∀ r ∈ running.held, r.id ≠ id)
    (hstarted : ∀ row ∈ w.table.rows, row.id = id → row.data.firingAttemptId = some token →
      ∀ started, row.data.updatedAt = .iso started → started ≤ now)
    (hupdated : completion.updatedAt = .iso now)
    (hschedules : completion.status = .scheduled → ∃ occurrence attempt,
      Schedules completion now occurrence attempt ∧
        ∀ row ∈ w.table.rows, row.id = id → row.data.firingAttemptId = some token →
          Clean (deliveriesOf w.deliveries row.id) occurrence attempt)
    (h : completeFiring w.table id token completion = .ok (result, updated)) :
    WorldInvariant { w with table := updated } := by
  rcases completeFiring_ok (fun _ => hw.row_id) h with rfl | ⟨old, next, hwrite, hid, happly⟩
  · exact hw
  subst hid
  have hold := hw.rows old hwrite.mem
  have hshape : Shape next := by
    refine shape_of_completion (fun hstatus => ?_) happly
    obtain ⟨occurrence, attempt, ⟨-, nextFire, htimed, -⟩, -⟩ := hschedules hstatus
    exact ⟨occurrence, nextFire, htimed⟩
  obtain ⟨hdata, htoken, rfl⟩ := applyFiringCompletion_ok happly
  have hstatus := hold.stored.of_status hdata
  have hcolumns := hold.stored.columns
  have hscheduled : completion.status.toStatus = .scheduled → completion.status = .scheduled := by
    cases completion.status <;> simp [CompletionStatus.toStatus]
  refine hw.rewrite hwrite (fun column hcolumn => ?_) (hheld old hwrite.mem rfl htoken)
    (fun _ htoken' => by cases htoken')
    (fun canceledAt planned column hle hclock hundo => ?_)
  · refine ⟨⟨⟨hcolumns.id_eq, hcolumns.actorId_eq, hcolumns.displayNo_eq, rfl,
      nextFireColumn_ok hcolumn⟩, hshape⟩, fun hnew occurrence hocc => ?_, fun hnew => ?_,
      fun _ => ⟨now, hupdated, hnow⟩⟩
    · obtain ⟨occurrence', attempt, ⟨hattempt, nextFire, htimed, -⟩, hclean⟩ :=
        hschedules (hscheduled hnew)
      simp only [ReminderRow.rewrite, hscheduled hnew, if_true] at hocc
      obtain rfl : occurrence' = occurrence :=
        Option.some.inj (htimed.occurrence_eq.symm.trans hocc)
      show Clean _ _ completion.attempt
      rw [hattempt]
      exact hclean old hwrite.mem rfl htoken
    · exfalso
      simp only [ReminderRow.rewrite] at hnew
      cases hc : completion.status <;> rw [hc] at hnew <;> cases hnew
  · cases hundo with
    | moved moved hmoved hlater _ _ =>
      refine .moved now hupdated (lt_of_lt_of_le hlater (hstarted old hwrite.mem rfl htoken moved hmoved))
        hnow fun hnew nextFire hfire => ?_
      obtain ⟨occurrence', attempt, ⟨-, nextFire', htimed, hlt⟩, -⟩ := hschedules (hscheduled hnew)
      simp only [ReminderRow.rewrite, hscheduled hnew, if_true] at hfire
      exact Option.some.inj (htimed.nextFire_eq.symm.trans hfire) ▸ hlt
    | waiting _ hwaiting _ =>
      rw [hstatus] at hwaiting
      rcases hwaiting with h | ⟨h, -⟩ <;> cases h

theorem WorldInvariant.completeCurrent {after : World} (hw : WorldInvariant w)
    (hlookup : w.dispatches.lookup attemptId = some dispatch)
    (h : completeCurrent w attemptId dispatch = some after) : WorldInvariant after := by
  have hd := hw.dispatches attemptId dispatch hlookup
  unfold Reminders.completeCurrent at h
  split at h
  · rename_i reminder completion hstage
    have hheld : dispatch.held = reminder :: dispatch.todo := by
      rw [Dispatch.held, hstage]
      rfl
    have hmem : reminder ∈ dispatch.held := by rw [hheld]; exact List.mem_cons_self
    have hidle : WorldInvariant (w.setDispatch attemptId { dispatch with stage := .next }) :=
      hw.setDispatch hlookup
        (hd.inside hheld (fun r hr => hr) (Or.inr rfl) (fun _ _ => rfl) trivial)
    have hok := hd.stage
    rw [hstage] at hok
    simp only at h
    split at h
    · cases h
      exact hidle
    · rename_i result table hcomplete
      cases h
      have hrow : ∀ row ∈ w.table.rows, row.id = reminder.id → row.data = reminder :=
        fun row hrow hid => (hw.held_row hlookup hmem hrow hid).1
      obtain ⟨-, -, -, -, -, hupdatedAt⟩ := hd.holds reminder hmem
      have hnodup := hd.distinct
      rw [hheld, List.map_cons, List.nodup_cons] at hnodup
      refine hidle.completed dispatch.now hd.now_le
        (fun _ _ _ _ other running hother r hr => ?_) (fun row hrow' hid _ started hstarted => ?_) hok.1 (fun hstatus => ?_) hcomplete
      · by_cases heq : other = attemptId
        · subst heq
          rw [World.setDispatch, AList.lookup_insert] at hother
          cases hother
          exact fun hid => hnodup.1 (List.mem_map.mpr ⟨r, hr, hid⟩)
        · rw [World.setDispatch, AList.lookup_insert_ne heq] at hother
          exact hw.held_apart hother hlookup heq hr hmem
      · rw [hrow row hrow' hid, hupdatedAt, IsoTimestamp.iso.injEq] at hstarted
        exact hstarted.symm.le
      · obtain ⟨occurrence, attempt, hschedules, hclean⟩ := hok.2 hstatus
        refine ⟨occurrence, attempt, hschedules, fun row _ hid _ => ?_⟩
        rw [hid]
        exact hclean
  · cases h

end dispatch

/-! ## Recovery -/

section recovery

variable {w : World}

theorem WorldInvariant.recover (hw : WorldInvariant w) (hnone : w.dispatches.keys = []) :
    WorldInvariant { w with
      recoveries := { now := w.clock, todo := listFiring w.table } :: w.recoveries } := by
  refine { hw with recoveries := fun recovery hmem => ?_ }
  rcases List.mem_cons.mp hmem with rfl | hmem
  · refine ⟨le_refl _, fun reminder hr => ?_⟩
    obtain ⟨row, hfound, rfl⟩ := List.mem_map.mp hr
    have hfound := List.mem_filter.mp ((List.mem_insertionSort _).mp hfound)
    have hrow := hfound.1
    have hstatus : row.status = .firing := by simpa using hfound.2
    have hok := hw.rows row hrow
    obtain ⟨token, hused, started, htoken, hstartedAt, hupdated, hle⟩ := hok.firing hstatus
    obtain ⟨occurrence, nextFire, started', htimed, -, hstarted', hdue⟩ := hok.stored.firing hstatus
    rw [hstartedAt] at hstarted'
    obtain rfl : started = started' := Option.some.inj hstarted'
    refine ⟨⟨token, hused, htoken, ?_⟩, ⟨occurrence, htimed.occurrence_eq, ?_⟩,
      ⟨started, hupdated, hle⟩, fun other hother hid => Or.inl ?_⟩
    · refine AList.lookup_eq_none.mpr fun hmem => ?_
      have hkey := AList.mem_keys.mp hmem
      rw [hnone] at hkey
      exact List.not_mem_nil hkey
    · exact htimed.ordered.trans (hdue.trans hle)
    · obtain rfl := row_of_id hother hrow (hid.trans (hw.row_id hrow))
      exact ⟨rfl, hstatus, fun d hd => hw.past d (List.mem_of_mem_filter hd)⟩
  · exact hw.recoveries recovery hmem

/-- Recovering one row, at the time its recovery took. -/
theorem WorldInvariant.recoverOne (intl : Intl) (hw : WorldInvariant w) {now : ℤ}
    {reminder : Reminder} (hnow : now ≤ w.clock)
    (hok : RecoverOk w.usedAttempts w.dispatches w.table w.deliveries now reminder) :
    WorldInvariant (recoverOne intl w now reminder) := by
  obtain ⟨token, hused, htoken, hgone⟩ := hok.orphan
  unfold Reminders.recoverOne
  rw [htoken]
  simp only
  split
  · exact hw
  · rename_i completion hplan
    split
    · exact hw
    · rename_i result table hcomplete
      obtain ⟨occurrence, hclaimed⟩ := hok.claimed
      obtain ⟨hupdated, hschedules⟩ := recoveryCompletion_ok hclaimed rfl hplan
      have hrow : ∀ row ∈ w.table.rows, row.id = reminder.id →
          row.data.firingAttemptId = some token → row.data = reminder ∧ row.status = .firing ∧
            ∀ d ∈ deliveriesOf w.deliveries row.id, d.occurrence ≤ now := by
        intro row hrow hid hsame
        refine (hok.untouched row hrow hid).resolve_right fun hne => hne ?_
        rw [hsame, htoken]
      refine hw.completed now hnow (fun row hrow' hid hsame other running hother r hr hheld => ?_)
        (fun row hrow' hid hsame started hstarted => ?_) hupdated (fun hstatus => ?_) hcomplete
      · -- a held row is firing under the attempt of its call, and this attempt has no call
        obtain ⟨-, -, -, -, htoken', -⟩ := (hw.dispatches other running hother).holds r hr
        rw [(hw.held_row hother hr hrow' (hid.trans hheld.symm)).1, htoken'] at hsame
        rw [Option.some.inj hsame, hgone] at hother
        cases hother
      · obtain ⟨hdata, -, -⟩ := hrow row hrow' hid hsame
        obtain ⟨started', hupdatedAt, hle⟩ := hok.started
        rw [hdata, hupdatedAt, IsoTimestamp.iso.injEq] at hstarted
        exact hstarted ▸ hle
      · obtain ⟨later, hlater, hs⟩ := hschedules hstatus
        exact ⟨later, 0, hs, fun row hrow' hid hsame =>
          Clean.of_bound (hrow row hrow' hid hsame).2.2 hlater⟩

/-- A recovery that has fewer rows to settle. -/
theorem WorldInvariant.setRecovery (hw : WorldInvariant w) (index : ℕ) {recovery : Recovery}
    (hget : w.recoveries[index]? = some recovery) {todo : List Reminder}
    (htodo : ∀ r ∈ todo, r ∈ recovery.todo) :
    WorldInvariant { w with
      recoveries := w.recoveries.set index { recovery with todo := todo } } := by
  have hmem : recovery ∈ w.recoveries := List.mem_of_getElem? hget
  refine { hw with recoveries := fun other hother => ?_ }
  rcases List.mem_or_eq_of_mem_set hother with hother | rfl
  · exact hw.recoveries other hother
  · exact ⟨(hw.recoveries recovery hmem).1,
      fun r hr => (hw.recoveries recovery hmem).2 r (htodo r hr)⟩

theorem recoverOne_recoveries (intl : Intl) (w : World) (now : ℤ) (reminder : Reminder) :
    (Reminders.recoverOne intl w now reminder).recoveries = w.recoveries := by
  unfold Reminders.recoverOne
  split
  · rfl
  · split
    · rfl
    · split <;> rfl

end recovery

/-! ## Steps and runs -/

theorem worldStep_invariant (intl : Intl) (w : World) (action : Action) (after : World)
    (hw : WorldInvariant w) (h : worldStep intl w action = some after) : WorldInvariant after := by
  cases action with
  | tick ms =>
    cases h
    exact hw.tick ms
  | create input maxActive condition =>
    simp only [worldStep, Option.bind_eq_bind, Option.bind_eq_some_iff, toOption_eq_some] at h
    obtain ⟨draft, hdraft, ⟨result, table⟩, hcreate, h⟩ := h
    cases h
    exact hw.create hdraft hcreate
  | cancel actorId displayNo condition =>
    simp only [worldStep, Option.bind_eq_bind, Option.bind_eq_some_iff, toOption_eq_some] at h
    obtain ⟨⟨result, table⟩, hcancel, h⟩ := h
    cases h
    exact hw.cancel hcancel
  | planUndo actorId displayNo nextFireAt schedule =>
    simp only [worldStep, Option.bind_eq_bind, Option.bind_eq_some_iff, toOption_eq_some] at h
    obtain ⟨current, hread, next, hnext, h⟩ := h
    cases h
    exact hw.planUndo hread hnext
  | undo index actorId maxActive condition =>
    simp only [worldStep, Option.bind_eq_bind, Option.bind_eq_some_iff, toOption_eq_some] at h
    obtain ⟨planned, hget, ⟨result, table⟩, hreactivate, h⟩ := h
    cases h
    exact hw.undo (List.mem_of_getElem? hget) hreactivate
  | begin attemptId =>
    simp only [worldStep] at h
    split at h
    · cases h
    · rename_i hfresh
      cases h
      exact hw.begin hfresh
  | claim attemptId =>
    simp only [worldStep, Option.bind_eq_bind, Option.bind_eq_some_iff] at h
    obtain ⟨dispatch, hlookup, h⟩ := h
    split at h
    · obtain ⟨⟨claimed, table⟩, hclaim, h⟩ := Option.bind_eq_some_iff.mp h
      cases h
      exact hw.claim hlookup (toOption_eq_some.mp hclaim) _
    · cases h
  | start attemptId check =>
    simp only [worldStep, Option.bind_eq_bind, Option.bind_eq_some_iff] at h
    obtain ⟨dispatch, hlookup, h⟩ := h
    exact hw.startNext hlookup h
  | startFails attemptId =>
    simp only [worldStep, Option.bind_eq_bind, Option.bind_eq_some_iff] at h
    obtain ⟨dispatch, hlookup, h⟩ := h
    split at h
    · rename_i hstage
      cases h
      have hd := hw.dispatches attemptId dispatch hlookup
      refine hw.setDispatch hlookup (hd.shrink _ _ ?_ (fun r hr => List.mem_of_mem_tail hr) hd.stage)
      rw [Dispatch.held, hstage]
      exact List.tail_sublist dispatch.todo
    · cases h
  | answer attemptId answer =>
    simp only [worldStep, Option.bind_eq_bind, Option.bind_eq_some_iff] at h
    obtain ⟨dispatch, hlookup, h⟩ := h
    exact hw.receiveAnswer hlookup h
  | complete attemptId =>
    simp only [worldStep, Option.bind_eq_bind, Option.bind_eq_some_iff] at h
    obtain ⟨dispatch, hlookup, h⟩ := h
    exact hw.completeCurrent hlookup h
  | completeFails attemptId =>
    simp only [worldStep, Option.bind_eq_bind, Option.bind_eq_some_iff] at h
    obtain ⟨dispatch, hlookup, h⟩ := h
    split at h
    · cases h
      exact hw.setDispatch hlookup ((hw.dispatches attemptId dispatch hlookup).shrink _ .next
        (todo_sublist_held dispatch) (fun r hr => hr) trivial)
    · cases h
  | stop attemptId =>
    cases h
    exact hw.stop attemptId
  | recover =>
    simp only [worldStep] at h
    split at h
    · rename_i hnone
      cases h
      exact hw.recover hnone
    · cases h
  | recoverNext index =>
    simp only [worldStep, Option.bind_eq_bind, Option.bind_eq_some_iff] at h
    obtain ⟨recovery, hget, h⟩ := h
    split at h
    · cases h
    · rename_i reminder rest htodo
      cases h
      have hmem := hw.recoveries recovery (List.mem_of_getElem? hget)
      have hone := hw.recoverOne intl hmem.1 (hmem.2 reminder (by rw [htodo]; exact List.mem_cons_self))
      refine hone.setRecovery index ?_ (fun r hr => ?_)
      · rw [recoverOne_recoveries]
        exact hget
      · rw [htodo]
        exact List.mem_cons_of_mem _ hr
  | recoverFails index =>
    simp only [worldStep, Option.bind_eq_bind, Option.bind_eq_some_iff] at h
    obtain ⟨recovery, hget, h⟩ := h
    cases h
    exact hw.setRecovery index hget fun r hr => List.mem_of_mem_tail hr
  | recoverStop index =>
    cases h
    exact { hw with recoveries := fun r hr => hw.recoveries r (List.mem_of_mem_eraseIdx hr) }

/-- A one-shot whose first delivery is rate limited, whose second throws, and which a third call
does not find any more. -/
def retriedActions : List Action :=
  [.create { morningInput with schedule := .once (.iso 1000) } 50 true, .tick 1000,
   .begin "a1", .claim "a1", .start "a1" .unreadable,
   .answer "a1" (.returned (.notSent .rateLimited true)), .complete "a1", .stop "a1", .tick 60000,
   .begin "a2", .claim "a2", .start "a2" .unreadable, .answer "a2" .threw, .complete "a2",
   .stop "a2", .recover, .begin "a3", .claim "a3"]

end QuokyPlatform.Reminders
