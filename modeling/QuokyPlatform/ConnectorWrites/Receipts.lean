import QuokyPlatform.Foundations.Date
import QuokyPlatform.Foundations.Except
import QuokyPlatform.Foundations.Table
import QuokyPlatform.Foundations.Text

/-! # Connector write receipts

One receipt per idempotency key. It is inserted `PREPARED` before any network call, and leaves
`PREPARED` once, by a compare-and-set. The `data` column is kept as the value it encodes. -/

namespace QuokyPlatform.ConnectorWrites

set_option autoImplicit false
set_option maxHeartbeats 250000

/-! ## Operations and outcomes -/

inductive ConnectorWriteOperation
  | issueComment
  | issueTransition
  | channelPost
  | calendarEventCreate
  | calendarEventUpdate
  | calendarEventDelete
deriving DecidableEq, Repr

inductive ConnectorWriteNotSentReason
  | targetNotAllowed
  | invalidRequest
  | unauthorized
  | forbidden
  | insufficientScope
  | notFound
  | rateLimited
  | rejected
  | transitionUnavailable
  | recurringSeriesRefused
  | alreadyExists
  | targetChanged
  | unavailable
deriving DecidableEq, Repr

def ConnectorWriteNotSentReason.text : ConnectorWriteNotSentReason → String
  | .targetNotAllowed => "TARGET_NOT_ALLOWED"
  | .invalidRequest => "INVALID_REQUEST"
  | .unauthorized => "UNAUTHORIZED"
  | .forbidden => "FORBIDDEN"
  | .insufficientScope => "INSUFFICIENT_SCOPE"
  | .notFound => "NOT_FOUND"
  | .rateLimited => "RATE_LIMITED"
  | .rejected => "REJECTED"
  | .transitionUnavailable => "TRANSITION_UNAVAILABLE"
  | .recurringSeriesRefused => "RECURRING_SERIES_REFUSED"
  | .alreadyExists => "ALREADY_EXISTS"
  | .targetChanged => "TARGET_CHANGED"
  | .unavailable => "UNAVAILABLE"

inductive ConnectorWriteUncertainReason
  | transport
  | serverError
  | invalidResponse
  | unknown
deriving DecidableEq, Repr

def ConnectorWriteUncertainReason.text : ConnectorWriteUncertainReason → String
  | .transport => "TRANSPORT"
  | .serverError => "SERVER_ERROR"
  | .invalidResponse => "INVALID_RESPONSE"
  | .unknown => "UNKNOWN"

def connectorWriteNotSentReasons : List String :=
  [ConnectorWriteNotSentReason.targetNotAllowed, .invalidRequest, .unauthorized, .forbidden,
    .insufficientScope, .notFound, .rateLimited, .rejected, .transitionUnavailable,
    .recurringSeriesRefused, .alreadyExists, .targetChanged, .unavailable].map (·.text)

def connectorWriteUncertainReasons : List String :=
  [ConnectorWriteUncertainReason.transport, .serverError, .invalidResponse, .unknown].map (·.text)

/-- A normalized outcome. Its reason is whatever text the writer gave. -/
inductive ConnectorWriteOutcome
  | sent (externalRef : String) (url version : Option String)
  | notSent (reason : String)
  | uncertain (reason : String)
deriving DecidableEq, Repr

def connectorWriteNotSent (reason : ConnectorWriteNotSentReason) : ConnectorWriteOutcome :=
  .notSent reason.text

def connectorWriteUncertain (reason : ConnectorWriteUncertainReason) : ConnectorWriteOutcome :=
  .uncertain reason.text

/-! ## Receipts -/

inductive ConnectorWriteReceiptStatus
  | prepared
  | sent
  | notSent
  | uncertain
deriving DecidableEq, Repr

def ConnectorWriteOutcome.status : ConnectorWriteOutcome → ConnectorWriteReceiptStatus
  | .sent _ _ _ => .sent
  | .notSent _ => .notSent
  | .uncertain _ => .uncertain

structure ConnectorWriteReceiptData where
  externalRef : Option String := none
  url : Option String := none
  version : Option String := none
  reason : Option String := none
deriving DecidableEq, Repr

structure ConnectorWriteReceipt where
  id : Id
  actorId : Id
  idempotencyKey : String
  connector : String
  operation : ConnectorWriteOperation
  target : String
  payloadSha256 : String
  status : ConnectorWriteReceiptStatus
  createdAt : IsoTimestamp
  updatedAt : IsoTimestamp
  data : ConnectorWriteReceiptData
deriving DecidableEq, Repr

def refMaxLength : ℕ := 300
def urlMaxLength : ℕ := 2000

/-- `^[\x21-\x7e]{1,200}$` -/
def isVersion (s : String) : Bool :=
  matchesShape (fun c => 0x21 ≤ c.toNat && c.toNat ≤ 0x7e)
    (fun c => 0x21 ≤ c.toNat && c.toNat ≤ 0x7e) 0 199 s

def reasons : List String :=
  connectorWriteNotSentReasons ++ connectorWriteUncertainReasons ++ ["INTERRUPTED"]

/-- The whitelist of the `data` column. -/
def receiptData (data : ConnectorWriteReceiptData) : ConnectorWriteReceiptData where
  externalRef := data.externalRef.filter fun ref =>
    0 < utf16Length ref && utf16Length ref ≤ refMaxLength
  url := data.url.filter fun url => url.startsWith "https://" && utf16Length url ≤ urlMaxLength
  version := data.version.filter isVersion
  reason := data.reason.filter reasons.contains

def dataOfOutcome : ConnectorWriteOutcome → ConnectorWriteReceiptData
  | .sent externalRef url version =>
    receiptData { externalRef := some externalRef, url := url, version := version }
  | .notSent reason => receiptData { reason := some reason }
  | .uncertain reason => receiptData { reason := some reason }

/-! ## The table -/

/-- `id TEXT PRIMARY KEY` and `idempotency_key TEXT NOT NULL UNIQUE`. -/
def ConnectorWriteReceipt.Clash (r s : ConnectorWriteReceipt) : Prop :=
  r.id = s.id ∨ r.idempotencyKey = s.idempotencyKey

instance : DecidableRel ConnectorWriteReceipt.Clash := fun r s =>
  inferInstanceAs (Decidable (r.id = s.id ∨ r.idempotencyKey = s.idempotencyKey))

instance : Std.Symm ConnectorWriteReceipt.Clash where
  symm _ _ h := h.imp Eq.symm Eq.symm

/-- The rows of `connector_write_receipts`. -/
abbrev ReceiptTable := Table ConnectorWriteReceipt ConnectorWriteReceipt.Clash

/-- A row as it is read. -/
def receiptOf (row : ConnectorWriteReceipt) : ConnectorWriteReceipt :=
  { row with data := receiptData row.data }

/-- What passed the whitelist once is read back as it was stored. -/
theorem receiptOf_receiptOf (row : ConnectorWriteReceipt) :
    receiptOf (receiptOf row) = receiptOf row := by
  simp only [receiptOf, receiptData, Option.filter_filter, Bool.and_self]

inductive Failure
  | requestInvalid
  | receiptInvalid
  /-- A constraint of the schema, or a storage that fails. -/
  | storage
  /-- Whatever the writer throws. -/
  | writer
deriving DecidableEq, Repr

structure ConnectorWritePrepareResult where
  created : Bool
  receipt : ConnectorWriteReceipt
deriving DecidableEq, Repr

def hasKey (idempotencyKey : String) (row : ConnectorWriteReceipt) : Bool :=
  row.idempotencyKey == idempotencyKey

def findByIdempotencyKey (table : ReceiptTable) (idempotencyKey : String) :
    Option ConnectorWriteReceipt :=
  (table.find (hasKey idempotencyKey)).map receiptOf

/-- `INSERT … ON CONFLICT(idempotency_key) DO NOTHING`, then the row of the key. -/
def prepare (table : ReceiptTable) (receipt : ConnectorWriteReceipt) :
    Except Failure (ConnectorWritePrepareResult × ReceiptTable) :=
  if receipt.status ≠ .prepared then .error .receiptInvalid
  else if !isSha256Hex receipt.payloadSha256 then .error .receiptInvalid
  else match table.find (hasKey receipt.idempotencyKey) with
    | some row => .ok ({ created := false, receipt := receiptOf row }, table)
    | none =>
      let row := receiptOf receipt
      match table.insert row with
      | some table => .ok ({ created := true, receipt := receiptOf row }, table)
      | none => .error .storage

def isPreparedAs (id : Id) (row : ConnectorWriteReceipt) : Bool :=
  row.id == id && row.status == .prepared

/-- Records the outcome on a `PREPARED` receipt; `none` when there is none. -/
def complete (table : ReceiptTable) (id : Id) (outcome : ConnectorWriteOutcome)
    (now : IsoTimestamp) : Except Failure (Option ConnectorWriteReceipt × ReceiptTable) :=
  let set (row : ConnectorWriteReceipt) : ConnectorWriteReceipt :=
    { row with status := outcome.status, updatedAt := now, data := dataOfOutcome outcome }
  match table.update (isPreparedAs id) set with
  | none => .error .storage
  | some after =>
    if table.count (isPreparedAs id) = 0 then .ok (none, after)
    else .ok ((after.find fun row => row.id == id).map receiptOf, after)

/-- Startup reconciliation: every `PREPARED` receipt becomes `UNCERTAIN`. -/
def markInterruptedPreparedUncertain (table : ReceiptTable) (now : IsoTimestamp) :
    Except Failure (ℕ × ReceiptTable) :=
  let interrupted (row : ConnectorWriteReceipt) : ConnectorWriteReceipt :=
    { row with status := .uncertain, updatedAt := now, data := { reason := some "INTERRUPTED" } }
  match table.update (fun row => row.status == .prepared) interrupted with
  | none => .error .storage
  | some after => .ok (table.count fun row => row.status == .prepared, after)

/-! ## What an operation does to the table -/

/-- Every receipt is still there, and unchanged unless it was `PREPARED`; then it kept its id and
its key. -/
def Keeps (before after : ReceiptTable) : Prop :=
  ∀ row ∈ before.rows, ∃ kept ∈ after.rows, kept.id = row.id ∧
    kept.idempotencyKey = row.idempotencyKey ∧ (row.status ≠ .prepared → kept = row)

theorem Keeps.refl (table : ReceiptTable) : Keeps table table :=
  fun row hrow => ⟨row, hrow, rfl, rfl, fun _ => rfl⟩

theorem Keeps.trans {a b c : ReceiptTable} (hab : Keeps a b) (hbc : Keeps b c) : Keeps a c := by
  intro row hrow
  obtain ⟨kept, hkept, hid, hkey, hsame⟩ := hab row hrow
  obtain ⟨last, hlast, hid', hkey', hsame'⟩ := hbc kept hkept
  refine ⟨last, hlast, hid'.trans hid, hkey'.trans hkey, fun hfinal => ?_⟩
  have heq := hsame hfinal
  rw [hsame' (by rw [heq]; exact hfinal), heq]

/-- A receipt was created: its id and its key were free, and it is `PREPARED`. -/
structure Creates (before after : ReceiptTable) (receipt : ConnectorWriteReceipt) : Prop where
  free : ∀ row ∈ before.rows, row.id ≠ receipt.id ∧
    row.idempotencyKey ≠ receipt.idempotencyKey
  prepared : receipt.status = .prepared
  rows : after.rows = before.rows ++ [receipt]

theorem Creates.keeps {before after : ReceiptTable} {receipt : ConnectorWriteReceipt}
    (h : Creates before after receipt) : Keeps before after := by
  intro row hrow
  refine ⟨row, ?_, rfl, rfl, fun _ => rfl⟩
  rw [h.rows]
  exact List.mem_append_left _ hrow

theorem prepare_ok {table after : ReceiptTable} {receipt : ConnectorWriteReceipt}
    {result : ConnectorWritePrepareResult} (h : prepare table receipt = .ok (result, after)) :
    if result.created then Creates table after (receiptOf receipt) ∧
      result.receipt = receiptOf receipt
    else after = table := by
  unfold prepare at h
  split at h
  · cases h
  · rename_i hstatus
    split at h
    · cases h
    · split at h
      · cases h
        rfl
      · rename_i hnone
        simp only at h
        split at h
        · rename_i inserted hinsert
          cases h
          obtain ⟨hfree, hrows⟩ := Table.insert_eq_some hinsert
          refine ⟨⟨fun row hrow => ?_, not_ne_iff.mp hstatus, hrows⟩, receiptOf_receiptOf receipt⟩
          exact not_or.mp (hfree row hrow)
        · cases h

/-- Rows that were `PREPARED` got another status, the others stayed as they were. -/
structure Settles (before after : ReceiptTable) (settled : ConnectorWriteReceipt → Bool)
    (status : ConnectorWriteReceiptStatus) : Prop where
  prepared : ∀ row, settled row = true → row.status = .prepared
  forward : ∀ row ∈ before.rows, if settled row then
    ∃ kept ∈ after.rows, kept.id = row.id ∧ kept.idempotencyKey = row.idempotencyKey
    else row ∈ after.rows
  backward : ∀ row ∈ after.rows, row ∈ before.rows ∨ row.status = status ∧
    ∃ old ∈ before.rows, settled old = true ∧ old.id = row.id ∧
      old.idempotencyKey = row.idempotencyKey

theorem Settles.keeps {before after : ReceiptTable} {settled : ConnectorWriteReceipt → Bool}
    {status : ConnectorWriteReceiptStatus} (h : Settles before after settled status) :
    Keeps before after := by
  intro row hrow
  have hforward := h.forward row hrow
  cases hsettled : settled row with
  | true =>
    rw [hsettled, if_pos rfl] at hforward
    obtain ⟨kept, hkept, hid, hkey⟩ := hforward
    exact ⟨kept, hkept, hid, hkey, fun hfinal => absurd (h.prepared row hsettled) hfinal⟩
  | false =>
    rw [hsettled] at hforward
    exact ⟨row, hforward, rfl, rfl, fun _ => rfl⟩

theorem update_settles {before after : ReceiptTable} {settled : ConnectorWriteReceipt → Bool}
    {set : ConnectorWriteReceipt → ConnectorWriteReceipt} {status : ConnectorWriteReceiptStatus}
    (hprepared : ∀ row, settled row = true → row.status = .prepared)
    (hset : ∀ row, (set row).id = row.id ∧ (set row).idempotencyKey = row.idempotencyKey ∧
      (set row).status = status)
    (h : before.update settled set = some after) : Settles before after settled status := by
  have hrows := Table.update_rows h
  refine ⟨hprepared, fun row hrow => ?_, fun row hrow => ?_⟩
  · have hmem : (bif settled row then set row else row) ∈ after.rows := by
      rw [hrows]
      exact Table.mem_updateRows.mpr ⟨row, hrow, rfl⟩
    cases hsettled : settled row with
    | true =>
      rw [hsettled] at hmem
      exact ⟨set row, hmem, (hset row).1, (hset row).2.1⟩
    | false =>
      rw [hsettled] at hmem
      exact hmem
  · rw [hrows] at hrow
    obtain ⟨old, hold, heq⟩ := Table.mem_updateRows.mp hrow
    cases hsettled : settled old with
    | true =>
      rw [hsettled, cond_true] at heq
      subst heq
      exact Or.inr ⟨(hset old).2.2, old, hold, hsettled, (hset old).1.symm, (hset old).2.1.symm⟩
    | false =>
      rw [hsettled, cond_false] at heq
      exact Or.inl (heq ▸ hold)

theorem complete_ok {table after : ReceiptTable} {id : Id} {outcome : ConnectorWriteOutcome}
    {now : IsoTimestamp} {result : Option ConnectorWriteReceipt}
    (h : complete table id outcome now = .ok (result, after)) :
    Settles table after (isPreparedAs id) outcome.status := by
  unfold complete at h
  simp only at h
  split at h
  · cases h
  · rename_i updated hupdate
    have hafter : after = updated := by
      split at h <;> (cases h; rfl)
    subst hafter
    refine update_settles (fun row hrow => ?_) ?_ hupdate
    · simp only [isPreparedAs, Bool.and_eq_true, beq_iff_eq] at hrow
      exact hrow.2
    · exact fun row => ⟨rfl, rfl, rfl⟩

theorem markInterruptedPreparedUncertain_ok {table after : ReceiptTable} {now : IsoTimestamp}
    {changed : ℕ} (h : markInterruptedPreparedUncertain table now = .ok (changed, after)) :
    Settles table after (fun row => row.status == .prepared) .uncertain := by
  unfold markInterruptedPreparedUncertain at h
  simp only at h
  split at h
  · cases h
  · rename_i updated hupdate
    cases h
    refine update_settles (fun row hrow => beq_iff_eq.mp hrow) ?_ hupdate
    exact fun row => ⟨rfl, rfl, rfl⟩

end QuokyPlatform.ConnectorWrites
