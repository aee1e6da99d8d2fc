import QuokyPlatform.ConnectorWrites.Receipts
import QuokyPlatform.Foundations.Discipline

/-! # The at-most-once write step

`executeOnce` writes a `PREPARED` receipt before it calls `send`, calls `send` at most once, and
records the typed outcome. It is written for any state that has a ledger of receipts, a clock and a
source of ids, so that it runs by itself and inside the write flow. -/

namespace QuokyPlatform.ConnectorWrites

set_option autoImplicit false
set_option maxHeartbeats 250000

/-! ## Requests and outcomes -/

/-- `^[A-Za-z0-9][A-Za-z0-9:._-]{7,199}$` -/
def isConnectorWriteIdempotencyKey (s : String) : Bool :=
  let alnum (c : Char) := isUpperAscii c || isLowerAscii c || isDigitAscii c
  matchesShape alnum (fun c => alnum c || c == ':' || c == '.' || c == '_' || c == '-') 7 199 s

/-- `^[a-z][a-z0-9-]{0,39}$` -/
def isConnectorLabel (s : String) : Bool :=
  matchesShape isLowerAscii (fun c => isLowerAscii c || isDigitAscii c || c == '-') 0 39 s

def targetMaxLength : ℕ := 300

structure ConnectorWriteExecutionRequest where
  actorId : Id
  idempotencyKey : String
  connector : String
  operation : ConnectorWriteOperation
  target : String
  payloadSha256 : String
deriving DecidableEq, Repr

def isValidRequest (request : ConnectorWriteExecutionRequest) : Bool :=
  0 < utf16Length request.actorId && isConnectorWriteIdempotencyKey request.idempotencyKey &&
    isConnectorLabel request.connector &&
    0 < utf16Length request.target && utf16Length request.target ≤ targetMaxLength &&
    isSha256Hex request.payloadSha256

/-- What `send` resolved to, as the code reads it: a member that is not a text counts as absent. -/
structure RawOutcome where
  status : Option String := none
  externalRef : Option String := none
  url : Option String := none
  version : Option String := none
  reason : Option String := none
deriving DecidableEq, Repr

/-- A malformed outcome is uncertain, never sent; `none` is `null` or `undefined`. -/
def normalizeOutcome : Option RawOutcome → ConnectorWriteOutcome
  | none => connectorWriteUncertain .invalidResponse
  | some raw =>
    match raw.status, raw.externalRef, raw.reason with
    | some "SENT", some ref, _ =>
      if 0 < utf16Length ref then .sent ref raw.url raw.version
      else connectorWriteUncertain .invalidResponse
    | some "NOT_SENT", _, some reason => .notSent reason
    | some "UNCERTAIN", _, some reason => .uncertain reason
    | _, _, _ => connectorWriteUncertain .invalidResponse

/-- A `send` that throws may have left. -/
def outcomeOf : Except Failure (Option RawOutcome) → ConnectorWriteOutcome
  | .ok raw => normalizeOutcome raw
  | .error _ => connectorWriteUncertain .unknown

theorem outcomeOf_sent {answer : Except Failure (Option RawOutcome)}
    (h : (outcomeOf answer).status = .sent) :
    ∃ raw, answer = .ok (some raw) ∧ raw.status = some "SENT" := by
  cases answer with
  | error e => cases h
  | ok raw =>
    cases raw with
    | none => cases h
    | some raw =>
      refine ⟨raw, rfl, ?_⟩
      simp only [outcomeOf, normalizeOutcome] at h
      split at h
      · assumption
      · cases h
      · cases h
      · cases h

/-! ## The ledger -/

/-- The receipts, and which call created which. -/
structure Preparation where
  receiptId : Id
  caller : ℕ
deriving DecidableEq, Repr

structure Ledger where
  receipts : ReceiptTable
  preparations : List Preparation

/-- What the executor needs of the state it runs over. -/
class Host (σ : Type) where
  ledger : σ → Ledger
  setLedger : σ → Ledger → σ
  now : σ → IsoTimestamp
  /-- The state after this id was drawn, if it may be. -/
  drawId : σ → Id → Option σ

/-- What comes from outside with one operation. -/
inductive Input
  | proceed
  /-- The storage fails, without an effect. -/
  | fails
  | fresh (id : Id)
  | answers (raw : Option RawOutcome)
  | throws
deriving DecidableEq, Repr

inductive ConnectorWriteExecution
  | executed (outcome : ConnectorWriteOutcome) (receipt : Option ConnectorWriteReceipt)
  | notExecuted (receipt : ConnectorWriteReceipt)
deriving DecidableEq, Repr

section programs

variable {σ : Type} [Host σ] {α : Type}

def readClock : Program σ Input Failure IsoTimestamp := .perform fun s input =>
  match input with
  | .proceed => some (.ok (Host.now s), s)
  | _ => none

def newId : Program σ Input Failure Id := .perform fun s input =>
  match input with
  | .fresh id => (Host.drawId s id).map fun t => (.ok id, t)
  | _ => none

/-- One transaction of the receipt repository. -/
def repositoryCall (op : Ledger → Except Failure (α × Ledger)) : Program σ Input Failure α :=
  .perform fun s input =>
    match input with
    | .proceed => match op (Host.ledger s) with
      | .ok (a, ledger) => some (.ok a, Host.setLedger s ledger)
      | .error e => some (.error e, s)
    | .fails => some (.error .storage, s)
    | _ => none

def prepareIn (self : ℕ) (receipt : ConnectorWriteReceipt) (ledger : Ledger) :
    Except Failure (ConnectorWritePrepareResult × Ledger) := do
  let (result, receipts) ← prepare ledger.receipts receipt
  return (result, { receipts := receipts, preparations :=
    if result.created then ledger.preparations ++ [⟨result.receipt.id, self⟩]
    else ledger.preparations })

def completeIn (id : Id) (outcome : ConnectorWriteOutcome) (now : IsoTimestamp) (ledger : Ledger) :
    Except Failure (Option ConnectorWriteReceipt × Ledger) := do
  let (receipt, receipts) ← complete ledger.receipts id outcome now
  return (receipt, { ledger with receipts := receipts })

def markInterruptedIn (now : IsoTimestamp) (ledger : Ledger) : Except Failure (ℕ × Ledger) := do
  let (changed, receipts) ← markInterruptedPreparedUncertain ledger.receipts now
  return (changed, { ledger with receipts := receipts })

def receiptFor (request : ConnectorWriteExecutionRequest) (id : Id) (createdAt : IsoTimestamp) :
    ConnectorWriteReceipt where
  id := id
  actorId := request.actorId
  idempotencyKey := request.idempotencyKey
  connector := request.connector
  operation := request.operation
  target := request.target
  payloadSha256 := request.payloadSha256
  status := .prepared
  createdAt := createdAt
  updatedAt := createdAt
  data := {}

def executeOnce (self : ℕ) (request : ConnectorWriteExecutionRequest)
    (send : Program σ Input Failure (Option RawOutcome)) :
    Program σ Input Failure ConnectorWriteExecution :=
  if !isValidRequest request then .raise .requestInvalid
  else do
    let createdAt ← readClock
    let id ← newId
    let prepared ← repositoryCall (prepareIn self (receiptFor request id createdAt))
    if !prepared.created then return .notExecuted prepared.receipt
    else do
      let answer ← send.attempt
      let outcome := outcomeOf answer
      let now ← readClock
      let receipt ← repositoryCall (completeIn prepared.receipt.id outcome now)
      return .executed outcome receipt

end programs

/-! ## Rules for the operations -/

section rules

variable {σ : Type} [Host σ] {α : Type} {d : Discipline σ} {i : ℕ} {R : σ → σ → Prop} {s : σ}

theorem readClock_safe {Q : Except Failure IsoTimestamp → σ → Prop}
    (hQ : ∀ t, d.Inv t → R s t → ∀ u, d.Inv u → R t u → Q (.ok (Host.now t)) u) :
    (readClock : Program σ Input Failure IsoTimestamp).Safe d i R Q s := by
  refine Program.Safe.perform fun t ht hst input result u hop => ?_
  cases input with
  | proceed =>
    cases hop
    exact ⟨.refl ht, hQ t ht hst⟩
  | _ => cases hop

theorem newId_safe {Q : Except Failure Id → σ → Prop}
    (hdraw : ∀ t, d.Inv t → R s t → ∀ id u, Host.drawId t id = some u → d.Guar i t u ∧
      ∀ v, d.Inv v → R u v → Q (.ok id) v) :
    (newId : Program σ Input Failure Id).Safe d i R Q s := by
  refine Program.Safe.perform fun t ht hst input result u hop => ?_
  cases input with
  | fresh id =>
    obtain ⟨w, hw, heq⟩ := Option.map_eq_some_iff.mp hop
    cases heq
    exact hdraw t ht hst id u hw
  | _ => cases hop

theorem repositoryCall_safe {op : Ledger → Except Failure (α × Ledger)}
    {Q : Except Failure α → σ → Prop}
    (hok : ∀ t, d.Inv t → R s t → ∀ a ledger, op (Host.ledger t) = .ok (a, ledger) →
      d.Guar i t (Host.setLedger t ledger) ∧
        ∀ v, d.Inv v → R (Host.setLedger t ledger) v → Q (.ok a) v)
    (herror : ∀ e t, d.Inv t → R s t → ∀ v, d.Inv v → R t v → Q (.error e) v) :
    (repositoryCall op : Program σ Input Failure α).Safe d i R Q s := by
  refine Program.Safe.perform fun t ht hst input result u hop => ?_
  cases input with
  | proceed =>
    simp only at hop
    split at hop
    · rename_i a ledger heq
      cases hop
      exact hok t ht hst a ledger heq
    · rename_i e heq
      cases hop
      exact ⟨.refl ht, herror e t ht hst⟩
  | fails =>
    cases hop
    exact ⟨.refl ht, herror .storage t ht hst⟩
  | _ => cases hop

/-- A call of the executor is safe when its two transactions are, and the send is in between.
`Ready` is what the creation of the receipt brings about, `Answered` what the send does. -/
theorem executeOnce_safe [Std.Refl R] [IsTrans σ R] {request : ConnectorWriteExecutionRequest}
    {send : Program σ Input Failure (Option RawOutcome)}
    (Ready : ConnectorWriteReceipt → σ → Prop)
    (Answered : ConnectorWriteReceipt → Except Failure (Option RawOutcome) → σ → Prop)
    (hready : ∀ {receipt t u}, d.Inv t → d.Inv u → R t u → Ready receipt t → Ready receipt u)
    (hanswered : ∀ {receipt answer t u}, d.Inv t → d.Inv u → R t u →
      Answered receipt answer t → Answered receipt answer u)
    (hdraw : ∀ t id u, d.Inv t → Host.drawId t id = some u → d.Guar i t u)
    (hprepare : ∀ t id createdAt result ledger, d.Inv t →
      prepareIn i (receiptFor request id createdAt) (Host.ledger t) = .ok (result, ledger) →
      d.Guar i t (Host.setLedger t ledger) ∧
        (result.created = true → Ready result.receipt (Host.setLedger t ledger)))
    (hsend : ∀ receipt t, d.Inv t → Ready receipt t → send.Safe d i R (Answered receipt) t)
    (hcomplete : ∀ t receipt answer now result ledger, d.Inv t → Answered receipt answer t →
      completeIn receipt.id (outcomeOf answer) now (Host.ledger t) = .ok (result, ledger) →
      d.Guar i t (Host.setLedger t ledger)) :
    (executeOnce i request send).Safe d i R (fun _ _ => True) s := by
  unfold executeOnce
  split
  · exact fun _ _ _ => trivial
  refine Program.Safe.bind (M := fun _ _ => True) (readClock_safe fun _ _ _ _ _ _ => trivial)
    (fun createdAt t ht _ => ?_) fun _ _ _ _ _ _ _ => trivial
  refine Program.Safe.bind (M := fun _ _ => True) (newId_safe fun u hu _ id v hv => ?_)
    (fun id u hu _ => ?_) fun _ _ _ _ _ _ _ => trivial
  · exact ⟨hdraw u id v hu hv, fun _ _ _ => trivial⟩
  refine Program.Safe.bind
    (M := fun result v => ∀ prepared, result = .ok prepared → prepared.created = true →
      Ready prepared.receipt v)
    (repositoryCall_safe (fun v hv _ result ledger hop => ?_) fun _ _ _ _ _ _ _ _ h => by cases h)
    (fun prepared v hv hprepared => ?_) fun _ _ _ _ _ _ _ => trivial
  · obtain ⟨hguar, hmade⟩ := hprepare v id createdAt result ledger hv hop
    refine ⟨hguar, fun w hw hR prepared heq hcreated => ?_⟩
    cases heq
    exact hready hguar.inv hw hR (hmade hcreated)
  split
  · exact fun _ _ _ => trivial
  · rename_i hcreated
    have hmade := hprepared prepared rfl (by simpa using hcreated)
    refine Program.Safe.bind
      (M := fun result w => ∃ answer, result = .ok answer ∧ Answered prepared.receipt answer w)
      (Program.Safe.attempt (hsend _ v hv hmade) fun answer w hw hans x hx hR =>
        ⟨answer, rfl, hanswered hw hx hR hans⟩)
      (fun answer w hw hans => ?_) fun _ _ _ _ _ _ _ => trivial
    obtain ⟨answer', heq, hans⟩ := hans
    cases heq
    refine Program.Safe.bind (M := fun _ x => Answered prepared.receipt answer x)
      (readClock_safe fun x hx hwx y hy hxy =>
        hanswered hw hy (IsTrans.trans _ _ _ hwx hxy) hans)
      (fun now x hx hans => ?_) fun _ _ _ _ _ _ _ => trivial
    refine Program.Safe.bind (M := fun _ _ => True)
      (repositoryCall_safe (fun y hy hxy result ledger hop => ⟨?_, fun _ _ _ => trivial⟩)
        fun _ _ _ _ _ _ _ => trivial)
      (fun _ _ _ _ _ _ _ => trivial) fun _ _ _ _ _ _ _ => trivial
    exact hcomplete y prepared.receipt answer now result ledger hy (hanswered hx hy hxy hans) hop

end rules

end QuokyPlatform.ConnectorWrites
