import QuokyPlatform.ConnectorWrites.Executor

/-! # A connector write is sent at most once

Any number of `executeOnce` calls and startup reconciliations run over one receipt table. A call
that created a receipt owns its key from then on: the receipt is never removed, no other call
creates one for the key, and only its creator sends for it. -/

namespace QuokyPlatform.ConnectorWrites

set_option autoImplicit false
set_option maxHeartbeats 250000

/-! ## The calls and what they send -/

inductive SendAnswer
  | returned (raw : Option RawOutcome)
  | threw
deriving DecidableEq, Repr

/-- One invocation of a `send` callback; without an answer it has not returned, or never will. -/
structure Send where
  idempotencyKey : String
  caller : ℕ
  answer : Option SendAnswer
deriving DecidableEq, Repr

structure SendWorld where
  clock : IsoTimestamp
  ledger : Ledger
  sends : List Send

def SendWorld.start (clock : IsoTimestamp) : SendWorld where
  clock := clock
  ledger := { receipts := Table.empty, preparations := [] }
  sends := []

/-- The clock reads anything and the ids are arbitrary: neither is relied on. -/
instance : Host SendWorld where
  ledger := SendWorld.ledger
  setLedger w ledger := { w with ledger := ledger }
  now := SendWorld.clock
  drawId w _ := some w

def Send.answered (key : String) (caller : ℕ) (answer : SendAnswer) (send : Send) : Send :=
  if send.idempotencyKey = key ∧ send.caller = caller then { send with answer := some answer }
  else send

/-- The callback is invoked. -/
def invoke (self : ℕ) (key : String) : Program SendWorld Input Failure Unit :=
  .perform fun w input => match input with
    | .proceed => some (.ok (), { w with sends := w.sends ++ [⟨key, self, none⟩] })
    | _ => none

/-- The callback returns or throws. -/
def receive (self : ℕ) (key : String) : Program SendWorld Input Failure (Option RawOutcome) :=
  .perform fun w input => match input with
    | .answers raw => some (.ok raw,
        { w with sends := w.sends.map (Send.answered key self (.returned raw)) })
    | .throws => some (.error .writer, { w with sends := w.sends.map (Send.answered key self .threw) })
    | _ => none

def callSend (self : ℕ) (key : String) : Program SendWorld Input Failure (Option RawOutcome) := do
  invoke self key
  receive self key

inductive Call
  | executeOnce (request : ConnectorWriteExecutionRequest)
  | markInterruptedPreparedUncertain (now : IsoTimestamp)
  /-- The clock is set; it may go back. -/
  | setClock (now : IsoTimestamp)
deriving DecidableEq, Repr

def setClock (now : IsoTimestamp) : Program SendWorld Input Failure Unit :=
  .perform fun w _ => some (.ok (), { w with clock := now })

def callOf : Call → ℕ → Program SendWorld Input Failure Unit
  | .executeOnce request, self => do
    let _ ← executeOnce self request (callSend self request.idempotencyKey)
  | .markInterruptedPreparedUncertain now, _ => do
    let _ ← repositoryCall (markInterruptedIn now)
  | .setClock now, _ => setClock now

/-! ## The discipline -/

def sendsOf (self : ℕ) (sends : List Send) : List Send := sends.filter fun send => send.caller == self

/-- The call created the receipt of the key. -/
def Owns (ledger : Ledger) (caller : ℕ) (key : String) : Prop :=
  ∃ row ∈ ledger.receipts.rows, row.idempotencyKey = key ∧ ⟨row.id, caller⟩ ∈ ledger.preparations

/-- The callback returned `SENT`. -/
def Send.ReturnedSent (send : Send) : Prop :=
  ∃ raw : RawOutcome, send.answer = some (.returned (some raw)) ∧ raw.status = some "SENT"

structure SendInvariant (w : SendWorld) : Prop where
  sends_once : w.sends.Pairwise fun a b => a.idempotencyKey ≠ b.idempotencyKey
  sends_owned : ∀ send ∈ w.sends, Owns w.ledger send.caller send.idempotencyKey
  creator_unique : w.ledger.preparations.Pairwise fun a b => a.receiptId ≠ b.receiptId
  creator_row : ∀ p ∈ w.ledger.preparations, ∃ row ∈ w.ledger.receipts.rows, row.id = p.receiptId
  sent_returned : ∀ row ∈ w.ledger.receipts.rows, row.status = .sent →
    ∃ send ∈ w.sends, send.idempotencyKey = row.idempotencyKey ∧ send.ReturnedSent

/-- What is true of any two states of a run. -/
structure SendLater (w v : SendWorld) : Prop where
  receipts : Keeps w.ledger.receipts v.ledger.receipts
  preparations : ∀ p ∈ w.ledger.preparations, p ∈ v.ledger.preparations

/-- What one operation does. -/
structure SendStep (w v : SendWorld) : Prop extends SendLater w v where
  fresh : ∀ row ∈ v.ledger.receipts.rows, row.status = .prepared ∨
    ∃ old ∈ w.ledger.receipts.rows, old.idempotencyKey = row.idempotencyKey
  either : v.ledger = w.ledger ∨ v.sends = w.sends

/-- Others leave the sends of a call alone. -/
structure SendRely (caller : ℕ) (w v : SendWorld) : Prop where
  later : SendLater w v
  own : sendsOf caller v.sends = sendsOf caller w.sends

theorem SendLater.refl (w : SendWorld) : SendLater w w := ⟨Keeps.refl _, fun _ h => h⟩

theorem SendLater.trans {u v w : SendWorld} (huv : SendLater u v) (hvw : SendLater v w) :
    SendLater u w :=
  ⟨huv.receipts.trans hvw.receipts, fun p hp => hvw.preparations p (huv.preparations p hp)⟩

instance : Std.Refl SendLater := ⟨SendLater.refl⟩
instance : IsTrans SendWorld SendLater := ⟨fun _ _ _ => SendLater.trans⟩

/-- An operation that leaves the ledger alone. -/
theorem SendStep.of_ledger_eq {w v : SendWorld} (h : v.ledger = w.ledger) : SendStep w v where
  receipts := h ▸ Keeps.refl _
  preparations := h ▸ fun _ hp => hp
  fresh := h ▸ fun row hrow => Or.inr ⟨row, hrow, rfl⟩
  either := Or.inl h

theorem SendRely.trans {self : ℕ} {u v w : SendWorld} (huv : SendRely self u v)
    (hvw : SendRely self v w) : SendRely self u w :=
  ⟨huv.later.trans hvw.later, hvw.own.trans huv.own⟩

def sendDiscipline : Discipline SendWorld where
  Inv := SendInvariant
  Step := SendStep
  Rely := SendRely
  step_refl _ := .of_ledger_eq rfl
  rely_refl _ w := ⟨.refl w, rfl⟩
  rely_trans := SendRely.trans

theorem Owns.mono {a b : Ledger} {caller : ℕ} {key : String}
    (hkeeps : Keeps a.receipts b.receipts) (hpreparations : ∀ p ∈ a.preparations, p ∈ b.preparations)
    (h : Owns a caller key) : Owns b caller key := by
  obtain ⟨row, hrow, hkey, hmade⟩ := h
  obtain ⟨kept, hkept, hid, hkey', -⟩ := hkeeps row hrow
  exact ⟨kept, hkept, hkey'.trans hkey, hpreparations _ (hid ▸ hmade)⟩

/-- A key has one owner. -/
theorem SendInvariant.owner_unique {w : SendWorld} (hw : SendInvariant w) {i j : ℕ} {key : String}
    (hi : Owns w.ledger i key) (hj : Owns w.ledger j key) : i = j := by
  obtain ⟨row, hrow, hkey, hmade⟩ := hi
  obtain ⟨row', hrow', hkey', hmade'⟩ := hj
  have hsame : row = row' :=
    w.ledger.receipts.eq_of_clash hrow hrow' (Or.inr (hkey.trans hkey'.symm))
  subst hsame
  by_contra hne
  have hsymm : Std.Symm fun a b : Preparation => a.receiptId ≠ b.receiptId :=
    ⟨fun _ _ h => h.symm⟩
  refine hw.creator_unique.forall hmade hmade' (fun heq => hne ?_) rfl
  exact congrArg Preparation.caller heq

/-! ## The operations keep it -/

variable {w : SendWorld}

/-- Rows settled with a status other than `SENT`, or as the answer of their send says. -/
theorem SendInvariant.settle (hw : SendInvariant w) {self : ℕ} {after : ReceiptTable}
    {settled : ConnectorWriteReceipt → Bool} {status : ConnectorWriteReceiptStatus}
    (h : Settles w.ledger.receipts after settled status)
    (hsent : status = .sent → ∀ row ∈ w.ledger.receipts.rows, settled row = true →
      ∃ send ∈ w.sends, send.idempotencyKey = row.idempotencyKey ∧ send.ReturnedSent) :
    sendDiscipline.Guar self w { w with ledger := { w.ledger with receipts := after } } where
  inv :=
    { sends_once := hw.sends_once
      sends_owned := fun send hsend => (hw.sends_owned send hsend).mono h.keeps fun _ hp => hp
      creator_unique := hw.creator_unique
      creator_row := fun p hp => by
        obtain ⟨row, hrow, hid⟩ := hw.creator_row p hp
        obtain ⟨kept, hkept, hid', -, -⟩ := h.keeps row hrow
        exact ⟨kept, hkept, hid'.trans hid⟩
      sent_returned := fun row hrow hstatus => by
        rcases h.backward row hrow with hold | ⟨hnew, old, hold, hsettled, -, hkey⟩
        · exact hw.sent_returned row hold hstatus
        · rw [← hkey]
          exact hsent (hnew.symm.trans hstatus) old hold hsettled }
  step :=
    { receipts := h.keeps
      preparations := fun _ hp => hp
      fresh := fun row hrow => by
        rcases h.backward row hrow with hold | ⟨-, old, hold, -, -, hkey⟩
        · exact Or.inr ⟨row, hold, rfl⟩
        · exact Or.inr ⟨old, hold, hkey⟩
      either := Or.inr rfl }
  others := fun _ _ => ⟨⟨h.keeps, fun _ hp => hp⟩, rfl⟩

/-- A created receipt makes its call the owner of a key that nothing was sent for. -/
theorem SendInvariant.create (hw : SendInvariant w) {self : ℕ} {after : ReceiptTable}
    {receipt : ConnectorWriteReceipt} (h : Creates w.ledger.receipts after receipt) :
    sendDiscipline.Guar self w { w with ledger :=
      { receipts := after, preparations := w.ledger.preparations ++ [⟨receipt.id, self⟩] } } where
  inv :=
    { sends_once := hw.sends_once
      sends_owned := fun send hsend =>
        (hw.sends_owned send hsend).mono h.keeps fun p hp => List.mem_append_left _ hp
      creator_unique := by
        rw [List.pairwise_append]
        refine ⟨hw.creator_unique, List.pairwise_singleton _ _, fun p hp q hq => ?_⟩
        obtain ⟨row, hrow, hid⟩ := hw.creator_row p hp
        rw [List.mem_singleton.mp hq, ← hid]
        exact (h.free row hrow).1
      creator_row := fun p hp => by
        rw [h.rows]
        rcases List.mem_append.mp hp with hold | hnew
        · obtain ⟨row, hrow, hid⟩ := hw.creator_row p hold
          exact ⟨row, List.mem_append_left _ hrow, hid⟩
        · rw [List.mem_singleton.mp hnew]
          exact ⟨receipt, List.mem_append_right _ (List.mem_singleton_self _), rfl⟩
      sent_returned := fun row hrow hstatus => by
        rw [h.rows] at hrow
        rcases List.mem_append.mp hrow with hold | hnew
        · exact hw.sent_returned row hold hstatus
        · rw [List.mem_singleton.mp hnew, h.prepared] at hstatus
          cases hstatus }
  step :=
    { receipts := h.keeps
      preparations := fun p hp => List.mem_append_left _ hp
      fresh := fun row hrow => by
        rw [h.rows] at hrow
        rcases List.mem_append.mp hrow with hold | hnew
        · exact Or.inr ⟨row, hold, rfl⟩
        · exact Or.inl (List.mem_singleton.mp hnew ▸ h.prepared)
      either := Or.inr rfl }
  others := fun _ _ => ⟨⟨h.keeps, fun p hp => List.mem_append_left _ hp⟩, rfl⟩

/-- The owner of a key sends for it, for the first time. -/
theorem SendInvariant.send (hw : SendInvariant w) {self : ℕ} {key : String}
    (howns : Owns w.ledger self key) (hfirst : ∀ send ∈ w.sends, send.idempotencyKey ≠ key) :
    sendDiscipline.Guar self w { w with sends := w.sends ++ [⟨key, self, none⟩] } where
  inv :=
    { sends_once := by
        rw [List.pairwise_append]
        refine ⟨hw.sends_once, List.pairwise_singleton _ _, fun a ha b hb => ?_⟩
        rw [List.mem_singleton.mp hb]
        exact hfirst a ha
      sends_owned := fun send hsend => by
        rcases List.mem_append.mp hsend with hold | hnew
        · exact hw.sends_owned send hold
        · rw [List.mem_singleton.mp hnew]
          exact howns
      creator_unique := hw.creator_unique
      creator_row := hw.creator_row
      sent_returned := fun row hrow hstatus => by
        obtain ⟨send, hsend, h⟩ := hw.sent_returned row hrow hstatus
        exact ⟨send, List.mem_append_left _ hsend, h⟩ }
  step := .of_ledger_eq rfl
  others := fun j hj => ⟨⟨Keeps.refl _, fun _ hp => hp⟩, by
    simp [sendsOf, Ne.symm hj]⟩

theorem answered_key (key : String) (caller : ℕ) (answer : SendAnswer) (send : Send) :
    (send.answered key caller answer).idempotencyKey = send.idempotencyKey ∧
      (send.answered key caller answer).caller = send.caller := by
  unfold Send.answered
  split <;> exact ⟨rfl, rfl⟩

theorem answered_other {key : String} {caller : ℕ} {answer : SendAnswer} {send : Send}
    (h : ¬ (send.idempotencyKey = key ∧ send.caller = caller)) :
    send.answered key caller answer = send :=
  if_neg h

theorem sendsOf_answered {self j : ℕ} (hj : j ≠ self) (key : String) (answer : SendAnswer)
    (sends : List Send) : sendsOf j (sends.map (Send.answered key self answer)) = sendsOf j sends := by
  induction sends with
  | nil => rfl
  | cons send sends ih =>
    have hcaller := (answered_key key self answer send).2
    simp only [sendsOf] at ih ⊢
    rw [List.map_cons, List.filter_cons, List.filter_cons, hcaller, ih]
    by_cases h : send.caller = j
    · rw [answered_other fun hsame => hj (h.symm.trans hsame.2)]
    · have hbeq : (send.caller == j) = false := by simpa using h
      simp [hbeq]

/-- Two sends for one key are the same send. -/
theorem SendInvariant.send_unique (hw : SendInvariant w) {a b : Send} (ha : a ∈ w.sends)
    (hb : b ∈ w.sends) (hkey : a.idempotencyKey = b.idempotencyKey) : a = b := by
  have hsymm : Std.Symm fun a b : Send => a.idempotencyKey ≠ b.idempotencyKey :=
    ⟨fun _ _ h => h.symm⟩
  by_contra hne
  exact hw.sends_once.forall ha hb hne hkey

/-- The one send of a call that waits for its answer gets it. -/
theorem SendInvariant.answer (hw : SendInvariant w) {self : ℕ} {key : String} (answer : SendAnswer)
    (hwaiting : ⟨key, self, none⟩ ∈ w.sends) :
    sendDiscipline.Guar self w
      { w with sends := w.sends.map (Send.answered key self answer) } where
  inv :=
    { sends_once := by
        rw [List.pairwise_map]
        refine hw.sends_once.imp fun {a b} hab => ?_
        rwa [(answered_key key self answer a).1, (answered_key key self answer b).1]
      sends_owned := fun send hsend => by
        obtain ⟨old, hold, rfl⟩ := List.mem_map.mp hsend
        rw [(answered_key key self answer old).1, (answered_key key self answer old).2]
        exact hw.sends_owned old hold
      creator_unique := hw.creator_unique
      creator_row := hw.creator_row
      sent_returned := fun row hrow hstatus => by
        obtain ⟨send, hsend, hkey, hsent⟩ := hw.sent_returned row hrow hstatus
        refine ⟨send, List.mem_map.mpr ⟨send, hsend, answered_other fun hsame => ?_⟩, hkey, hsent⟩
        -- the send that waits has no answer yet, so it is another one
        rw [hw.send_unique hsend hwaiting hsame.1] at hsent
        obtain ⟨raw, hraw, -⟩ := hsent
        cases hraw }
  step := .of_ledger_eq rfl
  others := fun j hj => ⟨⟨Keeps.refl _, fun _ hp => hp⟩, sendsOf_answered hj key answer w.sends⟩

/-! ## What a call knows -/

/-- The call owns the key and has not sent for it. -/
def Ready (self : ℕ) (request : ConnectorWriteExecutionRequest) (receipt : ConnectorWriteReceipt)
    (w : SendWorld) : Prop :=
  (∃ row ∈ w.ledger.receipts.rows, row.id = receipt.id ∧
    row.idempotencyKey = request.idempotencyKey) ∧
  ⟨receipt.id, self⟩ ∈ w.ledger.preparations ∧
  ∀ send ∈ w.sends, send.idempotencyKey ≠ request.idempotencyKey

/-- The call owns the key, and its send came to this answer. -/
def Answered (self : ℕ) (request : ConnectorWriteExecutionRequest)
    (receipt : ConnectorWriteReceipt) (answer : Except Failure (Option RawOutcome))
    (w : SendWorld) : Prop :=
  (∃ row ∈ w.ledger.receipts.rows, row.id = receipt.id ∧
    row.idempotencyKey = request.idempotencyKey) ∧
  ∀ raw, answer = .ok raw → ⟨request.idempotencyKey, self, some (.returned raw)⟩ ∈ w.sends

theorem mem_sendsOf {self : ℕ} {sends : List Send} {send : Send} :
    send ∈ sendsOf self sends ↔ send ∈ sends ∧ send.caller = self := by
  simp [sendsOf]

/-- A send of the call is among the sends of any later state of the others. -/
theorem SendRely.mem {self : ℕ} {v : SendWorld} (h : SendRely self w v) {send : Send}
    (hself : send.caller = self) : send ∈ v.sends ↔ send ∈ w.sends := by
  have hboth : send ∈ sendsOf self v.sends ↔ _ := mem_sendsOf
  rw [h.own, mem_sendsOf] at hboth
  simpa [hself] using hboth.symm

theorem Keeps.row {a b : ReceiptTable} (h : Keeps a b) {id : Id} {key : String}
    (hrow : ∃ row ∈ a.rows, row.id = id ∧ row.idempotencyKey = key) :
    ∃ row ∈ b.rows, row.id = id ∧ row.idempotencyKey = key := by
  obtain ⟨row, hmem, hid, hkey⟩ := hrow
  obtain ⟨kept, hkept, hid', hkey', -⟩ := h row hmem
  exact ⟨kept, hkept, hid'.trans hid, hkey'.trans hkey⟩

theorem Ready.owns {self : ℕ} {request : ConnectorWriteExecutionRequest}
    {receipt : ConnectorWriteReceipt} (h : Ready self request receipt w) :
    Owns w.ledger self request.idempotencyKey := by
  obtain ⟨⟨row, hrow, hid, hkey⟩, hmade, -⟩ := h
  exact ⟨row, hrow, hkey, hid ▸ hmade⟩

theorem Ready.stable {self : ℕ} {request : ConnectorWriteExecutionRequest}
    {receipt : ConnectorWriteReceipt} {v : SendWorld} (hv : SendInvariant v)
    (hR : SendRely self w v) (h : Ready self request receipt w) :
    Ready self request receipt v := by
  have howns := Ready.owns h
  obtain ⟨hrow, hmade, hfirst⟩ := h
  refine ⟨hR.later.receipts.row hrow, hR.later.preparations _ hmade, fun send hsend hkey => ?_⟩
  -- a send for the key would be the owner's, that is this call's, and it made none
  have howner : send.caller = self := by
    refine hv.owner_unique (hkey ▸ hv.sends_owned send hsend) ?_
    exact howns.mono hR.later.receipts hR.later.preparations
  exact hfirst send ((hR.mem howner).mp hsend) hkey

theorem Answered.stable {self : ℕ} {request : ConnectorWriteExecutionRequest}
    {receipt : ConnectorWriteReceipt} {answer : Except Failure (Option RawOutcome)} {v : SendWorld}
    (hR : SendRely self w v) (h : Answered self request receipt answer w) :
    Answered self request receipt answer v :=
  ⟨hR.later.receipts.row h.1, fun raw hraw => (hR.mem rfl).mpr (h.2 raw hraw)⟩

/-! ## The calls are safe -/

theorem callSend_safe {self : ℕ} {request : ConnectorWriteExecutionRequest}
    {receipt : ConnectorWriteReceipt} (h : Ready self request receipt w) :
    (callSend self request.idempotencyKey).Safe sendDiscipline self (SendRely self)
      (Answered self request receipt) w := by
  have hrefl : Std.Refl (SendRely self) := ⟨sendDiscipline.rely_refl self⟩
  unfold callSend
  refine Program.Safe.bind
    (M := fun _ v => (∃ row ∈ v.ledger.receipts.rows, row.id = receipt.id ∧
      row.idempotencyKey = request.idempotencyKey) ∧
      ⟨request.idempotencyKey, self, none⟩ ∈ v.sends)
    (Program.Safe.perform fun v hv hR input result u hop => ?_)
    (fun _ v hv hwaiting => Program.Safe.perform fun u hu hR input result x hop => ?_)
    (fun e v _ hwaiting u _ hR => ⟨hR.later.receipts.row hwaiting.1, fun raw hraw => by cases hraw⟩)
  · cases input with
    | proceed =>
      cases hop
      have hready := h.stable hv hR
      refine ⟨SendInvariant.send hv hready.owns hready.2.2, fun x _ hR' => ?_⟩
      refine ⟨hR'.later.receipts.row hready.1, (hR'.mem rfl).mpr ?_⟩
      exact List.mem_append_right _ (List.mem_singleton_self _)
    | _ => cases hop
  · obtain ⟨hrow, hwait⟩ := hwaiting
    have hwait' := (hR.mem rfl).mpr hwait
    have hrow' := hR.later.receipts.row hrow
    cases input with
    | answers raw =>
      cases hop
      refine ⟨SendInvariant.answer hu _ hwait', fun y _ hR' => ?_⟩
      refine ⟨hR'.later.receipts.row hrow', fun raw' hraw => ?_⟩
      cases hraw
      refine (hR'.mem rfl).mpr (List.mem_map.mpr ⟨_, hwait', ?_⟩)
      simp [Send.answered]
    | throws =>
      cases hop
      refine ⟨SendInvariant.answer hu _ hwait', fun y _ hR' => ?_⟩
      exact ⟨hR'.later.receipts.row hrow', fun raw hraw => by cases hraw⟩
    | _ => cases hop

theorem executeOnceCall_safe (self : ℕ)
    (request : ConnectorWriteExecutionRequest) :
    (executeOnce self request (callSend self request.idempotencyKey)).Safe sendDiscipline self
      (SendRely self) (fun _ _ => True) w := by
  have hrefl : Std.Refl (SendRely self) := ⟨sendDiscipline.rely_refl self⟩
  have htrans : IsTrans SendWorld (SendRely self) := ⟨fun _ _ _ => SendRely.trans⟩
  refine executeOnce_safe (Ready self request) (Answered self request)
    (fun _ hv hR h => h.stable hv hR) (fun _ _ hR h => h.stable hR) ?_ ?_
    (fun receipt v _ h => callSend_safe h) ?_
  · intro v id u hv hdraw
    cases hdraw
    exact .refl hv
  · intro v id createdAt result ledger hv hop
    obtain ⟨⟨prepared, after⟩, hprepare, heq⟩ := bind_ok.mp hop
    cases heq
    have hspec := prepare_ok hprepare
    cases hcreated : result.created with
    | true =>
      rw [hcreated, if_pos rfl] at hspec
      obtain ⟨hcreates, hreceipt⟩ := hspec
      rw [if_pos rfl, hreceipt]
      refine ⟨SendInvariant.create hv hcreates, fun _ => ⟨?_, ?_, fun send hsend hkey => ?_⟩⟩
      · refine ⟨receiptOf (receiptFor request id createdAt), ?_, rfl, rfl⟩
        show _ ∈ after.rows
        rw [hcreates.rows]
        exact List.mem_append_right _ (List.mem_singleton_self _)
      · exact List.mem_append_right _ (List.mem_singleton_self _)
      · -- the key was free, so nothing was sent for it
        obtain ⟨row, hrow, hkey', -⟩ := hv.sends_owned send hsend
        exact (hcreates.free row hrow).2 (hkey'.trans hkey)
    | false =>
      rw [hcreated] at hspec
      subst hspec
      exact ⟨.refl hv, fun h => by cases h⟩
  · intro v receipt answer now result ledger hv hanswered hop
    obtain ⟨⟨completed, after⟩, hcomplete, heq⟩ := bind_ok.mp hop
    cases heq
    refine SendInvariant.settle hv (complete_ok hcomplete) fun hsent row hrow hsettled => ?_
    obtain ⟨raw, rfl, hraw⟩ := outcomeOf_sent hsent
    obtain ⟨⟨own, hown, hid, hkey⟩, hreturned⟩ := hanswered
    have hsame : row = own := by
      refine v.ledger.receipts.eq_of_clash hrow hown (Or.inl ?_)
      simp only [isPreparedAs, Bool.and_eq_true, beq_iff_eq] at hsettled
      exact hsettled.1.trans hid.symm
    exact ⟨_, hreturned _ rfl, (hsame ▸ hkey).symm, raw, rfl, hraw⟩

theorem callOf_safe (call : Call) (self : ℕ) (w : SendWorld) :
    (callOf call self).Safe sendDiscipline self (SendRely self) (fun _ _ => True) w := by
  have hrefl : Std.Refl (SendRely self) := ⟨sendDiscipline.rely_refl self⟩
  cases call with
  | executeOnce request =>
    exact Program.Safe.bind (executeOnceCall_safe self request) (fun _ _ _ _ _ _ _ => trivial)
      fun _ _ _ _ _ _ _ => trivial
  | markInterruptedPreparedUncertain now =>
    refine Program.Safe.bind (M := fun _ _ => True)
      (repositoryCall_safe (fun v hv _ changed ledger hop => ⟨?_, fun _ _ _ => trivial⟩)
        fun _ _ _ _ _ _ _ => trivial)
      (fun _ _ _ _ _ _ _ => trivial) fun _ _ _ _ _ _ _ => trivial
    obtain ⟨⟨count, after⟩, hmark, heq⟩ := bind_ok.mp hop
    cases heq
    exact SendInvariant.settle hv (markInterruptedPreparedUncertain_ok hmark) fun h => by cases h
  | setClock now =>
    refine Program.Safe.perform fun v hv _ input result u hop => ?_
    cases hop
    refine ⟨⟨?_, .of_ledger_eq rfl, fun j _ => ⟨⟨Keeps.refl _, fun _ hp => hp⟩, rfl⟩⟩,
      fun _ _ _ => trivial⟩
    exact ⟨hv.sends_once, hv.sends_owned, hv.creator_unique, hv.creator_row, hv.sent_returned⟩

theorem calls_sound : Pool.Sound sendDiscipline callOf id where
  main call self w _ := callOf_safe call self w
  restart_inv _ h := h
  restart_step _ _ := .of_ledger_eq rfl

theorem SendInvariant.start (clock : IsoTimestamp) : SendInvariant (SendWorld.start clock) where
  sends_once := List.Pairwise.nil
  sends_owned _ h := by cases h
  creator_unique := List.Pairwise.nil
  creator_row _ h := by cases h
  sent_returned _ h := by cases h

/-! ## Runs -/

abbrev runCalls (clock : IsoTimestamp) (actions : List (PoolAction Call Input)) :
    Option (Pool SendWorld Input Failure) :=
  Machine.run (Pool.step callOf id) (Pool.start (SendWorld.start clock)) actions

/-- At most one send per idempotency key, after its `PREPARED` receipt was stored; final receipts
never change; a receipt is `SENT` only by the answer of its send; keys are unique. -/
theorem connector_write_sent_at_most_once (clock : IsoTimestamp)
    (actions : List (PoolAction Call Input)) (pool : Pool SendWorld Input Failure)
    (h : runCalls clock actions = some pool) :
    (pool.shared.sends.Pairwise fun a b => a.idempotencyKey ≠ b.idempotencyKey) ∧
    (∀ send ∈ pool.shared.sends, ∃ first rest earlier, actions = first ++ rest ∧
      runCalls clock first = some earlier ∧
      (∃ row ∈ earlier.shared.ledger.receipts.rows,
        row.idempotencyKey = send.idempotencyKey ∧ row.status = .prepared) ∧
      ∀ s ∈ earlier.shared.sends, s.idempotencyKey ≠ send.idempotencyKey) ∧
    (∀ first rest earlier, actions = first ++ rest → runCalls clock first = some earlier →
      ∀ row ∈ earlier.shared.ledger.receipts.rows, row.status ≠ .prepared →
        row ∈ pool.shared.ledger.receipts.rows) ∧
    (∀ row ∈ pool.shared.ledger.receipts.rows, row.status = .sent →
      ∃ send ∈ pool.shared.sends, send.idempotencyKey = row.idempotencyKey ∧ send.ReturnedSent) ∧
    (pool.shared.ledger.receipts.rows.Pairwise fun a b => a.idempotencyKey ≠ b.idempotencyKey) := by
  have hstart : Pool.Ok sendDiscipline
      (Pool.start (SendWorld.start clock) : Pool SendWorld Input Failure) :=
    Pool.Ok.start (SendInvariant.start clock)
  have hinv : SendInvariant pool.shared := (Pool.run_ok calls_sound hstart h).inv
  refine ⟨hinv.sends_once, fun send hsend => ?_, fun first rest earlier hactions hfirst row hrow
    hfinal => ?_, hinv.sent_returned, pool.shared.ledger.receipts.distinct.imp fun hclash heq =>
    hclash (Or.inr heq)⟩
  · obtain ⟨row, hrow, hkey, -⟩ := hinv.sends_owned send hsend
    obtain ⟨first, rest, u, v, hactions, hrun, hu, hnone, hstep, row', hrow', hkey'⟩ :=
      Pool.run_crossing (P := fun w : SendWorld => ∃ row ∈ w.ledger.receipts.rows,
        row.idempotencyKey = send.idempotencyKey) calls_sound hstart
        (fun ⟨_, hmem, _⟩ => by cases hmem) ⟨row, hrow, hkey⟩ h
    -- the operation that stored the first receipt of the key made no send
    have hnosend : ∀ s ∈ u.shared.sends, s.idempotencyKey ≠ send.idempotencyKey := by
      intro s hs heq
      obtain ⟨old, hold, hkey'', -⟩ := hu.inv.sends_owned s hs
      exact hnone ⟨old, hold, hkey''.trans heq⟩
    have hsends : v.shared.sends = u.shared.sends := by
      refine hstep.either.resolve_left fun hledger => hnone ⟨row', ?_, hkey'⟩
      rwa [← hledger]
    refine ⟨first, rest, v, hactions, hrun, ⟨row', hrow', hkey', ?_⟩, hsends ▸ hnosend⟩
    refine (hstep.fresh row' hrow').resolve_right ?_
    rintro ⟨old, hold, heq⟩
    exact hnone ⟨old, hold, heq.trans hkey'⟩
  · obtain ⟨middle, hmiddle, hlast⟩ := Machine.run_append.mp (hactions ▸ h)
    cases Option.some.inj (hfirst.symm.trans hmiddle)
    have hlater : SendLater earlier.shared pool.shared :=
      Pool.run_related calls_sound (fun _ _ _ hstep => hstep.toSendLater)
        (Pool.run_ok calls_sound hstart hfirst) hlast
    obtain ⟨kept, hkept, -, -, hsame⟩ := hlater.receipts row hrow
    exact hsame hfinal ▸ hkept

def commentRequest : ConnectorWriteExecutionRequest where
  actorId := "u1"
  idempotencyKey := "cwr:approval-1"
  connector := "jira"
  operation := .issueComment
  target := "PROJ-12"
  payloadSha256 := "0123456789abcdef0123456789abcdef0123456789abcdef0123456789abcdef"

def commentSent : RawOutcome := { status := some "SENT", externalRef := some "c-1" }

/-- A write that a reconciliation overtakes while it is in flight, a second call for its key, and a
call that is cut off by a crash right after its send. -/
def overtakenActions : List (PoolAction Call Input) :=
  [.spawn 0 (.executeOnce commentRequest), .step 0 .proceed, .step 0 (.fresh "r1"), .step 0 .proceed,
   .step 0 .proceed, .spawn 1 (.markInterruptedPreparedUncertain (.iso 5)), .step 1 .proceed,
   .step 0 (.answers (some commentSent)), .step 0 .proceed,
   .step 0 .proceed, .spawn 2 (.executeOnce commentRequest), .step 2 .proceed,
   .step 2 (.fresh "r2"), .step 2 .proceed,
   .spawn 3 (.executeOnce { commentRequest with idempotencyKey := "cwr:approval-2" }),
   .step 3 .proceed, .step 3 (.fresh "r3"), .step 3 .proceed, .step 3 .proceed, .crash]

theorem connector_write_sent_at_most_once_overtaken :
    ∃ pool, runCalls (.iso 0) overtakenActions = some pool ∧
      pool.shared.sends = [⟨"cwr:approval-1", 0, some (.returned (some commentSent))⟩,
        ⟨"cwr:approval-2", 3, none⟩] ∧
      (pool.shared.ledger.receipts.rows.map (·.status)) = [.uncertain, .prepared] ∧
      (pool.shared.sends.Pairwise fun a b => a.idempotencyKey ≠ b.idempotencyKey) := by
  have hrun : (runCalls (.iso 0) overtakenActions).map
      (fun pool => (pool.shared.sends, pool.shared.ledger.receipts.rows.map (·.status))) =
      some ([⟨"cwr:approval-1", 0, some (.returned (some commentSent))⟩,
        ⟨"cwr:approval-2", 3, none⟩], [.uncertain, .prepared]) := by
    decide +kernel
  obtain ⟨pool, hpool, heq⟩ := Option.map_eq_some_iff.mp hrun
  rw [Prod.mk.injEq] at heq
  exact ⟨pool, hpool, heq.1, heq.2, (connector_write_sent_at_most_once _ _ pool hpool).1⟩

end QuokyPlatform.ConnectorWrites
