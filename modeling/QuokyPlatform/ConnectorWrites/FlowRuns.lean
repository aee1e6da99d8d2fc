import QuokyPlatform.ConnectorWrites.Flow
import QuokyPlatform.Foundations.Displacement

/-!
# Runs of the connector-write flow on one session

The calls come one after the other, with views of anchors that may be arbitrarily old; a write that
was claimed finishes at any later time. Nobody else moves the session's pointer. What the calls do to
the pointer is a run of the pointer and the records that displace it: a record is an anchor created
since the run started.
-/

namespace QuokyPlatform.ConnectorWriteFlow
open Sessions Displacement
open ConnectorWrites (ConnectorWriteOutcome)
set_option autoImplicit false
set_option maxHeartbeats 250000

/-! ## Runs -/

structure State where
  store : FlowStore
  /-- The stores so far, this one included. -/
  history : List FlowStore
  inFlight : List Claim

namespace State

def start (store : FlowStore) : State := ⟨store, [store], []⟩

def next (s : State) (store : FlowStore) : State := { s with store, history := store :: s.history }

/-- A view that some call read. -/
def Read (s : State) (view : ConnectorWriteAnchorView) : Prop :=
  ∃ past ∈ s.history, past.anchorAt view.taskId = some view.anchor

/-- An id `newId` may give. -/
def Fresh (s : State) (id : Id) : Prop := s.store.tasks id = none ∧ id ≠ ""

end State

def ClaimResult.claims : ClaimResult → List Claim
  | .step _ => []
  | .claimed claim => [claim]

/-- One call on the session, or a decision about an approval made elsewhere. -/
inductive Step (Draft : Type) (sessionId : Id) : State → State → Prop
  | prepare {s : State} (deps : FlowDeps Draft) (input : FlowInput) (draft : Draft)
      (hsession : input.session.id = sessionId) (hnew : s.Fresh deps.taskId) :
      Step Draft sessionId s (s.next (prepare deps s.store input draft).2)
  | choose {s : State} {store : FlowStore} {step : ConnectorWriteStep} (deps : FlowDeps Draft)
      (input : FlowInput) (view : ConnectorWriteAnchorView) (index : Option ℤ)
      (hsession : input.session.id = sessionId) (hnew : s.Fresh deps.taskId) (hread : s.Read view)
      (h : choose deps s.store input view index = .ok (step, store)) :
      Step Draft sessionId s (s.next store)
  | recordApproval {s : State} {store : FlowStore} {step : ConnectorWriteStep} (input : FlowInput)
      (view : ConnectorWriteAnchorView) (hsession : input.session.id = sessionId)
      (hread : s.Read view) (h : recordApproval s.store input view = .ok (step, store)) :
      Step Draft sessionId s (s.next store)
  | execute {s : State} {store : FlowStore} {result : ClaimResult} (deps : FlowDeps Draft)
      (input : FlowInput) (view : ConnectorWriteAnchorView) (hsession : input.session.id = sessionId)
      (hread : s.Read view) (h : execute deps s.store input view = .ok (result, store)) :
      Step Draft sessionId s { s.next store with inFlight := result.claims ++ s.inFlight }
  | finishExecute {s : State} {before after : List Claim} (input : FlowInput) (claim : Claim)
      (outcome : ConnectorWriteOutcome) (hsession : input.session.id = sessionId)
      (hflight : s.inFlight = before ++ claim :: after) :
      Step Draft sessionId s { s.next (finishExecute s.store input claim outcome).2 with
        inFlight := before ++ after }
  | close {s : State} {store : FlowStore} (session : Session) (view : ConnectorWriteAnchorView)
      (reason : ConnectorWriteCloseReason) (now : IsoTimestamp) (hsession : session.id = sessionId)
      (hread : s.Read view) (h : close s.store session view reason now = .ok store) :
      Step Draft sessionId s (s.next store)
  | releaseExpired {s : State} {store : FlowStore} {release : Option ConnectorWriteRelease}
      (deps : FlowDeps Draft) (session : Session) (now : IsoTimestamp)
      (hsession : session.id = sessionId)
      (h : releaseExpired deps s.store session now = .ok (release, store)) :
      Step Draft sessionId s (s.next store)
  | find {s : State} {store : FlowStore} {view : Option ConnectorWriteAnchorView}
      (session : Session) (hsession : session.id = sessionId)
      (h : find s.store session = .ok (view, store)) : Step Draft sessionId s (s.next store)
  | decide {s : State} (approvals : Id → Option ApprovalRequest) :
      Step Draft sessionId s (s.next { s.store with approvals := approvals })

abbrev Run (Draft : Type) (sessionId : Id) : State → State → Prop :=
  Relation.ReflTransGen (Step Draft sessionId)

/-- The session is stored with the pointer at `x`: at nothing, or at a task that is no anchor. No task
has the empty id. -/
structure PointsAt (store : FlowStore) (sessionId : Id) (x : Option Id) : Prop where
  row : ∃ row, store.sessions.rows sessionId = some row ∧ row.activeTaskId = x
  plain : ∀ id, x = some id → ∃ task, store.tasks id = some task ∧ task.anchorOf = none
  unnamed : store.tasks "" = none

/-! ## The pointer and its records -/

def recordOf (anchor : ConnectorWriteAnchor) : Record Id where
  previous := anchor.previousActiveTaskId
  closed := anchor.status = .CLOSED

/-- The pointer of the session, and the anchors created since `first`. -/
def deskOf (first : FlowStore) (sessionId : Id) (store : FlowStore) : Desk Id where
  pointer := store.activeTaskId sessionId
  records id := if (first.tasks id).isSome then none else (store.anchorAt id).map recordOf

/-- A task stays, as an anchor that displaced the same or as none. -/
def Grows (before after : FlowStore) : Prop :=
  ∀ id task, before.tasks id = some task → ∃ task', after.tasks id = some task' ∧
    task'.anchorOf.map ConnectorWriteAnchor.previousActiveTaskId =
      task.anchorOf.map ConnectorWriteAnchor.previousActiveTaskId

theorem Grows.refl (store : FlowStore) : Grows store store := fun _ task h => ⟨task, h, rfl⟩

theorem Grows.trans {a b c : FlowStore} (hab : Grows a b) (hbc : Grows b c) : Grows a c := by
  intro id task h
  obtain ⟨task', h', heq⟩ := hab id task h
  obtain ⟨task'', h'', heq'⟩ := hbc id task' h'
  exact ⟨task'', h'', heq'.trans heq⟩

/-- The anchor, of any age, displaced what the stored one did. -/
def Consistent (store : FlowStore) (taskId : Id) (anchor : ConnectorWriteAnchor) : Prop :=
  ∃ task, store.tasks taskId = some task ∧
    task.anchorOf.map ConnectorWriteAnchor.previousActiveTaskId = some anchor.previousActiveTaskId

theorem anchorAt_eq_some {store : FlowStore} {taskId : Id} {anchor : ConnectorWriteAnchor} :
    store.anchorAt taskId = some anchor ↔
      ∃ task, store.tasks taskId = some task ∧ task.anchorOf = some anchor :=
  Option.bind_eq_some_iff

theorem consistent_of_anchorAt {store : FlowStore} {taskId : Id} {anchor : ConnectorWriteAnchor}
    (h : store.anchorAt taskId = some anchor) : Consistent store taskId anchor := by
  obtain ⟨task, htask, hanchor⟩ := anchorAt_eq_some.mp h
  exact ⟨task, htask, by rw [hanchor]; rfl⟩

theorem Consistent.grows {before after : FlowStore} {taskId : Id} {anchor : ConnectorWriteAnchor}
    (h : Consistent before taskId anchor) (hgrows : Grows before after) :
    Consistent after taskId anchor := by
  obtain ⟨task, htask, hprev⟩ := h
  obtain ⟨task', htask', heq⟩ := hgrows taskId task htask
  exact ⟨task', htask', heq.trans hprev⟩

variable {first : FlowStore} {sessionId : Id} {x : Option Id}

/-- What holds of the store between calls. -/
structure Sound (first : FlowStore) (sessionId : Id) (x : Option Id) (store : FlowStore) : Prop where
  row : ∃ row, store.sessions.rows sessionId = some row
  plain : ∀ id, x = some id → ∃ task, store.tasks id = some task ∧ task.anchorOf = none
  unnamed : store.tasks "" = none
  grown : Grows first store
  collapsed : Collapsed x (deskOf first sessionId store)

/-- What a call does to the store. -/
structure Moves (first : FlowStore) (sessionId : Id) (x : Option Id) (before after : FlowStore) :
    Prop where
  row : ∃ row, after.sessions.rows sessionId = some row
  unnamed : after.tasks "" = none
  grows : Grows before after
  run : Displacement.Run x (deskOf first sessionId before) (deskOf first sessionId after)

namespace Moves

variable {a b c : FlowStore}

theorem sound (h : Moves first sessionId x a b) (hsound : Sound first sessionId x a) :
    Sound first sessionId x b where
  row := h.row
  plain id hid := by
    obtain ⟨task, htask, hnone⟩ := hsound.plain id hid
    obtain ⟨task', htask', heq⟩ := h.grows id task htask
    rw [hnone] at heq
    exact ⟨task', htask', Option.map_eq_none_iff.mp heq⟩
  unnamed := h.unnamed
  grown := hsound.grown.trans h.grows
  collapsed := hsound.collapsed.run h.run

theorem refl (hsound : Sound first sessionId x a) : Moves first sessionId x a a where
  row := hsound.row
  unnamed := hsound.unnamed
  grows := .refl a
  run := .refl

theorem trans (hab : Moves first sessionId x a b) (hbc : Moves first sessionId x b c) :
    Moves first sessionId x a c where
  row := hbc.row
  unnamed := hbc.unnamed
  grows := hab.grows.trans hbc.grows
  run := hab.run.trans hbc.run

/-- The approvals are not part of it. -/
theorem approvals (hsound : Sound first sessionId x a) (approvals : Id → Option ApprovalRequest) :
    Moves first sessionId x a { a with approvals := approvals } where
  row := hsound.row
  unnamed := hsound.unnamed
  grows := .refl a
  run := .refl

end Moves

/-! ## A sound store -/

namespace Sound

variable {store : FlowStore}

theorem live_eq (h : Sound first sessionId x store) {session : Session}
    (hsession : session.id = sessionId) :
    store.sessions.rows sessionId = some (store.live session) := by
  obtain ⟨row, hrow⟩ := h.row
  simp [FlowStore.live, hsession, hrow]

theorem activeTaskId_eq (h : Sound first sessionId x store) {session : Session}
    (hsession : session.id = sessionId) :
    (store.live session).activeTaskId = store.activeTaskId sessionId := by
  simp [FlowStore.activeTaskId, h.live_eq hsession]

theorem truthy_base (h : Sound first sessionId x store) : truthy x = x := by
  cases hx : x with
  | none => rfl
  | some id =>
    obtain ⟨task, htask, -⟩ := h.plain id hx
    have hne : id ≠ "" := by
      rintro rfl
      rw [h.unnamed] at htask
      cases htask
    simp [truthy, hne]

/-- The pointer is at the base, or at an anchor created in the run. -/
theorem pointer_cases (h : Sound first sessionId x store) :
    store.activeTaskId sessionId = x ∨ ∃ id task anchor, store.activeTaskId sessionId = some id ∧
      (first.tasks id).isSome = false ∧ store.tasks id = some task ∧
      task.anchorOf = some anchor ∧ anchor.previousActiveTaskId = x ∧ anchor.status ≠ .CLOSED := by
  rcases h.collapsed.pointer with hbase | ⟨id, record, hid, hrecord, hopen⟩
  · exact .inl hbase
  · have hprev := h.collapsed.previous id record hrecord
    have hfound := hrecord
    unfold deskOf at hfound
    dsimp only at hfound
    split at hfound
    · cases hfound
    · rename_i hnew
      obtain ⟨anchor, hanchor, rfl⟩ := Option.map_eq_some_iff.mp hfound
      obtain ⟨task, htask, hof⟩ := anchorAt_eq_some.mp hanchor
      exact .inr ⟨id, task, anchor, hid, by simpa using hnew, htask, hof, hprev,
        of_decide_eq_false hopen⟩

theorem truthy_pointer (h : Sound first sessionId x store) :
    truthy (store.activeTaskId sessionId) = store.activeTaskId sessionId := by
  rcases h.pointer_cases with hbase | ⟨id, task, anchor, hid, -, htask, -⟩
  · rw [hbase, h.truthy_base]
  · have hne : id ≠ "" := by
      rintro rfl
      rw [h.unnamed] at htask
      cases htask
    simp [hid, truthy, hne]

end Sound

end QuokyPlatform.ConnectorWriteFlow
