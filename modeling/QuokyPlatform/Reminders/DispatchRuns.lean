import Mathlib.Data.List.AList
import QuokyPlatform.Foundations.Machine
import QuokyPlatform.Reminders.Dispatch
import QuokyPlatform.Reminders.StoreInvariant

/-! # Dispatchers, recovery and undo over one store

Any number of dispatch calls, startup recoveries and owner operations run against one reminder
table, interleaved between repository transactions and sink calls. The clock does not go back; the
sink answers anything, throws or never answers; a call stops at any point. A call that takes the
clock takes it once, when it starts. -/

namespace QuokyPlatform.Reminders

set_option autoImplicit false
set_option maxHeartbeats 250000

/-- How a `deliver` call ended. -/
inductive SinkAnswer
  | returned (outcome : NotificationDeliveryOutcome)
  | threw
deriving DecidableEq, Repr

/-- A sink that throws may have sent. -/
def SinkAnswer.outcome : SinkAnswer → NotificationDeliveryOutcome
  | .returned outcome => outcome
  | .threw => .uncertain .unclassified

/-- One `deliver` call; without an answer it has not returned, or never will. -/
structure Delivery where
  id : Id
  attemptId : Id
  occurrence : ℤ
  answer : Option SinkAnswer
deriving DecidableEq, Repr

/-- Where a dispatch call is: before its claim, between two reminders, or inside one. -/
inductive Stage
  | begun
  | next
  | delivering (reminder : Reminder) (kind : DeliveryKind) (occurrence : ℤ)
  | completing (reminder : Reminder) (completion : ReminderFiringCompletion)
deriving DecidableEq, Repr

structure Dispatch where
  now : ℤ
  todo : List Reminder
  stage : Stage
deriving DecidableEq, Repr

/-- A `recoverInterrupted` call and the rows it has still to settle. -/
structure Recovery where
  now : ℤ
  todo : List Reminder
deriving DecidableEq, Repr

/-- A reactivation that was planned from a canceled row and not written yet. -/
structure Undo where
  next : Reminder
  expectedUpdatedAt : IsoTimestamp
deriving DecidableEq, Repr

structure World where
  clock : ℤ
  table : ReminderTable
  dispatches : AList fun _ : Id => Dispatch
  recoveries : List Recovery
  undos : List Undo
  usedAttempts : List Id
  deliveries : List Delivery

def World.start (clock : ℤ) : World where
  clock := clock
  table := Table.empty
  dispatches := ∅
  recoveries := []
  undos := []
  usedAttempts := []
  deliveries := []

inductive Action
  | tick (ms : ℕ)
  | create (input : NewReminderInput) (maxActive : ℤ) (condition : Bool)
  | cancel (actorId : Id) (displayNo : ℤ) (condition : Bool)
  | planUndo (actorId : Id) (displayNo : ℤ) (nextFireAt : IsoTimestamp)
      (schedule : Option ReminderSchedule)
  | undo (index : ℕ) (actorId : Id) (maxActive : ℤ) (condition : Bool)
  | begin (attemptId : Id)
  | claim (attemptId : Id)
  /-- The next reminder of the batch, with what the calendar answers about its event. -/
  | start (attemptId : Id) (check : EventReminderRecheck)
  /-- The next reminder of the batch fails before its delivery; it stays `FIRING`. -/
  | startFails (attemptId : Id)
  | answer (attemptId : Id) (answer : SinkAnswer)
  | complete (attemptId : Id)
  | completeFails (attemptId : Id)
  /-- The call is over: it returned, was told not to continue, or its process died. -/
  | stop (attemptId : Id)
  | recover
  | recoverNext (index : ℕ)
  | recoverFails (index : ℕ)
  | recoverStop (index : ℕ)
deriving DecidableEq, Repr

def World.setDispatch (w : World) (attemptId : Id) (dispatch : Dispatch) : World :=
  { w with dispatches := w.dispatches.insert attemptId dispatch }

/-- The call of an attempt for a reminder that still waits for its answer gets it. -/
def Delivery.answered (id attemptId : Id) (answer : SinkAnswer) (delivery : Delivery) : Delivery :=
  if delivery.id = id ∧ delivery.attemptId = attemptId ∧ delivery.answer = none then
    { delivery with answer := some answer }
  else delivery

section world

variable (intl : Intl)

def startNext (w : World) (attemptId : Id) (check : EventReminderRecheck) (dispatch : Dispatch) :
    Option World :=
  match dispatch.stage, dispatch.todo with
  | .next, reminder :: rest =>
    match dispatchOne intl reminder (.iso dispatch.now) check with
    | .error _ => some (w.setDispatch attemptId { dispatch with todo := rest })
    | .ok (.complete completion) =>
      some (w.setDispatch attemptId
        { dispatch with todo := rest, stage := .completing reminder completion })
    | .ok (.deliver kind occurrenceAt) =>
      (Date.parse occurrenceAt).map fun occurrence =>
        { w.setDispatch attemptId
            { dispatch with todo := rest, stage := .delivering reminder kind occurrence } with
          deliveries := w.deliveries ++ [{ id := reminder.id, attemptId := attemptId,
                                           occurrence := occurrence, answer := none }] }
  | _, _ => none

def receiveAnswer (w : World) (attemptId : Id) (answer : SinkAnswer) (dispatch : Dispatch) :
    Option World :=
  match dispatch.stage with
  | .delivering reminder kind occurrence =>
    let w := { w with deliveries := w.deliveries.map (Delivery.answered reminder.id attemptId answer) }
    match completionAfter intl kind reminder (.iso dispatch.now) (.iso occurrence) answer.outcome with
    | .error _ => some (w.setDispatch attemptId { dispatch with stage := .next })
    | .ok completion =>
      some (w.setDispatch attemptId { dispatch with stage := .completing reminder completion })
  | _ => none

def completeCurrent (w : World) (attemptId : Id) (dispatch : Dispatch) : Option World :=
  match dispatch.stage with
  | .completing reminder completion =>
    let w := w.setDispatch attemptId { dispatch with stage := .next }
    match completeFiring w.table reminder.id attemptId completion with
    | .error _ => some w
    | .ok (_, table) => some { w with table := table }
  | _ => none

/-- One row of a recovery; a failure of any kind leaves the row for a later recovery. -/
def recoverOne (w : World) (now : ℤ) (reminder : Reminder) : World :=
  match reminder.firingAttemptId with
  | none => w
  | some attemptId =>
    match recoveryCompletion intl reminder (.iso now) with
    | .error _ => w
    | .ok completion =>
      match completeFiring w.table reminder.id attemptId completion with
      | .error _ => w
      | .ok (_, table) => { w with table := table }

def worldStep (w : World) : Action → Option World
  | .tick ms => some { w with clock := w.clock + ms }
  | .create input maxActive condition => do
    let draft ← (createReminderDraft input).toOption
    let (_, table) ← (createWithinLimit w.table draft maxActive condition).toOption
    return { w with table := table }
  | .cancel actorId displayNo condition => do
    let (_, table) ← (cancel w.table actorId displayNo (.iso w.clock) condition).toOption
    return { w with table := table }
  | .planUndo actorId displayNo nextFireAt schedule => do
    let current ← getByDisplayNo w.table actorId displayNo
    let next ← (reactivateReminder current (.iso w.clock) nextFireAt schedule).toOption
    return { w with undos := { next, expectedUpdatedAt := current.updatedAt } :: w.undos }
  | .undo index actorId maxActive condition => do
    let planned ← w.undos[index]?
    let (_, table) ← (reactivate w.table actorId planned.next planned.expectedUpdatedAt maxActive
      condition).toOption
    return { w with table := table }
  | .begin attemptId =>
    if attemptId ∈ w.usedAttempts then none
    else some { w.setDispatch attemptId { now := w.clock, todo := [], stage := .begun } with
      usedAttempts := attemptId :: w.usedAttempts }
  | .claim attemptId => do
    let dispatch ← w.dispatches.lookup attemptId
    if dispatch.stage = .begun then
      let (claimed, table) ←
        (claimDue w.table (.iso dispatch.now) maxDeliveriesPerTick attemptId).toOption
      let batch := claimed.take maxDeliveriesPerTick.toNat
      return { w with table := table }.setDispatch attemptId
        { dispatch with todo := batch, stage := .next }
    else none
  | .start attemptId check => do startNext intl w attemptId check (← w.dispatches.lookup attemptId)
  | .startFails attemptId => do
    let dispatch ← w.dispatches.lookup attemptId
    if dispatch.stage = .next then
      return w.setDispatch attemptId { dispatch with todo := dispatch.todo.tail }
    else none
  | .answer attemptId answer => do
    receiveAnswer intl w attemptId answer (← w.dispatches.lookup attemptId)
  | .complete attemptId => do completeCurrent w attemptId (← w.dispatches.lookup attemptId)
  | .completeFails attemptId => do
    let dispatch ← w.dispatches.lookup attemptId
    match dispatch.stage with
    | .completing _ _ => return w.setDispatch attemptId { dispatch with stage := .next }
    | _ => none
  | .stop attemptId => some { w with dispatches := w.dispatches.erase attemptId }
  | .recover =>
    if w.dispatches.keys = [] then
      some { w with recoveries := { now := w.clock, todo := listFiring w.table } :: w.recoveries }
    else none
  | .recoverNext index => do
    let recovery ← w.recoveries[index]?
    match recovery.todo with
    | [] => none
    | reminder :: rest =>
      let w := recoverOne intl w recovery.now reminder
      return { w with recoveries := w.recoveries.set index { recovery with todo := rest } }
  | .recoverFails index => do
    let recovery ← w.recoveries[index]?
    return { w with recoveries := w.recoveries.set index { recovery with todo := recovery.todo.tail } }
  | .recoverStop index => some { w with recoveries := w.recoveries.eraseIdx index }

end world

end QuokyPlatform.Reminders
