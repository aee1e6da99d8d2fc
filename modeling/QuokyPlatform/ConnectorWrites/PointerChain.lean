import QuokyPlatform.ConnectorWrites.FlowRuns

/-!
# The pointer goes back to what a connector write displaced

A saved anchor is a record kept open, settled or closed, a created one is a record that takes the
pointer. So every call is a run of the pointer and its records, and these keep the chain collapsed.
-/

namespace QuokyPlatform.ConnectorWriteFlow
open Sessions Displacement
open ConnectorWrites (ConnectorWriteOutcome)
set_option autoImplicit false
set_option maxHeartbeats 250000

variable {first : FlowStore} {sessionId : Id} {x : Option Id} {store : FlowStore}

/-! ## Saves -/

theorem anchorAt_saveTask_self (store : FlowStore) (id : Id) (task : Task) :
    (store.saveTask id task).anchorAt id = task.anchorOf := by
  simp [FlowStore.anchorAt, FlowStore.saveTask]

theorem anchorAt_saveTask_of_ne {id other : Id} (task : Task) (h : other ≠ id) :
    (store.saveTask id task).anchorAt other = store.anchorAt other := by
  simp [FlowStore.anchorAt, FlowStore.saveTask, h]

/-- An anchor created in the run is a record. -/
theorem deskOf_saveTask {id : Id} {task : Task} {anchor : ConnectorWriteAnchor}
    (hnew : (first.tasks id).isSome = false) (hanchor : task.anchorOf = some anchor) :
    deskOf first sessionId (store.saveTask id task) =
      (deskOf first sessionId store).put id (recordOf anchor) := by
  refine Desk.ext rfl ?_
  funext other
  by_cases heq : other = id
  · subst heq
    rw [Desk.put_self]
    simp [deskOf, hnew, anchorAt_saveTask_self, hanchor]
  · rw [Desk.put_of_ne _ heq]
    simp [deskOf, anchorAt_saveTask_of_ne task heq]

/-- A task from before the run is none. -/
theorem deskOf_saveTask_old {id : Id} (task : Task) (hold : (first.tasks id).isSome = true) :
    deskOf first sessionId (store.saveTask id task) = deskOf first sessionId store := by
  refine Desk.ext rfl ?_
  funext other
  by_cases heq : other = id
  · subst heq
    simp [deskOf, hold]
  · simp [deskOf, anchorAt_saveTask_of_ne task heq]

/-- The row a save of the live row with other fields leaves. -/
theorem rows_saveSession {row session : Session} (hid : session.id = sessionId)
    (hrow : store.sessions.rows sessionId = some row) (hstatus : session.status = row.status) :
    (store.saveSession session).sessions.rows sessionId = some session := by
  subst hid
  have hsaved : SessionTable.upserted (store.sessions.rows session.id) session = session := by
    rw [hrow]
    unfold SessionTable.upserted
    dsimp only
    rw [if_neg (fun h => h.2 (hstatus.trans h.1))]
  show Function.update store.sessions.rows session.id _ session.id = _
  rw [Function.update_self, hsaved]

theorem deskOf_saveSession {row session : Session} (hid : session.id = sessionId)
    (hrow : store.sessions.rows sessionId = some row) (hstatus : session.status = row.status) :
    deskOf first sessionId (store.saveSession session) =
      { deskOf first sessionId store with pointer := session.activeTaskId } := by
  refine Desk.ext ?_ rfl
  show (store.saveSession session).activeTaskId sessionId = _
  rw [FlowStore.activeTaskId, rows_saveSession hid hrow hstatus]
  rfl

/-! ## Anchors saved -/

/-- The task as `saveAnchor` saves it. -/
def anchored (task : Task) (anchor : ConnectorWriteAnchor) : Task :=
  { task with
    status := taskStatusOf anchor.status
    updatedAt := anchor.updatedAt
    connectorWriteAnchor := some anchor }

theorem anchorOf_of_plan {task task' : Task} {anchor : ConnectorWriteAnchor} {previous : Option Id}
    (h : task.anchorOf.map ConnectorWriteAnchor.previousActiveTaskId = some previous)
    (hplan : task'.planId = task.planId) (hanchor : task'.connectorWriteAnchor = some anchor) :
    task'.anchorOf = some anchor := by
  obtain ⟨found, hfound, -⟩ := Option.map_eq_some_iff.mp h
  unfold Task.anchorOf at hfound ⊢
  split at hfound
  · cases hfound
  · rename_i hnone
    rw [hplan, if_neg hnone, hanchor]

theorem superseded_anchorOf {task : Task} {anchor : ConnectorWriteAnchor}
    (h : task.anchorOf = some anchor) : (superseded task anchor).anchorOf =
      some { anchor with status := .CLOSED, closedReason := some .superseded } := by
  have hprev : task.anchorOf.map ConnectorWriteAnchor.previousActiveTaskId =
      some anchor.previousActiveTaskId := by rw [h, Option.map_some]
  exact anchorOf_of_plan hprev rfl rfl

theorem grows_saveTask {id : Id} {task task' : Task} (htask : store.tasks id = some task)
    (hprev : task'.anchorOf.map ConnectorWriteAnchor.previousActiveTaskId =
      task.anchorOf.map ConnectorWriteAnchor.previousActiveTaskId) :
    Grows store (store.saveTask id task') := by
  intro other found hfound
  by_cases heq : other = id
  · subst heq
    rw [htask, Option.some.injEq] at hfound
    subst hfound
    exact ⟨task', Function.update_self .., hprev⟩
  · exact ⟨found, (Function.update_of_ne heq ..).trans hfound, rfl⟩

theorem grows_saveNew {id : Id} (task : Task) (hnew : store.tasks id = none) :
    Grows store (store.saveTask id task) := by
  intro other found hfound
  have heq : other ≠ id := by
    rintro rfl
    rw [hnew] at hfound
    cases hfound
  exact ⟨found, (Function.update_of_ne heq ..).trans hfound, rfl⟩

theorem unnamed_saveTask {id : Id} (task : Task) (h : store.tasks "" = none) (hid : id ≠ "") :
    (store.saveTask id task).tasks "" = none :=
  (Function.update_of_ne (Ne.symm hid) ..).trans h

/-! ## The pointer handed back -/

theorem activeTaskId_of_row {row : Session} (hrow : store.sessions.rows sessionId = some row) :
    store.activeTaskId sessionId = row.activeTaskId := by
  rw [FlowStore.activeTaskId, hrow]
  rfl

theorem restorePointer_elsewhere {session : Session} {taskId : Id} (anchor : ConnectorWriteAnchor)
    (hsession : session.id = sessionId) (h : store.activeTaskId sessionId ≠ some taskId) :
    restorePointer store taskId session anchor = store := by
  unfold restorePointer
  rw [hsession]
  cases hrow : store.sessions.rows sessionId with
  | none => rfl
  | some row =>
    rw [activeTaskId_of_row hrow] at h
    exact if_pos h

/-- The pointer is handed back, if it is at the anchor's task. -/
theorem restorePointer_spec (first : FlowStore) (taskId : Id) {session : Session}
    {anchor : ConnectorWriteAnchor}
    (hsession : session.id = sessionId) (h : ∃ row, store.sessions.rows sessionId = some row)
    (hprev : truthy anchor.previousActiveTaskId = anchor.previousActiveTaskId) :
    (∃ row, (restorePointer store taskId session anchor).sessions.rows sessionId = some row) ∧
    (restorePointer store taskId session anchor).tasks = store.tasks ∧
    deskOf first sessionId (restorePointer store taskId session anchor) =
      if anchor.status = .CLOSED ∨ anchor.previousActiveTaskId.isSome then
        (deskOf first sessionId store).hand taskId anchor.previousActiveTaskId
      else deskOf first sessionId store := by
  obtain ⟨row, hrow⟩ := h
  have hpointer : (deskOf first sessionId store).pointer = row.activeTaskId := activeTaskId_of_row hrow
  by_cases hat : row.activeTaskId = some taskId
  · have hid : row.id = sessionId := store.sessions.keyed _ _ hrow
    have hsaved (pointer : Option Id) :
        (store.saveSession { row with activeTaskId := pointer }).sessions.rows sessionId =
          some { row with activeTaskId := pointer } := rows_saveSession hid hrow rfl
    have hdesk (pointer : Option Id) :
        deskOf first sessionId (store.saveSession { row with activeTaskId := pointer }) =
          { deskOf first sessionId store with pointer := pointer } := deskOf_saveSession hid hrow rfl
    unfold restorePointer
    rw [hsession, hrow]
    dsimp only
    rw [if_neg (not_not.mpr hat), hprev, Desk.hand_of_eq _ (hpointer.trans hat)]
    cases hp : anchor.previousActiveTaskId with
    | some previous => exact ⟨⟨_, hsaved _⟩, rfl, by simpa using hdesk (some previous)⟩
    | none =>
      by_cases hclosed : anchor.status = .CLOSED
      · rw [if_pos hclosed, if_pos (Or.inl hclosed)]
        exact ⟨⟨_, hsaved _⟩, rfl, hdesk none⟩
      · rw [if_neg hclosed, if_neg (by simp [hclosed])]
        exact ⟨⟨_, hrow⟩, rfl, rfl⟩
  · have hne : (deskOf first sessionId store).pointer ≠ some taskId := fun h => hat (hpointer ▸ h)
    rw [restorePointer_elsewhere anchor hsession hne, Desk.hand_of_ne _ hne, ite_self]
    exact ⟨⟨_, hrow⟩, rfl, rfl⟩

namespace Sound

variable {taskId : Id} {anchor : ConnectorWriteAnchor}

theorem id_ne {task : Task} {id : Id} (h : Sound first sessionId x store)
    (htask : store.tasks id = some task) : id ≠ "" := by
  rintro rfl
  rw [h.unnamed] at htask
  cases htask

/-- The pointer is not at an anchor from before the run. -/
theorem pointer_ne_old (h : Sound first sessionId x store)
    (hconsistent : Consistent store taskId anchor) (hold : (first.tasks taskId).isSome = true) :
    store.activeTaskId sessionId ≠ some taskId := by
  intro hat
  rcases h.pointer_cases with hbase | ⟨id, task, found, hid, hnew, -⟩
  · obtain ⟨task, htask, hnone⟩ := h.plain taskId (hbase.symm.trans hat)
    obtain ⟨task', htask', hprev⟩ := hconsistent
    rw [htask, Option.some.injEq] at htask'
    subst htask'
    rw [hnone] at hprev
    cases hprev
  · rw [hid, Option.some.injEq] at hat
    subst hat
    rw [hold] at hnew
    cases hnew

/-- The record of an anchor created in the run. -/
theorem record_of_consistent (h : Sound first sessionId x store)
    (hconsistent : Consistent store taskId anchor) (hnew : (first.tasks taskId).isSome = false) :
    ∃ closed, (deskOf first sessionId store).records taskId =
      some ⟨anchor.previousActiveTaskId, closed⟩ ∧ anchor.previousActiveTaskId = x := by
  obtain ⟨task, htask, hprev⟩ := hconsistent
  obtain ⟨found, hfound, heq⟩ := Option.map_eq_some_iff.mp hprev
  have hrecord : (deskOf first sessionId store).records taskId = some (recordOf found) := by
    simp [deskOf, hnew, FlowStore.anchorAt, htask, hfound]
  refine ⟨found.status = .CLOSED, ?_, ?_⟩
  · rw [hrecord, recordOf, heq]
  · exact heq ▸ h.collapsed.previous taskId _ hrecord

/-- The anchor is saved and the pointer left alone. -/
theorem moves_keep (h : Sound first sessionId x store)
    (hconsistent : Consistent store taskId anchor) (hopen : anchor.status ≠ .CLOSED) {task : Task}
    (htask : store.tasks taskId = some task) :
    Moves first sessionId x store (store.saveTask taskId (anchored task anchor)) := by
  obtain ⟨task', htask', hprev⟩ := hconsistent
  have hsame : task' = task := Option.some.inj (htask'.symm.trans htask)
  subst hsame
  have hof : (anchored task' anchor).anchorOf = some anchor := anchorOf_of_plan hprev rfl rfl
  refine ⟨h.row, unnamed_saveTask _ h.unnamed (h.id_ne htask), grows_saveTask htask ?_, ?_⟩
  · rw [hof, hprev, Option.map_some]
  · cases hnew : (first.tasks taskId).isSome with
    | true =>
      rw [deskOf_saveTask_old _ hnew]
    | false =>
      obtain ⟨closed, hrecord, -⟩ := h.record_of_consistent ⟨task', htask, hprev⟩ hnew
      rw [deskOf_saveTask hnew hof]
      have hstep := @Displacement.Step.keep _ _ x _ _ _ hrecord
      have hput : recordOf anchor = ⟨anchor.previousActiveTaskId, false⟩ := by
        simp [recordOf, hopen]
      rw [hput]
      exact .single hstep

/-- A finished or closed anchor is saved and the pointer handed back. -/
theorem moves_restore (h : Sound first sessionId x store)
    (hconsistent : Consistent store taskId anchor) {task : Task}
    (htask : store.tasks taskId = some task) {session : Session} (hsession : session.id = sessionId) :
    Moves first sessionId x store
      (restorePointer (store.saveTask taskId (anchored task anchor)) taskId session anchor) := by
  obtain ⟨task', htask', hprev⟩ := hconsistent
  have hsame : task' = task := Option.some.inj (htask'.symm.trans htask)
  subst hsame
  have hof : (anchored task' anchor).anchorOf = some anchor := anchorOf_of_plan hprev rfl rfl
  have hunnamed : (store.saveTask taskId (anchored task' anchor)).tasks "" = none :=
    unnamed_saveTask _ h.unnamed (h.id_ne htask)
  have hgrows : Grows store (store.saveTask taskId (anchored task' anchor)) := by
    refine grows_saveTask htask ?_
    rw [hof, hprev, Option.map_some]
  cases hnew : (first.tasks taskId).isSome with
  | true =>
    have hne : (store.saveTask taskId (anchored task' anchor)).activeTaskId sessionId ≠ some taskId :=
      h.pointer_ne_old ⟨task', htask, hprev⟩ hnew
    rw [restorePointer_elsewhere anchor hsession hne]
    refine ⟨h.row, hunnamed, hgrows, ?_⟩
    rw [deskOf_saveTask_old _ hnew]
  | false =>
    obtain ⟨closed, hrecord, hx⟩ := h.record_of_consistent ⟨task', htask, hprev⟩ hnew
    have htruthy : truthy anchor.previousActiveTaskId = anchor.previousActiveTaskId := by
      rw [hx, h.truthy_base]
    have hlive : ∃ row, (store.saveTask taskId (anchored task' anchor)).sessions.rows sessionId =
        some row := h.row
    obtain ⟨hrow, htasks, hdesk⟩ := restorePointer_spec first taskId hsession hlive htruthy
    refine ⟨hrow, ?_, ?_, ?_⟩
    · rw [htasks]
      exact hunnamed
    · intro id found hfound
      rw [htasks]
      exact hgrows id found hfound
    · rw [hdesk, deskOf_saveTask hnew hof]
      by_cases hclosed : anchor.status = .CLOSED
      · rw [if_pos (Or.inl hclosed)]
        have hput : recordOf anchor = ⟨anchor.previousActiveTaskId, true⟩ := by
          simp [recordOf, hclosed]
        rw [hput]
        exact .single (.close hrecord)
      · have hput : recordOf anchor = ⟨anchor.previousActiveTaskId, false⟩ := by
          simp [recordOf, hclosed]
        rw [hput]
        cases hp : anchor.previousActiveTaskId with
        | none =>
          rw [hp] at hrecord
          rw [if_neg (by simp [hclosed])]
          exact .single (.keep hrecord)
        | some previous =>
          rw [hp] at hrecord
          rw [if_pos (by simp)]
          exact .single (.settle hrecord rfl)

/-- What `saveAnchor` does, when it closes an anchor only with the pointer handed back. -/
theorem moves_saveAnchor (h : Sound first sessionId x store)
    (hconsistent : Consistent store taskId anchor) {session : Session}
    (hsession : session.id = sessionId) (options : SaveOptions)
    (hoptions : anchor.status ≠ .CLOSED ∨ options = { restorePointer := true }) :
    ∃ after, saveAnchor store taskId session anchor options = .ok after ∧
      Moves first sessionId x store after := by
  have hstored := hconsistent
  obtain ⟨task, htask, -⟩ := hstored
  unfold saveAnchor
  rw [htask]
  dsimp only
  by_cases hkeep : (options.keepPointer || !options.restorePointer) = true
  · rw [if_pos hkeep]
    have hopen : anchor.status ≠ .CLOSED := by
      rcases hoptions with hopen | rfl
      · exact hopen
      · cases hkeep
    exact ⟨_, rfl, h.moves_keep hconsistent hopen htask⟩
  · rw [if_neg hkeep]
    exact ⟨_, rfl, h.moves_restore hconsistent htask hsession⟩

/-! ## Anchors created -/

/-- A new task is no task from before the run, and not the base. -/
theorem first_of_new (h : Sound first sessionId x store) (hnew : store.tasks taskId = none) :
    (first.tasks taskId).isSome = false := by
  cases hfirst : first.tasks taskId with
  | none => rfl
  | some task =>
    obtain ⟨task', htask', -⟩ := h.grown taskId task hfirst
    rw [hnew] at htask'
    cases htask'

theorem base_ne_new (h : Sound first sessionId x store) (hnew : store.tasks taskId = none) :
    some taskId ≠ x := by
  intro hx
  obtain ⟨task, htask, -⟩ := h.plain taskId hx.symm
  rw [hnew] at htask
  cases htask

/-- The displaced pointer is the base; an anchor at the pointer may be closed on the way. -/
theorem displacedPointer_spec (h : Sound first sessionId x store) {session : Session}
    (hsession : session.id = sessionId) :
    (displacedPointer store session).1 = x ∧ ((displacedPointer store session).2 = store ∨
      ∃ current task anchor, store.activeTaskId sessionId = some current ∧
        store.tasks current = some task ∧ task.anchorOf = some anchor ∧
        (first.tasks current).isSome = false ∧ anchor.previousActiveTaskId = x ∧
        (displacedPointer store session).2 = store.saveTask current (superseded task anchor)) := by
  unfold displacedPointer
  rw [h.activeTaskId_eq hsession, h.truthy_pointer]
  rcases h.pointer_cases with hbase | ⟨id, task, anchor, hid, hnew, htask, hof, hprev, -⟩
  · rw [hbase]
    cases hx : x with
    | none => exact ⟨rfl, .inl rfl⟩
    | some id =>
      obtain ⟨task, htask, hnone⟩ := h.plain id hx
      dsimp only
      rw [htask]
      dsimp only
      rw [hnone]
      exact ⟨rfl, .inl rfl⟩
  · rw [hid]
    dsimp only
    rw [htask]
    dsimp only
    rw [hof]
    refine ⟨hprev, ?_⟩
    dsimp only
    split
    · exact .inr ⟨id, task, anchor, rfl, htask, hof, hnew, hprev, rfl⟩
    · exact .inl rfl

/-- The new anchor's task is saved and the pointer goes to it. -/
theorem createAnchor_spec {session : Session} (hsession : session.id = sessionId)
    (hrow : ∃ row, store.sessions.rows sessionId = some row) (now : IsoTimestamp)
    (hfirst : (first.tasks taskId).isSome = false) :
    (∃ row, (createAnchor store session anchor now taskId).sessions.rows sessionId = some row) ∧
    (createAnchor store session anchor now taskId).tasks =
      (store.saveTask taskId ⟨none, taskStatusOf anchor.status, now, some anchor⟩).tasks ∧
    deskOf first sessionId (createAnchor store session anchor now taskId) =
      { (deskOf first sessionId store).put taskId (recordOf anchor) with pointer := some taskId } := by
  obtain ⟨row, hrow⟩ := hrow
  have hlive : store.live session = row := by
    simp [FlowStore.live, hsession, hrow]
  have hid : row.id = sessionId := store.sessions.keyed _ _ hrow
  unfold createAnchor
  rw [hlive]
  refine ⟨⟨_, rows_saveSession hid hrow rfl⟩, rfl, ?_⟩
  have hof : Task.anchorOf ⟨none, taskStatusOf anchor.status, now, some anchor⟩ = some anchor := rfl
  rw [← deskOf_saveTask hfirst hof]
  exact deskOf_saveSession hid hrow rfl

theorem moves_createAnchor (displaced : FlowStore) {session : Session}
    (hsession : session.id = sessionId)
    (hrow : ∃ row, displaced.sessions.rows sessionId = some row) (hunnamed : displaced.tasks "" = none)
    (hgrows : Grows store displaced) (hnew : displaced.tasks taskId = none) (hne : taskId ≠ "")
    (hfirst : (first.tasks taskId).isSome = false) (now : IsoTimestamp)
    (hstep : Displacement.Step x (deskOf first sessionId store)
      { (deskOf first sessionId displaced).put taskId (recordOf anchor) with pointer := some taskId }) :
    Moves first sessionId x store (createAnchor displaced session anchor now taskId) := by
  obtain ⟨hsaved, htasks, hdesk⟩ := createAnchor_spec hsession hrow now hfirst
  refine ⟨hsaved, ?_, hgrows.trans ?_, ?_⟩
  · rw [htasks]
    exact unnamed_saveTask _ hunnamed hne
  · intro id stored hstored
    rw [htasks]
    exact grows_saveNew _ hnew id stored hstored
  · rw [hdesk]
    exact .single hstep

/-- A new anchor with the displaced pointer takes the pointer. -/
theorem moves_create (h : Sound first sessionId x store) {session : Session}
    (hsession : session.id = sessionId) (hopen : anchor.status ≠ .CLOSED)
    (hprev : anchor.previousActiveTaskId = truthy (displacedPointer store session).1)
    (hnew : store.tasks taskId = none) (hne : taskId ≠ "") (now : IsoTimestamp)
    (approvals : Id → Option ApprovalRequest) :
    Moves first sessionId x store (createAnchor
      { (displacedPointer store session).2 with approvals := approvals } session anchor now taskId) := by
  obtain ⟨hbase, hdisplaced⟩ := h.displacedPointer_spec hsession
  rw [hbase, h.truthy_base] at hprev
  have hfirst := h.first_of_new hnew
  have hx := h.base_ne_new hnew
  have hrecord : recordOf anchor = ⟨x, false⟩ := by
    simp [recordOf, hprev, hopen]
  have hfree : (deskOf first sessionId store).records taskId = none := by
    simp [deskOf, hfirst, FlowStore.anchorAt, hnew]
  rcases hdisplaced with heq | ⟨current, task, found, hcurrent, htask, hof, hrun, hfound, heq⟩
  · rw [heq]
    refine moves_createAnchor { store with approvals := approvals } hsession h.row h.unnamed (.refl store) hnew hne hfirst now ?_
    have hstep := Displacement.Step.displace hfree hx
    rw [h.collapsed.displaced_eq] at hstep
    rw [hrecord]
    exact hstep
  · have hended := superseded_anchorOf hof
    have hgrows : Grows store (store.saveTask current (superseded task found)) := by
      refine grows_saveTask htask ?_
      rw [hended, hof, Option.map_some, Option.map_some]
    have hother : (store.saveTask current (superseded task found)).tasks taskId = none := by
      refine (Function.update_of_ne ?_ ..).trans hnew
      rintro rfl
      rw [hnew] at htask
      cases htask
    have hold : (deskOf first sessionId store).records current = some (recordOf found) := by
      simp [deskOf, hrun, FlowStore.anchorAt, htask, hof]
    rw [heq]
    have hunnamed := unnamed_saveTask (superseded task found) h.unnamed (h.id_ne htask)
    refine moves_createAnchor
      { store.saveTask current (superseded task found) with approvals := approvals } hsession h.row
      hunnamed hgrows hother hne hfirst now ?_
    have hstep := Displacement.Step.supersede hfree hx hcurrent hold
    have hdesk : deskOf first sessionId (store.saveTask current (superseded task found)) =
        (deskOf first sessionId store).put current ⟨x, true⟩ := by
      rw [deskOf_saveTask hrun hended]
      simp [recordOf, hfound]
    have hkept : (recordOf found).previous = x := hfound
    rw [hkept] at hstep
    rw [hrecord]
    show Displacement.Step x _ { (deskOf first sessionId
      (store.saveTask current (superseded task found))).put taskId _ with pointer := _ }
    rw [hdesk]
    exact hstep

/-! ## The calls -/

variable {Draft : Type} {deps : FlowDeps Draft} {input : FlowInput}

theorem moves_close (h : Sound first sessionId x store) {session : Session}
    (hsession : session.id = sessionId) {view : ConnectorWriteAnchorView}
    (hview : Consistent store view.taskId view.anchor) {reason : ConnectorWriteCloseReason}
    {now : IsoTimestamp} {after : FlowStore} (hclose : close store session view reason now = .ok after) :
    Moves first sessionId x store after := by
  have hended : Consistent store view.taskId
      { view.anchor with status := .CLOSED, closedReason := some reason, updatedAt := now } := hview
  obtain ⟨saved, hsaved, hmoves⟩ := h.moves_saveAnchor hended hsession _ (.inr rfl)
  unfold close at hclose
  rw [hsaved, Except.ok.injEq] at hclose
  exact hclose ▸ hmoves

theorem moves_offerChoice (h : Sound first sessionId x store)
    (hsession : input.session.id = sessionId) (hnew : store.tasks deps.taskId = none)
    (hne : deps.taskId ≠ "") (choice : ConnectorWriteChoice)
    (basis : Option ConnectorWriteChoiceBasis) :
    Moves first sessionId x store (offerChoice deps store input choice basis).2 :=
  h.moves_create hsession (by simp) rfl hnew hne input.now _

theorem moves_propose (h : Sound first sessionId x store) (hsession : input.session.id = sessionId)
    (hnew : store.tasks deps.taskId = none) (hne : deps.taskId ≠ "") (proposal : Proposal) :
    Moves first sessionId x store (propose deps store input proposal).2 := by
  unfold propose
  dsimp only
  split
  · exact .refl h
  · exact h.moves_create hsession (by simp) rfl hnew hne input.now _

theorem moves_proposeEventChange (h : Sound first sessionId x store)
    (hsession : input.session.id = sessionId) (hnew : store.tasks deps.taskId = none)
    (hne : deps.taskId ≠ "") (mode : ConnectorWriteChoiceMode) (event : ConnectorWriteEventSummary)
    (changes : Option Json) :
    Moves first sessionId x store (proposeEventChange deps store input mode event changes).2 := by
  unfold proposeEventChange
  split
  · exact .refl h
  · split
    · exact .refl h
    · dsimp only
      split
      · exact h.moves_propose hsession hnew hne _
      · split
        · exact .refl h
        · exact h.moves_propose hsession hnew hne _

theorem moves_prepare (h : Sound first sessionId x store) (hsession : input.session.id = sessionId)
    (hnew : store.tasks deps.taskId = none) (hne : deps.taskId ≠ "") (draft : Draft) :
    Moves first sessionId x store (prepare deps store input draft).2 := by
  unfold prepare
  split
  · exact .refl h
  · exact h.moves_offerChoice hsession hnew hne _ _
  · exact h.moves_propose hsession hnew hne _
  · exact h.moves_proposeEventChange hsession hnew hne _ _ _

/-- A call that closes an anchor and answers. -/
theorem moves_closing (h : Sound first sessionId x store) {session : Session}
    (hsession : session.id = sessionId) {view : ConnectorWriteAnchorView}
    (hview : Consistent store view.taskId view.anchor) {reason : ConnectorWriteCloseReason}
    {now : IsoTimestamp} {α : Type} {answer result : α} {after : FlowStore}
    (hclose : (do
      let closed ← close store session view reason now
      return (answer, closed) : Except String (α × FlowStore)) = .ok (result, after)) :
    Moves first sessionId x store after := by
  cases hclosed : close store session view reason now with
  | error e =>
    rw [hclosed] at hclose
    cases hclose
  | ok closed =>
    rw [hclosed] at hclose
    cases hclose
    exact h.moves_close hsession hview hclosed

theorem moves_choose (h : Sound first sessionId x store) (hsession : input.session.id = sessionId)
    (hnew : store.tasks deps.taskId = none) (hne : deps.taskId ≠ "") {view : ConnectorWriteAnchorView}
    (hview : Consistent store view.taskId view.anchor) {index : Option ℤ} {step : ConnectorWriteStep}
    {after : FlowStore} (hchoose : choose deps store input view index = .ok (step, after)) :
    Moves first sessionId x store after := by
  unfold choose at hchoose
  dsimp only at hchoose
  split at hchoose
  · cases hchoose
    exact .refl h
  · rename_i choice _
    split at hchoose
    · cases hchoose
      exact .refl h
    · split at hchoose
      · cases hchoose
        exact .refl h
      · split at hchoose
        · exact h.moves_closing hsession hview hchoose
        · split at hchoose
          · cases hchoose
            exact .refl h
          · rename_i picked _
            have hproposed := h.moves_proposeEventChange hsession hnew hne choice.mode picked choice.changes
            split at hchoose
            · cases hchoose
              exact hproposed
            · exact hproposed.trans ((hproposed.sound h).moves_closing hsession
                (hview.grows hproposed.grows) hchoose)

theorem moves_recordApproval (h : Sound first sessionId x store)
    (hsession : input.session.id = sessionId) {view : ConnectorWriteAnchorView}
    (hview : Consistent store view.taskId view.anchor) {step : ConnectorWriteStep} {after : FlowStore}
    (hrecord : recordApproval store input view = .ok (step, after)) :
    Moves first sessionId x store after := by
  unfold recordApproval at hrecord
  split at hrecord
  · cases hrecord
    exact .refl h
  · split at hrecord
    · cases hrecord
      exact .refl h
    · have happroved : Consistent store view.taskId { view.anchor with
          status := .APPROVED
          approvedAt := some input.now
          approvedBy := some input.actor.id
          updatedAt := input.now } := hview
      obtain ⟨saved, hsaved, hmoves⟩ := h.moves_saveAnchor happroved hsession {}
        (.inl (by simp))
      rw [hsaved] at hrecord
      cases hrecord
      exact hmoves

/-- The live anchor behind a view that some call read. -/
theorem consistent_live {view : ConnectorWriteAnchorView} {live : ConnectorWriteAnchor}
    (hview : Consistent store view.taskId view.anchor)
    (hlive : (store.tasks view.taskId).bind Task.connectorWriteAnchor = some live) :
    Consistent store view.taskId live := by
  obtain ⟨task, htask, hprev⟩ := hview
  rw [htask] at hlive
  have hof : task.anchorOf = some live := anchorOf_of_plan hprev rfl hlive
  exact ⟨task, htask, by rw [hof, Option.map_some]⟩

theorem moves_claimGrant (h : Sound first sessionId x store)
    (hsession : input.session.id = sessionId) {view : ConnectorWriteAnchorView}
    (hview : Consistent store view.taskId view.anchor)
    {operation : ConnectorWrites.ConnectorWriteOperation} {result : ClaimResult} {after : FlowStore}
    (hclaim : claimGrant deps store input view operation = .ok (result, after)) :
    Moves first sessionId x store after ∧
      ∀ claim ∈ result.claims, Consistent after claim.taskId claim.consumed := by
  unfold claimGrant at hclaim
  dsimp only at hclaim
  split at hclaim
  · cases hclaim
    exact ⟨.refl h, by simp [ClaimResult.claims]⟩
  · rename_i live hlive
    have hstored := consistent_live hview hlive
    have hclosing {reason : ConnectorWriteCloseReason} {answer : ConnectorWriteStep}
        (hclose : (do
          let closed ← close store input.session { view with anchor := live } reason input.now
          return (ClaimResult.step answer, closed) : Except String (ClaimResult × FlowStore)) =
            .ok (result, after)) :
        Moves first sessionId x store after ∧
          ∀ claim ∈ result.claims, Consistent after claim.taskId claim.consumed := by
      have hmoves := h.moves_closing hsession hstored hclose
      refine ⟨hmoves, ?_⟩
      cases hclosed : close store input.session { view with anchor := live } reason input.now with
      | error e =>
        rw [hclosed] at hclose
        cases hclose
      | ok closed =>
        rw [hclosed] at hclose
        cases hclose
        simp [ClaimResult.claims]
    split at hclaim
    · cases hclaim
      exact ⟨.refl h, by simp [ClaimResult.claims]⟩
    · split at hclaim
      · cases hclaim
        exact ⟨.refl h, by simp [ClaimResult.claims]⟩
      · split at hclaim
        · cases hclaim
          refine ⟨.refl h, ?_⟩
          split <;> simp [ClaimResult.claims]
        · split at hclaim
          · exact hclosing hclaim
          · split at hclaim
            · exact hclosing hclaim
            · split at hclaim
              · exact hclosing hclaim
              · split at hclaim
                · exact hclosing hclaim
                · split at hclaim
                  · exact hclosing hclaim
                  · have hconsumed : Consistent store view.taskId { live with
                        status := .EXECUTING
                        consumedAt := some input.now
                        updatedAt := input.now } := hstored
                    obtain ⟨saved, hsaved, hmoves⟩ := h.moves_saveAnchor hconsumed hsession
                      { keepPointer := true } (.inl (by simp))
                    rw [hsaved] at hclaim
                    cases hclaim
                    refine ⟨hmoves, ?_⟩
                    intro claim hclaim
                    rw [ClaimResult.claims, List.mem_singleton] at hclaim
                    subst hclaim
                    exact hconsumed.grows hmoves.grows

theorem moves_execute (h : Sound first sessionId x store) (hsession : input.session.id = sessionId)
    {view : ConnectorWriteAnchorView} (hview : Consistent store view.taskId view.anchor)
    {result : ClaimResult} {after : FlowStore}
    (hexecute : execute deps store input view = .ok (result, after)) :
    Moves first sessionId x store after ∧
      ∀ claim ∈ result.claims, Consistent after claim.taskId claim.consumed := by
  have hnothing {answer : ConnectorWriteStep}
      (heq : (Except.ok (.step answer, store) : Except String (ClaimResult × FlowStore)) =
        .ok (result, after)) :
      Moves first sessionId x store after ∧
        ∀ claim ∈ result.claims, Consistent after claim.taskId claim.consumed := by
    cases heq
    exact ⟨.refl h, by simp [ClaimResult.claims]⟩
  unfold execute at hexecute
  split at hexecute
  · exact hnothing hexecute
  · split at hexecute
    · exact hnothing hexecute
    · exact hnothing hexecute
    · exact hnothing hexecute
    · exact hnothing hexecute
    · split at hexecute
      · exact hnothing hexecute
      · exact h.moves_claimGrant hsession hview hexecute
    · exact hnothing hexecute

theorem moves_finishExecute (h : Sound first sessionId x store)
    (hsession : input.session.id = sessionId) {claim : Claim}
    (hclaim : Consistent store claim.taskId claim.consumed) (outcome : ConnectorWriteOutcome) :
    Moves first sessionId x store (finishExecute store input claim outcome).2 := by
  have hterminal : Consistent store claim.taskId { claim.consumed with
      status := outcomeStatus outcome
      outcome := some (outcomeOf outcome)
      updatedAt := input.now } := hclaim
  obtain ⟨saved, hsaved, hmoves⟩ := h.moves_saveAnchor hterminal hsession { restorePointer := true }
    (.inr rfl)
  unfold finishExecute
  dsimp only
  rw [hsaved]
  exact hmoves

theorem consistent_openAnchorOf {session : Session} {found : Id × ConnectorWriteAnchor}
    (hopen : openAnchorOf store session = some found) : Consistent store found.1 found.2 := by
  unfold openAnchorOf at hopen
  split at hopen
  · cases hopen
  · split at hopen
    · cases hopen
    · rename_i anchor hanchor
      split at hopen
      · cases hopen
      · split at hopen
        · cases hopen
        · cases hopen
          exact consistent_of_anchorAt hanchor

theorem moves_releaseExpired (h : Sound first sessionId x store) {session : Session}
    (hsession : session.id = sessionId) {now : IsoTimestamp} {release : Option ConnectorWriteRelease}
    {after : FlowStore} (hrelease : releaseExpired deps store session now = .ok (release, after)) :
    Moves first sessionId x store after := by
  unfold releaseExpired at hrelease
  split at hrelease
  · cases hrelease
    exact .refl h
  · rename_i hopen
    split at hrelease
    · cases hrelease
      exact .refl h
    · exact h.moves_closing hsession (consistent_openAnchorOf hopen) hrelease

theorem moves_find (h : Sound first sessionId x store) {session : Session}
    (hsession : session.id = sessionId) {view : Option ConnectorWriteAnchorView} {after : FlowStore}
    (hfind : find store session = .ok (view, after)) : Moves first sessionId x store after := by
  unfold find at hfind
  split at hfind
  · cases hfind
    exact .refl h
  · rename_i hopen
    have hstored := consistent_openAnchorOf hopen
    split at hfind
    · cases hfind
      exact .refl h
    · split at hfind
      · split at hfind
        · cases hfind
          exact .refl h
        · exact h.moves_closing hsession hstored hfind
      · exact h.moves_closing hsession hstored hfind

end Sound

end QuokyPlatform.ConnectorWriteFlow
