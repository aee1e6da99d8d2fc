import QuokyPlatform.ConnectorWrites.PointerChain

/-!
# The pointer in every state of a run

The invariant over runs, and what it says of the session's pointer.
-/

namespace QuokyPlatform.ConnectorWriteFlow
open Sessions Displacement
open ConnectorWrites (ConnectorWriteOutcome)
set_option autoImplicit false
set_option maxHeartbeats 250000

variable {Draft : Type} {first : FlowStore} {sessionId : Id} {x : Option Id} {s s' : State}

/-! ## The invariant over runs -/

structure Kept (first : FlowStore) (sessionId : Id) (x : Option Id) (s : State) : Prop where
  sound : Sound first sessionId x s.store
  history : ∀ past ∈ s.history, Grows past s.store
  inFlight : ∀ claim ∈ s.inFlight, Consistent s.store claim.taskId claim.consumed

namespace Kept

theorem read (h : Kept first sessionId x s) {view : ConnectorWriteAnchorView} (hread : s.Read view) :
    Consistent s.store view.taskId view.anchor := by
  obtain ⟨past, hpast, hanchor⟩ := hread
  exact (consistent_of_anchorAt hanchor).grows (h.history past hpast)

/-- A call that leaves a store it moved to. -/
theorem next (h : Kept first sessionId x s) {store : FlowStore}
    (hmoves : Moves first sessionId x s.store store) : Kept first sessionId x (s.next store) where
  sound := hmoves.sound h.sound
  history := by
    intro past hpast
    rcases List.mem_cons.mp hpast with rfl | hpast
    · exact .refl _
    · exact (h.history past hpast).trans hmoves.grows
  inFlight claim hclaim := (h.inFlight claim hclaim).grows hmoves.grows

end Kept

theorem step_moves (h : Kept first sessionId x s) (hstep : Step Draft sessionId s s') :
    Moves first sessionId x s.store s'.store := by
  cases hstep with
  | prepare deps input draft hsession hnew =>
    exact h.sound.moves_prepare hsession hnew.1 hnew.2 draft
  | choose deps input view index hsession hnew hread hcall =>
    exact h.sound.moves_choose hsession hnew.1 hnew.2 (h.read hread) hcall
  | recordApproval input view hsession hread hcall =>
    exact h.sound.moves_recordApproval hsession (h.read hread) hcall
  | execute deps input view hsession hread hcall =>
    exact (h.sound.moves_execute hsession (h.read hread) hcall).1
  | finishExecute input claim outcome hsession hflight =>
    have hmem : claim ∈ s.inFlight := by
      rw [hflight]
      exact List.mem_append_right _ List.mem_cons_self
    exact h.sound.moves_finishExecute hsession (h.inFlight claim hmem) outcome
  | close session view reason now hsession hread hcall =>
    exact h.sound.moves_close hsession (h.read hread) hcall
  | releaseExpired deps session now hsession hcall =>
    exact h.sound.moves_releaseExpired hsession hcall
  | find session hsession hcall => exact h.sound.moves_find hsession hcall
  | decide approvals => exact .approvals h.sound approvals

theorem kept_step (h : Kept first sessionId x s) (hstep : Step Draft sessionId s s') :
    Kept first sessionId x s' := by
  have hmoves := step_moves h hstep
  cases hstep with
  | execute deps input view hsession hread hcall =>
    refine ⟨(h.next hmoves).sound, (h.next hmoves).history, ?_⟩
    intro claim hclaim
    rcases List.mem_append.mp hclaim with hmine | hother
    · exact (h.sound.moves_execute hsession (h.read hread) hcall).2 claim hmine
    · exact (h.next hmoves).inFlight claim hother
  | finishExecute input claim outcome hsession hflight =>
    refine ⟨(h.next hmoves).sound, (h.next hmoves).history, ?_⟩
    intro other hother
    refine (h.next hmoves).inFlight other ?_
    show other ∈ s.inFlight
    rw [hflight]
    rcases List.mem_append.mp hother with hbefore | hafter
    · exact List.mem_append_left _ hbefore
    · exact List.mem_append_right _ (List.mem_cons_of_mem _ hafter)
  | prepare => exact h.next hmoves
  | choose => exact h.next hmoves
  | recordApproval => exact h.next hmoves
  | close => exact h.next hmoves
  | releaseExpired => exact h.next hmoves
  | find => exact h.next hmoves
  | decide => exact h.next hmoves

theorem kept_start (h : PointsAt first sessionId x) : Kept first sessionId x (.start first) where
  sound := by
    obtain ⟨row, hrow, hx⟩ := h.row
    refine ⟨⟨row, hrow⟩, h.plain, h.unnamed, .refl first, ?_⟩
    have hdesk : deskOf first sessionId first = ⟨x, fun _ => none⟩ := by
      refine Desk.ext ?_ ?_
      · exact (activeTaskId_of_row hrow).trans hx
      · funext id
        cases hfirst : first.tasks id with
        | none => simp [deskOf, hfirst, FlowStore.anchorAt]
        | some task => simp [deskOf, hfirst]
    show Collapsed x (deskOf first sessionId first)
    rw [hdesk]
    exact collapsed_initial
  history past hpast := by
    rw [List.mem_singleton.mp hpast]
    exact .refl first
  inFlight claim hclaim := by cases hclaim

theorem kept_run (h : PointsAt first sessionId x) (hrun : Run Draft sessionId (.start first) s) :
    Kept first sessionId x s := by
  induction hrun with
  | refl => exact kept_start h
  | tail _ hstep ih => exact kept_step ih hstep

/-! ## What it says of the pointer -/

/-- A step that moves the pointer to a task that was stored moves it to one that is no anchor. -/
theorem not_anchor_of_moved (h : Kept first sessionId x s) (hstep : Step Draft sessionId s s') {id : Id}
    (hpointer : s'.store.activeTaskId sessionId = some id)
    (hmoved : s'.store.activeTaskId sessionId ≠ s.store.activeTaskId sessionId)
    (hstored : s.store.tasks id ≠ none) : s'.store.anchorAt id = none := by
  have hmoves := step_moves h hstep
  have hsound := hmoves.sound h.sound
  have hplain : x = some id → s'.store.anchorAt id = none := by
    intro hx
    obtain ⟨task, htask, hnone⟩ := hsound.plain id hx
    simp [FlowStore.anchorAt, htask, hnone]
  rcases run_pointer_moves h.sound.collapsed hmoves.run with hsame | hbase | ⟨key, hkey, hnew⟩
  · exact absurd hsame hmoved
  · exact hplain (hbase.symm.trans hpointer)
  · have heq : key = id := Option.some.inj (hkey.symm.trans hpointer)
    subst heq
    obtain ⟨task, htask⟩ := Option.ne_none_iff_exists'.mp hstored
    cases hfirst : (first.tasks key).isSome with
    | false =>
      have hnone : s.store.anchorAt key = none := by
        simpa [deskOf, hfirst] using hnew
      obtain ⟨task', htask', hprev⟩ := hmoves.grows key task htask
      simp only [FlowStore.anchorAt, htask, Option.bind_some] at hnone
      rw [hnone, Option.map_none, Option.map_eq_none_iff] at hprev
      simp [FlowStore.anchorAt, htask', hprev]
    | true =>
      rcases hsound.pointer_cases with hbase | ⟨other, _, _, hother, hrun, -⟩
      · exact hplain (hbase.symm.trans hpointer)
      · rw [hpointer, Option.some.injEq] at hother
        rw [← hother, hfirst] at hrun
        cases hrun

/-- In every state of a run the pointer is at `x` or at an anchor that displaced `x`; it is at `x` when
every anchor created in the run is closed; every anchor created in the run displaced `x`; and a step
that moves the pointer to a stored task moves it to one that is no anchor. -/
theorem pointer_returns (h : PointsAt first sessionId x)
    (hrun : Run Draft sessionId (.start first) s) :
    (s.store.activeTaskId sessionId = x ∨ ∃ id anchor, s.store.activeTaskId sessionId = some id ∧
      s.store.anchorAt id = some anchor ∧ anchor.previousActiveTaskId = x) ∧
    ((∀ id anchor, first.tasks id = none → s.store.anchorAt id = some anchor →
      anchor.status = .CLOSED) → s.store.activeTaskId sessionId = x) ∧
    (∀ id anchor, first.tasks id = none → s.store.anchorAt id = some anchor →
      anchor.previousActiveTaskId = x) ∧
    ∀ s', Step Draft sessionId s s' → ∀ id, s'.store.activeTaskId sessionId = some id →
      s'.store.activeTaskId sessionId ≠ s.store.activeTaskId sessionId →
      s.store.tasks id ≠ none → s'.store.anchorAt id = none := by
  have hkept := kept_run h hrun
  refine ⟨?_, ?_, ?_, fun s' hstep id => not_anchor_of_moved hkept hstep⟩
  · rcases hkept.sound.pointer_cases with hbase | ⟨id, task, anchor, hid, -, htask, hof, hprev, -⟩
    · exact .inl hbase
    · exact .inr ⟨id, anchor, hid, anchorAt_eq_some.mpr ⟨task, htask, hof⟩, hprev⟩
  · intro hclosed
    rcases hkept.sound.pointer_cases with hbase | ⟨id, task, anchor, -, hnew, htask, hof, -, hopen⟩
    · exact hbase
    · have hnone : first.tasks id = none := by simpa using hnew
      exact absurd (hclosed id anchor hnone (anchorAt_eq_some.mpr ⟨task, htask, hof⟩)) hopen
  · intro id anchor hnone hanchor
    have hrecord : (deskOf first sessionId s.store).records id = some (recordOf anchor) := by
      simp [deskOf, hnone, hanchor]
    exact hkept.sound.collapsed.previous id _ hrecord

/-! ## A run -/

def openedSession : Session where
  id := "session"
  actorId := "owner"
  context := ⟨"discord", none, "channel", none, "owner", some true⟩
  status := .ACTIVE
  projectId := none
  activeProjectId := none
  activeTaskId := some "chain"
  createdAt := "t0"
  lastActivityAt := "t0"
  metadata := none

/-- A session whose pointer is at the task of a code change. -/
def openedStore : FlowStore where
  tasks := fun id => if id = "chain" then some ⟨none, .PENDING, "t0", none⟩ else none
  sessions := {
    rows := fun id => if id = "session" then some openedSession else none
    keyed := by
      intro id session h
      split at h
      · cases h
        symm
        assumption
      · cases h }
  approvals := fun _ => none

/-- An update of one of two events. -/
def offeringDeps : FlowDeps Unit where
  prepareDraft := fun _ _ _ => .offer
    { mode := .update
      changes := none
      reference := .null
      candidates := [⟨"a", "standup", "t1", "t2", false, none, none⟩,
        ⟨"b", "review", "t3", "t4", false, none, none⟩] } none
  calendarEvents := some ⟨"calendar", "primary"⟩
  resolveChanges := fun _ _ => .error .noChange
  timeZone := "Asia/Seoul"
  connectorWritePayloadSha256 := fun _ target _ => target
  findLatestSent := fun _ _ _ => none
  findLatestUnresolved := fun _ _ _ => none
  stillAllowed := fun _ => true
  sendFor := fun _ _ => true
  dateParse := fun _ => some 0
  approvalNow := "t5"
  planRefId := "plan"
  approvalId := "approval"
  taskId := "anchor"

def offeringInput : FlowInput := ⟨openedSession, ⟨"owner", by decide⟩, "t5"⟩

theorem pointsAt_opened : PointsAt openedStore "session" (some "chain") where
  row := ⟨openedSession, rfl, rfl⟩
  plain := by
    intro id hid
    cases hid
    exact ⟨_, rfl, rfl⟩
  unnamed := rfl

theorem pointer_returns_offered :
    let offered := (prepare offeringDeps openedStore offeringInput ()).2
    (∀ id anchor, openedStore.tasks id = none → offered.anchorAt id = some anchor →
      anchor.status = .CLOSED) → offered.activeTaskId "session" = some "chain" :=
  (pointer_returns pointsAt_opened
    (.single (.prepare offeringDeps offeringInput () rfl ⟨rfl, by decide⟩))).2.1

end QuokyPlatform.ConnectorWriteFlow
