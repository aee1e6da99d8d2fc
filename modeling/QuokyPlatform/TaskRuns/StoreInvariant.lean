import QuokyPlatform.Foundations.Machine
import QuokyPlatform.TaskRuns.Store

/-! # What an operation does to the task run store

Every operation leaves the runs alone, inserts one, replaces the document of one, or deletes one.
`Change` says which, with what the guards and the triggers leave possible; the properties of runs
of operations follow from it alone. -/

namespace QuokyPlatform.TaskRuns

set_option autoImplicit false
set_option maxHeartbeats 250000

/-! ## Rows -/

structure Inserts (before after : RunTable) (row : RunRow) : Prop where
  fresh : ∀ r ∈ before.rows, ¬ RunRow.Clash r row
  valid : row.validIdentity = true
  rows : after.rows = before.rows ++ [row]

structure Replaces (before after : RunTable) (old new : RunRow) : Prop where
  mem : old ∈ before.rows
  valid : new.validIdentity = true
  start : old.sameStart new = true
  rows : ∀ row, row ∈ after.rows ↔ row = new ∨ row ∈ before.rows ∧ row.id ≠ old.id

theorem sameStart_iff {old new : RunRow} : old.sameStart new = true ↔
    new.id = old.id ∧ new.taskId = old.taskId ∧ new.data.attempt = old.data.attempt ∧
      new.data.startedAt = old.data.startedAt ∧ new.data.capability = old.data.capability := by
  simp [RunRow.sameStart, and_assoc]

theorem validIdentity_columns {row : RunRow} (h : row.validIdentity = true) :
    row.data.id = row.id ∧ row.data.taskId = row.taskId := by
  simp only [RunRow.validIdentity, Bool.and_eq_true, beq_iff_eq] at h
  exact ⟨h.1.1.1.2, h.1.1.2⟩

theorem find_hasId {runs : RunTable} {id : Id} {row : RunRow} (h : runs.find (hasId id) = some row) :
    row ∈ runs.rows ∧ row.id = id := by
  obtain ⟨hmem, hid⟩ := Table.find_some h
  exact ⟨hmem, beq_iff_eq.mp hid⟩

theorem row_eq_of_id (runs : RunTable) {r s : RunRow} (hr : r ∈ runs.rows) (hs : s ∈ runs.rows)
    (hid : r.id = s.id) : r = s :=
  runs.eq_of_clash hr hs (Or.inl hid)

theorem find_hasId_of_mem {runs : RunTable} {row : RunRow} (h : row ∈ runs.rows) :
    runs.find (hasId row.id) = some row :=
  runs.find_eq_some_of_mem h (beq_self_eq_true row.id) fun _ _ hs => Or.inl (beq_iff_eq.mp hs)

theorem insertRow_ok {before after : RunTable} {row : RunRow}
    (h : insertRow before row = .ok after) : Inserts before after row := by
  unfold insertRow at h
  split at h
  · cases h
  · rename_i hvalid
    split at h
    · rename_i runs hinsert
      cases h
      obtain ⟨hfresh, hrows⟩ := Table.insert_eq_some hinsert
      exact ⟨hfresh, by simpa using hvalid, hrows⟩
    · cases h

theorem mem_replaced {runs : RunTable} {old new : RunRow} (hold : old ∈ runs.rows) {row : RunRow} :
    row ∈ Table.updateRows runs.rows (hasId old.id) (fun _ => new) ↔
      row = new ∨ row ∈ runs.rows ∧ row.id ≠ old.id := by
  rw [Table.mem_updateRows]
  constructor
  · rintro ⟨r, hr, rfl⟩
    cases hid : hasId old.id r with
    | true => exact Or.inl rfl
    | false => exact Or.inr ⟨hr, by simpa [hasId] using hid⟩
  · rintro (rfl | ⟨hrow, hne⟩)
    · exact ⟨old, hold, by simp [hasId]⟩
    · exact ⟨row, hrow, by simp [hasId, beq_eq_false_iff_ne.mpr hne]⟩

theorem replaceRow_ok {before after : RunTable} {old new : RunRow} (hold : old ∈ before.rows)
    (h : replaceRow before old new = .ok after) : Replaces before after old new := by
  unfold replaceRow at h
  split at h
  · cases h
  · rename_i hvalid
    split at h
    · cases h
    · rename_i hstart
      split at h
      · rename_i runs hupdate
        cases h
        refine ⟨hold, by simpa using hvalid, by simpa using hstart, fun row => ?_⟩
        rw [Table.update_rows hupdate]
        exact mem_replaced hold
      · cases h

theorem upsertRun_ok {before after : RunTable} {run : TaskRun}
    (h : upsertRun before run = .ok after) :
    (before.find (hasId run.id) = none ∧ Inserts before after (rowOf run)) ∨
      ∃ old, before.find (hasId run.id) = some old ∧ Replaces before after old (rowOf run) := by
  unfold upsertRun at h
  split at h
  · rename_i hnone
    exact Or.inl ⟨hnone, insertRow_ok h⟩
  · rename_i old hold
    exact Or.inr ⟨old, hold, replaceRow_ok (find_hasId hold).1 h⟩

/-! ## The invariant -/

structure StoreInvariant (store : Store) : Prop where
  valid : ∀ row ∈ store.runs.rows, row.validIdentity = true
  known : ∀ row ∈ store.runs.rows, row.data.dispatchState.isSome = true
  one_started : ∀ r ∈ store.runs.rows, ∀ s ∈ store.runs.rows,
    isBound store.bindings r.taskId = true → r.taskId = s.taskId →
    r.data.status = .started → s.data.status = .started → r = s

theorem StoreInvariant.columns {store : Store} (hs : StoreInvariant store) :
    ∀ row ∈ store.runs.rows, row.data.id = row.id ∧ row.data.taskId = row.taskId :=
  fun row hrow => validIdentity_columns (hs.valid row hrow)

theorem decode_eq {data : TaskRun} (h : data.dispatchState.isSome = true) : decode data = data := by
  unfold decode
  split
  · rfl
  · rename_i hnone
    rw [hnone] at h
    cases h

section changes

variable (sha256Canonical : BindingFacts → String)

/-- The evidence of a run survives: its binding, and its observation once there is one. -/
def EvidenceKept (old new : TaskRun) : Prop :=
  ∀ audit, extractContainmentAudit sha256Canonical old = some audit →
    ∃ kept, extractContainmentAudit sha256Canonical new = some kept ∧
      kept.binding = audit.binding ∧
      (audit.postAttempt.isSome = true → kept.postAttempt = audit.postAttempt)

/-- What a generic save of a run has to take over from the stored one of a bound task. -/
def CarriesForward (old run : TaskRun) : Prop :=
  (run.dispatchState = some .dispatchCommitted → old.dispatchState = some .dispatchCommitted) ∧
    containmentEvidenceIdentical (extractContainmentAudit sha256Canonical old)
      (extractContainmentAudit sha256Canonical run) = true

def Vetoed (run : TaskRun) : Prop :=
  ∃ audit, extractContainmentAudit sha256Canonical run = some audit ∧ audit.vetoes = true

/-- What replacing the document of a run may do. -/
structure Transition (store : Store) (action : Action) (old new : TaskRun) : Prop where
  known : new.dispatchState.isSome = true
  dispatch : new.dispatchState = some .dispatchCommitted →
    old.dispatchState = some .dispatchCommitted ∨
      action = .commitProviderDispatchIfPreDispatch old.id old.id
  vetoed : Vetoed sha256Canonical old → old.status = .started → new.status = .started
  vetoes : isBound store.bindings old.taskId = true → Vetoed sha256Canonical new →
    Vetoed sha256Canonical old ∨ new.status = .started
  evidence : isBound store.bindings old.taskId = true → EvidenceKept sha256Canonical old new
  revived : isBound store.bindings old.taskId = true → old.status ≠ .started → new.status ≠ .started
  ended : isBound store.bindings old.taskId = true → old.status = .started →
    new.status = .succeeded ∨ new.status = .failed →
    ∃ request, action = .terminalizePreservingSecurityEvidence old.id request
  changed : isBound store.bindings old.taskId = true → old.status ≠ .started →
    new.status ≠ old.status → ∃ run, action = .save run ∧
      new = { run with dispatchState := savedDispatchState (some old) run } ∧
      CarriesForward sha256Canonical old run

/-- What a successful operation does to the store. -/
inductive Change (store : Store) (action : Action) : Store → Prop
  | same (documents : Documents) : Change store action { store with documents }
  | inserted (row : RunRow) (runs : RunTable) (hinserts : Inserts store.runs runs row)
      (hknown : row.data.dispatchState.isSome = true)
      (hdispatch : row.data.dispatchState ≠ some .dispatchCommitted)
      (hbound : isBound store.bindings row.taskId = true → row.data.status = .started ∧
        ∀ r ∈ store.runs.rows, r.taskId = row.taskId → r.data.status ≠ .started) :
      Change store action { store with runs }
  | replaced (old new : RunRow) (runs : RunTable) (hreplaces : Replaces store.runs runs old new)
      (htransition : Transition sha256Canonical store action old.data new.data) :
      Change store action { store with runs }
  | deleted (id : Id) (hunbound : ∀ row ∈ store.runs.rows, row.id = id →
      isBound store.bindings row.taskId = false) :
      Change store action { store with runs := store.runs.delete (hasId id) }
  | bound (binding : ContinuationBinding) (bindings : BindingTable)
      (hinsert : store.bindings.insert binding = some bindings)
      (hnone : ∀ row ∈ store.runs.rows, row.taskId ≠ binding.taskId) :
      Change store action { store with bindings }

theorem Change.unchanged (store : Store) (action : Action) : Change sha256Canonical store action store :=
  .same store.documents

variable {sha256Canonical} {store after : Store} {action : Action}

/-! ## Starting, admitting and deleting -/

theorem insertStarted_change {id taskId : Id} {now : IsoTimestamp} {capability : Capability}
    (hfree : isBound store.bindings taskId = true →
      ∀ r ∈ store.runs.rows, r.taskId = taskId → r.data.status ≠ .started)
    (h : insertStarted store id now taskId capability = .ok after) :
    Change sha256Canonical store action after := by
  simp only [insertStarted] at h
  obtain ⟨runs, hinsert, heq⟩ := bind_ok.mp (ite_error_ok.mp h).2
  cases heq
  refine .inserted _ runs (insertRow_ok hinsert) rfl (by simp [rowOf]) fun hbound => ⟨rfl, ?_⟩
  exact hfree hbound

theorem start_change {id : Id} {now : IsoTimestamp} {task : Task} {capability : Capability}
    (h : start store id now task capability = .ok after) :
    Change sha256Canonical store action after := by
  unfold start at h
  obtain ⟨hunbound, h⟩ := ite_error_ok.mp h
  exact insertStarted_change (fun hbound => absurd hbound hunbound) (ite_error_ok.mp h).2

theorem guardedStart_change {id : Id} {now : IsoTimestamp} {expected : GuardedTaskRunStartFacts}
    {capability : Capability} (h : guardedStart store id now expected capability = .ok after) :
    Change sha256Canonical store action after := by
  simp only [guardedStart, ite_error_ok] at h
  obtain ⟨-, -, -, -, -, -, -, -, hnone, h⟩ := h
  refine insertStarted_change (fun _ r hr htask hstarted => ?_) h
  have hfind : store.runs.find (isStartedOf expected.task.id) = none := by simpa using hnone
  have hfalse := List.find?_eq_none.mp hfind r hr
  simp [isStartedOf, htask, hstarted] at hfalse

theorem admit_change {handoff : WorkHandoff} {workItem : WorkItem} {task : Task}
    {now : IsoTimestamp} (h : admitRun store handoff workItem task now = .ok after) :
    Change sha256Canonical store action after := by
  simp only [admitRun, ite_error_ok] at h
  obtain ⟨-, -, h⟩ := h
  split at h
  · rw [ite_error_ok] at h
    cases h.2
    exact .unchanged _ _ _
  · cases h
  · obtain ⟨hnone, h⟩ := ite_error_ok.mp h
    split at h
    · rename_i bindings hinsert
      cases h
      refine .bound _ bindings hinsert fun row hrow htask => ?_
      have hfind : (store.runs.find fun row => row.taskId == task.id) = none := by simpa using hnone
      have hfalse := List.find?_eq_none.mp hfind row hrow
      simp [htask] at hfalse
    · cases h

theorem delete_change {id : Id} (h : delete store id = .ok after) :
    Change sha256Canonical store action after := by
  unfold delete at h
  split at h
  · cases h
    exact .unchanged _ _ _
  · rename_i row hrow
    obtain ⟨hunbound, h⟩ := ite_error_ok.mp h
    cases h
    obtain ⟨hmem, hid⟩ := find_hasId hrow
    refine .deleted id fun other hother hother' => ?_
    rw [row_eq_of_id store.runs hother hmem (hother'.trans hid.symm)]
    simpa using hunbound

/-! ## The dispatch commitment -/

theorem extract_congr {old new : TaskRun} (hid : new.id = old.id)
    (hmetadata : new.metadata = old.metadata) :
    extractContainmentAudit sha256Canonical new = extractContainmentAudit sha256Canonical old := by
  unfold extractContainmentAudit
  rw [hid, hmetadata]

theorem EvidenceKept.of_eq {old new : TaskRun}
    (h : extractContainmentAudit sha256Canonical new = extractContainmentAudit sha256Canonical old) :
    EvidenceKept sha256Canonical old new :=
  fun audit haudit => ⟨audit, h.trans haudit, rfl, fun _ => rfl⟩

theorem commit_change (hs : StoreInvariant store) {taskRunId executionId : Id}
    (h : commitProviderDispatchIfPreDispatch store taskRunId executionId = .ok after)
    (haction : action = .commitProviderDispatchIfPreDispatch taskRunId executionId) :
    Change sha256Canonical store action after := by
  unfold commitProviderDispatchIfPreDispatch at h
  obtain ⟨hsame, h⟩ := ite_error_ok.mp h
  split at h
  · cases h
  · rename_i row hrow
    obtain ⟨hmem, hid⟩ := find_hasId hrow
    rw [decode_eq (hs.known row hmem)] at h
    obtain ⟨hguard, h⟩ := ite_error_ok.mp h
    obtain ⟨runs, hreplace, heq⟩ := bind_ok.mp h
    cases heq
    have hids : row.data.id = taskRunId := (hs.columns row hmem).1.trans hid
    have hexecution : taskRunId = executionId := not_not.mp (not_or.mp hsame).2
    refine .replaced row _ runs (replaceRow_ok hmem hreplace)
      { known := rfl
        dispatch := fun _ => Or.inr ?_
        vetoed := fun _ hstarted => hstarted
        vetoes := fun _ hveto => Or.inl hveto
        evidence := fun _ => .of_eq (extract_congr rfl rfl)
        revived := fun _ hterminal => hterminal
        ended := fun _ hstarted hend => ?_
        changed := fun _ _ hne => absurd rfl hne }
    · rw [haction, hids, hexecution]
    · rw [hstarted] at hend
      simp at hend

/-! ## The generic save -/

theorem Vetoed.hasEvidenceKey {run : TaskRun} (h : Vetoed sha256Canonical run) :
    hasEvidenceKey run = true := by
  obtain ⟨audit, haudit, -⟩ := h
  obtain ⟨raw, hraw, -⟩ := Option.bind_eq_some_iff.mp haudit
  exact Option.isSome_iff_exists.mpr ⟨raw, hraw⟩

/-- The checks a generic save passed, over a stored row. -/
theorem save_transition {old : RunRow} {run saved : TaskRun} (hs : StoreInvariant store)
    (hmem : old ∈ store.runs.rows) (hstart : old.sameStart (rowOf saved) = true)
    (hsaved : saved = { run with dispatchState := savedDispatchState (some old.data) run })
    (haction : action = .save run)
    (hcommits : (run.dispatchState == some .dispatchCommitted &&
      old.data.dispatchState != some .dispatchCommitted) = false)
    (hevidence : (old.data.status == .started && run.status != .started &&
      hasEvidenceKey old.data) = false)
    (hends : terminatesGenerically store.bindings old.data run = false)
    (hrevives : isBound store.bindings run.taskId = true →
      (run.status == .started && old.data.status != .started) = false)
    (hidentical : isBound store.bindings run.taskId = true → containmentEvidenceIdentical
      (extractContainmentAudit sha256Canonical old.data)
      (extractContainmentAudit sha256Canonical run) = true) :
    Transition sha256Canonical store action old.data saved := by
  obtain ⟨state, hstate⟩ := Option.isSome_iff_exists.mp (hs.known old hmem)
  have hdispatch : saved.dispatchState = old.data.dispatchState := by
    rw [hsaved, savedDispatchState, Option.bind_some, hstate]
    rfl
  have hstatus : saved.status = run.status := by rw [hsaved]
  have htask : run.taskId = old.data.taskId := by
    have hcolumn := (sameStart_iff.mp hstart).2.1
    rw [hsaved] at hcolumn
    exact hcolumn.trans (hs.columns old hmem).2.symm
  rw [htask] at hrevives hidentical
  refine
    { known := by rw [hdispatch, hstate]; rfl
      dispatch := fun hcommitted => Or.inl (hdispatch ▸ hcommitted)
      vetoed := fun hveto hstarted => ?_
      vetoes := fun hbound hveto => Or.inl ?_
      evidence := fun hbound audit haudit => ?_
      revived := fun hbound hterminal hstarted => ?_
      ended := fun hbound hstarted hend => ?_
      changed := fun hbound _ _ => ⟨run, haction, hsaved, ?_, hidentical hbound⟩ }
  · by_contra hne
    rw [hstatus] at hne
    simp [hstarted, hne, hveto.hasEvidenceKey] at hevidence
  · obtain ⟨audit, haudit, hvetoes⟩ := hveto
    have hincoming : extractContainmentAudit sha256Canonical run = some audit := by
      rw [← haudit, hsaved]
      rfl
    have hsame := hidentical hbound
    rw [hincoming] at hsame
    obtain ⟨stored, hstored, hpost⟩ := containmentEvidenceIdentical_of_some hsame
    refine ⟨stored, hstored, ?_⟩
    rw [ContinuationContainmentAudit.vetoes, hpost]
    exact hvetoes
  · have hsame := hidentical hbound
    rw [haudit] at hsame
    obtain ⟨kept, hkept, hbinding, hpost⟩ := containmentEvidenceIdentical_some hsame
    refine ⟨kept, ?_, hbinding, fun _ => hpost⟩
    rw [hsaved]
    exact (extract_congr rfl rfl).trans hkept
  · have hfalse := hrevives hbound
    rw [hstatus] at hstarted
    simp [hstarted, hterminal] at hfalse
  · rw [hstatus] at hend
    rcases hend with hend | hend
    · simp [terminatesGenerically, hstarted, hend, hbound] at hends
    · simp [terminatesGenerically, hstarted, hend, hbound] at hends
  · intro hcommitted
    simpa [hcommitted] using hcommits

theorem save_change (hs : StoreInvariant store) {run : TaskRun}
    (h : save sha256Canonical store run = .ok after) (haction : action = .save run) :
    Change sha256Canonical store action after := by
  simp only [save, ite_error_ok] at h
  obtain ⟨hcommits, hevidence, hends, hguard, hidentical, h⟩ := h
  obtain ⟨runs, hupsert, heq⟩ := bind_ok.mp h
  cases heq
  rcases upsertRun_ok hupsert with ⟨hnone, hinserts⟩ | ⟨old, hold, hreplaces⟩
  · have hfind : store.runs.find (hasId run.id) = none := hnone
    rw [hfind] at hguard hinserts
    have hunbound : isBound store.bindings run.taskId = false := by simpa using hguard
    refine .inserted _ runs hinserts ?_ ?_ fun hbound => ?_
    · simp [rowOf, savedDispatchState]
    · by_cases hpre : run.dispatchState = some .preDispatch <;>
        simp [rowOf, savedDispatchState, hpre]
    · have hbound : isBound store.bindings run.taskId = true := hbound
      rw [hunbound] at hbound
      cases hbound
  · have hfind : store.runs.find (hasId run.id) = some old := hold
    have hmem := (find_hasId hfind).1
    have hdecode := decode_eq (hs.known old hmem)
    simp only [hfind, Option.map_some, Option.any_some, hdecode, Option.bind_some] at *
    refine .replaced old _ runs hreplaces
      (save_transition hs hmem hreplaces.start rfl haction (by simpa using hcommits)
        (by simpa using hevidence) (by simpa using hends) (fun hbound => ?_) fun hbound => ?_)
    · simpa [hbound] using hguard
    · simpa [hbound] using hidentical

/-! ## The semantic operations -/

theorem loadStartedRunOrThrow_ok (hs : StoreInvariant store) {id : Id} {run : TaskRun}
    (h : loadStartedRunOrThrow store id = .ok run) :
    ∃ row ∈ store.runs.rows, row.data = run ∧ run.id = id ∧
      store.runs.find (hasId run.id) = some row ∧ run.status = .started := by
  unfold loadStartedRunOrThrow at h
  split at h
  · cases h
  · rename_i row hrow
    obtain ⟨hmem, hid⟩ := find_hasId hrow
    rw [decode_eq (hs.known row hmem)] at h
    simp only [ite_error_ok] at h
    obtain ⟨-, hstarted, h⟩ := h
    cases h
    have hcolumn := (hs.columns row hmem).1
    refine ⟨row, hmem, rfl, hcolumn.trans hid, ?_, not_not.mp hstarted⟩
    rw [hcolumn, hid]
    exact hrow

theorem extract_withAudit {run : TaskRun} {audit : ContinuationContainmentAudit} {value : EvidenceValue}
    (h : snapshotContainmentAudit sha256Canonical value run.id run.id = some audit) :
    extractContainmentAudit sha256Canonical (withAudit run audit) = some audit :=
  snapshotContainmentAudit_stored sha256Canonical h

/-- Evidence is written where there was none, or over the same binding without an observation. -/
theorem writeContainmentAudit_change (hs : StoreInvariant store) {row : RunRow} {value : EvidenceValue}
    {audit : ContinuationContainmentAudit} (hmem : row ∈ store.runs.rows)
    (hfind : store.runs.find (hasId row.data.id) = some row) (hstarted : row.data.status = .started)
    (hvalue : snapshotContainmentAudit sha256Canonical value row.data.id row.data.id = some audit)
    (hcurrent : ∀ current, extractContainmentAudit sha256Canonical row.data = some current →
      audit.binding = current.binding ∧ current.postAttempt = none)
    (h : writeContainmentAudit store row.data audit = .ok after) :
    Change sha256Canonical store action after := by
  obtain ⟨runs, hupsert, heq⟩ := bind_ok.mp h
  cases heq
  rcases upsertRun_ok hupsert with ⟨hnone, -⟩ | ⟨old, hold, hreplaces⟩
  · cases hfind.symm.trans hnone
  · cases Option.some.inj (hfind.symm.trans hold)
    refine .replaced row _ runs hreplaces
      { known := hs.known row hmem
        dispatch := fun hcommitted => Or.inl hcommitted
        vetoed := fun _ hstarted => hstarted
        vetoes := fun _ _ => Or.inr hstarted
        evidence := fun _ current hextract => ?_
        revived := fun _ hterminal => hterminal
        ended := fun _ _ hend => ?_
        changed := fun _ hterminal => absurd hstarted hterminal }
    · obtain ⟨hbinding, hpost⟩ := hcurrent current hextract
      exact ⟨audit, extract_withAudit hvalue, hbinding, fun hsome => by simp [hpost] at hsome⟩
    · have hend : row.data.status = .succeeded ∨ row.data.status = .failed := hend
      rw [hstarted] at hend
      simp at hend

theorem recordBinding_change (hs : StoreInvariant store) {id : Id} {value : EvidenceValue}
    (h : recordContainmentBindingIfAbsent sha256Canonical store id value = .ok after) :
    Change sha256Canonical store action after := by
  obtain ⟨run, hload, h⟩ := bind_ok.mp h
  obtain ⟨row, hmem, rfl, rfl, hfind, hstarted⟩ := loadStartedRunOrThrow_ok hs hload
  split at h
  · cases h
  · rename_i projected hprojected
    obtain ⟨-, h⟩ := ite_error_ok.mp h
    split at h
    · obtain ⟨-, h⟩ := ite_error_ok.mp h
      cases h
      exact .unchanged _ _ _
    · rename_i hnone
      refine writeContainmentAudit_change hs hmem hfind hstarted hprojected (fun current hcurrent => ?_) h
      rw [hnone] at hcurrent
      cases hcurrent

theorem recordPost_change (hs : StoreInvariant store) {id : Id} {value : EvidenceValue}
    (h : recordContainmentPostEvidenceIfAbsent sha256Canonical store id value = .ok after) :
    Change sha256Canonical store action after := by
  obtain ⟨run, hload, h⟩ := bind_ok.mp h
  obtain ⟨row, hmem, rfl, rfl, hfind, hstarted⟩ := loadStartedRunOrThrow_ok hs hload
  split at h
  · cases h
  · rename_i projected hprojected
    split at h
    · cases h
    · rename_i post hpost
      split at h
      · cases h
      · rename_i current hcurrent
        obtain ⟨hidentical, h⟩ := ite_error_ok.mp h
        split at h
        · obtain ⟨-, h⟩ := ite_error_ok.mp h
          cases h
          exact .unchanged _ _ _
        · rename_i hnone
          refine writeContainmentAudit_change hs hmem hfind hstarted hprojected
            (fun other hother => ?_) h
          cases Option.some.inj (hcurrent.symm.trans hother)
          have hsame : bindingIdentical current.binding projected.binding = true := by
            simpa using hidentical
          exact ⟨(beq_iff_eq.mp hsame).symm, hnone⟩

theorem extract_terminalRun {run : TaskRun} {audit : ContinuationContainmentAudit}
    {request : TerminalizeRequest} (h : extractContainmentAudit sha256Canonical run = some audit) :
    extractContainmentAudit sha256Canonical (terminalRun run (some audit) request) = some audit := by
  obtain ⟨raw, -, hraw⟩ := Option.bind_eq_some_iff.mp h
  have hstored := snapshotContainmentAudit_stored sha256Canonical hraw
  simpa [extractContainmentAudit, terminalRun, terminalMetadata] using hstored

/-- A terminal run has no evidence but that of the stored run. -/
theorem extract_terminalRun_eq_some {run : TaskRun} {audit : ContinuationContainmentAudit}
    {request : TerminalizeRequest} (h : extractContainmentAudit sha256Canonical
      (terminalRun run (extractContainmentAudit sha256Canonical run) request) = some audit) :
    extractContainmentAudit sha256Canonical run = some audit := by
  cases hrun : extractContainmentAudit sha256Canonical run with
  | some preserved =>
    rw [hrun, extract_terminalRun hrun] at h
    exact h
  | none =>
    rw [hrun] at h
    simp only [extractContainmentAudit, terminalRun, terminalMetadata] at h
    split at h
    · exact hrun.symm.trans h
    · cases h

theorem terminalize_change (hs : StoreInvariant store) {id : Id} {request : TerminalizeRequest}
    (h : terminalizePreservingSecurityEvidence sha256Canonical store id request = .ok after)
    (haction : action = .terminalizePreservingSecurityEvidence id request) :
    Change sha256Canonical store action after := by
  obtain ⟨run, hload, hrun⟩ := bind_ok.mp h
  obtain ⟨row, hmem, rfl, rfl, hfind, hstarted⟩ := loadStartedRunOrThrow_ok hs hload
  obtain ⟨-, hrun⟩ := ite_error_ok.mp hrun
  obtain ⟨-, hrun⟩ := ite_error_ok.mp hrun
  simp only at hrun
  split at hrun
  · cases hrun
    exact .unchanged _ _ _
  · rename_i hveto
    obtain ⟨runs, hupsert, heq⟩ := bind_ok.mp hrun
    cases heq
    rcases upsertRun_ok hupsert with ⟨hnone, -⟩ | ⟨old, hold, hreplaces⟩
    · cases hfind.symm.trans hnone
    · cases Option.some.inj (hfind.symm.trans hold)
      refine .replaced row _ runs hreplaces
        { known := hs.known row hmem
          dispatch := fun hcommitted => Or.inl hcommitted
          vetoed := fun ⟨audit, haudit, hvetoes⟩ => absurd ?_ hveto
          vetoes := fun _ hnew => Or.inl ?_
          evidence := fun _ audit haudit => ?_
          revived := fun _ hterminal => absurd hstarted hterminal
          ended := fun _ _ _ => ⟨request, haction⟩
          changed := fun _ hterminal => absurd hstarted hterminal }
      · rw [haudit]
        exact hvetoes
      · obtain ⟨audit, haudit, hvetoes⟩ := hnew
        exact ⟨audit, extract_terminalRun_eq_some haudit, hvetoes⟩
      · refine ⟨audit, ?_, rfl, fun _ => rfl⟩
        rw [haudit]
        exact extract_terminalRun haudit

theorem perform_change (hs : StoreInvariant store)
    (h : perform sha256Canonical store action = .ok after) :
    Change sha256Canonical store action after := by
  cases action with
  | start id now task capability => exact start_change h
  | guardedStart id now expected capability => exact guardedStart_change h
  | admitRun handoff workItem task now => exact admit_change h
  | save run => exact save_change hs h rfl
  | commitProviderDispatchIfPreDispatch taskRunId executionId => exact commit_change hs h rfl
  | recordContainmentBindingIfAbsent id audit => exact recordBinding_change hs h
  | recordContainmentPostEvidenceIfAbsent id audit => exact recordPost_change hs h
  | terminalizePreservingSecurityEvidence id request => exact terminalize_change hs h rfl
  | delete id => exact delete_change h
  | write documents =>
    cases h
    exact .same documents

end changes

end QuokyPlatform.TaskRuns
