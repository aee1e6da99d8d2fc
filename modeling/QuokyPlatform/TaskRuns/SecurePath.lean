import QuokyPlatform.TaskRuns.ContinuationRuns

/-! # The secure path to a definite end

A run of a bound task may end in success or failure only through the secure terminalization. The
guards of the generic save look at a persisted `STARTED` row, so they do not see a save over a row
that has ended otherwise. The operations below are exactly the ones that leave the path. -/

namespace QuokyPlatform.TaskRuns

set_option autoImplicit false
set_option maxHeartbeats 250000

section securePath

variable {sha256Canonical : BindingFacts → String} {store after : Store} {action : Action}

def IsDefinite (status : TaskRunStatus) : Prop := status = .succeeded ∨ status = .failed

/-- One operation respects the path: a run of a bound task that is definite after it was so before,
or was `STARTED` and is terminalized by it; and what had ended keeps its status. -/
structure SecureStep (before : Store) (action : Action) (after : Store) : Prop where
  definite : ∀ row ∈ after.runs.rows, isBound after.bindings row.taskId = true →
    IsDefinite row.data.status → ∃ old ∈ before.runs.rows, old.id = row.id ∧
      (old.data.status = row.data.status ∨ old.data.status = .started ∧
        ∃ request, action = .terminalizePreservingSecurityEvidence row.id request)
  ended : ∀ old ∈ before.runs.rows, isBound before.bindings old.taskId = true →
    old.data.status ≠ .started → ∀ row ∈ after.runs.rows, row.id = old.id →
      row.data.status = old.data.status

/-- A generic save over a run of a bound task that has ended, with another end: it takes over the
start, the dispatch state and the evidence of the stored run, as the guards demand. -/
def OverwritesEnd (sha256Canonical : BindingFacts → String) (store : Store) (action : Action) : Prop :=
  ∃ run, action = .save run ∧ ∃ row ∈ store.runs.rows,
    isBound store.bindings row.taskId = true ∧ row.data.status ≠ .started ∧
    run.status ≠ .started ∧ run.status ≠ row.data.status ∧
    row.sameStart (rowOf run) = true ∧ CarriesForward sha256Canonical row.data run

/-! ## Only such a save leaves the path -/

/-- A row whose end an operation replaces was overwritten by a generic save. -/
theorem Transition.overwrites (hs : StoreInvariant store) {old new : RunRow} {runs : RunTable}
    (hreplaces : Replaces store.runs runs old new)
    (h : Transition sha256Canonical store action old.data new.data)
    (hbound : isBound store.bindings old.taskId = true) (hended : old.data.status ≠ .started)
    (hne : new.data.status ≠ old.data.status) : OverwritesEnd sha256Canonical store action := by
  have hbound' := hbound
  rw [← (hs.columns old hreplaces.mem).2] at hbound'
  obtain ⟨run, haction, hnew, hcarries⟩ := h.changed hbound' hended hne
  have hstatus : run.status = new.data.status := by rw [hnew]
  refine ⟨run, haction, old, hreplaces.mem, hbound, hended, ?_, ?_, ?_, hcarries⟩
  · rw [hstatus]
    exact h.revived hbound' hended
  · rw [hstatus]
    exact hne
  · have hcolumns := validIdentity_columns hreplaces.valid
    have hstart := sameStart_iff.mp hreplaces.start
    rw [← hcolumns.1, ← hcolumns.2, hnew] at hstart
    exact sameStart_iff.mpr hstart

theorem Change.secure (hs : StoreInvariant store) (h : Change sha256Canonical store action after)
    (hpath : ¬ OverwritesEnd sha256Canonical store action) : SecureStep store action after := by
  cases h with
  | inserted new runs hinserts hknown hdispatch hnew =>
    refine ⟨fun row hrow hbound hdefinite => ?_, fun old hold _ _ row hrow hid => ?_⟩
    · rcases hinserts.mem.mp hrow with hrow | rfl
      · exact ⟨row, hrow, rfl, Or.inl rfl⟩
      · rw [IsDefinite, (hnew hbound).1] at hdefinite
        simp at hdefinite
    · rcases hinserts.mem.mp hrow with hrow | rfl
      · rw [row_eq_of_id store.runs hrow hold hid]
      · exact absurd (Or.inl hid.symm) (hinserts.fresh old hold)
  | replaced old new runs hreplaces htransition =>
    obtain ⟨hid, htask, -⟩ := sameStart_iff.mp hreplaces.start
    have hkeeps : isBound store.bindings old.taskId = true → old.data.status ≠ .started →
        new.data.status = old.data.status := by
      intro hbound hended
      by_contra hne
      exact hpath (htransition.overwrites hs hreplaces hbound hended hne)
    refine ⟨fun row hrow hbound hdefinite => ?_, fun held hheld hbound hended row hrow hsame => ?_⟩
    · rcases (hreplaces.rows row).mp hrow with rfl | ⟨hrow, -⟩
      · have hbound' : isBound store.bindings old.taskId = true := htask ▸ hbound
        refine ⟨old, hreplaces.mem, hid.symm, ?_⟩
        by_cases hstarted : old.data.status = .started
        · have hcolumns := hs.columns old hreplaces.mem
          obtain ⟨request, haction⟩ := htransition.ended (hcolumns.2 ▸ hbound') hstarted hdefinite
          rw [hcolumns.1, ← hid] at haction
          exact Or.inr ⟨hstarted, request, haction⟩
        · exact Or.inl (hkeeps hbound' hstarted).symm
      · exact ⟨row, hrow, rfl, Or.inl rfl⟩
    · rcases (hreplaces.rows row).mp hrow with rfl | ⟨hrow, -⟩
      · have heq := row_eq_of_id store.runs hheld hreplaces.mem (hsame.symm.trans hid)
        subst heq
        exact hkeeps hbound hended
      · rw [row_eq_of_id store.runs hrow hheld hsame]
  | deleted id hunbound =>
    have hkeep : ∀ r ∈ (store.runs.delete (hasId id)).rows, r ∈ store.runs.rows :=
      fun r hr => (Table.mem_delete.mp hr).1
    refine ⟨fun row hrow _ _ => ⟨row, hkeep row hrow, rfl, Or.inl rfl⟩,
      fun old hold _ _ row hrow hid => ?_⟩
    rw [row_eq_of_id store.runs (hkeep row hrow) hold hid]
  | _ =>
    refine ⟨fun row hrow _ _ => ⟨row, hrow, rfl, Or.inl rfl⟩, fun old hold _ _ row hrow hid => ?_⟩
    rw [row_eq_of_id store.runs hrow hold hid]

/-! ## Such a save succeeds -/

theorem replaceRow_succeeds {runs : RunTable} {old new : RunRow} (hold : old ∈ runs.rows)
    (hvalid : new.validIdentity = true) (hstart : old.sameStart new = true) :
    ∃ after, replaceRow runs old new = .ok after := by
  obtain ⟨hid, htask, hattempt, -⟩ := sameStart_iff.mp hstart
  have himage : ∀ r ∈ runs.rows, (bif hasId old.id r then new else r).id = r.id ∧
      (bif hasId old.id r then new else r).taskId = r.taskId ∧
      (bif hasId old.id r then new else r).data.attempt = r.data.attempt := by
    intro r hr
    cases hsame : hasId old.id r with
    | false => exact ⟨rfl, rfl, rfl⟩
    | true =>
      rw [row_eq_of_id runs hr hold (by simpa [hasId] using hsame)]
      exact ⟨hid, htask, hattempt⟩
  obtain ⟨after, hafter⟩ := Table.update_eq_some (t := runs) (p := hasId old.id) (f := fun _ => new)
    fun r hr s hs hclash => by
      rw [RunRow.Clash, (himage r hr).1, (himage s hs).1, (himage r hr).2.1, (himage s hs).2.1,
        (himage r hr).2.2, (himage s hs).2.2]
      exact hclash
  exact ⟨after, by simp [replaceRow, hvalid, hstart, hafter]⟩

theorem save_overwrites (hs : StoreInvariant store) {run : TaskRun} {row : RunRow}
    (hrow : row ∈ store.runs.rows) (hbound : isBound store.bindings row.taskId = true)
    (hended : row.data.status ≠ .started) (hrun : run.status ≠ .started)
    (hstart : row.sameStart (rowOf run) = true)
    (hcarries : CarriesForward sha256Canonical row.data run) :
    ∃ runs, save sha256Canonical store run = .ok { store with runs } ∧
      ∃ new ∈ runs.rows, new.id = row.id ∧ new.data.status = run.status := by
  obtain ⟨hid, htask, hattempt, hsince⟩ := sameStart_iff.mp hstart
  have hid : run.id = row.id := hid
  have htask : run.taskId = row.taskId := htask
  let saved : TaskRun := { run with dispatchState := savedDispatchState (some row.data) run }
  have hvalid : (rowOf saved).validIdentity = true := by
    have hold := hs.valid row hrow
    obtain ⟨hcid, hctask⟩ := hs.columns row hrow
    simp only [RunRow.validIdentity, hcid, hctask] at hold
    have hattempt : run.attempt = row.data.attempt := hattempt
    simpa [RunRow.validIdentity, rowOf, saved, hid, htask, hattempt] using hold
  obtain ⟨runs, hruns⟩ := replaceRow_succeeds hrow hvalid
    (sameStart_iff.mpr ⟨hid, htask, hattempt, hsince⟩)
  have hfind : store.runs.find (hasId run.id) = some row := hid ▸ find_hasId_of_mem hrow
  refine ⟨runs, ?_, rowOf saved, ((replaceRow_ok hrow hruns).rows _).mpr (Or.inl rfl), hid, rfl⟩
  have hupsert : upsertRun store.runs saved = .ok runs := by
    have hfind' : store.runs.find (hasId saved.id) = some row := hfind
    rw [upsertRun, hfind']
    exact hruns
  obtain ⟨hcommits, hidentical⟩ := hcarries
  have hfirst : (run.dispatchState == some .dispatchCommitted &&
      row.data.dispatchState != some .dispatchCommitted) = false := by
    by_cases hcommitted : run.dispatchState = some .dispatchCommitted
    · simp [hcommits hcommitted]
    · simp [hcommitted]
  have hbound' : isBound store.bindings run.taskId = true := htask ▸ hbound
  unfold save
  simp only [hfind, Option.map_some, Option.any_some, decode_eq (hs.known row hrow), hfirst,
    terminatesGenerically, beq_eq_false_iff_ne.mpr hended, beq_eq_false_iff_ne.mpr hrun, hbound',
    Option.bind_some, hidentical, Bool.false_and, Bool.and_false, Bool.not_false, Bool.not_true,
    Bool.false_eq_true, if_false]
  exact bind_ok.mpr ⟨runs, hupsert, rfl⟩

theorem OverwritesEnd.not_secure (hs : StoreInvariant store)
    (h : OverwritesEnd sha256Canonical store action)
    (hstep : storeStep sha256Canonical store action = some after) :
    ¬ SecureStep store action after := by
  obtain ⟨run, rfl, row, hrow, hbound, hended, hrun, hne, hstart, hcarries⟩ := h
  obtain ⟨runs, hsave, new, hnew, hid, hstatus⟩ :=
    save_overwrites hs hrow hbound hended hrun hstart hcarries
  have hafter : after = { store with runs } := by
    simp only [storeStep, perform, hsave, Option.some.injEq] at hstep
    exact hstep.symm
  subst hafter
  intro hsecure
  exact hne (hstatus.symm.trans (hsecure.ended row hrow hbound hended new hnew hid))

/-! ## Runs of operations -/

/-- Every operation of the run respects the path. -/
def SecureRun (sha256Canonical : BindingFacts → String) (documents : Documents)
    (actions : List Action) : Prop :=
  ∀ first action rest before after, actions = first ++ action :: rest →
    runActions sha256Canonical documents first = some before →
    storeStep sha256Canonical before action = some after → SecureStep before action after

/-- A run of operations respects the path exactly when none of them overwrites an end. -/
theorem secure_path_iff (sha256Canonical : BindingFacts → String) (documents : Documents)
    (actions : List Action) :
    SecureRun sha256Canonical documents actions ↔
      ∀ first action rest before, actions = first ++ action :: rest →
        runActions sha256Canonical documents first = some before →
        ¬ OverwritesEnd sha256Canonical before action := by
  constructor
  · intro hsecure first action rest before hactions hfirst hoverwrites
    exact hoverwrites.not_secure (runActions_invariant hfirst) rfl
      (hsecure first action rest before _ hactions hfirst rfl)
  · intro hpath first action rest before after hactions hfirst hstep
    have hs := runActions_invariant hfirst
    exact (storeStep_change hs hstep).secure hs (hpath first action rest before hactions hfirst)

end securePath

/-! ## Through `CANCELED` -/

/-- The run of a guarded start as the generic save sends it back, with another status. -/
def guardedRun (status : TaskRunStatus) : TaskRun where
  id := "r1"
  taskId := "t1"
  attempt := 1
  status := status
  dispatchState := some .preDispatch
  capability := .codeImplementation
  startedAt := .iso 2

/-- A guarded run is canceled by a generic save, and made a success by the next one. -/
theorem canceled_run_becomes_succeeded :
    (runActions (fun _ => "") (sampleDocuments .pending)
      (boundStart ++ [.save (guardedRun .canceled), .save (guardedRun .succeeded)])).map
        (fun store => (isBound store.bindings "t1", store.runs.rows.map (·.data.status))) =
      some (true, [.succeeded]) ∧
    ¬ SecureRun (fun _ => "") (sampleDocuments .pending)
      (boundStart ++ [.save (guardedRun .canceled), .save (guardedRun .succeeded)]) := by
  have hcanceled : (runActions (fun _ => "") (sampleDocuments .pending)
      (boundStart ++ [.save (guardedRun .canceled)])).map
        (fun store => (isBound store.bindings "t1", store.runs.rows)) =
      some (true, [rowOf (guardedRun .canceled)]) := by
    decide +kernel
  refine ⟨by decide +kernel, fun hsecure => ?_⟩
  obtain ⟨before, hbefore, hrows⟩ := Option.map_eq_some_iff.mp hcanceled
  rw [Prod.mk.injEq] at hrows
  have hrow : rowOf (guardedRun .canceled) ∈ before.runs.rows := by
    rw [hrows.2]
    exact List.mem_singleton_self _
  have hoverwrites : OverwritesEnd (fun _ => "") before (.save (guardedRun .succeeded)) :=
    ⟨guardedRun .succeeded, rfl, rowOf (guardedRun .canceled), hrow, hrows.1, by decide, by decide,
      by decide, by decide, by decide, by decide⟩
  exact hoverwrites.not_secure (runActions_invariant hbefore) rfl
    (hsecure _ _ [] before _ (by simp) hbefore rfl)

end QuokyPlatform.TaskRuns
