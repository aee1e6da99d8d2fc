import QuokyPlatform.TaskRuns.StoreInvariant

/-! # Runs of a continuation-bound task

A task is bound before it has a run, and then only a guarded start gives it one. Over any sequence
of operations its runs keep their identity and their evidence, at most one of them is started, and
none that ended is started again. -/

namespace QuokyPlatform.TaskRuns

set_option autoImplicit false
set_option maxHeartbeats 250000

section continuation

variable {sha256Canonical : BindingFacts → String} {store after : Store} {action : Action}

/-! ## Bindings -/

theorem isBound_iff {bindings : BindingTable} {taskId : Id} :
    isBound bindings taskId = true ↔ ∃ b ∈ bindings.rows, b.taskId = taskId := by
  simp [isBound, Table.find]

/-- A new binding binds one task more. -/
theorem isBound_insert {bindings inserted : BindingTable} {binding : ContinuationBinding}
    (h : bindings.insert binding = some inserted) {taskId : Id} :
    isBound inserted taskId = true ↔ isBound bindings taskId = true ∨ taskId = binding.taskId := by
  rw [isBound_iff, isBound_iff, (Table.insert_eq_some h).2]
  simp [or_and_right, exists_or, eq_comm]

theorem Change.bindings (h : Change sha256Canonical store action after) :
    ∀ b ∈ store.bindings.rows, b ∈ after.bindings.rows := by
  intro b hb
  cases h with
  | bound binding bindings hinsert hnone =>
    show b ∈ bindings.rows
    rw [(Table.insert_eq_some hinsert).2]
    exact List.mem_append_left _ hb
  | _ => exact hb

/-! ## The invariant -/

theorem StoreInvariant.empty (documents : Documents) : StoreInvariant (Store.empty documents) where
  valid _ h := by cases h
  known _ h := by cases h
  one_started _ h := by cases h

theorem Inserts.mem {before runs : RunTable} {row r : RunRow} (h : Inserts before runs row) :
    r ∈ runs.rows ↔ r ∈ before.rows ∨ r = row := by
  rw [h.rows, List.mem_append, List.mem_singleton]

theorem StoreInvariant.inserted (hs : StoreInvariant store) {row : RunRow} {runs : RunTable}
    (hinserts : Inserts store.runs runs row) (hknown : row.data.dispatchState.isSome = true)
    (hbound : isBound store.bindings row.taskId = true → row.data.status = .started ∧
      ∀ r ∈ store.runs.rows, r.taskId = row.taskId → r.data.status ≠ .started) :
    StoreInvariant { store with runs } where
  valid r hr := by
    rcases hinserts.mem.mp hr with hold | rfl
    · exact hs.valid r hold
    · exact hinserts.valid
  known r hr := by
    rcases hinserts.mem.mp hr with hold | rfl
    · exact hs.known r hold
    · exact hknown
  one_started r hr s hs' hb htask hrs hss := by
    rcases hinserts.mem.mp hr with hr | rfl <;> rcases hinserts.mem.mp hs' with hs' | rfl
    · exact hs.one_started r hr s hs' hb htask hrs hss
    · exact absurd hrs ((hbound (htask ▸ hb)).2 r hr htask)
    · exact absurd hss ((hbound hb).2 s hs' htask.symm)
    · rfl

theorem StoreInvariant.replaced (hs : StoreInvariant store) {old new : RunRow} {runs : RunTable}
    (hreplaces : Replaces store.runs runs old new)
    (htransition : Transition sha256Canonical store action old.data new.data) :
    StoreInvariant { store with runs } := by
  obtain ⟨hid, htask, -⟩ := sameStart_iff.mp hreplaces.start
  -- a replaced document is started only if the row was
  have hstarted : isBound store.bindings old.taskId = true → new.data.status = .started →
      old.data.status = .started := by
    intro hbound hnew
    by_contra hne
    rw [← (hs.columns old hreplaces.mem).2] at hbound
    exact htransition.revived hbound hne hnew
  refine
    { valid := fun r hr => ?_
      known := fun r hr => ?_
      one_started := fun r hr s hs' hb heq hrs hss => ?_ }
  · rcases (hreplaces.rows r).mp hr with rfl | ⟨hr, -⟩
    · exact hreplaces.valid
    · exact hs.valid r hr
  · rcases (hreplaces.rows r).mp hr with rfl | ⟨hr, -⟩
    · exact htransition.known
    · exact hs.known r hr
  · rcases (hreplaces.rows r).mp hr with rfl | ⟨hr, hrid⟩ <;>
      rcases (hreplaces.rows s).mp hs' with rfl | ⟨hs', hsid⟩
    · rfl
    · rw [htask] at hb heq
      refine absurd ?_ hsid
      rw [← hs.one_started old hreplaces.mem s hs' hb heq (hstarted hb hrs) hss]
    · rw [htask] at heq
      refine absurd ?_ hrid
      have hb' : isBound store.bindings old.taskId = true := heq ▸ hb
      rw [hs.one_started r hr old hreplaces.mem hb heq hrs (hstarted hb' hss)]
    · exact hs.one_started r hr s hs' hb heq hrs hss

theorem StoreInvariant.change (hs : StoreInvariant store)
    (h : Change sha256Canonical store action after) : StoreInvariant after := by
  cases h with
  | same documents => exact ⟨hs.valid, hs.known, hs.one_started⟩
  | inserted row runs hinserts hknown hdispatch hbound => exact hs.inserted hinserts hknown hbound
  | replaced old new runs hreplaces htransition => exact hs.replaced hreplaces htransition
  | deleted id hunbound =>
    have hkeep : ∀ r ∈ (store.runs.delete (hasId id)).rows, r ∈ store.runs.rows :=
      fun r hr => (Table.mem_delete.mp hr).1
    exact ⟨fun r hr => hs.valid r (hkeep r hr), fun r hr => hs.known r (hkeep r hr),
      fun r hr s hs' => hs.one_started r (hkeep r hr) s (hkeep s hs')⟩
  | bound binding bindings hinsert hnone =>
    refine ⟨hs.valid, hs.known, fun r hr s hs' hb => ?_⟩
    rcases (isBound_insert hinsert).mp hb with hold | hnew
    · exact hs.one_started r hr s hs' hold
    · exact absurd hnew (hnone r hr)

/-- A run of a bound task whose evidence vetoes its end has not ended. -/
def VetoHolds (sha256Canonical : BindingFacts → String) (store : Store) : Prop :=
  ∀ row ∈ store.runs.rows, isBound store.bindings row.taskId = true →
    Vetoed sha256Canonical row.data → row.data.status = .started

theorem VetoHolds.change (hs : StoreInvariant store) (hveto : VetoHolds sha256Canonical store)
    (h : Change sha256Canonical store action after) : VetoHolds sha256Canonical after := by
  intro row hrow hbound hvetoed
  cases h with
  | same documents => exact hveto row hrow hbound hvetoed
  | inserted new runs hinserts hknown hdispatch hnew =>
    rcases hinserts.mem.mp hrow with hrow | rfl
    · exact hveto row hrow hbound hvetoed
    · exact (hnew hbound).1
  | replaced old new runs hreplaces htransition =>
    rcases (hreplaces.rows row).mp hrow with rfl | ⟨hrow, -⟩
    · have hold : isBound store.bindings old.taskId = true :=
        (sameStart_iff.mp hreplaces.start).2.1 ▸ hbound
      have hold' := hold
      rw [← (hs.columns old hreplaces.mem).2] at hold'
      rcases htransition.vetoes hold' hvetoed with hvetoed' | hstarted
      · exact htransition.vetoed hvetoed' (hveto old hreplaces.mem hold hvetoed')
      · exact hstarted
    · exact hveto row hrow hbound hvetoed
  | deleted id hunbound => exact hveto row (Table.mem_delete.mp hrow).1 hbound hvetoed
  | bound binding bindings hinsert hnone =>
    rcases (isBound_insert hinsert).mp hbound with hold | hnew
    · exact hveto row hrow hold hvetoed
    · exact absurd hnew (hnone row hrow)

/-! ## What later states keep -/

/-- What becomes of a run of a bound task. -/
structure RunKept (sha256Canonical : BindingFacts → String) (old new : RunRow) : Prop where
  id : new.id = old.id
  task : new.taskId = old.taskId
  attempt : new.data.attempt = old.data.attempt
  ended : old.data.status ≠ .started → new.data.status ≠ .started
  evidence : EvidenceKept sha256Canonical old.data new.data
  vetoed : Vetoed sha256Canonical old.data → old.data.status = .started → new.data.status = .started

structure RunsKept (sha256Canonical : BindingFacts → String) (before after : Store) : Prop where
  bindings : ∀ b ∈ before.bindings.rows, b ∈ after.bindings.rows
  runs : ∀ row ∈ before.runs.rows, isBound before.bindings row.taskId = true →
    ∃ kept ∈ after.runs.rows, RunKept sha256Canonical row kept

theorem EvidenceKept.trans {a b c : TaskRun} (hab : EvidenceKept sha256Canonical a b)
    (hbc : EvidenceKept sha256Canonical b c) : EvidenceKept sha256Canonical a c := by
  intro audit haudit
  obtain ⟨kept, hkept, hbinding, hpost⟩ := hab audit haudit
  obtain ⟨last, hlast, hbinding', hpost'⟩ := hbc kept hkept
  refine ⟨last, hlast, hbinding'.trans hbinding, fun hsome => ?_⟩
  have hsame := hpost hsome
  rw [hpost' (by rw [hsame]; exact hsome), hsame]

theorem Vetoed.kept {a b : TaskRun} (h : Vetoed sha256Canonical a)
    (hab : EvidenceKept sha256Canonical a b) : Vetoed sha256Canonical b := by
  obtain ⟨audit, haudit, hvetoes⟩ := h
  obtain ⟨kept, hkept, -, hpost⟩ := hab audit haudit
  refine ⟨kept, hkept, ?_⟩
  have hsome : audit.postAttempt.isSome = true := by
    cases hnone : audit.postAttempt with
    | none => simp [ContinuationContainmentAudit.vetoes, hnone] at hvetoes
    | some post => rfl
  rw [ContinuationContainmentAudit.vetoes, hpost hsome]
  exact hvetoes

theorem RunKept.refl (row : RunRow) : RunKept sha256Canonical row row where
  id := rfl
  task := rfl
  attempt := rfl
  ended h := h
  evidence := .of_eq rfl
  vetoed _ h := h

theorem RunKept.trans {a b c : RunRow} (hab : RunKept sha256Canonical a b)
    (hbc : RunKept sha256Canonical b c) : RunKept sha256Canonical a c where
  id := hbc.id.trans hab.id
  task := hbc.task.trans hab.task
  attempt := hbc.attempt.trans hab.attempt
  ended h := hbc.ended (hab.ended h)
  evidence := hab.evidence.trans hbc.evidence
  vetoed hveto hstarted := hbc.vetoed (hveto.kept hab.evidence) (hab.vetoed hveto hstarted)

theorem isBound_mono {a b : BindingTable} (h : ∀ binding ∈ a.rows, binding ∈ b.rows) {taskId : Id}
    (hbound : isBound a taskId = true) : isBound b taskId = true := by
  obtain ⟨binding, hmem, htask⟩ := isBound_iff.mp hbound
  exact isBound_iff.mpr ⟨binding, h binding hmem, htask⟩

instance : Std.Refl (RunsKept sha256Canonical) where
  refl _ := ⟨fun _ h => h, fun row hrow _ => ⟨row, hrow, .refl row⟩⟩

instance : IsTrans Store (RunsKept sha256Canonical) where
  trans a b c hab hbc := by
    refine ⟨fun x hx => hbc.bindings x (hab.bindings x hx), fun row hrow hbound => ?_⟩
    obtain ⟨kept, hkept, hkeeps⟩ := hab.runs row hrow hbound
    have hbound' : isBound b.bindings kept.taskId = true :=
      hkeeps.task ▸ isBound_mono hab.bindings hbound
    obtain ⟨last, hlast, hkeeps'⟩ := hbc.runs kept hkept hbound'
    exact ⟨last, hlast, hkeeps.trans hkeeps'⟩

theorem Transition.kept (hs : StoreInvariant store) {old new : RunRow} {runs : RunTable}
    (hreplaces : Replaces store.runs runs old new)
    (h : Transition sha256Canonical store action old.data new.data)
    (hbound : isBound store.bindings old.taskId = true) : RunKept sha256Canonical old new := by
  obtain ⟨hid, htask, hattempt, -⟩ := sameStart_iff.mp hreplaces.start
  rw [← (hs.columns old hreplaces.mem).2] at hbound
  exact ⟨hid, htask, hattempt, h.revived hbound, h.evidence hbound, h.vetoed⟩

theorem Change.kept (hs : StoreInvariant store) (h : Change sha256Canonical store action after) :
    RunsKept sha256Canonical store after := by
  refine ⟨h.bindings, fun row hrow hbound => ?_⟩
  cases h with
  | same documents => exact ⟨row, hrow, .refl row⟩
  | inserted new runs hinserts hknown hdispatch hnew =>
    exact ⟨row, hinserts.mem.mpr (Or.inl hrow), .refl row⟩
  | replaced old new runs hreplaces htransition =>
    by_cases hid : row.id = old.id
    · have hsame := row_eq_of_id store.runs hrow hreplaces.mem hid
      subst hsame
      exact ⟨new, (hreplaces.rows new).mpr (Or.inl rfl), htransition.kept hs hreplaces hbound⟩
    · exact ⟨row, (hreplaces.rows row).mpr (Or.inr ⟨hrow, hid⟩), .refl row⟩
  | deleted id hunbound =>
    refine ⟨row, Table.mem_delete.mpr ⟨hrow, ?_⟩, .refl row⟩
    by_contra hne
    have hid : row.id = id := by simpa [hasId] using hne
    rw [hunbound row hrow hid] at hbound
    cases hbound
  | bound binding bindings hinsert hnone => exact ⟨row, hrow, .refl row⟩

/-- What one operation may do to any run, bound or not. -/
structure SafeStep (sha256Canonical : BindingFacts → String) (before : Store) (action : Action)
    (after : Store) : Prop where
  vetoed : ∀ old ∈ before.runs.rows, Vetoed sha256Canonical old.data →
    old.data.status = .started → ∀ row ∈ after.runs.rows, row.id = old.id →
    row.data.status = .started
  dispatch : ∀ row ∈ after.runs.rows, row.data.dispatchState = some .dispatchCommitted →
    (∃ old ∈ before.runs.rows, old.id = row.id ∧
      old.data.dispatchState = some .dispatchCommitted) ∨
    action = .commitProviderDispatchIfPreDispatch row.id row.id

theorem Change.safe (hs : StoreInvariant store) (h : Change sha256Canonical store action after) :
    SafeStep sha256Canonical store action after := by
  cases h with
  | inserted new runs hinserts hknown hdispatch hnew =>
    refine ⟨fun old hold _ hstarted row hrow hid => ?_, fun row hrow hcommitted => ?_⟩
    · rcases hinserts.mem.mp hrow with hrow | rfl
      · rw [row_eq_of_id store.runs hrow hold hid]
        exact hstarted
      · exact absurd (Or.inl hid.symm) (hinserts.fresh old hold)
    · rcases hinserts.mem.mp hrow with hrow | rfl
      · exact Or.inl ⟨row, hrow, rfl, hcommitted⟩
      · exact absurd hcommitted hdispatch
  | replaced old new runs hreplaces htransition =>
    have hid := (sameStart_iff.mp hreplaces.start).1
    refine ⟨fun held hheld hveto hstarted row hrow hsame => ?_, fun row hrow hcommitted => ?_⟩
    · rcases (hreplaces.rows row).mp hrow with rfl | ⟨hrow, -⟩
      · have heq := row_eq_of_id store.runs hheld hreplaces.mem (hsame.symm.trans hid)
        subst heq
        exact htransition.vetoed hveto hstarted
      · rw [row_eq_of_id store.runs hrow hheld hsame]
        exact hstarted
    · rcases (hreplaces.rows row).mp hrow with rfl | ⟨hrow, -⟩
      · rcases htransition.dispatch hcommitted with hold | haction
        · exact Or.inl ⟨old, hreplaces.mem, hid.symm, hold⟩
        · rw [(hs.columns old hreplaces.mem).1, ← hid] at haction
          exact Or.inr haction
      · exact Or.inl ⟨row, hrow, rfl, hcommitted⟩
  | deleted id hunbound =>
    have hkeep : ∀ r ∈ (store.runs.delete (hasId id)).rows, r ∈ store.runs.rows :=
      fun r hr => (Table.mem_delete.mp hr).1
    refine ⟨fun old hold _ hstarted row hrow hid => ?_, fun row hrow hcommitted => ?_⟩
    · rw [row_eq_of_id store.runs (hkeep row hrow) hold hid]
      exact hstarted
    · exact Or.inl ⟨row, hkeep row hrow, rfl, hcommitted⟩
  | _ =>
    refine ⟨fun old hold _ hstarted row hrow hid => ?_, fun row hrow hcommitted => ?_⟩
    · rw [row_eq_of_id store.runs hrow hold hid]
      exact hstarted
    · exact Or.inl ⟨row, hrow, rfl, hcommitted⟩

/-! ## Runs of operations -/

theorem storeStep_change (hs : StoreInvariant store)
    (h : storeStep sha256Canonical store action = some after) :
    Change sha256Canonical store action after := by
  simp only [storeStep, Option.some.injEq] at h
  subst h
  cases hperform : perform sha256Canonical store action with
  | error e => exact .unchanged _ _ _
  | ok next => exact perform_change hs hperform

theorem storeStep_invariant (s : Store) (a : Action) (t : Store) (hs : StoreInvariant s)
    (h : storeStep sha256Canonical s a = some t) : StoreInvariant t :=
  hs.change (storeStep_change hs h)

variable (sha256Canonical)

abbrev runActions (documents : Documents) (actions : List Action) : Option Store :=
  Machine.run (storeStep sha256Canonical) (Store.empty documents) actions

variable {sha256Canonical}

theorem runActions_invariant {documents : Documents} {actions : List Action} {store : Store}
    (h : runActions sha256Canonical documents actions = some store) : StoreInvariant store :=
  Machine.run_invariant storeStep_invariant (.empty documents) h

theorem runActions_veto {documents : Documents} {actions : List Action} {store : Store}
    (h : runActions sha256Canonical documents actions = some store) :
    VetoHolds sha256Canonical store := by
  have hboth : StoreInvariant store ∧ VetoHolds sha256Canonical store := by
    refine Machine.run_invariant (I := fun s => StoreInvariant s ∧ VetoHolds sha256Canonical s)
      (fun s a t hs hstep => ?_) ⟨.empty documents, ?_⟩ h
    · exact ⟨storeStep_invariant s a t hs.1 hstep, hs.2.change hs.1 (storeStep_change hs.1 hstep)⟩
    · exact fun row hrow => by cases hrow
  exact hboth.2

/-- Of a bound task at most one run is started; attempt numbers are distinct; its runs keep their
identity, their end and their evidence in every later state, and none whose evidence vetoes its end
has ended; no operation ends a vetoed run of any task, and only the commit commits a dispatch. -/
theorem continuation_runs_safe (sha256Canonical : BindingFacts → String) (documents : Documents)
    (actions : List Action) (store : Store)
    (h : runActions sha256Canonical documents actions = some store) :
    (∀ r ∈ store.runs.rows, ∀ s ∈ store.runs.rows, isBound store.bindings r.taskId = true →
      r.taskId = s.taskId → r.data.status = .started → s.data.status = .started → r = s) ∧
    (store.runs.rows.Pairwise fun r s => r.taskId = s.taskId → r.data.attempt ≠ s.data.attempt) ∧
    VetoHolds sha256Canonical store ∧
    (∀ first rest earlier, actions = first ++ rest →
      runActions sha256Canonical documents first = some earlier →
      RunsKept sha256Canonical earlier store) ∧
    (∀ first action rest before after, actions = first ++ action :: rest →
      runActions sha256Canonical documents first = some before →
      storeStep sha256Canonical before action = some after →
      SafeStep sha256Canonical before action after) := by
  refine ⟨(runActions_invariant h).one_started, store.runs.distinct.imp fun hclash htask heq =>
    hclash (Or.inr ⟨htask, heq⟩), runActions_veto h, fun first rest earlier hactions hfirst => ?_,
    fun first action rest before after _ hfirst hstep => ?_⟩
  · obtain ⟨middle, hmiddle, hlast⟩ := Machine.run_append.mp (hactions ▸ h)
    cases Option.some.inj (hfirst.symm.trans hmiddle)
    exact Machine.run_relation storeStep_invariant
      (fun _ _ _ hs hstep => (storeStep_change hs hstep).kept hs) (runActions_invariant hfirst) hlast
  · have hs := runActions_invariant hfirst
    exact (storeStep_change hs hstep).safe hs

end continuation

/-! ## An attempt whose model did not match -/

def sampleDigest : String := "0123456789abcdef0123456789abcdef0123456789abcdef0123456789abcdef"

def sampleAudit (runId : Id) (integrity : Option ContainmentModelIntegrityStatus) :
    ContinuationContainmentAudit where
  schemaVersion := continuationContainmentAuditSchema
  binding :=
    { providerBindingDigest := none, securityProfileId := none, instanceIdentityDigest := none,
      channelAVerifierVersion := none, channelBVerifierVersion := none,
      executionId := runId, taskRunId := runId,
      containmentPolicyId := "policy", containmentPolicyVersion := "1",
      containmentPolicyDigest := sampleDigest, containmentBindingDigest := sampleDigest,
      providerId := "local", modelId := "model", modelDigest := sampleDigest,
      imageDigest := sampleDigest, runtimeFamily := .vmNoNic, runtimeVersion := "1",
      securityProfileDigest := sampleDigest, modelMountIdentityDigest := sampleDigest,
      verifierVersion := "1", channelAResultDigest := sampleDigest,
      channelBResultDigest := sampleDigest, preflightDisposition := .verified,
      modelIntegrityStatus := .verifiedAtBind }
  postAttempt := integrity.map fun status =>
    { attemptBoundaryCrossed := true, postAttemptModelIntegrity := status, failureCode := none }

def sampleTask (status : TaskStatus) : Task where
  id := "t1"
  status := status
  capability := .codeImplementation
  actorId := some "u1"
  projectId := some "p1"
  planId := none
  rest := ""

def sampleWorkItem : WorkItem where
  id := "w1"
  status := .active
  actorId := some "u1"
  projectId := some "p1"
  rest := ""

def sampleHandoff : WorkHandoff := { id := "h1", workItemId := "w1", rest := "" }

def sampleDocuments (status : TaskStatus) : Documents where
  tasks := [sampleTask status]
  workItems := [sampleWorkItem]
  workHandoffs := [sampleHandoff]
  approvals := []

def sampleFacts : GuardedTaskRunStartFacts where
  handoff := sampleHandoff
  binding := { handoffId := "h1", taskId := "t1", recordedAt := .iso 1 }
  workItem := sampleWorkItem
  task := sampleTask .running
  approval := .notRequired none

def boundStart : List Action :=
  [.admitRun sampleHandoff sampleWorkItem (sampleTask .pending) (.iso 1),
   .write (sampleDocuments .running),
   .guardedStart "r1" (.iso 2) sampleFacts .codeImplementation]

def mismatchActions : List Action :=
  boundStart ++
  [.guardedStart "r2" (.iso 3) sampleFacts .codeImplementation,
   .recordContainmentBindingIfAbsent "r1" (.audit (sampleAudit "r1" none)),
   .commitProviderDispatchIfPreDispatch "r1" "r1",
   .recordContainmentPostEvidenceIfAbsent "r1" (.audit (sampleAudit "r1" (some .mismatch))),
   .terminalizePreservingSecurityEvidence "r1" { terminalStatus := .failed, finishedAt := .iso 4 },
   .delete "r1"]

/-! ### A store with one run -/

/-- The store has one run; it is started and its task is bound. -/
structure OneRun (store : Store) (run : TaskRun) : Prop where
  rows : store.runs.rows = [rowOf run]
  bound : isBound store.bindings run.taskId = true
  started : run.status = .started
  known : run.dispatchState.isSome = true

section oneRun

variable (sha256Canonical : BindingFacts → String) {store : Store} {run new : TaskRun}

theorem decode_known (h : run.dispatchState.isSome = true) : decode run = run := by
  obtain ⟨state, hstate⟩ := Option.isSome_iff_exists.mp h
  simp [decode, hstate]

theorem OneRun.find (h : OneRun store run) :
    store.runs.find (hasId run.id) = some (rowOf run) := by
  simp [Table.find, h.rows, hasId, rowOf]

theorem OneRun.load (h : OneRun store run) : loadStartedRunOrThrow store run.id = .ok run := by
  have hdecode : decode (rowOf run).data = run := decode_known h.known
  simp [loadStartedRunOrThrow, h.find, hdecode, h.bound, h.started]

theorem OneRun.replace (h : OneRun store run) (hvalid : (rowOf new).validIdentity = true)
    (hstart : (rowOf run).sameStart (rowOf new) = true) :
    ∃ runs, replaceRow store.runs (rowOf run) (rowOf new) = .ok runs ∧
      runs.rows = [rowOf new] := by
  have hrows : Table.updateRows store.runs.rows (hasId (rowOf run).id) (fun _ => rowOf new) =
      [rowOf new] := by
    simp [Table.updateRows, h.rows, hasId]
  have hupdate : store.runs.update (hasId (rowOf run).id) (fun _ => rowOf new) =
      some ⟨[rowOf new], List.pairwise_singleton _ _⟩ := by
    unfold Table.update
    simp [hrows]
  refine ⟨⟨[rowOf new], List.pairwise_singleton _ _⟩, ?_, rfl⟩
  simp [replaceRow, hvalid, hstart, hupdate]

theorem OneRun.upsert (h : OneRun store run) (hid : new.id = run.id)
    (hvalid : (rowOf new).validIdentity = true)
    (hstart : (rowOf run).sameStart (rowOf new) = true) :
    ∃ runs, upsertRun store.runs new = .ok runs ∧ runs.rows = [rowOf new] := by
  obtain ⟨runs, hreplace, hrows⟩ := h.replace hvalid hstart
  refine ⟨runs, ?_, hrows⟩
  unfold upsertRun
  rw [hid, h.find]
  exact hreplace

theorem extractContainmentAudit_of_metadata {metadata : Metadata} {raw : EvidenceValue}
    (hmetadata : run.metadata = some metadata) (hraw : metadata.containmentAudit = some raw) :
    extractContainmentAudit sha256Canonical run =
      snapshotContainmentAudit sha256Canonical raw run.id run.id := by
  simp [extractContainmentAudit, hmetadata, hraw]

/-- Evidence of the binding is stored once. -/
theorem OneRun.recordBinding (h : OneRun store run) {value : EvidenceValue}
    {projected : ContinuationContainmentAudit}
    (hvalue : snapshotContainmentAudit sha256Canonical value run.id run.id = some projected)
    (hpost : projected.postAttempt = none) (hnone : extractContainmentAudit sha256Canonical run = none)
    (hvalid : (rowOf (withAudit run projected)).validIdentity = true)
    (hstart : (rowOf run).sameStart (rowOf (withAudit run projected)) = true) :
    ∃ after, storeStep sha256Canonical store (.recordContainmentBindingIfAbsent run.id value) =
      some after ∧ OneRun after (withAudit run projected) := by
  have hid : (withAudit run projected).id = run.id := rfl
  obtain ⟨runs, hupsert, hrows⟩ := h.upsert hid hvalid hstart
  refine ⟨{ store with runs := runs }, ?_, hrows, h.bound, h.started, h.known⟩
  have hperform : recordContainmentBindingIfAbsent sha256Canonical store run.id value =
      .ok { store with runs := runs } := by
    simp [recordContainmentBindingIfAbsent, h.load, hvalue, hpost, hnone, writeContainmentAudit,
      hupsert, bind, Except.bind, pure, Except.pure]
  rw [storeStep, perform, hperform]
  rfl

theorem OneRun.commitDispatch (h : OneRun store run) (hid : run.id ≠ "")
    (hstate : run.dispatchState = some .preDispatch) (hvalid : (rowOf run).validIdentity = true)
    (hstart : (rowOf run).sameStart (rowOf run) = true) :
    ∃ after, storeStep sha256Canonical store (.commitProviderDispatchIfPreDispatch run.id run.id) =
      some after ∧ OneRun after { run with dispatchState := some .dispatchCommitted } := by
  have hvalid' : (rowOf { run with dispatchState := some .dispatchCommitted }).validIdentity = true :=
    hvalid
  obtain ⟨runs, hreplace, hrows⟩ := h.replace hvalid' hstart
  refine ⟨{ store with runs := runs }, ?_, hrows, h.bound, h.started, rfl⟩
  have hdecode : decode (rowOf run).data = run := decode_known h.known
  have hperform : commitProviderDispatchIfPreDispatch store run.id run.id =
      .ok { store with runs := runs } := by
    unfold commitProviderDispatchIfPreDispatch
    rw [if_neg (by simp [hid]), h.find]
    dsimp only
    rw [hdecode, if_neg (by simp [h.started, hstate, rowOf])]
    have hreplace' : replaceRow store.runs (rowOf run)
        { rowOf run with data := { run with dispatchState := some .dispatchCommitted } } =
          .ok runs := hreplace
    rw [hreplace']
    rfl
  rw [storeStep, perform, hperform]
  rfl

theorem OneRun.recordPost (h : OneRun store run) {value : EvidenceValue}
    {projected current : ContinuationContainmentAudit} {post : ContainmentPostAttemptEvidence}
    (hvalue : snapshotContainmentAudit sha256Canonical value run.id run.id = some projected)
    (hpost : projected.postAttempt = some post)
    (hcurrent : extractContainmentAudit sha256Canonical run = some current)
    (hsame : current.binding = projected.binding) (hnone : current.postAttempt = none)
    (hvalid : (rowOf (withAudit run projected)).validIdentity = true)
    (hstart : (rowOf run).sameStart (rowOf (withAudit run projected)) = true) :
    ∃ after, storeStep sha256Canonical store (.recordContainmentPostEvidenceIfAbsent run.id value) =
      some after ∧ OneRun after (withAudit run projected) := by
  have hid : (withAudit run projected).id = run.id := rfl
  obtain ⟨runs, hupsert, hrows⟩ := h.upsert hid hvalid hstart
  refine ⟨{ store with runs := runs }, ?_, hrows, h.bound, h.started, h.known⟩
  have hperform : recordContainmentPostEvidenceIfAbsent sha256Canonical store run.id value =
      .ok { store with runs := runs } := by
    simp [recordContainmentPostEvidenceIfAbsent, h.load, hvalue, hpost, hcurrent, hsame, hnone,
      bindingIdentical, writeContainmentAudit, hupsert, bind, Except.bind, pure, Except.pure]
  rw [storeStep, perform, hperform]
  rfl

/-- A vetoed run is not ended. -/
theorem OneRun.terminalize (h : OneRun store run) {current : ContinuationContainmentAudit}
    (hcurrent : extractContainmentAudit sha256Canonical run = some current)
    (hvetoes : current.vetoes = true) {request : TerminalizeRequest}
    (hstatus : request.terminalStatus = .failed) (hmetadata : request.metadata = none) :
    storeStep sha256Canonical store (.terminalizePreservingSecurityEvidence run.id request) =
      some store := by
  have hperform : terminalizePreservingSecurityEvidence sha256Canonical store run.id request =
      .ok store := by
    simp [terminalizePreservingSecurityEvidence, h.load, hstatus, hmetadata, hcurrent, hvetoes, bind,
      Except.bind]
  rw [storeStep, perform, hperform]
  rfl

/-- The run of a bound task is not deleted. -/
theorem OneRun.delete (h : OneRun store run) :
    storeStep sha256Canonical store (.delete run.id) = some store := by
  have hbound : isBound store.bindings (rowOf run).taskId = true := h.bound
  have hperform : TaskRuns.delete store run.id =
      .error (.guardedTaskRunStart "CONTINUATION_RUN_DELETE_FORBIDDEN") := by
    unfold TaskRuns.delete
    rw [h.find]
    dsimp only
    rw [if_pos hbound]
  rw [storeStep, perform, hperform]
  rfl

end oneRun

/-! ### The run -/

theorem isSha256Hex_sampleDigest : isSha256Hex sampleDigest = true := by decide +kernel

theorem snapshot_sampleAudit {id : Id} (hid : isId id = true)
    {integrity : Option ContainmentModelIntegrityStatus} (h : integrity ≠ some .verifiedAtBind) :
    snapshotContainmentAudit (fun _ => "") (.audit (sampleAudit id integrity)) id id =
      some (sampleAudit id integrity) := by
  have hpolicy : isId "policy" = true := by decide +kernel
  have hlocal : isId "local" = true := by decide +kernel
  have hversion : isVersion "1" = true := by decide +kernel
  have hmodel : isOpaqueText "model" = true := by decide +kernel
  have hbinding : projectBinding (fun _ => "") (sampleAudit id integrity).binding id id =
      some (sampleAudit id integrity).binding := by
    simp [projectBinding, preparedAccepted, sampleAudit, isSha256Hex_sampleDigest, hid, hpolicy,
      hlocal, hversion, hmodel]
  unfold snapshotContainmentAudit
  dsimp only
  rw [if_neg (by simp [sampleAudit]), hbinding]
  cases integrity with
  | none => rfl
  | some status =>
    have hstatus : status ≠ .verifiedAtBind := fun heq => h (congrArg some heq)
    simp [sampleAudit, projectPostAttempt, hstatus]

/-- The run that the guarded start stores. -/
def sampleRun : TaskRun where
  id := "r1"
  taskId := "t1"
  attempt := 1
  status := .started
  dispatchState := some .preDispatch
  capability := .codeImplementation
  startedAt := .iso 2

theorem oneRun_started :
    ∃ store, runActions (fun _ => "") (sampleDocuments .pending)
      (boundStart ++ [.guardedStart "r2" (.iso 3) sampleFacts .codeImplementation]) = some store ∧
      OneRun store sampleRun := by
  have hrun : (runActions (fun _ => "") (sampleDocuments .pending)
      (boundStart ++ [.guardedStart "r2" (.iso 3) sampleFacts .codeImplementation])).map
      (fun store => (store.runs.rows, isBound store.bindings "t1")) =
      some ([rowOf sampleRun], true) := by
    decide +kernel
  obtain ⟨store, hstore, hpair⟩ := Option.map_eq_some_iff.mp hrun
  rw [Prod.mk.injEq] at hpair
  exact ⟨store, hstore, hpair.1, hpair.2, rfl, rfl⟩

theorem continuation_runs_safe_mismatch :
    ∃ store, runActions (fun _ => "") (sampleDocuments .pending) mismatchActions = some store ∧
      store.runs.rows.map (fun row => (row.id, row.data.status, row.data.dispatchState)) =
        [("r1", .started, some .dispatchCommitted)] ∧
      VetoHolds (fun _ => "") store := by
  have hid : isId "r1" = true := by decide +kernel
  have hbinding : snapshotContainmentAudit (fun _ => "") (.audit (sampleAudit "r1" none)) "r1" "r1" =
      some (sampleAudit "r1" none) := snapshot_sampleAudit hid (by simp)
  have hpost : snapshotContainmentAudit (fun _ => "") (.audit (sampleAudit "r1" (some .mismatch)))
      "r1" "r1" = some (sampleAudit "r1" (some .mismatch)) := snapshot_sampleAudit hid (by simp)
  obtain ⟨started, hstarted, hone⟩ := oneRun_started
  obtain ⟨bound, hbound, hone⟩ := hone.recordBinding (fun _ => "")
    hbinding rfl rfl (by decide +kernel) (by decide +kernel)
  obtain ⟨committed, hcommitted, hone⟩ := hone.commitDispatch (fun _ => "") (by decide) rfl
    (by decide +kernel) (by decide +kernel)
  obtain ⟨mismatched, hmismatched, hone⟩ := hone.recordPost (fun _ => "")
    hpost rfl ((extractContainmentAudit_of_metadata _ rfl rfl).trans hbinding) rfl rfl
    (by decide +kernel) (by decide +kernel)
  have hended : storeStep (fun _ => "") mismatched (.terminalizePreservingSecurityEvidence "r1"
      { terminalStatus := .failed, finishedAt := .iso 4 }) = some mismatched :=
    hone.terminalize (fun _ => "") ((extractContainmentAudit_of_metadata _ rfl rfl).trans hpost)
      rfl rfl rfl
  have hkept : storeStep (fun _ => "") mismatched (.delete "r1") = some mismatched :=
    hone.delete (fun _ => "")
  have hstore : runActions (fun _ => "") (sampleDocuments .pending) mismatchActions =
      some mismatched := by
    have hsplit : mismatchActions =
        (boundStart ++ [.guardedStart "r2" (.iso 3) sampleFacts .codeImplementation]) ++
          mismatchActions.drop 4 := rfl
    rw [hsplit]
    exact Machine.run_append.mpr ⟨started, hstarted, Machine.run_cons.mpr ⟨bound, hbound,
      Machine.run_cons.mpr ⟨committed, hcommitted, Machine.run_cons.mpr ⟨mismatched, hmismatched,
        Machine.run_cons.mpr ⟨mismatched, hended, Machine.run_cons.mpr ⟨mismatched, hkept, rfl⟩⟩⟩⟩⟩⟩
  refine ⟨mismatched, hstore, ?_, (continuation_runs_safe _ _ _ mismatched hstore).2.2.1⟩
  rw [hone.rows]
  rfl

/-- A run of a task without a binding, stored by the generic save with evidence of a mismatch. -/
def unboundRun (status : TaskRunStatus) : TaskRun where
  id := "r9"
  taskId := "t9"
  attempt := 1
  status := status
  dispatchState := some .preDispatch
  capability := .codeImplementation
  startedAt := .iso 1
  metadata := some { containmentAudit := some (.audit (sampleAudit "r9" (some .mismatch))) }

/-- Evidence is continuation-specific: nothing keeps a run without a binding from `SUCCEEDED`. -/
theorem unbound_vetoed_run_succeeds :
    ∃ earlier later : Store,
      runActions (fun _ => "") (sampleDocuments .pending) [.save (unboundRun .canceled)] =
        some earlier ∧
      storeStep (fun _ => "") earlier (.save (unboundRun .succeeded)) = some later ∧
      (∃ row ∈ earlier.runs.rows, row.id = "r9" ∧ Vetoed (fun _ => "") row.data) ∧
      ∃ row ∈ later.runs.rows, row.id = "r9" ∧ row.data.status = .succeeded := by
  have hid : isId "r9" = true := by decide +kernel
  have hpost : snapshotContainmentAudit (fun _ => "") (.audit (sampleAudit "r9" (some .mismatch)))
      "r9" "r9" = some (sampleAudit "r9" (some .mismatch)) := snapshot_sampleAudit hid (by simp)
  have hveto : Vetoed (fun _ => "") (unboundRun .canceled) :=
    ⟨sampleAudit "r9" (some .mismatch), (extractContainmentAudit_of_metadata _ rfl rfl).trans hpost,
      by decide⟩
  have hfirst : (runActions (fun _ => "") (sampleDocuments .pending)
      [.save (unboundRun .canceled)]).map (fun store => store.runs.rows) =
      some [rowOf (unboundRun .canceled)] := rfl
  have hboth : (runActions (fun _ => "") (sampleDocuments .pending)
      [.save (unboundRun .canceled), .save (unboundRun .succeeded)]).map
      (fun store => store.runs.rows) = some [rowOf (unboundRun .succeeded)] := rfl
  obtain ⟨earlier, hearlier, hrows⟩ := Option.map_eq_some_iff.mp hfirst
  obtain ⟨later, hlater, hrows'⟩ := Option.map_eq_some_iff.mp hboth
  obtain ⟨middle, hmiddle, hrest⟩ := Machine.run_cons.mp hlater
  obtain ⟨last, hlast, hnil⟩ := Machine.run_cons.mp hrest
  obtain ⟨first, hstep, hdone⟩ := Machine.run_cons.mp hearlier
  cases hdone
  cases hnil
  cases Option.some.inj (hmiddle.symm.trans hstep)
  refine ⟨earlier, later, hearlier, hlast, ⟨rowOf (unboundRun .canceled), ?_, rfl, hveto⟩,
    ⟨rowOf (unboundRun .succeeded), ?_, rfl, rfl⟩⟩
  · rw [hrows]
    exact List.mem_singleton_self _
  · rw [hrows']
    exact List.mem_singleton_self _

end QuokyPlatform.TaskRuns
