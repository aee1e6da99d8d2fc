import QuokyPlatform.Memories.ForgetComplete
import QuokyPlatform.Memories.StoredAgain

/-!
# The laws of forget, restore and permanent delete

What each says when it says that it is done, what it leaves when something failed, and that it can be
repeated then.
-/

namespace QuokyPlatform.Memories
open Chunking Script
set_option autoImplicit false
set_option maxHeartbeats 250000

variable {runtime : Runtime} {deps : MemoryCommandServiceDeps} {request : MemoryCommandRequest}
  {actorId : ScopeId} {record version : MemoryRecord} {world after : World}

/-- A record of the owner's listing is one that the commands can start from. -/
theorem root_of_listable (hstored : record ∈ world.table.rows)
    (hlistable : isListableMemory runtime record actorId request.now.1 = true)
    (hroom : world.table.rows.countP (isOf actorId) ≤ MEMORY_COMMAND_MAX_RECORDS) :
    Root actorId record world.table := by
  unfold isListableMemory at hlistable
  split at hlistable
  · cases hlistable
  · rename_i howner
    rw [not_or, not_not, not_not] at howner
    split at hlistable
    · cases hlistable
    · rename_i hscope
      split at hlistable
      · cases hlistable
      · rename_i hcurrent
        exact ⟨hstored, by simp [isOf, howner], Option.ne_none_iff_exists'.mp hscope,
          not_not.mp hcurrent, hroom⟩

/-! ## Forgetting -/

/-- No row of the version is live. -/
def NotLive (table : MemoryTable) (version : MemoryRecord) : Prop :=
  ∀ row ∈ table.rows, row.id = version.id → isArchivedMemory row = true

/-- The world with no more failing calls. -/
def World.faultless (world : World) : World := { world with faults := fun _ => .none }

theorem noFaults_faultless : NoFaults world.faultless := fun _ _ => rfl

theorem mem_storedChain (hroot : Root actorId record world.table) :
    version ∈ storedChain world.table actorId record ↔ InChain world.table actorId record version := by
  unfold storedChain InChain
  rw [List.mem_cons, mem_storedVersions hroot.room]

theorem forgetMode_isSome (hroot : Root request.actorId record world.table) :
    (forgetMode runtime deps request (storedChain world.table request.actorId record)).isSome = true ↔
      0 < deps.archiveDays ∧ ∀ version, InChain world.table request.actorId record version →
        isStrictCredentialMemoryText runtime version.content = false := by
  have hany : ((storedChain world.table request.actorId record).any fun version =>
      isStrictCredentialMemoryText runtime version.content) = false ↔
      ∀ version, InChain world.table request.actorId record version →
        isStrictCredentialMemoryText runtime version.content = false := by
    rw [List.any_eq_false]
    refine forall_congr' fun version => ?_
    rw [mem_storedChain hroot, Bool.not_eq_true]
  rw [← hany, forgetMode]
  split
  · rename_i harchive
    rw [Bool.and_eq_true, decide_eq_true_eq, Bool.not_eq_true'] at harchive
    exact iff_of_true rfl harchive
  · rename_i harchive
    rw [Bool.and_eq_true, decide_eq_true_eq, Bool.not_eq_true'] at harchive
    exact iff_of_false Bool.false_ne_true harchive

/-- What a confirmed forget keeps to, whatever calls fail. -/
structure ForgetLaw (runtime : Runtime) (deps : MemoryCommandServiceDeps)
    (request : MemoryCommandRequest) (record : MemoryRecord) (world : World)
    (result : Except MemoryError MemoryCommandOutcome) (after : World) : Prop where
  /-- The order: derived data first, then the versions, the record last. -/
  ends : ∃ derived done, ForgetEnds runtime deps request record
    (forgetMode runtime deps request (storedChain world.table request.actorId record)) world
    result after derived done
  chain : ∀ version, version ∈ storedChain world.table request.actorId record ↔
    InChain world.table request.actorId record version
  archived : (forgetMode runtime deps request
      (storedChain world.table request.actorId record)).isSome = true ↔
    0 < deps.archiveDays ∧ ∀ version, InChain world.table request.actorId record version →
      isStrictCredentialMemoryText runtime version.content = false
  gone : IsForgotten result → ∀ version, InChain world.table request.actorId record version →
    NotLive after.table version
  deleted : IsForgotten result → forgetMode runtime deps request
      (storedChain world.table request.actorId record) = none →
    ∀ version, InChain world.table request.actorId record version →
      ∀ row ∈ after.table.rows, row.id ≠ version.id
  /-- The record is unchanged, so it is listed as before. -/
  kept : ¬ IsForgotten result → ¬ IsUnknown result → record ∈ after.table.rows
  retried : ¬ IsForgotten result → ¬ IsUnknown result →
    (executeForget runtime deps request record).Lands after.faultless fun result last =>
      IsForgotten result ∧ ∀ version, InChain world.table request.actorId record version →
        NotLive last.table version
  frame : ∀ row, (∀ version, InChain world.table request.actorId record version →
      version.id ≠ row.id) → (row ∈ after.table.rows ↔ row ∈ world.table.rows)

section
variable {mode : Removal} {result : Except MemoryError MemoryCommandOutcome}
  {derived : List Effect} {done : List MemoryRecord}

theorem ForgetEnds.row (h : ForgetEnds runtime deps request record mode world result after derived done)
    (hroot : Root request.actorId record world.table) (hforgotten : IsForgotten result)
    (hversion : InChain world.table request.actorId record version) {row : MemoryRecord}
    (hrow : row ∈ after.table.rows) (hid : row.id = version.id) :
    removedRow mode version = some row := by
  have hdone : version ∈ done := by
    rw [h.whole hforgotten]
    exact hroot.mem_targets.mpr ⟨hversion, .inl rfl⟩
  rcases h.walked.row_of_id hroot (fun _ _ => removedRow_id) hversion hrow hid with
    ⟨-, hchanged⟩ | ⟨hnot, -⟩
  · exact hchanged
  · exact absurd hdone hnot

theorem ForgetEnds.retried
    (h : ForgetEnds runtime deps request record mode world result after derived done)
    (hroot : Root request.actorId record world.table) (hkept : record ∉ done) :
    (executeForget runtime deps request record).Lands after.faultless fun result last =>
      IsForgotten result ∧ ∀ version, InChain world.table request.actorId record version →
        NotLive last.table version := by
  have hroot' : Root request.actorId record after.faultless.table :=
    h.walked.root hroot (keepsChain_removedRow mode) hkept
  refine (executeForget_ends hroot').mono fun result last hlast => ?_
  obtain ⟨derived', done', hends⟩ := hlast
  have hforgotten := hends.faultless noFaults_faultless
  refine ⟨hforgotten, fun version hversion row hrow hid => ?_⟩
  have hrow' := hrow
  rw [hends.walked.rows] at hrow'
  obtain ⟨old, hold, hchanged⟩ := mem_changeRows.mp hrow'
  have hsame : old.id = row.id := by
    split at hchanged
    · exact (removedRow_id hchanged).symm
    · rw [Option.some.inj hchanged]
  have hchain : InChain after.table request.actorId record old := by
    refine h.walked.inChain hroot (keepsChain_removedRow mode) hkept ?_ hversion hold
      (hsame.trans hid)
    intro other hnone more
    cases mode with
    | none => exact ⟨rfl, rfl⟩
    | some keys => cases hnone
  exact removedRow_archived (hends.row hroot' hforgotten hchain hrow hsame.symm)

end

theorem executeForget_law (hroot : Root request.actorId record world.table) :
    (executeForget runtime deps request record).Lands world
      (ForgetLaw runtime deps request record world) := by
  refine (executeForget_ends hroot).mono fun result after hends => ?_
  obtain ⟨derived, done, h⟩ := hends
  exact {
    ends := ⟨derived, done, h⟩
    chain := fun version => mem_storedChain hroot
    archived := forgetMode_isSome hroot
    gone := fun hforgotten version hversion row hrow hid =>
      removedRow_archived (h.row hroot hforgotten hversion hrow hid)
    deleted := by
      intro hforgotten hmode version hversion row hrow hid
      have hchanged := h.row hroot hforgotten hversion hrow hid
      rw [hmode] at hchanged
      cases hchanged
    kept := fun hnot hknown => h.walked.kept hroot hroot.stored (h.kept hnot hknown)
    retried := fun hnot hknown => h.retried hroot (h.kept hnot hknown)
    frame := fun row hrow => h.walked.frame (fun _ _ => removedRow_id) hrow }

/-! ## Restore -/

/-- Every row of the chain is out of the archive. -/
def Restored (table : MemoryTable) (version : MemoryRecord) : Prop :=
  ∀ row ∈ table.rows, row.id = version.id → isArchivedMemory row = false

/-- What a restore keeps to, whatever calls fail. -/
structure RestoreLaw (actorId : ScopeId) (record : MemoryRecord) (world : World)
    (result : Except MemoryError MemoryCommandOutcome) (after : World) : Prop where
  /-- The order: the archived versions, each after those it superseded, the record last. -/
  ends : ∃ done, Walked restoredRow (fun target => [.saved target.id]) isArchivedMemory actorId
    record world after [] done
  restored : result = .ok .restored → ∀ version, InChain world.table actorId record version →
    Restored after.table version
  /-- The record is unchanged, so it is in the archive as before. -/
  kept : result ≠ .ok .restored → record ∈ after.table.rows
  retried : result ≠ .ok .restored →
    (executeRestore actorId record).Lands after.faultless fun result last =>
      result = .ok .restored ∧ ∀ version, InChain world.table actorId record version →
        Restored last.table version
  frame : ∀ row, (∀ version, InChain world.table actorId record version → version.id ≠ row.id) →
    (row ∈ after.table.rows ↔ row ∈ world.table.rows)

theorem executeRestore_ends (hroot : Root actorId record world.table)
    (hgeneration : archiveGenerationOf record ≠ none) :
    (executeRestore actorId record).Lands world fun result after => ∃ done,
      Walked restoredRow (fun target => [.saved target.id]) isArchivedMemory actorId record
        world after [] done ∧
      (result = .ok .restored → done = targets isArchivedMemory world.table actorId record) ∧
      (result ≠ .ok .restored → record ∉ done) ∧ (NoFaults world → result = .ok .restored) := by
  have hfailed : ∀ {after : World} {error : MemoryError}, after.table = world.table →
      after.trace = world.trace → ¬ NoFaults world → ∃ done,
        Walked restoredRow (fun target => [.saved target.id]) isArchivedMemory actorId record
          world after [] done ∧
        ((.error error : Except MemoryError MemoryCommandOutcome) = .ok .restored →
          done = targets isArchivedMemory world.table actorId record) ∧
        ((.error error : Except MemoryError MemoryCommandOutcome) ≠ .ok .restored → record ∉ done) ∧
        (NoFaults world →
          (.error error : Except MemoryError MemoryCommandOutcome) = .ok .restored) := by
    intro after error htable htrace hfault
    refine ⟨[], hroot.walked List.nil_prefix (by simpa using htrace) ?_, nofun,
      fun _ => List.not_mem_nil, fun h => absurd h hfault⟩
    rw [htable]
    exact changeRows_nil.symm
  unfold executeRestore
  rw [lands_bind, lands_earlierVersions]
  split
  · rw [andThen_ok, lands_tryCatch, lands_bind]
    have hmem : ∀ target ∈ targets isArchivedMemory world.table actorId record,
        target ∈ world.called.table.rows := fun target htarget =>
      hroot.inChain_stored (hroot.mem_targets.mp htarget).1
    refine (restoreEach_lands hmem targets_distinct).mono fun result after hran => ?_
    obtain ⟨done, hran, hlength⟩ := hran
    have hwalked : Walked restoredRow (fun target => [.saved target.id]) isArchivedMemory actorId
        record world after [] done := by
      refine hroot.walked hran.started ?_ hran.rows
      rw [hran.trace, List.append_nil]
      rfl
    cases result with
    | ok value =>
      rw [andThen_ok]
      exact ⟨done, hwalked, fun _ => hran.whole rfl, fun h => absurd rfl h, fun _ => rfl⟩
    | error error =>
      refine ⟨done, hwalked, nofun, fun _ hrecord => ?_, fun h => ?_⟩
      · rcases List.prefix_concat_iff.mp hran.started with hall | hstarted
        · have hshort := hlength nofun
          rw [hall] at hshort
          exact absurd hshort (lt_irrefl _)
        · have hversion := (List.mem_filter.mp (List.mem_reverse.mp (hstarted.subset hrecord))).1
          exact record_not_mem (List.prefix_refl _) (List.mem_reverse.mpr hversion)
      · exact absurd (hran.faultless fun n hn => h n ((Nat.le_succ _).trans hn)) Bool.false_ne_true
  · rename_i hfault
    exact hfailed rfl rfl fun h => hfault (h _ le_rfl)

theorem restoredRow_id {row changed : MemoryRecord} (h : restoredRow row = some changed) :
    changed.id = row.id := keepsChain_restoredRow.id row changed h

section
variable {done : List MemoryRecord}

/-- Once every target is restored, every row of the chain is out of the archive. -/
theorem Walked.restored
    (h : Walked restoredRow (fun target => [.saved target.id]) isArchivedMemory actorId record
      world after [] done)
    (hroot : Root actorId record world.table)
    (hall : done = targets isArchivedMemory world.table actorId record)
    (hversion : InChain world.table actorId record version) : Restored after.table version := by
  intro row hrow hid
  rcases h.row_of_id hroot (fun _ _ => restoredRow_id) hversion hrow hid with
    ⟨-, hchanged⟩ | ⟨hnot, rfl⟩
  · cases hchanged
    exact isArchivedMemory_withoutArchive version
  · rw [hall, hroot.mem_targets, not_and_or, not_or, Bool.not_eq_true] at hnot
    exact (hnot.resolve_left (not_not.mpr hversion)).1

theorem executeRestore_law (hroot : Root actorId record world.table)
    (hgeneration : archiveGenerationOf record ≠ none) :
    (executeRestore actorId record).Lands world (RestoreLaw actorId record world) := by
  refine (executeRestore_ends hroot hgeneration).mono fun result after hends => ?_
  obtain ⟨done, h, hall, hkept, -⟩ := hends
  exact {
    ends := ⟨done, h⟩
    restored := fun hrestored version hversion => h.restored hroot (hall hrestored) hversion
    kept := fun hnot => h.kept hroot hroot.stored (hkept hnot)
    retried := by
      intro hnot
      have hroot' : Root actorId record after.faultless.table :=
        h.root hroot keepsChain_restoredRow (hkept hnot)
      refine (executeRestore_ends hroot' hgeneration).mono fun result last hlast => ?_
      obtain ⟨done', h', hall', -, hfaultless⟩ := hlast
      have hrestored := hfaultless noFaults_faultless
      refine ⟨hrestored, fun version hversion row hrow hid => ?_⟩
      have hrow' := hrow
      rw [h'.rows] at hrow'
      obtain ⟨old, hold, hchanged⟩ := mem_changeRows.mp hrow'
      have hsame : old.id = row.id := by
        split at hchanged
        · exact (restoredRow_id hchanged).symm
        · rw [Option.some.inj hchanged]
      have hchain : InChain after.table actorId record old :=
        h.inChain hroot keepsChain_restoredRow (hkept hnot) nofun hversion hold (hsame.trans hid)
      exact h'.restored hroot' (hall' hrestored) hchain row hrow hsame.symm
    frame := fun row hrow => h.frame (fun _ _ => restoredRow_id) hrow }

end

/-! ## Permanent delete -/

/-- The purge says that it is done. -/
def IsPurged (result : Except MemoryError MemoryCommandOutcome) : Prop :=
  ∃ removed, result = .ok (.purged removed)

/-- What a permanent delete keeps to, whatever calls fail. -/
structure PurgeLaw (actorId : ScopeId) (record : MemoryRecord) (world : World)
    (result : Except MemoryError MemoryCommandOutcome) (after : World) : Prop where
  /-- The order: the versions, each after those it superseded, the record last. -/
  ends : ∃ done, Walked (removedRow none) (removalEffects none) (fun _ => true) actorId record
    world after [] done
  purged : IsPurged result → ∀ version, InChain world.table actorId record version →
    ∀ row ∈ after.table.rows, row.id ≠ version.id
  /-- Unless the record itself went last, it is there and can be deleted again. -/
  retried : record ∈ after.table.rows →
    (executePurge actorId record).Lands after.faultless fun result last =>
      IsPurged result ∧ ∀ version, InChain world.table actorId record version →
        ∀ row ∈ last.table.rows, row.id ≠ version.id
  last : record ∉ after.table.rows → ∀ version, InChain world.table actorId record version →
    ∀ row ∈ after.table.rows, row.id ≠ version.id
  frame : ∀ row, (∀ version, InChain world.table actorId record version → version.id ≠ row.id) →
    (row ∈ after.table.rows ↔ row ∈ world.table.rows)

theorem executePurge_ends (hroot : Root actorId record world.table) :
    (executePurge actorId record).Lands world fun result after => ∃ done,
      Walked (removedRow none) (removalEffects none) (fun _ => true) actorId record
        world after [] done ∧
      done <+: targets (fun _ => true) world.table actorId record ∧
      (IsPurged result → done = targets (fun _ => true) world.table actorId record) ∧
      (NoFaults world → IsPurged result) := by
  have hincomplete : ¬ IsPurged (.ok .purgeIncomplete) := by
    rintro ⟨_, h⟩
    cases h
  unfold executePurge
  rw [lands_bind, lands_earlierVersions]
  split
  · rw [andThen_ok]
    have hremoved := removeTargets_lands none (fun _ => MemoryCommandOutcome.purgeIncomplete)
      (fun removed gone => if gone then MemoryCommandOutcome.purged removed else .purgeIncomplete)
      hroot (show world.called.table = world.table from rfl)
    refine Lands.mono hremoved fun result after hremoved => ?_
    obtain ⟨done, hchanged, hstarted, hend⟩ := hremoved
    have hwalked : Walked (removedRow none) (removalEffects none) (fun _ => true) actorId record
        world after [] done := by
      refine hroot.walked hstarted ?_ hchanged.rows
      rw [hchanged.trace, List.append_nil]
      rfl
    have hfault : NoFaults world → NoFaults world.called := fun h n hn =>
      h n ((Nat.le_succ _).trans hn)
    rcases hend with ⟨removed, rfl, -, hfaulty⟩ | ⟨removed, gone, rfl, hall, hnone⟩
    · exact ⟨done, hwalked, hstarted, fun h => absurd h hincomplete,
        fun h => absurd (hfault h) hfaulty⟩
    · cases gone with
      | true => exact ⟨done, hwalked, hstarted, fun _ => hall rfl, fun _ => ⟨removed, rfl⟩⟩
      | false =>
        exact ⟨done, hwalked, hstarted, fun h => absurd h hincomplete,
          fun h => absurd (hfault h) (hnone rfl).2⟩
  · rename_i hfault
    refine ⟨[], hroot.walked List.nil_prefix (by simp [World.called]) changeRows_nil.symm,
      List.nil_prefix, ?_, fun h => absurd (h _ le_rfl) hfault⟩
    rintro ⟨_, h⟩
    cases h

/-- No row is left of a version that was deleted. -/
theorem Walked.deleted {relevant : MemoryRecord → Bool} {derived : List Effect}
    {done : List MemoryRecord}
    (h : Walked (removedRow none) (removalEffects none) relevant actorId record world after derived
      done)
    (hroot : Root actorId record world.table) (hdone : version ∈ done) {row : MemoryRecord}
    (hrow : row ∈ after.table.rows) : row.id ≠ version.id := by
  intro hid
  rcases h.row_of_id hroot (fun _ _ => removedRow_id) (h.versions version hdone) hrow hid with
    ⟨-, hchanged⟩ | ⟨hnot, -⟩
  · cases hchanged
  · exact hnot hdone

theorem executePurge_law (hroot : Root actorId record world.table) :
    (executePurge actorId record).Lands world (PurgeLaw actorId record world) := by
  refine (executePurge_ends hroot).mono fun result after hends => ?_
  obtain ⟨done, h, hstarted, hall, -⟩ := hends
  have hwhole : done = targets (fun _ => true) world.table actorId record → ∀ version,
      InChain world.table actorId record version → ∀ row ∈ after.table.rows, row.id ≠ version.id := by
    rintro rfl version hversion row hrow
    exact h.deleted hroot (hroot.mem_targets.mpr ⟨hversion, .inl rfl⟩) hrow
  exact {
    ends := ⟨done, h⟩
    purged := fun hpurged => hwhole (hall hpurged)
    retried := by
      intro hkept
      have hrecord : record ∉ done := fun hdone => h.deleted hroot hdone hkept rfl
      have hroot' : Root actorId record after.faultless.table :=
        h.root hroot (keepsChain_removedRow none) hrecord
      refine (executePurge_ends hroot').mono fun result last hlast => ?_
      obtain ⟨done', h', -, hall', hfaultless⟩ := hlast
      have hpurged := hfaultless noFaults_faultless
      refine ⟨hpurged, fun version hversion row hrow hid => ?_⟩
      have hold : row ∈ after.table.rows := by
        rw [h'.rows] at hrow
        obtain ⟨old, hold, hchanged⟩ := mem_changeRows.mp hrow
        split at hchanged
        · cases hchanged
        · exact Option.some.inj hchanged ▸ hold
      have hchain : InChain after.table actorId record row :=
        h.inChain hroot (keepsChain_removedRow none) hrecord (fun _ _ _ => ⟨rfl, rfl⟩) hversion
          hold hid
      refine h'.deleted hroot' ?_ hrow rfl
      rw [hall' hpurged]
      exact hroot'.mem_targets.mpr ⟨hchain, .inl rfl⟩
    last := by
      intro hgone
      refine hwhole ?_
      rw [targets_all] at hstarted ⊢
      refine (List.prefix_concat_iff.mp hstarted).resolve_right fun hversions => hgone ?_
      exact h.kept hroot hroot.stored (record_not_mem hversions)
    frame := fun row hrow => h.frame (fun _ _ => removedRow_id) hrow }

/-! ## All three -/

/-- From every store, whatever calls fail, a command on a record that no other supersedes is complete
when it says so, can be repeated when it does not, and keeps to its chain. -/
theorem chain_commands_lawful (hroot : Root request.actorId record world.table) :
    (executeForget runtime deps request record).Lands world
      (ForgetLaw runtime deps request record world) ∧
    (archiveGenerationOf record ≠ none →
      (executeRestore request.actorId record).Lands world
        (RestoreLaw request.actorId record world)) ∧
    (executePurge request.actorId record).Lands world (PurgeLaw request.actorId record world) :=
  ⟨executeForget_law hroot, executeRestore_law hroot, executePurge_law hroot⟩

/-- An archived record. -/
def archivedCoffee : MemoryRecord :=
  let epoch := plainRuntime.toIso 0
  withArchive (newRecord (remember (units "coffee") fun _ => none) [97, 97] epoch) epoch epoch

/-- The store of the record and of the version that it superseded. -/
def coffeeWorld : World :=
  let epoch := plainRuntime.toIso 0
  let tea := newRecord (remember (units "tea") fun _ => none) [97] epoch
  { emptyWorld with
    table := ⟨[supersededBy tea archivedCoffee.id epoch, archivedCoffee], by decide⟩ }

theorem chain_commands_lawful_coffee :
    (executeForget plainRuntime noCascades ownerRequest archivedCoffee).Lands coffeeWorld
      (ForgetLaw plainRuntime noCascades ownerRequest archivedCoffee coffeeWorld) ∧
    (executeRestore owner archivedCoffee).Lands coffeeWorld
      (RestoreLaw owner archivedCoffee coffeeWorld) ∧
    (executePurge owner archivedCoffee).Lands coffeeWorld
      (PurgeLaw owner archivedCoffee coffeeWorld) := by
  have hroot : Root owner archivedCoffee coffeeWorld.table :=
    { stored := List.mem_cons_of_mem _ List.mem_cons_self
      owner := by decide
      written := ⟨{ actorId := some owner }, by decide⟩
      current := rfl
      room := by decide }
  have hgeneration : archiveGenerationOf archivedCoffee ≠ none := by
    simp [archiveGenerationOf, metadataText, archivedCoffee, withArchive, Function.update,
      MEMORY_ARCHIVED_AT_KEY, MEMORY_ARCHIVE_EXPIRES_AT_KEY]
  obtain ⟨hforget, hrestore, hpurge⟩ :=
    @chain_commands_lawful plainRuntime noCascades ownerRequest archivedCoffee coffeeWorld hroot
  exact ⟨hforget, hrestore hgeneration, hpurge⟩

end QuokyPlatform.Memories
