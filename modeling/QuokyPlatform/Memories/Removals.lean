import QuokyPlatform.Memories.Duplicates

/-!
# Targets in turn

A removal archives or deletes its targets one after the other and stops at the first that is not
removed; a restore reads and writes them the same way. Either has changed a prefix of the targets
wherever it stops, and no other row.
-/

namespace QuokyPlatform.Memories
open Chunking Script
set_option autoImplicit false
set_option maxHeartbeats 250000

/-! ## Rows changed by their ids -/

/-- The rows of the ids changed, or gone where the change is none. -/
def changeRows (f : MemoryRecord → Option MemoryRecord) (ids : List Id) (rows : List MemoryRecord) :
    List MemoryRecord :=
  rows.filterMap fun row => if row.id ∈ ids then f row else some row

section
variable {f : MemoryRecord → Option MemoryRecord} {ids : List Id}
  {rows : List MemoryRecord} {row record : MemoryRecord}

theorem mem_changeRows : record ∈ changeRows f ids rows ↔
    ∃ row ∈ rows, (if row.id ∈ ids then f row else some row) = some record :=
  List.mem_filterMap

theorem changeRows_nil : changeRows f [] rows = rows := by
  simp [changeRows]

theorem mem_changeRows_of_not_mem (hrow : row ∈ rows) (hid : row.id ∉ ids) :
    row ∈ changeRows f ids rows :=
  mem_changeRows.mpr ⟨row, hrow, if_neg hid⟩

/-- The rows of other ids stay, and no other row has them. -/
theorem mem_changeRows_iff (hf : ∀ row changed, f row = some changed → changed.id = row.id)
    (hid : record.id ∉ ids) : record ∈ changeRows f ids rows ↔ record ∈ rows := by
  refine ⟨fun h => ?_, fun h => mem_changeRows_of_not_mem h hid⟩
  obtain ⟨row, hrow, hchanged⟩ := mem_changeRows.mp h
  split at hchanged
  · rename_i hmem
    exact absurd (hf row record hchanged ▸ hmem) hid
  · exact Option.some.inj hchanged ▸ hrow

theorem changeRows_append {more : List Id}
    (hf : ∀ row changed, f row = some changed → changed.id = row.id)
    (hdisjoint : List.Disjoint ids more) :
    changeRows f (ids ++ more) rows = changeRows f more (changeRows f ids rows) := by
  unfold changeRows
  rw [List.filterMap_filterMap]
  refine congrArg (List.filterMap · rows) (funext fun row => ?_)
  by_cases hrow : row.id ∈ ids
  · rw [if_pos hrow, if_pos (List.mem_append_left _ hrow)]
    cases hchanged : f row with
    | none => rfl
    | some changed =>
      have hnot : changed.id ∉ more := fun h => hdisjoint (hf row changed hchanged ▸ hrow) h
      rw [Option.bind_some, if_neg hnot]
  · rw [if_neg hrow, Option.bind_some]
    refine if_congr ?_ rfl rfl
    rw [List.mem_append, or_iff_right hrow]

end

/-! ## What a removal does to a row -/

/-- The archive keys of an archiving removal; none deletes. -/
abbrev Removal := Option (JsString × JsString)

def removedRow : Removal → MemoryRecord → Option MemoryRecord
  | none, _ => none
  | some (now, expiresAt), row =>
    some (if isArchivedMemory row then row else withArchive row now expiresAt)

theorem removedRow_id {mode : Removal} {row changed : MemoryRecord}
    (h : removedRow mode row = some changed) : changed.id = row.id := by
  cases mode with
  | none => cases h
  | some keys =>
    cases h
    split
    · rfl
    · rfl

/-- A row that is left is archived. -/
theorem removedRow_archived {mode : Removal} {row changed : MemoryRecord}
    (h : removedRow mode row = some changed) : isArchivedMemory changed = true := by
  cases mode with
  | none => cases h
  | some keys =>
    cases h
    split
    · assumption
    · exact isArchivedMemory_withArchive row keys.1 keys.2

/-- What the trace shows of a removal. -/
def removalEffects (mode : Removal) (target : MemoryRecord) : List Effect :=
  match mode with
  | none => [.deleted target.id]
  | some _ => if isArchivedMemory target then [] else [.saved target.id]

def removeOne (mode : Removal) (actorId : ScopeId) (target : MemoryRecord) : Task Bool :=
  match mode with
  | none => forgetOne actorId target
  | some (now, expiresAt) => archiveOne actorId target now expiresAt

/-- A record of the actor in a write scope. -/
structure Owned (actorId : ScopeId) (scope : DurableMemoryScope) (record : MemoryRecord) : Prop where
  durable : record.type = .LONG_TERM
  actor : record.scope.userId = some actorId
  written : durableScopeOfRecord record = some scope

section
variable {world after : World} {mode : Removal} {actorId : ScopeId} {scope : DurableMemoryScope}
  {target : MemoryRecord}

/-- A later world of the same calls. -/
structure Later (world after : World) : Prop where
  faults : after.faults = world.faults
  calls : world.calls ≤ after.calls

theorem Later.refl : Later world world := ⟨rfl, le_rfl⟩

theorem Later.trans {last : World} (h : Later world after) (hnext : Later after last) :
    Later world last :=
  ⟨hnext.faults.trans h.faults, h.calls.trans hnext.calls⟩

/-- No call fails any more. -/
def NoFaults (world : World) : Prop := ∀ n, world.calls ≤ n → world.faults n = .none

theorem NoFaults.later (h : NoFaults world) (hlater : Later world after) : NoFaults after := by
  intro n hn
  rw [hlater.faults]
  exact h n (hlater.calls.trans hn)

/-- The rows of some targets are changed and the trace shows it. -/
structure Changed (f : MemoryRecord → Option MemoryRecord) (effects : MemoryRecord → List Effect)
    (targets : List MemoryRecord) (world after : World) : Prop extends Later world after where
  rows : after.table.rows = changeRows f (targets.map (·.id)) world.table.rows
  trace : after.trace = world.trace ++ targets.flatMap effects

/-- A call went by. -/
theorem Changed.none_of {f : MemoryRecord → Option MemoryRecord}
    {effects : MemoryRecord → List Effect} (hlater : Later world after)
    (htable : after.table = world.table) (htrace : after.trace = world.trace) :
    Changed f effects [] world after where
  toLater := hlater
  rows := by rw [htable, List.map_nil, changeRows_nil]
  trace := by rw [htrace, List.flatMap_nil, List.append_nil]

theorem save_rows {record : MemoryRecord} {f : MemoryRecord → Option MemoryRecord}
    (hmem : target ∈ world.table.rows) (hid : record.id = target.id)
    (hf : f target = some record) :
    (world.table.save record).rows = changeRows f [target.id] world.table.rows := by
  rw [MemoryTable.save_of_mem (hid ▸ List.mem_map_of_mem hmem), changeRows,
    ← List.filterMap_eq_map]
  refine List.filterMap_congr fun row hrow => ?_
  show some (if row.id = record.id then record else row) = _
  by_cases hsame : row.id = target.id
  · have hrowTarget : row = target := MemoryTable.eq_of_id hrow hmem hsame
    rw [if_pos (hsame.trans hid.symm), if_pos (List.mem_singleton.mpr hsame), hrowTarget, hf]
  · rw [if_neg (fun h => hsame (h.trans hid)), if_neg fun h => hsame (List.mem_singleton.mp h)]

theorem delete_rows {id : Id} :
    (world.table.delete id).rows = changeRows (removedRow none) [id] world.table.rows := by
  show world.table.rows.filter _ = _
  unfold changeRows
  rw [← List.filterMap_eq_filter]
  refine List.filterMap_congr fun row _ => ?_
  by_cases hsame : row.id = id
  · rw [if_pos (List.mem_singleton.mpr hsame)]
    simp [Option.guard, hsame, removedRow]
  · rw [if_neg fun h => hsame (List.mem_singleton.mp h)]
    simp [Option.guard, hsame]

/-! ## One target -/

/-- A target is removed, or nothing changes; deleting may do both: remove it and throw. -/
def RemovedOne (mode : Removal) (target : MemoryRecord) (world : World)
    (result : Except MemoryError Bool) (after : World) : Prop :=
  ∃ removed, result = .ok removed ∧ (NoFaults world → removed = true) ∧
    (Changed (removedRow mode) (removalEffects mode) [target] world after ∧
        (removed = false → mode = none) ∨
      Changed (removedRow mode) (removalEffects mode) [] world after ∧ removed = false)

theorem archiveOne_lands {now expiresAt : JsString} (howned : Owned actorId scope target)
    (hmem : target ∈ world.table.rows) :
    (archiveOne actorId target now expiresAt).Lands world
      (RemovedOne (some (now, expiresAt)) target world) := by
  unfold archiveOne
  rw [if_neg (by simp [howned.durable, howned.actor]), if_neg (by simp [howned.written])]
  split
  · rename_i harchived
    rw [lands_pure]
    refine ⟨true, rfl, fun _ => rfl, .inl ⟨⟨Later.refl, ?_, ?_⟩, Bool.noConfusion⟩⟩
    · have hsame : ∀ row ∈ world.table.rows, (if row.id ∈ [target].map (·.id) then
          removedRow (some (now, expiresAt)) row else some row) = some row := by
        intro row hrow
        split
        · rename_i hid
          have htarget := MemoryTable.eq_of_id hrow hmem (List.mem_singleton.mp hid)
          rw [htarget, removedRow, if_pos harchived]
        · rfl
      unfold changeRows
      rw [List.filterMap_congr hsame, List.filterMap_some]
    · simp [removalEffects, harchived]
  · rename_i harchived
    rw [lands_tryCatch, lands_bind, lands_saveRecord]
    split
    · rw [andThen_ok, lands_pure, orElse_ok]
      refine ⟨true, rfl, fun _ => rfl, .inl ⟨⟨⟨rfl, Nat.le_succ _⟩, ?_, ?_⟩, Bool.noConfusion⟩⟩
      · exact save_rows hmem rfl (by rw [removedRow, if_neg harchived])
      · simp [removalEffects, harchived]
    · rename_i hfault
      refine ⟨false, rfl, fun hnone => absurd (hnone _ le_rfl) hfault, .inr ⟨?_, rfl⟩⟩
      exact Changed.none_of ⟨rfl, Nat.le_succ _⟩ rfl rfl

theorem forgetOne_lands (howned : Owned actorId scope target) (hmem : target ∈ world.table.rows) :
    (forgetOne actorId target).Lands world (RemovedOne none target world) := by
  have hfound := MemoryTable.find_of_mem hmem
  have hsame := sameScope_durableScopeOfRecord howned.written
  unfold forgetOne
  rw [howned.written]
  dsimp only
  rw [if_neg (by simp [howned.actor]), lands_tryCatch, lands_bind, forget, lands_bind,
    lands_orPersistenceError, getRecord, lands_read]
  split
  · rename_i hread
    dsimp only
    rw [andThen_ok, hfound]
    dsimp only
    rw [if_neg (by simp [howned.durable, hsame]), lands_bind, lands_orPersistenceError,
      lands_deleteRecord]
    have hdeleted : Changed (removedRow none) (removalEffects none) [target] world
        (world.called.deletedAfter target.id) :=
      ⟨⟨rfl, Nat.le_add_right _ 2⟩, delete_rows, rfl⟩
    split
    · exact ⟨true, rfl, fun _ => rfl, .inl ⟨hdeleted, fun _ => rfl⟩⟩
    · rename_i hfault
      refine ⟨false, rfl, fun hnone => ?_, .inr ⟨?_, rfl⟩⟩
      · have hcall := hnone (world.calls + 1) (Nat.le_succ _)
        exact absurd (hcall.symm.trans hfault) (by decide)
      · exact Changed.none_of ⟨rfl, Nat.le_add_right _ 2⟩ rfl rfl
    · rename_i hfault
      refine ⟨false, rfl, fun hnone => ?_, .inl ⟨hdeleted, fun _ => rfl⟩⟩
      have hcall := hnone (world.calls + 1) (Nat.le_succ _)
      exact absurd (hcall.symm.trans hfault) (by decide)
  · rename_i hfault
    refine ⟨false, rfl, fun hnone => absurd (hnone _ le_rfl) hfault, .inr ⟨?_, rfl⟩⟩
    exact Changed.none_of ⟨rfl, Nat.le_succ _⟩ rfl rfl

theorem removeOne_lands (howned : Owned actorId scope target) (hmem : target ∈ world.table.rows) :
    (removeOne mode actorId target).Lands world (RemovedOne mode target world) := by
  cases mode with
  | none => exact forgetOne_lands howned hmem
  | some keys => exact archiveOne_lands howned hmem

/-! ## All targets -/

theorem Changed.append {f : MemoryRecord → Option MemoryRecord}
    {effects : MemoryRecord → List Effect} {first rest : List MemoryRecord} {last : World}
    (hf : ∀ row changed, f row = some changed → changed.id = row.id)
    (hdisjoint : List.Disjoint (first.map (·.id)) (rest.map (·.id)))
    (h : Changed f effects first world after) (hrest : Changed f effects rest after last) :
    Changed f effects (first ++ rest) world last where
  toLater := h.toLater.trans hrest.toLater
  rows := by rw [hrest.rows, h.rows, List.map_append, changeRows_append hf hdisjoint]
  trace := by rw [hrest.trace, h.trace, List.flatMap_append, List.append_assoc]

/-- A row of another id than the targets' is there as it was. -/
theorem Changed.mem {f : MemoryRecord → Option MemoryRecord}
    {effects : MemoryRecord → List Effect} {targets : List MemoryRecord} {row : MemoryRecord}
    (h : Changed f effects targets world after) (hrow : row ∈ world.table.rows)
    (hid : row.id ∉ targets.map (·.id)) : row ∈ after.table.rows := by
  rw [h.rows]
  exact mem_changeRows_of_not_mem hrow hid

/-- A run over the targets has changed some of them, from the first on, and all when it says so. -/
structure Ran (f : MemoryRecord → Option MemoryRecord) (effects : MemoryRecord → List Effect)
    (targets done : List MemoryRecord) (complete : Bool) (world after : World) : Prop
    extends Changed f effects done world after where
  started : done <+: targets
  whole : complete = true → done = targets
  faultless : NoFaults world → complete = true

theorem removeVersions_lands {targets : List MemoryRecord} {removed : ℕ}
    (howned : ∀ target ∈ targets, Owned actorId scope target)
    (hmem : ∀ target ∈ targets, target ∈ world.table.rows)
    (hdistinct : (targets.map (·.id)).Nodup) :
    (removeVersions (removeOne mode actorId) targets removed).Lands world fun result after =>
      ∃ count complete done, result = .ok (count, complete) ∧
        Ran (removedRow mode) (removalEffects mode) targets done complete world after := by
  induction targets generalizing world removed with
  | nil =>
    exact ⟨removed, true, [], rfl, Changed.none_of Later.refl rfl rfl, List.prefix_refl [],
      fun _ => rfl, fun _ => rfl⟩
  | cons target rest ih =>
    obtain ⟨hfresh, hdistinct⟩ := List.nodup_cons.mp hdistinct
    rw [removeVersions, lands_bind]
    refine (removeOne_lands (howned target List.mem_cons_self)
      (hmem target List.mem_cons_self)).mono fun result after hone => ?_
    obtain ⟨gone, rfl, hfaultless, hchanged⟩ := hone
    rw [andThen_ok]
    cases gone with
    | true =>
      have hdone : Changed (removedRow mode) (removalEffects mode) [target] world after :=
        hchanged.elim (·.1) fun h => Bool.noConfusion h.2
      have hrest : ∀ other ∈ rest, other ∈ after.table.rows := by
        intro other hother
        refine hdone.mem (hmem other (List.mem_cons_of_mem _ hother)) fun hid => hfresh ?_
        rw [← List.mem_singleton.mp hid]
        exact List.mem_map_of_mem hother
      refine (ih (fun other hother => howned other (List.mem_cons_of_mem _ hother)) hrest
        hdistinct).mono fun result last hlast => ?_
      obtain ⟨count, complete, done, rfl, hran⟩ := hlast
      have hdoneFresh : List.Disjoint ([target].map (·.id)) (done.map (·.id)) :=
        List.singleton_disjoint.mpr fun h => hfresh (List.map_subset _ hran.started.subset h)
      refine ⟨count, complete, target :: done, rfl,
        hdone.append (fun _ _ => removedRow_id) hdoneFresh hran.toChanged,
        List.prefix_cons_inj target |>.mpr hran.started, fun h => ?_, fun h => ?_⟩
      · rw [hran.whole h]
      · exact hran.faultless (h.later hdone.toLater)
    | false =>
      rw [if_neg Bool.false_ne_true, lands_pure]
      rcases hchanged with ⟨hchanged, -⟩ | ⟨hchanged, -⟩
      · exact ⟨removed, false, [target], rfl, hchanged,
          List.prefix_cons_inj target |>.mpr (List.nil_prefix), Bool.noConfusion,
          fun h => hfaultless h⟩
      · exact ⟨removed, false, [], rfl, hchanged, List.nil_prefix, Bool.noConfusion,
          fun h => hfaultless h⟩

/-- A restored row. -/
def restoredRow (row : MemoryRecord) : Option MemoryRecord := some (withoutArchive row)

theorem restoreEach_lands {targets : List MemoryRecord}
    (hmem : ∀ target ∈ targets, target ∈ world.table.rows)
    (hdistinct : (targets.map (·.id)).Nodup) :
    (restoreEach targets).Lands world fun result after =>
      ∃ done, Ran restoredRow (fun target => [.saved target.id]) targets done
          result.isOk world after ∧
        (result ≠ .ok () → done.length < targets.length) := by
  induction targets generalizing world with
  | nil =>
    exact ⟨[], ⟨Changed.none_of Later.refl rfl rfl, List.prefix_refl [], fun _ => rfl,
      fun _ => rfl⟩, fun h => absurd rfl h⟩
  | cons target rest ih =>
    obtain ⟨hfresh, hdistinct⟩ := List.nodup_cons.mp hdistinct
    have htarget := hmem target List.mem_cons_self
    have hstopped : ∀ {error : MemoryError} {stopped : World}, Later world stopped →
        stopped.table = world.table → stopped.trace = world.trace → ¬ NoFaults world →
        ∃ done, Ran restoredRow (fun target => [.saved target.id]) (target :: rest) done
            (Except.error error : Except MemoryError Unit).isOk world stopped ∧
          ((Except.error error : Except MemoryError Unit) ≠ .ok () →
            done.length < (target :: rest).length) := by
      intro error stopped hlater htable htrace hfault
      exact ⟨[], ⟨Changed.none_of hlater htable htrace, List.nil_prefix, Bool.noConfusion,
        fun h => absurd h hfault⟩, fun _ => Nat.succ_pos _⟩
    rw [restoreEach, lands_bind, getRecord, lands_read]
    split
    · rw [andThen_ok, MemoryTable.find_of_mem htarget]
      dsimp only
      rw [if_neg (fun h => h rfl), lands_bind, lands_saveRecord]
      split
      · rw [andThen_ok]
        have hdone : Changed restoredRow (fun target => [.saved target.id]) [target] world
            { world.called.called with
              table := world.table.save (withoutArchive target)
              trace := world.trace ++ [.saved target.id] } :=
          ⟨⟨rfl, Nat.le_add_right _ 2⟩, save_rows htarget rfl rfl, rfl⟩
        have hrest : ∀ other ∈ rest, other ∈ (world.table.save (withoutArchive target)).rows := by
          intro other hother
          refine hdone.mem (hmem other (List.mem_cons_of_mem _ hother)) fun hid => hfresh ?_
          rw [← List.mem_singleton.mp hid]
          exact List.mem_map_of_mem hother
        refine (ih hrest hdistinct).mono fun result last hlast => ?_
        obtain ⟨done, hran, hlength⟩ := hlast
        have hdoneFresh : List.Disjoint ([target].map (·.id)) (done.map (·.id)) :=
          List.singleton_disjoint.mpr fun h => hfresh (List.map_subset _ hran.started.subset h)
        refine ⟨target :: done, ⟨hdone.append ?_ hdoneFresh hran.toChanged,
          List.prefix_cons_inj target |>.mpr hran.started, fun h => ?_, fun h => ?_⟩, fun h => ?_⟩
        · rintro row changed ⟨⟩
          rfl
        · rw [hran.whole h]
        · exact hran.faultless (h.later hdone.toLater)
        · exact Nat.succ_lt_succ (hlength h)
      · rename_i hfault
        exact hstopped ⟨rfl, Nat.le_add_right _ 2⟩ rfl rfl fun h =>
          hfault (h (world.calls + 1) (Nat.le_succ _))
    · rename_i hfault
      exact hstopped ⟨rfl, Nat.le_succ _⟩ rfl rfl fun h => hfault (h _ le_rfl)

end

end QuokyPlatform.Memories
