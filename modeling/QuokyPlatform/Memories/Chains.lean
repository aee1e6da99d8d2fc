import QuokyPlatform.Memories.Removals

/-!
# The versions of a record

The records whose `supersededBy` links lead to a record, and the order in which the commands go
through them.
-/

namespace QuokyPlatform.Memories
open Chunking Script
set_option autoImplicit false
set_option maxHeartbeats 250000

/-! ## The chain -/

/-- The link of a version in the chain of a record. -/
abbrev chainLink (actorId : ScopeId) (record : MemoryRecord) : MemoryRecord → Option Id :=
  versionLink actorId (durableScopeOfRecord record)

/-- The record, or a stored version whose links lead to it. -/
def InChain (table : MemoryTable) (actorId : ScopeId) (record version : MemoryRecord) : Prop :=
  version = record ∨
    LinkClosure.Leads (·.id) (chainLink actorId record) record.id table.rows version

/-- A durable record of the actor. -/
def isOf (actorId : ScopeId) (record : MemoryRecord) : Bool :=
  record.type = .LONG_TERM && record.scope.userId = some actorId

/-- What `findDurableCandidates` reads. -/
def durableCandidates (table : MemoryTable) (actorId : ScopeId) : List MemoryRecord :=
  let newestFirst (a b : MemoryRecord) : Bool :=
    b.updatedAt < a.updatedAt || (b.updatedAt = a.updatedAt && a.id ≤ b.id)
  ((table.rows.filter (isOf actorId)).insertionSort fun a b => newestFirst a b = true).take
    MEMORY_COMMAND_MAX_RECORDS

/-- The earlier versions that the store has. -/
def storedVersions (table : MemoryTable) (actorId : ScopeId) (record : MemoryRecord) :
    List MemoryRecord :=
  LinkClosure.earlier (·.id) (chainLink actorId record) record.id (durableCandidates table actorId)

section
variable {table : MemoryTable} {actorId : ScopeId} {record version : MemoryRecord} {world : World}

theorem lands_earlierVersions {Q : Except MemoryError (List MemoryRecord) → World → Prop} :
    (earlierVersions actorId record).Lands world Q ↔
      if world.faults world.calls = .none then
        Q (.ok (storedVersions world.table actorId record)) world.called
      else Q (.error .store) world.called := by
  unfold earlierVersions findDurableCandidates
  rw [lands_bind, lands_read]
  split
  · exact Iff.rfl
  · exact Iff.rfl

theorem isOf_of_link {id : Id} (h : chainLink actorId record version = some id) :
    isOf actorId version = true ∧
      durableScopeOfRecord version = durableScopeOfRecord record ∧
      metadataText version "supersededBy" = some id := by
  unfold chainLink versionLink at h
  split at h
  · rename_i hversion
    exact ⟨by simp [isOf, hversion.1, hversion.2.1], hversion.2.2, h⟩
  · cases h

theorem Leads.link {all : List MemoryRecord}
    (h : LinkClosure.Leads (·.id) (chainLink actorId record) record.id all version) :
    ∃ id, chainLink actorId record version = some id := by
  cases h with
  | direct hmem hlink hne => exact ⟨_, hlink⟩
  | through hmem hnext hlink hne => exact ⟨_, hlink⟩

theorem mem_durableCandidates (hcount : table.rows.countP (isOf actorId) ≤ MEMORY_COMMAND_MAX_RECORDS) :
    version ∈ durableCandidates table actorId ↔ version ∈ table.rows ∧ isOf actorId version = true := by
  unfold durableCandidates
  rw [List.take_of_length_le, List.mem_insertionSort, List.mem_filter]
  rw [List.length_insertionSort, ← List.countP_eq_length_filter]
  exact hcount

theorem durableCandidates_distinct : ((durableCandidates table actorId).map (·.id)).Nodup := by
  unfold durableCandidates
  refine List.Nodup.sublist ((List.take_sublist _ _).map _) ?_
  refine ((List.perm_insertionSort _ _).map _).nodup_iff.mpr ?_
  exact table.distinct.sublist (List.filter_sublist.map _)

theorem storedVersions_sound : LinkClosure.Sound (·.id) (chainLink actorId record) record.id
    (durableCandidates table actorId) (storedVersions table actorId record) :=
  LinkClosure.earlier_sound

/-- With room for all records of the actor, the versions found are those that lead to the record. -/
theorem mem_storedVersions
    (hcount : table.rows.countP (isOf actorId) ≤ MEMORY_COMMAND_MAX_RECORDS) :
    version ∈ storedVersions table actorId record ↔
      LinkClosure.Leads (·.id) (chainLink actorId record) record.id table.rows version := by
  rw [storedVersions, LinkClosure.mem_earlier_iff durableCandidates_distinct]
  constructor
  · exact fun h => h.mono fun other hother => ((mem_durableCandidates hcount).mp hother).1
  · intro h
    induction h with
    | direct hmem hlink hne =>
      exact .direct ((mem_durableCandidates hcount).mpr ⟨hmem, (isOf_of_link hlink).1⟩) hlink hne
    | through hmem hnext hlink hne ih =>
      exact .through ((mem_durableCandidates hcount).mpr ⟨hmem, (isOf_of_link hlink).1⟩) ih hlink hne

/-! ## The targets of a command -/

/-- A stored record of the actor that no other supersedes, with room for all records of the actor. -/
structure Root (actorId : ScopeId) (record : MemoryRecord) (table : MemoryTable) : Prop where
  stored : record ∈ table.rows
  owner : isOf actorId record = true
  written : ∃ scope, durableScopeOfRecord record = some scope
  current : metadataText record "supersededBy" = none
  room : table.rows.countP (isOf actorId) ≤ MEMORY_COMMAND_MAX_RECORDS

/-- The relevant versions, each before the one that superseded it, and the record last. -/
def targets (relevant : MemoryRecord → Bool) (table : MemoryTable) (actorId : ScopeId)
    (record : MemoryRecord) : List MemoryRecord :=
  ((storedVersions table actorId record).filter relevant).reverse ++ [record]

variable {relevant : MemoryRecord → Bool}

theorem Root.inChain_stored (h : Root actorId record table)
    (hversion : InChain table actorId record version) : version ∈ table.rows := by
  rcases hversion with rfl | hleads
  · exact h.stored
  · exact hleads.mem

theorem Root.inChain_owned (h : Root actorId record table)
    (hversion : InChain table actorId record version) :
    ∃ scope, durableScopeOfRecord record = some scope ∧ Owned actorId scope version := by
  obtain ⟨scope, hscope⟩ := h.written
  refine ⟨scope, hscope, ?_⟩
  have howned : ∀ {other : MemoryRecord}, isOf actorId other = true →
      durableScopeOfRecord other = durableScopeOfRecord record → Owned actorId scope other := by
    intro other hof hsame
    simp only [isOf, Bool.and_eq_true, decide_eq_true_eq] at hof
    exact ⟨hof.1, hof.2, hsame.trans hscope⟩
  rcases hversion with rfl | hleads
  · exact howned h.owner rfl
  · obtain ⟨id, hlink⟩ := Leads.link hleads
    obtain ⟨hof, hsame, -⟩ := isOf_of_link hlink
    exact howned hof hsame

theorem Root.mem_targets (h : Root actorId record table) :
    version ∈ targets relevant table actorId record ↔
      InChain table actorId record version ∧ (relevant version = true ∨ version = record) := by
  unfold targets InChain
  rw [List.mem_append, List.mem_singleton, List.mem_reverse, List.mem_filter,
    mem_storedVersions h.room]
  tauto

theorem targets_distinct : ((targets relevant table actorId record).map (·.id)).Nodup := by
  have hsound : LinkClosure.Sound (·.id) (chainLink actorId record) record.id _
      (storedVersions table actorId record) := storedVersions_sound
  unfold targets
  rw [List.map_append, List.nodup_append]
  refine ⟨?_, List.nodup_singleton _, fun id hid other hother => ?_⟩
  · rw [List.map_reverse, List.nodup_reverse]
    exact hsound.distinct.sublist (List.filter_sublist.map _)
  · obtain ⟨version, hversion, rfl⟩ := List.mem_map.mp hid
    rw [List.map_singleton, List.mem_singleton] at hother
    rw [hother]
    exact (hsound.leads version (List.mem_filter.mp (List.mem_reverse.mp hversion)).1).ne_root

/-- No target links to one that comes before it, nor to itself. -/
theorem Root.targets_ordered (h : Root actorId record table) :
    (targets relevant table actorId record).Pairwise (fun a b =>
      chainLink actorId record b ≠ some a.id) ∧
    ∀ version ∈ targets relevant table actorId record,
      chainLink actorId record version ≠ some version.id := by
  have hsound : LinkClosure.Sound (·.id) (chainLink actorId record) record.id _
      (storedVersions table actorId record) := storedVersions_sound
  have hlast : ∀ id, chainLink actorId record record ≠ some id := by
    intro id hlink
    have hsuperseded := (isOf_of_link hlink).2.2
    rw [h.current] at hsuperseded
    cases hsuperseded
  unfold targets
  constructor
  · rw [List.pairwise_append]
    refine ⟨?_, List.pairwise_singleton _ _, fun a _ b hb => ?_⟩
    · rw [List.pairwise_reverse]
      exact hsound.pairwise.filter relevant
    · rw [List.mem_singleton.mp hb]
      exact hlast a.id
  · intro version hversion
    rcases List.mem_append.mp hversion with hversion | hversion
    · exact hsound.not_self (List.mem_filter.mp (List.mem_reverse.mp hversion)).1
    · rw [List.mem_singleton.mp hversion]
      exact hlast _

/-! ## What a command over a chain leaves -/

/-- The command changed the rows of some versions and no others, each version after the relevant ones
that it superseded. -/
structure Walked (f : MemoryRecord → Option MemoryRecord) (effects : MemoryRecord → List Effect)
    (relevant : MemoryRecord → Bool) (actorId : ScopeId) (record : MemoryRecord)
    (world after : World) (derived : List Effect) (done : List MemoryRecord) : Prop where
  trace : after.trace = world.trace ++ derived ++ done.flatMap effects
  rows : after.table.rows = changeRows f (done.map (·.id)) world.table.rows
  versions : ∀ version ∈ done, InChain world.table actorId record version
  distinct : (done.map (·.id)).Nodup
  ordered : ∀ before version later, done = before ++ version :: later →
    ∀ earlier, InChain world.table actorId record earlier → relevant earlier = true →
      chainLink actorId record earlier = some version.id → earlier ∈ before

section
variable {f : MemoryRecord → Option MemoryRecord} {effects : MemoryRecord → List Effect}
  {after : World} {derived : List Effect} {done : List MemoryRecord}

theorem Root.walked (h : Root actorId record world.table)
    (hstarted : done <+: targets relevant world.table actorId record)
    (htrace : after.trace = world.trace ++ derived ++ done.flatMap effects)
    (hrows : after.table.rows = changeRows f (done.map (·.id)) world.table.rows) :
    Walked f effects relevant actorId record world after derived done where
  trace := htrace
  rows := hrows
  versions := fun version hversion => (h.mem_targets.mp (hstarted.subset hversion)).1
  distinct := targets_distinct.sublist (hstarted.sublist.map _)
  ordered := by
    intro before version later hsplit earlier hearlier hrelevant hlink
    obtain ⟨rest, hrest⟩ := hstarted
    have hmem : earlier ∈ targets relevant world.table actorId record :=
      h.mem_targets.mpr ⟨hearlier, .inl hrelevant⟩
    have hpairwise : (targets relevant world.table actorId record).Pairwise fun a b =>
      chainLink actorId record b ≠ some a.id := h.targets_ordered.1
    have hne := h.targets_ordered.2 earlier hmem
    rw [← hrest, hsplit, List.append_assoc, List.cons_append] at hmem hpairwise
    rcases List.mem_append.mp hmem with hbefore | hmem
    · exact hbefore
    · rcases List.mem_cons.mp hmem with rfl | hafter
      · exact absurd hlink hne
      · have hlater := (List.pairwise_append.mp hpairwise).2.1
        exact absurd hlink ((List.pairwise_cons.mp hlater).1 earlier hafter)

/-- A version that is done comes with the relevant ones that it superseded. -/
theorem Walked.closed (h : Walked f effects relevant actorId record world after derived done)
    {earlier : MemoryRecord} (hversion : version ∈ done)
    (hearlier : InChain world.table actorId record earlier) (hrelevant : relevant earlier = true)
    (hlink : chainLink actorId record earlier = some version.id) : earlier ∈ done := by
  obtain ⟨before, later, hsplit⟩ := List.append_of_mem hversion
  have hbefore := h.ordered before version later hsplit earlier hearlier hrelevant hlink
  rw [hsplit]
  exact List.mem_append_left _ hbefore

theorem Walked.id_not_mem (h : Walked f effects relevant actorId record world after derived done)
    (hroot : Root actorId record world.table) (hstored : version ∈ world.table.rows)
    (hdone : version ∉ done) : version.id ∉ done.map (·.id) := by
  intro hid
  obtain ⟨other, hother, hsame⟩ := List.mem_map.mp hid
  have heq := MemoryTable.eq_of_id (hroot.inChain_stored (h.versions other hother)) hstored hsame
  exact hdone (heq ▸ hother)

/-- A version that is not done is as it was. -/
theorem Walked.kept (h : Walked f effects relevant actorId record world after derived done)
    (hroot : Root actorId record world.table) (hstored : version ∈ world.table.rows)
    (hdone : version ∉ done) : version ∈ after.table.rows := by
  rw [h.rows]
  exact mem_changeRows_of_not_mem hstored (h.id_not_mem hroot hstored hdone)

/-- Rows of other records than those of the chain stay, and none comes. -/
theorem Walked.frame (h : Walked f effects relevant actorId record world after derived done)
    (hf : ∀ row changed, f row = some changed → changed.id = row.id) {row : MemoryRecord}
    (hrow : ∀ version, InChain world.table actorId record version → version.id ≠ row.id) :
    row ∈ after.table.rows ↔ row ∈ world.table.rows := by
  rw [h.rows]
  refine mem_changeRows_iff hf fun hid => ?_
  obtain ⟨version, hversion, hsame⟩ := List.mem_map.mp hid
  exact hrow version (h.versions version hversion) hsame

end

end

/-! ## What is left of a chain -/

section
variable {actorId : ScopeId} {record version : MemoryRecord} {world after : World}

section
variable {f : MemoryRecord → Option MemoryRecord} {effects : MemoryRecord → List Effect}
  {relevant : MemoryRecord → Bool} {derived : List Effect} {done : List MemoryRecord}

/-- A row of the id of a version of the chain: the version itself, or what was made of it. -/
theorem Walked.row_of_id (h : Walked f effects relevant actorId record world after derived done)
    (hroot : Root actorId record world.table)
    (hf : ∀ row changed, f row = some changed → changed.id = row.id)
    (hversion : InChain world.table actorId record version) {row : MemoryRecord}
    (hrow : row ∈ after.table.rows) (hid : row.id = version.id) :
    version ∈ done ∧ f version = some row ∨ version ∉ done ∧ row = version := by
  rw [h.rows] at hrow
  obtain ⟨old, hold, hchanged⟩ := mem_changeRows.mp hrow
  have hstored := hroot.inChain_stored hversion
  have hsame : old = version := by
    refine MemoryTable.eq_of_id hold hstored (hid ▸ ?_)
    split at hchanged
    · exact (hf old row hchanged).symm
    · rw [Option.some.inj hchanged]
  subst hsame
  by_cases hdone : old ∈ done
  · rw [if_pos (List.mem_map_of_mem hdone)] at hchanged
    exact .inl ⟨hdone, hchanged⟩
  · rw [if_neg (h.id_not_mem hroot hstored hdone)] at hchanged
    exact .inr ⟨hdone, (Option.some.inj hchanged).symm⟩

/-- No more records of the actor than before. -/
theorem countP_changeRows {ids : List Id} {rows : List MemoryRecord}
    (hf : ∀ row changed, f row = some changed → isOf actorId changed = isOf actorId row) :
    (changeRows f ids rows).countP (isOf actorId) ≤ rows.countP (isOf actorId) := by
  unfold changeRows
  induction rows with
  | nil => exact le_rfl
  | cons row rest ih =>
    rw [List.filterMap_cons]
    split
    · rw [List.countP_cons]
      exact ih.trans (Nat.le_add_right _ _)
    · rename_i changed hchanged
      have hsame : isOf actorId changed = isOf actorId row := by
        split at hchanged
        · exact hf row changed hchanged
        · rw [Option.some.inj hchanged]
      rw [List.countP_cons, List.countP_cons, hsame]
      omega

/-- Where a row is changed but stays in its chain. -/
structure KeepsChain (f : MemoryRecord → Option MemoryRecord) : Prop where
  id : ∀ row changed, f row = some changed → changed.id = row.id
  owner : ∀ row changed, f row = some changed → ∀ actorId, isOf actorId changed = isOf actorId row
  link : ∀ row changed, f row = some changed → ∀ actorId record,
    chainLink actorId record changed = chainLink actorId record row

/-- With the record left as it was, what is left of its chain is the chain that is found again. -/
theorem Walked.root (h : Walked f effects relevant actorId record world after derived done)
    (hroot : Root actorId record world.table) (hf : KeepsChain f) (hkept : record ∉ done) :
    Root actorId record after.table where
  stored := h.kept hroot hroot.stored hkept
  owner := hroot.owner
  written := hroot.written
  current := hroot.current
  room := by
    rw [h.rows]
    exact (countP_changeRows fun row changed hchanged => hf.owner row changed hchanged actorId).trans
      hroot.room

/-- Unless some versions are deleted and not all, what is left of the chain is found again. -/
theorem Walked.inChain (h : Walked f effects relevant actorId record world after derived done)
    (hroot : Root actorId record world.table) (hf : KeepsChain f) (hkept : record ∉ done)
    (hgone : ∀ version, f version = none → ∀ other, relevant other = true ∧ f other = none)
    (hversion : InChain world.table actorId record version) {row : MemoryRecord}
    (hrow : row ∈ after.table.rows) (hid : row.id = version.id) :
    InChain after.table actorId record row := by
  have hlinked : ∀ {version row : MemoryRecord}, InChain world.table actorId record version →
      row ∈ after.table.rows → row.id = version.id →
      chainLink actorId record row = chainLink actorId record version := by
    intro version row hversion hrow hid
    rcases h.row_of_id hroot hf.id hversion hrow hid with ⟨-, hchanged⟩ | ⟨-, rfl⟩
    · exact hf.link version row hchanged actorId record
    · rfl
  rcases hversion with rfl | hleads
  · rcases h.row_of_id hroot hf.id (.inl rfl) hrow hid with ⟨hdone, -⟩ | ⟨-, rfl⟩
    · exact absurd hdone hkept
    · exact .inl rfl
  refine .inr ?_
  induction hleads generalizing row with
  | @direct version hmem hlink hne =>
    have hchain : InChain world.table actorId record version := .inr (.direct hmem hlink hne)
    exact .direct hrow ((hlinked hchain hrow hid).trans hlink) (hid ▸ hne)
  | @through version next hmem hnext hlink hne ih =>
    have hchain : InChain world.table actorId record version := .inr (.through hmem hnext hlink hne)
    have hlink' := (hlinked hchain hrow hid).trans hlink
    have hsuccessor : ∃ row' ∈ after.table.rows, row'.id = next.id := by
      by_cases hdone : next ∈ done
      · cases hchanged : f next with
        | some changed =>
          refine ⟨changed, ?_, hf.id next changed hchanged⟩
          rw [h.rows]
          exact mem_changeRows.mpr ⟨next, hnext.mem, by
            rw [if_pos (List.mem_map_of_mem hdone)]
            exact hchanged⟩
        | none =>
          -- the version was removed before its successor, so it left no row
          obtain ⟨hrelevant, hdeleted⟩ := hgone next hchanged version
          have hclosed := h.closed hdone hchain hrelevant hlink
          rcases h.row_of_id hroot hf.id hchain hrow hid with ⟨-, hsome⟩ | ⟨hnot, -⟩
          · rw [hdeleted] at hsome
            cases hsome
          · exact absurd hclosed hnot
      · exact ⟨next, h.kept hroot hnext.mem hdone, rfl⟩
    obtain ⟨row', hrow', hid'⟩ := hsuccessor
    exact .through hrow (ih hrow' hid') (hid' ▸ hlink') (hid ▸ hne)

end

theorem chainLink_congr {a b : MemoryRecord} (htype : a.type = b.type) (hscope : a.scope = b.scope)
    (hlink : metadataText a "supersededBy" = metadataText b "supersededBy") :
    chainLink actorId record a = chainLink actorId record b := by
  unfold chainLink versionLink
  rw [htype, hscope, durableScopeOfRecord_congr hscope, hlink]

theorem keepsChain_removedRow (mode : Removal) : KeepsChain (removedRow mode) := by
  refine ⟨fun _ _ => removedRow_id, fun row changed h actorId => ?_,
    fun row changed h actorId record => ?_⟩
  · cases mode with
    | none => cases h
    | some keys =>
      cases h
      split
      · rfl
      · rfl
  · cases mode with
    | none => cases h
    | some keys =>
      cases h
      split
      · rfl
      · exact chainLink_congr rfl rfl (supersededBy_withArchive row keys.1 keys.2)

theorem keepsChain_restoredRow : KeepsChain restoredRow := by
  refine ⟨fun row changed h => ?_, fun row changed h actorId => ?_,
    fun row changed h actorId record => ?_⟩
  · cases h
    rfl
  · cases h
    rfl
  · cases h
    exact chainLink_congr rfl rfl (supersededBy_withoutArchive row)

end

end QuokyPlatform.Memories
