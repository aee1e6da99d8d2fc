import QuokyPlatform.Foundations.Except
import QuokyPlatform.Memories.Commands

/-!
# What a promotion answers, and what it leaves when it throws

A duplicate is found among the records that are not archived, whether they are superseded, expired
or listable. When a promotion throws after one failed call, the store is as it was.
-/

namespace QuokyPlatform.Memories
open Chunking Script
set_option autoImplicit false
set_option maxHeartbeats 250000

variable {runtime : Runtime} {world : World} {candidate : MemoryCandidate}

/-! ## Rules for the calls of the writer -/

theorem lands_orPersistenceError {α : Type} {operation : String} {call : Task α}
    {Q : Except MemoryError α → World → Prop} :
    (orPersistenceError operation call).Lands world Q ↔ call.Lands world fun result after =>
      match result with
      | .ok value => Q (.ok value) after
      | .error _ => Q (.error (.persistence operation)) after := by
  unfold orPersistenceError
  rw [lands_tryCatch]
  constructor
  · intro h
    refine h.mono fun result after hresult => ?_
    cases result <;> exact hresult
  · intro h
    refine h.mono fun result after hresult => ?_
    cases result <;> exact hresult

theorem trim_eq_nil_iff {text : JsString} : trim text = [] ↔ ∀ unit ∈ text, isWhiteSpace unit = true := by
  unfold trim
  rw [List.rdropWhile_eq_nil_iff]
  constructor
  · intro h
    by_contra hnot
    have hne : text.dropWhile isWhiteSpace ≠ [] := fun hnil =>
      hnot (List.dropWhile_eq_nil_iff.mp hnil)
    have hhead := List.head_dropWhile_not isWhiteSpace hne
    rw [h _ (List.head_mem hne)] at hhead
    cases hhead
  · intro h unit hunit
    exact h unit ((List.dropWhile_suffix isWhiteSpace).subset hunit)

theorem trim_trim_ne_nil {text : JsString} (h : trim text ≠ []) : trim (trim text) ≠ [] := by
  intro hnil
  rw [trim_eq_nil_iff] at hnil
  have hlast := List.rdropWhile_last_not isWhiteSpace (text.dropWhile isWhiteSpace) h
  exact hlast (hnil _ (List.getLast_mem h))

/-! ## The record of a candidate is a durable memory -/

theorem createMemoryCandidate_ok {input : MemoryCandidateInput} {created : MemoryCandidate}
    (h : createMemoryCandidate input = .ok created) :
    trim input.content ≠ [] ∧ validateKind input.kind = .ok () ∧
      validateProvenanceAuthority input.provenance input.authorityLevel = .ok () ∧
      validateScope input.scope = .ok () := by
  unfold createMemoryCandidate at h
  obtain ⟨_, hcontent, h⟩ := bind_ok.mp h
  obtain ⟨_, _, h⟩ := bind_ok.mp h
  obtain ⟨_, hkind, h⟩ := bind_ok.mp h
  obtain ⟨_, hauthority, h⟩ := bind_ok.mp h
  obtain ⟨_, hscope, _⟩ := bind_ok.mp h
  refine ⟨fun hnil => ?_, hkind, hauthority, hscope⟩
  rw [requireText, if_pos hnil] at hcontent
  cases hcontent

/-- What a candidate that passes the policy is. -/
theorem promotionRejection_none (h : promotionRejection runtime candidate = none) :
    (trim candidate.content ≠ [] ∧ validateKind candidate.kind = .ok () ∧
      validateProvenanceAuthority candidate.provenance candidate.authorityLevel = .ok () ∧
      validateScope candidate.scope = .ok ()) ∧
    ∀ key ∈ WRITER_OWNED_LIFECYCLE_METADATA, candidate.metadata key = none := by
  unfold promotionRejection at h
  split at h
  · cases h
  · rename_i created hcreated
    refine ⟨createMemoryCandidate_ok hcreated, fun key hkey => ?_⟩
    split at h
    · cases h
    · split at h
      · cases h
      · rename_i hfind
        have hkey' := List.find?_eq_none.mp hfind key hkey
        simpa using hkey'

theorem toDurableMemory_newRecord (h : promotionRejection runtime candidate = none)
    (used : List Id) (now : Instant) :
    ∃ memory, toDurableMemory runtime
      (newRecord candidate (runtime.newId used) (runtime.toIso now.1)) = .ok memory := by
  obtain ⟨⟨hcontent, hkind, hauthority, hscope⟩, hreserved⟩ := promotionRejection_none h
  have hexpires : candidate.metadata "expiresAt" = none := hreserved _ (by decide)
  have hsuperseded : candidate.metadata "supersededBy" = none := hreserved _ (by decide)
  have hstamp : ∀ field, requireTimestamp runtime (runtime.toIso now.1) field = .ok () := by
    intro field
    unfold requireTimestamp
    rw [runtime.parse_toIso now]
    simp
  have hid : requireText (runtime.newId used) "id" = .ok () :=
    if_neg (runtime.newId_text used)
  have htext : requireText (trim candidate.content) "content" = .ok () :=
    if_neg (trim_trim_ne_nil hcontent)
  cases hresult : toDurableMemory runtime
      (newRecord candidate (runtime.newId used) (runtime.toIso now.1)) with
  | ok memory => exact ⟨memory, rfl⟩
  | error error =>
    simp [toDurableMemory, createDurableMemory, newRecord, metadataText, recordMetadata,
      Function.update, hexpires, hsuperseded, hstamp, hid, htext, hkind, hauthority,
      persistenceScope, hscope, bind, Except.bind, pure, Except.pure,
      List.lt_irrefl (runtime.toIso now.1)] at hresult

/-! ## When a promotion answers that it is a duplicate -/

/-- A record that the duplicate check finds. -/
structure Found (runtime : Runtime) (world : World) (candidate : MemoryCandidate)
    (record : MemoryRecord) : Prop where
  stored : record ∈ world.table.rows
  durable : record.type = .LONG_TERM
  live : lacksArchiveKey record = true
  scope : sameScope record candidate.scope = true
  provenance : metadataText record "provenance" = some candidate.provenance
  content : normalizedContent runtime record.content = normalizedContent runtime candidate.content

theorem not_archived_of_lacksArchiveKey {record : MemoryRecord} (h : lacksArchiveKey record = true) :
    isArchivedMemory record = false := by
  unfold lacksArchiveKey at h
  unfold isArchivedMemory
  rw [Option.isNone_iff_eq_none.mp h]

/-- In the scope read, and a duplicate there: found. -/
theorem found_iff {record : MemoryRecord} :
    Found runtime world candidate record ↔ record ∈ world.table.rows ∧
      (columnMatches (persistenceScope candidate.scope).sessionId record.scope.sessionId &&
        columnMatches (persistenceScope candidate.scope).projectId record.scope.projectId &&
        columnMatches (persistenceScope candidate.scope).channelId record.scope.channelId &&
        columnMatches (persistenceScope candidate.scope).threadId record.scope.threadId &&
        record.type = .LONG_TERM && lacksArchiveKey record) = true ∧
      duplicates runtime record candidate = true := by
  constructor
  · intro h
    refine ⟨h.stored, ?_, ?_⟩
    · have hscope := h.scope
      simp only [sameScope, Bool.and_eq_true, decide_eq_true_eq] at hscope
      obtain ⟨⟨⟨⟨⟨hsession, hproject⟩, -⟩, -⟩, -⟩, -⟩ := hscope
      simp [persistenceScope, columnMatches, hsession, hproject, h.durable, h.live]
    · simp [duplicates, not_archived_of_lacksArchiveKey h.live, h.scope, h.provenance, h.content]
  · rintro ⟨hstored, hread, hduplicate⟩
    simp only [Bool.and_eq_true, decide_eq_true_eq] at hread
    simp only [duplicates, Bool.and_eq_true, decide_eq_true_eq] at hduplicate
    exact ⟨hstored, hread.1.2, hread.2, hduplicate.1.1.2, hduplicate.1.2, hduplicate.2⟩

/-- The result says that the candidate is a duplicate. -/
def IsDuplicate (result : Except MemoryError MemoryWriteDecision) : Prop :=
  ∃ id reason, result = .ok (.duplicate id reason)

theorem storeCandidate_not_duplicate (superseded : Option MemoryRecord) :
    (storeCandidate runtime candidate superseded).Lands world fun result _ =>
      ¬ IsDuplicate result := by
  unfold storeCandidate
  rw [lands_bind, lands_get, andThen_ok, lands_bind, lands_orPersistenceError, lands_saveRecord]
  split
  · dsimp only
    rw [andThen_ok]
    cases superseded with
    | none =>
      dsimp only
      split
      · rintro ⟨id, reason, h⟩
        cases h
      · rintro ⟨id, reason, h⟩
        cases h
    | some prior =>
      dsimp only
      rw [lands_bind]
      refine Lands.mono (Q := fun _ _ => True) trivial fun result after _ => ?_
      cases result with
      | ok value =>
        rw [andThen_ok]
        split
        · rintro ⟨id, reason, h⟩
          cases h
        · rintro ⟨id, reason, h⟩
          cases h
      | error error =>
        rintro ⟨id, reason, h⟩
        cases h
  · rintro ⟨id, reason, h⟩
    cases h

theorem validateSupersession_table {id : Id} :
    (validateSupersession id candidate).Lands world fun _ after =>
      after = world.called := by
  unfold validateSupersession
  rw [lands_bind, lands_orPersistenceError, getRecord, lands_read]
  split
  · dsimp only
    rw [andThen_ok]
    split
    · rfl
    · split
      · rfl
      · split
        · rfl
        · split
          · rfl
          · split
            · rfl
            · rfl
  · rfl

/-- Which records make a promotion answer that it is a duplicate; it then has only read. -/
theorem promote_isDuplicate_iff :
    (promote runtime candidate).Lands world fun result after =>
      (IsDuplicate result ↔ promotionRejection runtime candidate = none ∧
        world.faults world.calls = .none ∧ ∃ record, Found runtime world candidate record) ∧
      (IsDuplicate result → after = world.called) := by
  unfold promote
  cases hrejection : promotionRejection runtime candidate with
  | some reason =>
    have hnot : ¬ IsDuplicate (.ok (.rejected reason)) := by
      rintro ⟨id, reason, h⟩
      cases h
    exact ⟨iff_of_false hnot (fun h => Option.some_ne_none _ h.1), fun h => absurd h hnot⟩
  | none =>
    dsimp only
    rw [lands_bind, lands_orPersistenceError, findByScope, lands_read]
    split
    · rename_i hfault
      dsimp only
      rw [andThen_ok]
      split
      · rename_i record hfind
        have hduplicate := List.find?_some hfind
        have hmem := List.mem_of_find?_eq_some hfind
        rw [List.mem_insertionSort, List.mem_filter] at hmem
        exact ⟨iff_of_true ⟨_, _, rfl⟩
          ⟨rfl, hfault, record, found_iff.mpr ⟨hmem.1, hmem.2, hduplicate⟩⟩, fun _ => rfl⟩
      · rename_i hfind
        have hnone : ¬ ∃ record, Found runtime world candidate record := by
          rintro ⟨record, hrecord⟩
          obtain ⟨hstored, hread, hduplicate⟩ := found_iff.mp hrecord
          refine List.find?_eq_none.mp hfind record ?_ hduplicate
          rw [List.mem_insertionSort, List.mem_filter]
          exact ⟨hstored, hread⟩
        have hiff : ∀ {result : Except MemoryError MemoryWriteDecision} {after : World},
            ¬ IsDuplicate result →
            (IsDuplicate result ↔ (none : Option String) = none ∧
              world.faults world.calls = .none ∧ ∃ record, Found runtime world candidate record) ∧
            (IsDuplicate result → after = world.called) :=
          fun h => ⟨iff_of_false h fun h => hnone h.2.2, fun h' => absurd h' h⟩
        split
        · exact (storeCandidate_not_duplicate none).mono fun result _ h => hiff h
        · rw [lands_bind]
          refine validateSupersession_table.mono fun result after _ => ?_
          cases result with
          | error error =>
            refine hiff ?_
            rintro ⟨id, reason, h⟩
            cases h
          | ok checked =>
            cases checked with
            | error reason =>
              refine hiff ?_
              rintro ⟨id, reason, h⟩
              cases h
            | ok prior =>
              exact (storeCandidate_not_duplicate (some prior)).mono fun result _ h => hiff h
    · rename_i hfault
      have hnot : ¬ IsDuplicate (.error (.persistence "PROMOTE")) := by
        rintro ⟨id, reason, h⟩
        cases h
      exact ⟨iff_of_false hnot fun h => hfault h.2.1, fun h => absurd h hnot⟩

/-! ## What a promotion that throws leaves -/

/-- At most one call between the two worlds failed. -/
def AtMostOneFailed (before after : World) : Prop :=
  ∀ m n, before.calls ≤ m → m < after.calls → before.calls ≤ n → n < after.calls →
    before.faults m ≠ .none → before.faults n ≠ .none → m = n

/-- The script threw after at most one failed call: the store is as it was. -/
def Undone {α : Type} (before : World) (result : Except MemoryError α) (after : World) : Prop :=
  (∃ error, result = .error error) → AtMostOneFailed before after → after.table = before.table

theorem undone_ok {α : Type} {value : α} {after : World} : Undone world (.ok value) after := by
  rintro ⟨error, h⟩
  cases h

theorem undone_error {error : MemoryError} {after : World} (h : after.table = world.table) :
    Undone world (.error error : Except MemoryError MemoryWriteDecision) after := fun _ _ => h

/-- A script that starts after one more call. -/
theorem Undone.called {α : Type} {result : Except MemoryError α} {after : World}
    (h : Undone world.called result after) : Undone world result after := by
  intro hthrown hone
  refine h hthrown fun m n hm hm' hn hn' => ?_
  have hcalls : world.called.calls = world.calls + 1 := rfl
  rw [hcalls] at hm hn
  exact hone m n (by omega) hm' (by omega) hn'

/-- Two calls that failed, one after the other. -/
theorem undone_twice {error : MemoryError} {after : World} {k : ℕ} (hk : world.calls ≤ k)
    (hafter : k + 2 ≤ after.calls) (hfirst : world.faults k ≠ .none)
    (hsecond : world.faults (k + 1) ≠ .none) :
    Undone world (.error error : Except MemoryError MemoryWriteDecision) after := by
  intro _ hone
  have hsame := hone k (k + 1) hk (by omega) (by omega) (by omega) hfirst hsecond
  omega

theorem storeCandidate_undone (h : promotionRejection runtime candidate = none)
    (superseded : Option MemoryRecord) :
    (storeCandidate runtime candidate superseded).Lands world (Undone world) := by
  unfold storeCandidate
  rw [lands_bind, lands_get, andThen_ok, lands_bind, lands_orPersistenceError, lands_saveRecord]
  obtain ⟨memory, hmemory⟩ :=
    toDurableMemory_newRecord h (world.table.rows.map (·.id)) world.clock
  split
  · dsimp only
    rw [andThen_ok]
    cases superseded with
    | none =>
      rw [hmemory]
      exact undone_ok
    | some prior =>
      dsimp only
      rw [hmemory, lands_bind, markSuperseded, lands_tryCatch, lands_saveRecord]
      split
      · exact undone_ok
      · rename_i hsecond
        rw [orElse_error, lands_bind, lands_orPersistenceError, lands_deleteRecord]
        split
        · refine undone_error ?_
          exact MemoryTable.delete_save (runtime.fresh _)
        · rename_i hthird
          exact undone_twice (Nat.le_succ _) le_rfl hsecond (hthird.trans_ne (by decide))
        · rename_i hthird
          exact undone_twice (Nat.le_succ _) le_rfl hsecond (hthird.trans_ne (by decide))
  · exact undone_error rfl

theorem promote_undone : (promote runtime candidate).Lands world (Undone world) := by
  unfold promote
  cases hrejection : promotionRejection runtime candidate with
  | some reason => exact undone_ok
  | none =>
    dsimp only
    rw [lands_bind, lands_orPersistenceError, findByScope, lands_read]
    split
    · dsimp only
      rw [andThen_ok]
      split
      · exact undone_ok
      · split
        · exact (storeCandidate_undone hrejection none).mono fun _ _ h => h.called
        · rw [lands_bind]
          refine validateSupersession_table.mono fun result after hafter => ?_
          subst hafter
          cases result with
          | error error => exact undone_error rfl
          | ok checked =>
            cases checked with
            | error reason => exact undone_ok
            | ok prior =>
              exact (storeCandidate_undone hrejection (some prior)).mono
                fun _ _ h => h.called.called
    · exact undone_error rfl

end QuokyPlatform.Memories
