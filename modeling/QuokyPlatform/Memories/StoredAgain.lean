import Mathlib.Algebra.Order.BigOperators.Group.List
import QuokyPlatform.Memories.Duplicates

/-!
# What makes a memory a duplicate

A promotion is refused as a duplicate of any record that is not archived. The owner may no longer
have that record: an edit supersedes it, and it can expire.
-/

namespace QuokyPlatform.Memories
open Chunking Script
set_option autoImplicit false
set_option maxHeartbeats 250000

/-! ## What the owner still has -/

section
variable (runtime : Runtime)

/-- Not archived, not superseded and not expired. -/
def isCurrent (record : MemoryRecord) (nowMs : ℤ) : Bool :=
  (metadataText record "supersededBy").isNone && !isArchivedMemory record &&
    inForce runtime record nowMs

/-- A current record of the candidate's scope and provenance has the candidate's content. -/
def stillHad (world : World) (candidate : MemoryCandidate) : Bool :=
  world.table.rows.any fun record =>
    record.type = .LONG_TERM && sameScope record candidate.scope &&
      metadataText record "provenance" = some candidate.provenance &&
      normalizedContent runtime record.content = normalizedContent runtime candidate.content &&
      isCurrent runtime record world.clock.1

/-- A promotion answers that its candidate is a duplicate only if the owner still has it. -/
def Honest (world : World) (candidate : MemoryCandidate) : Prop :=
  (promote runtime candidate).Lands world fun result after =>
    IsDuplicate result → stillHad runtime after candidate = true

/-- The check reaches a superseded or an expired record only where a current one has the content. -/
def Retakable (world : World) (candidate : MemoryCandidate) : Prop :=
  promotionRejection runtime candidate = none → world.faults world.calls = .none →
    ∀ record, Found runtime world candidate record →
      isCurrent runtime record world.clock.1 = false → stillHad runtime world candidate = true

end

variable {runtime : Runtime} {world : World} {candidate : MemoryCandidate}

/-- Among the records of an actor's scope, the current ones are those of the owner's listing. -/
theorem isListableMemory_eq {record : MemoryRecord} {scope : DurableMemoryScope} {actorId : ScopeId}
    {nowMs : ℤ} (htype : record.type = .LONG_TERM) (hscope : sameScope record scope = true)
    (hactor : scope.actorId = some actorId) :
    isListableMemory runtime record actorId nowMs = isCurrent runtime record nowMs := by
  simp only [sameScope, Bool.and_eq_true, decide_eq_true_eq] at hscope
  obtain ⟨⟨⟨⟨⟨-, -⟩, huser⟩, hchannel⟩, hthread⟩, htask⟩ := hscope
  rw [hactor] at huser
  have hdurable : durableScopeOfRecord record ≠ none := by
    simp [durableScopeOfRecord, hchannel, hthread, htask, huser]
  unfold isListableMemory isCurrent
  rw [if_neg (by simp [htype, huser]), if_neg hdurable]
  cases metadataText record "supersededBy" with
  | some id => simp
  | none => cases isArchivedMemory record <;> simp

theorem stillHad_of_found {record : MemoryRecord} (h : Found runtime world candidate record)
    (hcurrent : isCurrent runtime record world.clock.1 = true) :
    stillHad runtime world candidate = true := by
  unfold stillHad
  rw [List.any_eq_true]
  refine ⟨record, h.stored, ?_⟩
  simp [h.durable, h.scope, h.provenance, h.content, hcurrent]

theorem honest_iff : Honest runtime world candidate ↔ Retakable runtime world candidate := by
  unfold Honest Retakable
  have hiff : (promote runtime candidate).Lands world _ := promote_isDuplicate_iff
  constructor
  · intro hhonest hrejection hfault record hfound _
    obtain ⟨hduplicate, hafter⟩ := hiff
    have hanswer := hduplicate.mpr ⟨hrejection, hfault, record, hfound⟩
    have hstill := hhonest hanswer
    rw [hafter hanswer] at hstill
    exact hstill
  · intro hretakable
    refine hiff.mono fun result after ⟨hduplicate, hafter⟩ hanswer => ?_
    obtain ⟨hrejection, hfault, record, hfound⟩ := hduplicate.mp hanswer
    rw [hafter hanswer]
    show stillHad runtime world candidate = true
    cases hcurrent : isCurrent runtime record world.clock.1 with
    | true => exact stillHad_of_found hfound hcurrent
    | false => exact hretakable hrejection hfault record hfound hcurrent

/-! ## Runs -/

/-- What happens to the store between two moments. -/
inductive Action where
  | promote (candidate : MemoryCandidate)
  | edit (request : MemoryCommandRequest) (record : MemoryRecord) (text sourceText : JsString)
  | forget (request : MemoryCommandRequest) (record : MemoryRecord)
  | restore (actorId : ScopeId) (record : MemoryRecord)
  | purge (actorId : ScopeId) (record : MemoryRecord)
  | clock (now : Instant)

section
variable (runtime : Runtime) (deps : MemoryCommandServiceDeps)

/-- The candidate that an action promotes. -/
def Action.promotes : Action → Option MemoryCandidate
  | .promote candidate => some candidate
  | .edit _ record text sourceText =>
    (editInput record text sourceText).bind fun input => (createMemoryCandidate input).toOption
  | _ => none

/-- The world after an action, whatever the action answers or throws. -/
def Action.next (world : World) : Action → World
  | .promote candidate => ((Memories.promote runtime candidate).runFrom world).2
  | .edit request record text sourceText =>
    ((executeEdit runtime deps request record text sourceText).runFrom world).2
  | .forget request record => ((executeForget runtime deps request record).runFrom world).2
  | .restore actorId record => ((executeRestore actorId record).runFrom world).2
  | .purge actorId record => ((executePurge actorId record).runFrom world).2
  | .clock now => { world with clock := now }

/-- The promotions of a run, each with the world that it starts in. -/
def promotions : World → List Action → List (World × MemoryCandidate)
  | _, [] => []
  | world, action :: rest =>
    (action.promotes.toList.map fun candidate => (world, candidate)) ++
      promotions (action.next runtime deps world) rest

end

/-- An edit is refused as a duplicate when its promotion is. -/
theorem executeEdit_editDuplicate {deps : MemoryCommandServiceDeps} {request : MemoryCommandRequest}
    {record : MemoryRecord} {text sourceText : JsString}
    (h : (Action.edit request record text sourceText).promotes = some candidate) :
    (executeEdit runtime deps request record text sourceText).Lands world fun result _ =>
      (result = .ok .editDuplicate ↔
        (promote runtime candidate).Lands world fun result _ => IsDuplicate result) := by
  unfold executeEdit
  obtain ⟨input, hinput, hcandidate⟩ := Option.bind_eq_some_iff.mp h
  rw [hinput]
  dsimp only
  cases hcreated : createMemoryCandidate input with
  | error error =>
    rw [hcreated] at hcandidate
    cases hcandidate
  | ok created =>
    rw [hcreated] at hcandidate
    cases hcandidate
    dsimp only
    rw [lands_bind, lands_tryCatch, lands_map]
    show (promote runtime candidate).Lands world _
    have hrun : (promote runtime candidate).Lands world fun result _ =>
        (IsDuplicate result ↔ IsDuplicate ((promote runtime candidate).runFrom world).1) := Iff.rfl
    refine hrun.mono fun result after hresult => ?_
    have hnot : ∀ {outcome : Except MemoryError MemoryCommandOutcome},
        outcome ≠ .ok .editDuplicate → ¬ IsDuplicate result →
          (outcome = .ok .editDuplicate ↔
            (promote runtime candidate).Lands world fun result _ => IsDuplicate result) :=
      fun houtcome hanswer => iff_of_false houtcome fun h => hanswer (hresult.mpr h)
    cases result with
    | error error =>
      have hanswer : ¬ IsDuplicate (.error error) := by
        rintro ⟨id, reason, h⟩
        cases h
      cases error with
      | store => exact hnot nofun hanswer
      | persistence operation => exact hnot nofun hanswer
      | archiveStateChanged => exact hnot nofun hanswer
      | validation message => exact hnot nofun hanswer
    | ok decision =>
      cases decision with
      | duplicate id reason => exact iff_of_true rfl (hresult.mp ⟨id, reason, rfl⟩)
      | rejected reason =>
        have hanswer : ¬ IsDuplicate (.ok (.rejected reason)) := by
          rintro ⟨id, reason, h⟩
          cases h
        rw [andThen_ok, lands_pure, orElse_ok, andThen_ok]
        dsimp only
        split
        · exact hnot nofun hanswer
        · exact hnot nofun hanswer
      | promoted memory reason =>
        have hanswer : ¬ IsDuplicate (.ok (.promoted memory reason)) := by
          rintro ⟨id, reason, h⟩
          cases h
        rw [andThen_ok, lands_pure, orElse_ok, andThen_ok]
        dsimp only
        rw [lands_bind]
        refine Lands.mono (Q := fun _ _ => True) trivial fun cleanup _ _ => ?_
        cases cleanup with
        | error error => exact hnot nofun hanswer
        | ok cleanup => exact hnot nofun hanswer
      | superseding memory id reason =>
        have hanswer : ¬ IsDuplicate (.ok (.superseding memory id reason)) := by
          rintro ⟨id, reason, h⟩
          cases h
        rw [andThen_ok, lands_pure, orElse_ok, andThen_ok]
        dsimp only
        rw [lands_bind]
        refine Lands.mono (Q := fun _ _ => True) trivial fun cleanup _ _ => ?_
        cases cleanup with
        | error error => exact hnot nofun hanswer
        | ok cleanup => exact hnot nofun hanswer

/-- In every run, the promotions are honest and leave nothing behind when they throw after one
failed call exactly where each finds no superseded or expired record that the owner has lost. -/
theorem promotions_honest_iff (deps : MemoryCommandServiceDeps) (start : World)
    (actions : List Action) :
    (∀ promotion ∈ promotions runtime deps start actions,
      Honest runtime promotion.1 promotion.2 ∧
        (promote runtime promotion.2).Lands promotion.1 (Undone promotion.1)) ↔
      ∀ promotion ∈ promotions runtime deps start actions,
        Retakable runtime promotion.1 promotion.2 := by
  refine forall_congr' fun promotion => forall_congr' fun _ => ?_
  rw [honest_iff]
  exact and_iff_left promote_undone

/-! ## An edit that cannot be taken back -/

/-- A text longer than all the used ones together is none of them. -/
theorem longer_not_mem (used : List Id) :
    (List.replicate ((used.map (·.length)).sum + 1) 97 : Id) ∉ used := by
  intro h
  have hlength := List.single_le_sum (fun length _ => Nat.zero_le length) _
    (List.mem_map_of_mem (f := fun id : Id => id.length) h)
  rw [List.length_replicate] at hlength
  omega

theorem trim_longer_ne_nil (used : List Id) :
    trim (List.replicate ((used.map (·.length)).sum + 1) 97) ≠ [] := by
  rw [List.replicate_succ, Ne, trim_eq_nil_iff]
  intro h
  have hwhite := h 97 List.mem_cons_self
  exact absurd hwhite (by decide)

/-- A platform whose clock reads the epoch; other times are written in unary. -/
def plainRuntime : Runtime where
  toLowerCase text := text.map fun unit => if 65 ≤ unit ∧ unit ≤ 90 then unit + 32 else unit
  parse
    | 43 :: rest => some rest.length
    | 45 :: rest => some (-rest.length)
    | text => if text = units "1970-01-01T00:00:00.000Z" then some 0 else none
  toIso t :=
    if t = 0 then units "1970-01-01T00:00:00.000Z"
    else if 0 ≤ t then 43 :: List.replicate t.toNat 49
    else 45 :: List.replicate (-t).toNat 49
  parse_toIso now := by
    by_cases hzero : now.1 = 0
    · rw [if_pos hzero, hzero]
      decide +kernel
    · rw [if_neg hzero]
      by_cases hpos : 0 ≤ now.1
      · rw [if_pos hpos]
        simp [hpos]
      · have hlength : -((List.replicate (-now.1).toNat (49 : CodeUnit)).length : ℤ) = now.1 := by
          rw [List.length_replicate]
          omega
        rw [if_neg hpos]
        exact congrArg some hlength
  isCredentialLikeMemoryText _ := false
  containsCredentialFileContent _ := false
  newId used := List.replicate ((used.map (·.length)).sum + 1) 97
  fresh := longer_not_mem
  newId_text := trim_longer_ne_nil

def noCascades : MemoryCommandServiceDeps :=
  { cascades := [], archiveDays := 0, sessionHistory := false }

def emptyWorld : World :=
  { table := ⟨[], List.nodup_nil⟩, clock := ⟨0, by decide⟩, faults := fun _ => .none
    calls := 0, trace := [] }

def owner : ScopeId := ⟨units "u", by decide⟩

def ownerRequest : MemoryCommandRequest :=
  { actorId := owner, now := ⟨0, by decide⟩, sessionId := none }

/-- The owner's memory of a text. -/
def remember (text : JsString) (metadata : Metadata) : MemoryCandidate :=
  { content := text, sourceContent := text, trigger := units "EXPLICIT_USER_INSTRUCTION"
    kind := units "SEMANTIC", provenance := units "USER_PROVIDED"
    authorityLevel := units "USER_CLAIM_OR_INTENT", scope := { actorId := some owner }
    metadata := metadata, validationState := units "PENDING" }

/-- A memory, an edit of it, and an edit back. -/
def editedBack : List Action :=
  let epoch := plainRuntime.toIso 0
  let tea := newRecord (remember (units "tea") fun _ => none) [97] epoch
  let superseding := Function.update (fun _ => none) "supersedesMemoryId" (some (.text [97]))
  let editedBy := Function.update superseding "editedBy" (some (.text (units "memory-command")))
  let coffee := newRecord (remember (units "coffee") editedBy) [97, 97] epoch
  [.promote (remember (units "tea") fun _ => none),
   .edit ownerRequest tea (units "coffee") (units "coffee"),
   .edit ownerRequest coffee (units "tea") (units "tea")]

/-- A promotion that is refused for a memory that the owner has lost. -/
def refusedForLost (promotion : World × MemoryCandidate) : Bool :=
  let (result, after) := (promote plainRuntime promotion.2).runFrom promotion.1
  (match result with
    | .ok (.duplicate _ _) => true
    | _ => false) && !stillHad plainRuntime after promotion.2

/-- Some promotion of the run is refused for a memory that the owner has lost. -/
theorem edit_back_refused :
    ¬ ∀ (runtime : Runtime) (deps : MemoryCommandServiceDeps) (start : World)
      (actions : List Action), ∀ promotion ∈ promotions runtime deps start actions,
        Honest runtime promotion.1 promotion.2 ∧
          (promote runtime promotion.2).Lands promotion.1 (Undone promotion.1) := by
  intro h
  have hrun : (promotions plainRuntime noCascades emptyWorld editedBack).any refusedForLost = true := by
    decide +kernel
  obtain ⟨promotion, hpromotion, hanswer⟩ := List.any_eq_true.mp hrun
  rw [refusedForLost, Bool.and_eq_true, Bool.not_eq_true'] at hanswer
  have hhonest := (h plainRuntime noCascades emptyWorld editedBack promotion hpromotion).1
  have hduplicate : IsDuplicate ((promote plainRuntime promotion.2).runFrom promotion.1).1 := by
    revert hanswer
    split
    · rename_i id reason hresult
      exact fun _ => ⟨id, reason, hresult⟩
    · exact fun hanswer => absurd hanswer.1 (by decide)
  rw [hhonest hduplicate] at hanswer
  exact absurd hanswer.2 (by decide)

end QuokyPlatform.Memories
