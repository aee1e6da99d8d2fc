import QuokyPlatform.Memories.Chains

/-!
# A forget is complete, or can be repeated

Derived data goes first, then the versions, each after those it superseded, and the record last. So
whatever fails before the record, the record is still listed, and a second forget finds what is left
of its chain. A restore and a permanent delete go through the chain in the same order.
-/

namespace QuokyPlatform.Memories
open Chunking Script
set_option autoImplicit false
set_option maxHeartbeats 250000

variable {runtime : Runtime} {deps : MemoryCommandServiceDeps} {request : MemoryCommandRequest}
  {actorId : ScopeId} {record version : MemoryRecord} {world after : World}

/-! ## Derived data -/

/-- What the cascades and the clearing of the session do when none fails. -/
def derivedEffects (deps : MemoryCommandServiceDeps) (request : MemoryCommandRequest)
    (event : MemoryRemovalEvent) : List Effect :=
  deps.cascades.map (Effect.cascade · event) ++
    if deps.sessionHistory && request.sessionId.isSome then [.cleared] else []

/-- Calls that keep no memory ran: all of them when it is so said. -/
structure Called (effects ran : List Effect) (complete : Bool) (world after : World) : Prop
    extends Later world after where
  table : after.table = world.table
  trace : after.trace = world.trace ++ ran
  whole : complete = true → ran = effects
  faultless : NoFaults world → complete = true

theorem runCascades_lands {event : MemoryRemovalEvent} {names : List String} :
    (runCascades event names).Lands world fun result after =>
      ∃ ran, Called (names.map (Effect.cascade · event)) ran result.isOk world after := by
  induction names generalizing world with
  | nil => exact ⟨[], Later.refl, rfl, (List.append_nil _).symm, fun _ => rfl, fun _ => rfl⟩
  | cons name rest ih =>
    rw [runCascades, lands_bind, lands_callOut]
    split
    · rw [andThen_ok]
      refine ih.mono fun result after hrest => ?_
      obtain ⟨ran, hran⟩ := hrest
      have hfirst : Later world { world.called with
          trace := world.trace ++ [.cascade name event] } := ⟨rfl, Nat.le_succ _⟩
      refine ⟨.cascade name event :: ran, hfirst.trans hran.toLater, hran.table, ?_, fun h => ?_,
        fun h => hran.faultless (h.later hfirst)⟩
      · rw [hran.trace]
        exact List.append_assoc _ _ _
      · rw [hran.whole h, List.map_cons]
    · rename_i hfault
      exact ⟨[], ⟨rfl, Nat.le_succ _⟩, rfl, (List.append_nil _).symm, Bool.noConfusion,
        fun h => absurd (h _ le_rfl) hfault⟩

/-- The cascades and the clearing of the session; none when one throws. -/
def removeDerived (deps : MemoryCommandServiceDeps) (request : MemoryCommandRequest)
    (event : MemoryRemovalEvent) : Task (Option Bool) :=
  tryCatch (do
    runCascades event deps.cascades
    some <$> clearSessionHistory deps request) fun _ => return none

theorem removeDerived_lands {event : MemoryRemovalEvent} :
    (removeDerived deps request event).Lands world fun result after =>
      ∃ cleared ran, result = .ok cleared ∧
        Called (derivedEffects deps request event) ran cleared.isSome world after := by
  unfold removeDerived
  rw [lands_tryCatch, lands_bind]
  refine runCascades_lands.mono fun result middle hcascades => ?_
  obtain ⟨ran, hran⟩ := hcascades
  cases result with
  | error error =>
    exact ⟨none, ran, rfl, hran.toLater, hran.table, hran.trace, Bool.noConfusion,
      fun h => hran.faultless h⟩
  | ok value =>
    rw [andThen_ok, lands_map, clearSessionHistory]
    have hclear : derivedEffects deps request event =
        deps.cascades.map (Effect.cascade · event) ++
          if !deps.sessionHistory || request.sessionId.isNone then [] else [.cleared] := by
      unfold derivedEffects
      cases deps.sessionHistory <;> cases request.sessionId <;> rfl
    split
    · rename_i hskip
      rw [lands_pure]
      refine ⟨some false, ran, rfl, hran.toLater, hran.table, hran.trace, fun _ => ?_, fun _ => rfl⟩
      rw [hran.whole rfl, hclear, if_pos hskip, List.append_nil]
    · rename_i hskip
      rw [lands_bind, lands_callOut]
      split
      · refine ⟨some true, ran ++ [.cleared], rfl,
          ⟨hran.faults, hran.calls.trans (Nat.le_succ _)⟩, hran.table, ?_, fun _ => ?_, fun _ => rfl⟩
        · show middle.trace ++ [.cleared] = _
          rw [hran.trace, List.append_assoc]
        · rw [hran.whole rfl, hclear, if_neg hskip]
      · rename_i hfault
        refine ⟨none, ran, rfl, ⟨hran.faults, hran.calls.trans (Nat.le_succ _)⟩, hran.table,
          hran.trace, Bool.noConfusion, fun h => ?_⟩
        exact absurd (h.later hran.toLater _ le_rfl) hfault

/-! ## Forgetting -/

/-- How a chain is removed: one credential-like version keeps all of it out of the archive. -/
def forgetMode (runtime : Runtime) (deps : MemoryCommandServiceDeps)
    (request : MemoryCommandRequest) (chain : List MemoryRecord) : Removal :=
  let sensitive := chain.any fun version => isStrictCredentialMemoryText runtime version.content
  if decide (0 < deps.archiveDays) && !sensitive then
    some (runtime.toIso request.now.1,
      runtime.toIso (request.now.1 + deps.archiveDays * DAY_MS))
  else none

/-- A forget, with the earlier versions read. -/
def forgetChain (runtime : Runtime) (deps : MemoryCommandServiceDeps)
    (request : MemoryCommandRequest) (record : MemoryRecord) (history : List MemoryRecord) :
    Task MemoryCommandOutcome := do
  let mode := forgetMode runtime deps request (record :: history)
  let sensitive := (record :: history).any fun version =>
    isStrictCredentialMemoryText runtime version.content
  match ← removeDerived deps request
      (removalEvent request.actorId .forget (record :: history)) with
  | none => return .forgetIncomplete 0 .kept
  | some sessionCleared =>
    match ← removeVersions (removeOne mode request.actorId) history.reverse 0 with
    | (removed, false) => return .forgetIncomplete removed .kept
    | (removed, true) =>
      if ← removeOne mode request.actorId record then
        return .forgotten removed mode.isSome sensitive sessionCleared
      else return .forgetIncomplete removed (if mode.isSome then .kept else .unknown)

theorem executeForget_eq : executeForget runtime deps request record =
    earlierVersions request.actorId record >>= forgetChain runtime deps request record := by
  unfold executeForget
  refine bind_congr fun history => ?_
  unfold forgetChain forgetMode
  simp +zeta +zetaHave only []
  rcases Bool.eq_false_or_eq_true (decide (0 < deps.archiveDays) && !(record :: history).any
    fun version => isStrictCredentialMemoryText runtime version.content) with harchive | harchive
  · simp only [harchive, ↓reduceIte]
    rfl
  · simp only [harchive, ↓reduceIte, Bool.false_eq_true]
    rfl

theorem targets_all {table : MemoryTable} : targets (fun _ => true) table actorId record =
    (storedVersions table actorId record).reverse ++ [record] := by
  rw [targets, List.filter_true]

theorem record_not_mem {done : List MemoryRecord}
    (h : done <+: (storedVersions world.table actorId record).reverse) : record ∉ done := by
  intro hmem
  have hsound : LinkClosure.Sound (·.id) (chainLink actorId record) record.id _
      (storedVersions world.table actorId record) := storedVersions_sound
  exact (hsound.leads record (List.mem_reverse.mp (h.subset hmem))).ne_root rfl

/-- The versions are removed in turn and then the record; what is made of it is left open. -/
theorem removeTargets_lands {α : Type} {start : World} (mode : Removal) (onVersion : ℕ → α)
    (onRecord : ℕ → Bool → α) (hroot : Root actorId record world.table)
    (htable : start.table = world.table) :
    Lands (do
      match ← removeVersions (removeOne mode actorId)
          (storedVersions world.table actorId record).reverse 0 with
      | (removed, false) => return onVersion removed
      | (removed, true) =>
        if ← removeOne mode actorId record then return onRecord removed true
        else return onRecord removed false : Task α) start fun result after =>
      ∃ done, Changed (removedRow mode) (removalEffects mode) done start after ∧
        done <+: targets (fun _ => true) world.table actorId record ∧
        ((∃ removed, result = .ok (onVersion removed) ∧ record ∉ done ∧ ¬ NoFaults start) ∨
          ∃ removed gone, result = .ok (onRecord removed gone) ∧
            (gone = true → done = targets (fun _ => true) world.table actorId record) ∧
            (gone = false → (mode ≠ none → record ∉ done) ∧ ¬ NoFaults start)) := by
  obtain ⟨scope, hscope, hrecord⟩ := hroot.inChain_owned (.inl rfl)
  have howned : ∀ target ∈ (storedVersions world.table actorId record).reverse,
      Owned actorId scope target ∧ target ∈ start.table.rows := by
    intro target htarget
    have hchain : InChain world.table actorId record target :=
      .inr ((mem_storedVersions hroot.room).mp (List.mem_reverse.mp htarget))
    obtain ⟨other, hother, howned⟩ := hroot.inChain_owned hchain
    have hsame : other = scope := Option.some.inj (hother.symm.trans hscope)
    exact ⟨hsame ▸ howned, htable ▸ hroot.inChain_stored hchain⟩
  have hdistinct : ((storedVersions world.table actorId record).reverse ++ [record]).map (·.id)
      |>.Nodup := by
    rw [← targets_all]
    exact targets_distinct
  rw [List.map_append] at hdistinct
  rw [lands_bind, targets_all]
  refine (removeVersions_lands (fun target h => (howned target h).1)
    (fun target h => (howned target h).2) hdistinct.of_append_left).mono fun result middle hran => ?_
  obtain ⟨count, complete, done, rfl, hran⟩ := hran
  rw [andThen_ok]
  cases complete with
  | false =>
    refine ⟨done, hran.toChanged, hran.started.trans (List.prefix_append _ _), .inl ⟨count, rfl,
      record_not_mem hran.started, fun h => ?_⟩⟩
    exact absurd (hran.faultless h) Bool.false_ne_true
  | true =>
    have hdone := hran.whole rfl
    have hdisjoint := List.disjoint_of_nodup_append hdistinct
    have hstored : record ∈ middle.table.rows := by
      refine hran.toChanged.mem (htable ▸ hroot.stored) fun hid => ?_
      rw [hdone] at hid
      exact hdisjoint hid List.mem_cons_self
    dsimp only
    rw [lands_bind]
    refine (removeOne_lands hrecord hstored).mono fun result after hone => ?_
    obtain ⟨gone, rfl, hfaultless, hchanged⟩ := hone
    have hanswer : (if gone = true then pure (onRecord count true)
        else pure (onRecord count false) : Task α) = pure (onRecord count gone) := by
      cases gone
      · rfl
      · rfl
    rw [andThen_ok, hanswer, lands_pure]
    have hfault : gone = false → ¬ NoFaults start := by
      intro hgone h
      rw [hfaultless (h.later hran.toLater)] at hgone
      exact Bool.noConfusion hgone
    rw [← hdone] at hdisjoint ⊢
    rcases hchanged with ⟨hchanged, hmode⟩ | ⟨hchanged, rfl⟩
    · refine ⟨done ++ [record],
        hran.toChanged.append (fun _ _ => removedRow_id) hdisjoint hchanged, List.prefix_refl _,
        .inr ⟨count, gone, rfl, fun _ => rfl, fun h => ⟨fun h' => absurd (hmode h) h', hfault h⟩⟩⟩
    · refine ⟨done ++ [], hran.toChanged.append (fun _ _ => removedRow_id) (by simp) hchanged,
        (List.prefix_append_right_inj done).mpr List.nil_prefix, .inr ⟨count, false, rfl,
          Bool.noConfusion, fun h => ⟨fun _ => ?_, hfault h⟩⟩⟩
      rw [List.append_nil]
      exact record_not_mem hran.started

/-- The forget says that it is done. -/
def IsForgotten (result : Except MemoryError MemoryCommandOutcome) : Prop :=
  ∃ removed archived sensitive cleared, result = .ok (.forgotten removed archived sensitive cleared)

/-- The forget cannot say whether the record itself was deleted. -/
def IsUnknown (result : Except MemoryError MemoryCommandOutcome) : Prop :=
  ∃ removed, result = .ok (.forgetIncomplete removed .unknown)

/-- The record and its earlier versions, as the forget finds them. -/
def storedChain (table : MemoryTable) (actorId : ScopeId) (record : MemoryRecord) :
    List MemoryRecord :=
  record :: storedVersions table actorId record

/-- Where a forget ends, with what it did to derived data and the versions it removed. -/
structure ForgetEnds (runtime : Runtime) (deps : MemoryCommandServiceDeps)
    (request : MemoryCommandRequest) (record : MemoryRecord) (mode : Removal) (world : World)
    (result : Except MemoryError MemoryCommandOutcome) (after : World) (derived : List Effect)
    (done : List MemoryRecord) : Prop extends Later world after where
  walked : Walked (removedRow mode) (removalEffects mode) (fun _ => true) request.actorId record
    world after derived done
  derivedFirst : done ≠ [] ∨ IsForgotten result → derived = derivedEffects deps request
    (removalEvent request.actorId .forget (storedChain world.table request.actorId record))
  whole : IsForgotten result → done = targets (fun _ => true) world.table request.actorId record
  kept : ¬ IsForgotten result → ¬ IsUnknown result → record ∉ done
  unknown : IsUnknown result → mode = none
  faultless : NoFaults world → IsForgotten result

theorem executeForget_ends (hroot : Root request.actorId record world.table) :
    (executeForget runtime deps request record).Lands world fun result after =>
      ∃ derived done, ForgetEnds runtime deps request record
        (forgetMode runtime deps request (storedChain world.table request.actorId record)) world
        result after derived done := by
  have hincomplete : ∀ {removed : ℕ} {current : Current},
      ¬ IsForgotten (.ok (.forgetIncomplete removed current)) := by
    rintro removed current ⟨_, _, _, _, h⟩
    cases h
  have hkept : ∀ {removed : ℕ}, ¬ IsUnknown (.ok (.forgetIncomplete removed .kept)) := by
    rintro removed ⟨_, h⟩
    cases h
  have hempty : ∀ {derived : List Effect} {after : World}, after.table = world.table →
      after.trace = world.trace ++ derived →
      ∀ mode, Walked (removedRow mode) (removalEffects mode) (fun _ => true) request.actorId record
        world after derived [] := by
    intro derived after htable htrace mode
    refine hroot.walked List.nil_prefix (by simpa using htrace) ?_
    rw [htable]
    exact changeRows_nil.symm
  rw [executeForget_eq, lands_bind, lands_earlierVersions]
  split
  · rw [andThen_ok, forgetChain, lands_bind]
    refine removeDerived_lands.mono fun result middle hderived => ?_
    obtain ⟨cleared, derived, rfl, hcalled⟩ := hderived
    have hlater : Later world middle := ⟨hcalled.faults, (Nat.le_succ _).trans hcalled.calls⟩
    rw [andThen_ok]
    cases cleared with
    | none =>
      refine ⟨derived, [], hlater, hempty hcalled.table hcalled.trace _, fun h => ?_,
        fun h => absurd h hincomplete, fun _ _ => List.not_mem_nil, fun h => absurd h hkept,
        fun h => ?_⟩
      · exact absurd h (not_or.mpr ⟨fun h => h rfl, hincomplete⟩)
      · exact absurd (hcalled.faultless fun n hn => h n ((Nat.le_succ _).trans hn)) (by decide)
    | some sessionCleared =>
      let mode := forgetMode runtime deps request (storedChain world.table request.actorId record)
      let sensitive := (storedChain world.table request.actorId record).any fun version =>
        isStrictCredentialMemoryText runtime version.content
      have hremoved := removeTargets_lands mode
        (fun removed => MemoryCommandOutcome.forgetIncomplete removed .kept)
        (fun removed gone =>
          if gone then MemoryCommandOutcome.forgotten removed mode.isSome sensitive sessionCleared
          else .forgetIncomplete removed (if mode.isSome then .kept else .unknown))
        hroot hcalled.table
      refine Lands.mono hremoved fun result after hremoved => ?_
      obtain ⟨done, hchanged, hstarted, hend⟩ := hremoved
      have hwalked : Walked (removedRow mode) (removalEffects mode) (fun _ => true) request.actorId
          record world after derived done := by
        refine hroot.walked hstarted ?_ ?_
        · rw [hchanged.trace, hcalled.trace]
          rfl
        · rw [hchanged.rows, hcalled.table]
          rfl
      have hfault : NoFaults world → NoFaults middle := fun h => h.later hlater
      have hderived : derived = derivedEffects deps request _ := hcalled.whole rfl
      rcases hend with ⟨removed, rfl, hnot, hfaulty⟩ | ⟨removed, gone, rfl, hall, hnone⟩
      · exact ⟨derived, done, hlater.trans hchanged.toLater, hwalked, fun _ => hderived,
          fun h => absurd h hincomplete, fun _ _ => hnot, fun h => absurd h hkept,
          fun h => absurd (hfault h) hfaulty⟩
      · cases gone with
        | true =>
          have hforgotten : IsForgotten (.ok (.forgotten removed mode.isSome sensitive
              sessionCleared)) := ⟨_, _, _, _, rfl⟩
          refine ⟨derived, done, hlater.trans hchanged.toLater, hwalked, fun _ => hderived,
            fun _ => hall rfl, fun h => absurd hforgotten h, ?_, fun _ => hforgotten⟩
          rintro ⟨_, h⟩
          cases h
        | false =>
          obtain ⟨hmode, hfaulty⟩ := hnone rfl
          refine ⟨derived, done, hlater.trans hchanged.toLater, hwalked, fun _ => hderived,
            fun h => absurd h hincomplete, fun _ hknown => hmode fun hdelete => ?_, fun h => ?_,
            fun h => absurd (hfault h) hfaulty⟩
          · refine hknown ⟨removed, ?_⟩
            rw [hdelete]
            rfl
          · by_contra hsome
            obtain ⟨keys, hkeys⟩ := Option.ne_none_iff_exists'.mp hsome
            obtain ⟨_, h⟩ := h
            rw [show mode = some keys from hkeys] at h
            cases h
  · rename_i hfault
    have hnot : ¬ IsForgotten (.error .store) := by
      rintro ⟨_, _, _, _, h⟩
      cases h
    have hknown : ¬ IsUnknown (.error .store) := by
      rintro ⟨_, h⟩
      cases h
    exact ⟨[], [], ⟨rfl, Nat.le_succ _⟩, @hempty [] world.called rfl (List.append_nil _).symm _,
      fun h => absurd h (not_or.mpr ⟨fun h => h rfl, hnot⟩), fun h => absurd h hnot,
      fun _ _ => List.not_mem_nil, fun h => absurd h hknown, fun h => absurd (h _ le_rfl) hfault⟩

end QuokyPlatform.Memories
