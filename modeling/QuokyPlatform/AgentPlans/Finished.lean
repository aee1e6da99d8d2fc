import QuokyPlatform.AgentPlans.Checked

/-! # What the last touches keep

A plan that passed its checks is given the flags its clauses state, and its summaries are placed. Both
leave the rules standing. -/

namespace QuokyPlatform.AgentPlans
open AgentRuns (NlWave1EntryId AGENT_READ_SOURCES AgentSummarySchemaId AgentPlanKind)

set_option autoImplicit false
set_option maxHeartbeats 250000

section transfer

variable {steps others : List ValidatedAgentStep} {offered : String → Option NlCatalogEntry}
  {brief : Option ℕ}

theorem takenBy_eq : ∀ steps : List ValidatedAgentStep, takenBy steps =
    ((validatedReads steps).map fun read => (read.ref.map ValidatedRef.take).getD 0).sum
  | [] => rfl
  | .read read :: rest => by
    show (read.ref.map ValidatedRef.take).getD 0 + takenBy rest = _
    rw [takenBy_eq rest]
    rfl
  | .summarize summary :: rest => by
    show 0 + takenBy rest = _
    rw [takenBy_eq rest, Nat.zero_add]
    rfl

/-- The bounds of a plan are bounds on its reads, but for their arguments and numbers. -/
theorem WithinBounds.of_reads (h : WithinBounds offered brief steps) {f : ValidatedRead → ValidatedRead}
    (hentry : ∀ read, (f read).entry = read.entry)
    (htake : ∀ read, (f read).ref.map ValidatedRef.take = read.ref.map ValidatedRef.take)
    (hlength : others.length = steps.length)
    (hreads : validatedReads others = (validatedReads steps).map f) :
    WithinBounds offered brief others := by
  have hsome : ∀ read, (f read).ref.isSome = read.ref.isSome := by
    intro read
    rw [← Option.isSome_map (f := ValidatedRef.take), htake, Option.isSome_map]
  have hcharge : ∀ read, (f read).charge brief = read.charge brief := by
    intro read
    rw [ValidatedRead.charge, ValidatedRead.charge, hentry, hsome]
  refine ⟨by rw [hlength]; exact h.size, ?_, ?_, ?_, ?_, ?_, ?_, ?_, ?_⟩
  · rw [hreads, List.length_map]
    exact h.some_read
  · rw [hreads, List.length_map]
    exact h.reads
  · rw [hreads, List.length_map, hlength]
    exact h.summaries
  · intro read hread
    rw [hreads] at hread
    obtain ⟨old, hold, rfl⟩ := List.mem_map.mp hread
    rw [hentry]
    exact h.entry old hold
  · intro hlong read hread
    rw [hreads] at hread
    obtain ⟨old, hold, rfl⟩ := List.mem_map.mp hread
    rw [hentry]
    exact h.alone (by rw [← hlength]; exact hlong) old hold
  · rw [hreads, List.countP_map]
    refine le_trans (le_of_eq (List.countP_congr fun read _ => ?_)) h.brief
    simp only [Function.comp_apply, hentry]
  · rw [takenBy_eq, hreads, List.map_map]
    have := h.taken
    rw [takenBy_eq] at this
    refine le_trans (le_of_eq ?_) this
    congr 1
    refine List.map_congr_left fun read _ => ?_
    rw [Function.comp_apply, htake]
  · rw [agentPlanConnectorCharge, hreads, List.map_map]
    refine le_trans (le_of_eq ?_) h.charge
    rw [agentPlanConnectorCharge]
    congr 1
    exact List.map_congr_left fun read _ => hcharge read

def ValidatedAgentStep.withArgs (args : ValidatedRead → NlArgs) : ValidatedAgentStep → ValidatedAgentStep
  | .read step => .read { step with args := args step }
  | .summarize step => .summarize step

theorem withClauseGroundedFlags_eq (text : OwnerText) (steps : List ValidatedAgentStep) :
    ∃ args, withClauseGroundedFlags text steps = steps.map (ValidatedAgentStep.withArgs args) := by
  refine ⟨fun read => if read.ref.isSome then read.args else text.clauseGroundedArgs steps read, ?_⟩
  refine List.map_congr_left fun step _ => ?_
  cases step with
  | summarize summary => rfl
  | read read =>
    obtain ⟨entry, args, range, ref⟩ := read
    cases ref <;> rfl

variable {args : ValidatedRead → NlArgs}

theorem stepAt_map {α β : Type*} (f : α → β) (steps : List α) (number : ℕ) :
    stepAt (steps.map f) number = (stepAt steps number).map f := by
  unfold stepAt
  split
  · rfl
  · rw [List.getElem?_map]

theorem validatedReads_withArgs : ∀ steps : List ValidatedAgentStep,
    validatedReads (steps.map (ValidatedAgentStep.withArgs args)) =
      (validatedReads steps).map fun read => { read with args := args read }
  | [] => rfl
  | .read _ :: rest => congrArg _ (validatedReads_withArgs rest)
  | .summarize _ :: rest => validatedReads_withArgs rest

theorem WithinBounds.withArgs (h : WithinBounds offered brief steps) :
    WithinBounds offered brief (steps.map (ValidatedAgentStep.withArgs args)) :=
  h.of_reads (f := fun read => { read with args := args read }) (fun _ => rfl) (fun _ => rfl)
    (List.length_map _) (validatedReads_withArgs steps)

theorem Linked.withArgs (h : Linked steps) :
    Linked (steps.map (ValidatedAgentStep.withArgs args)) := by
  have hold : ∀ number step, stepAt (steps.map (ValidatedAgentStep.withArgs args)) number = some step →
      ∃ old, stepAt steps number = some old ∧ step = old.withArgs args := by
    intro number step hstep
    rw [stepAt_map] at hstep
    obtain ⟨old, hat, rfl⟩ := Option.map_eq_some_iff.mp hstep
    exact ⟨old, hat, rfl⟩
  have hnew : ∀ number old, stepAt steps number = some old →
      stepAt (steps.map (ValidatedAgentStep.withArgs args)) number = some (old.withArgs args) := by
    intro number old hat
    rw [stepAt_map, hat]
    rfl
  constructor
  · intro number read ref hread href
    obtain ⟨old, hat, hsame⟩ := hold number _ hread
    cases old with
    | summarize summary => cases hsame
    | read old =>
      cases hsame
      obtain ⟨hlt, ⟨source, hsource, hid⟩, hbound, hfield, hposition⟩ := h.ref number old ref hat href
      refine ⟨hlt, ⟨_, hnew _ _ hsource, hid⟩, hbound, hfield, fun position hsome => ?_⟩
      obtain ⟨htake, hle, hitem, later, summary, hlater, hcovers, hmem⟩ := hposition position hsome
      exact ⟨htake, hle, hitem, later, summary, hlater, hnew _ _ hcovers, hmem⟩
  · intro number summary hsummary
    obtain ⟨old, hat, hsame⟩ := hold number _ hsummary
    cases old with
    | read read => cases hsame
    | summarize old =>
      cases hsame
      obtain ⟨hne, hnodup, hcovers⟩ := h.summary number summary hat
      refine ⟨hne, hnodup, fun source hsource => ?_⟩
      obtain ⟨hlt, read, hread, hbrief⟩ := hcovers source hsource
      exact ⟨hlt, _, hnew _ _ hread, hbrief⟩

def ValidatedRead.renumber (new : ℕ → ℕ) (read : ValidatedRead) : ValidatedRead :=
  { read with ref := read.ref.map fun ref => { ref with step := new ref.step } }

theorem filterMap_range {α : Type*} : ∀ steps : List α,
    (List.range steps.length).filterMap (fun k => steps[k]?) = steps
  | [] => rfl
  | step :: rest => by
    rw [List.length_cons, List.range_succ_eq_map, List.filterMap_cons, List.filterMap_map]
    exact congrArg _ (filterMap_range rest)

/-- A read under new numbers, none of a summary. -/
def ValidatedAgentStep.renumberedRead (new : ℕ → ℕ) : ValidatedAgentStep → Option ValidatedRead
  | .read step => some (step.renumber new)
  | .summarize _ => none

/-- The reads of the placed plan are those of the plan, in their order. -/
theorem WellNumbered.validatedReads_placed (h : WellNumbered steps) :
    validatedReads (normalizeSummaryPlacement steps).steps =
      (validatedReads steps).map (ValidatedRead.renumber (newNumber steps)) := by
  let found : ℕ → Option ValidatedRead := fun k =>
    (steps[k]?).bind (ValidatedAgentStep.renumberedRead (newNumber steps))
  have hfiltered : ∀ indices : List ℕ, indices.filterMap found =
      (indices.filter fun k => (steps[k]?).any ValidatedAgentStep.isRead).filterMap found := by
    intro indices
    rw [List.filterMap_filter]
    refine List.filterMap_congr fun k _ => ?_
    cases hk : steps[k]? with
    | none => simp [found, hk]
    | some step =>
      cases step <;>
        simp [found, hk, ValidatedAgentStep.isRead, ValidatedAgentStep.renumberedRead]
  have hplaced : validatedReads (normalizeSummaryPlacement steps).steps =
      (placementOrder steps).filterMap found := by
    rw [h.placed_eq, Reordering.reorder, validatedReads, List.filterMap_filterMap]
    refine List.filterMap_congr fun k _ => ?_
    show ((steps[k]?).map _).bind _ = (steps[k]?).bind _
    cases hk : steps[k]? with
    | none => rfl
    | some step => cases step <;> rfl
  have hrange : (List.range steps.length).filterMap found =
      (validatedReads steps).map (ValidatedRead.renumber (newNumber steps)) := by
    show (List.range steps.length).filterMap (fun k => (steps[k]?).bind _) = _
    rw [← List.filterMap_filterMap, filterMap_range, validatedReads, List.map_filterMap]
    refine List.filterMap_congr fun step _ => ?_
    cases step <;> rfl
  rw [hplaced, hfiltered, filter_placementOrder, ← hfiltered, hrange]

theorem WithinBounds.placed (h : WithinBounds offered brief steps) (hnumbered : WellNumbered steps) :
    WithinBounds offered brief (normalizeSummaryPlacement steps).steps := by
  refine h.of_reads (f := ValidatedRead.renumber (newNumber steps)) (fun _ => rfl) (fun read => ?_)
    hnumbered.length_placed hnumbered.validatedReads_placed
  rw [ValidatedRead.renumber, Option.map_map]
  rfl

theorem Linked.placed (h : Linked steps) : Linked (normalizeSummaryPlacement steps).steps := by
  have hnumbered := h.wellNumbered
  constructor
  · intro new read ref hread href
    obtain ⟨number, old, hold, rfl, hsame⟩ := hnumbered.exists_old hread
    cases old with
    | summarize summary => cases hsame
    | read old =>
      injection hsame with hsame
      rw [hsame] at href
      obtain ⟨oldRef, hoption, rfl⟩ := Option.map_eq_some_iff.mp href
      have hmem : oldRef.step ∈ (ValidatedAgentStep.read old).numbers :=
        mem_numbers_read.mpr ⟨oldRef, hoption, rfl⟩
      obtain ⟨-, ⟨source, hsource, hid⟩, hbound, hfield, hposition⟩ :=
        h.ref number old oldRef hold hoption
      refine ⟨hnumbered.newNumber_lt hold hmem, ⟨_, hnumbered.stepAt_placed hsource, hid⟩, ?_, hfield,
        fun position hsome => ?_⟩
      · rw [hsame]
        exact hbound
      · obtain ⟨htake, hle, hitem, later, summary, -, hcovers, hin⟩ := hposition position hsome
        refine ⟨htake, hle, by rw [hsame]; exact hitem, newNumber steps later, _,
          hnumbered.newNumber_lt hcovers hin, hnumbered.stepAt_placed hcovers, ?_⟩
        exact List.mem_map_of_mem hin
  · intro new summary hsummary
    obtain ⟨number, old, hold, rfl, hsame⟩ := hnumbered.exists_old hsummary
    cases old with
    | read read => cases hsame
    | summarize old =>
      injection hsame with hsame
      obtain ⟨hne, hnodup, hcovers⟩ := h.summary number old hold
      have hinj : ∀ a ∈ old.sources, ∀ b ∈ old.sources,
          newNumber steps a = newNumber steps b → a = b := by
        intro a ha b hb heq
        obtain ⟨-, read, hread, -⟩ := hcovers a ha
        obtain ⟨-, other, hother, -⟩ := hcovers b hb
        obtain ⟨hone, hle⟩ := bounds_of_stepAt hread
        obtain ⟨hone', hle'⟩ := bounds_of_stepAt hother
        have hat := hnumbered.idxOf_getElem (k := a - 1) (by omega)
        have hat' := hnumbered.idxOf_getElem (k := b - 1) (by omega)
        unfold newNumber at heq
        rw [Nat.add_right_cancel heq, hat'] at hat
        have := Option.some.inj hat
        omega
      rw [hsame]
      refine ⟨by simpa using hne, hnodup.map_on hinj, fun source hsource => ?_⟩
      obtain ⟨n, hn, rfl⟩ := List.mem_map.mp hsource
      obtain ⟨-, read, hread, hbrief⟩ := hcovers n hn
      exact ⟨hnumbered.newNumber_lt hold hn, _, hnumbered.stepAt_placed hread, hbrief⟩

end transfer

end QuokyPlatform.AgentPlans
