import QuokyPlatform.ContextBuilding.Allotment

/-! # The budget is kept

The three loops that share the budget, what each takes of it, and the build they make up. -/

namespace QuokyPlatform.ContextBuilding

set_option autoImplicit false
set_option maxHeartbeats 250000

open Chunking (JsString)
open Routing (localeCompare)

variable {N : Type} [ScoreNumber N]

/-! ## Allocating the transcript -/

omit [ScoreNumber N] in
theorem measured_cons (measure : JsString → ℕ) (candidate : RankedTranscriptEntry N)
    (rest : List (RankedTranscriptEntry N)) :
    measured measure (candidate :: rest) = measure candidate.entry.content + measured measure rest := by
  rw [measured, measured, List.map_cons, List.sum_cons]

omit [ScoreNumber N] in
theorem allocateFrom_indices (budget : ContextBudget) (remaining : ℤ)
    (entries : List (RankedTranscriptEntry N)) :
    ((allocateFrom budget remaining entries).map (·.chronologicalIndex)).Sublist
      (entries.map (·.chronologicalIndex)) := by
  induction entries generalizing remaining with
  | nil => exact List.Sublist.refl _
  | cons candidate rest ih =>
    unfold allocateFrom
    split
    · exact List.nil_sublist _
    dsimp only
    split
    · exact (ih _).cons_cons _
    split
    · exact (ih _).cons_cons _
    · exact (ih _).cons _

omit [ScoreNumber N] in
theorem allocateFrom_origin {budget : ContextBudget} (hcuts : budget.Cuts) (remaining : ℤ)
    (entries : List (RankedTranscriptEntry N)) :
    ∀ kept ∈ allocateFrom budget remaining entries, ∃ original ∈ entries, ∃ content,
      Cut original.entry.content content ∧ kept = original.withContent content := by
  induction entries generalizing remaining with
  | nil => exact fun _ hmem => absurd hmem List.not_mem_nil
  | cons candidate rest ih =>
    have hrest : ∀ left, ∀ kept ∈ allocateFrom budget left rest,
        ∃ original ∈ candidate :: rest, ∃ content,
          Cut original.entry.content content ∧ kept = original.withContent content := by
      intro left kept hmem
      obtain ⟨original, horiginal, hkept⟩ := ih left kept hmem
      exact ⟨original, List.mem_cons_of_mem _ horiginal, hkept⟩
    intro kept hmem
    unfold allocateFrom at hmem
    split at hmem
    · exact absurd hmem List.not_mem_nil
    dsimp only at hmem
    split at hmem
    · rcases List.mem_cons.mp hmem with rfl | hmem
      · exact ⟨kept, List.mem_cons_self, _, .whole, (withContent_self kept).symm⟩
      · exact hrest _ kept hmem
    split at hmem
    · next hpos =>
      rcases List.mem_cons.mp hmem with rfl | hmem
      · exact ⟨candidate, List.mem_cons_self, _,
          hcuts _ _ (List.ne_nil_of_length_pos hpos), rfl⟩
      · exact hrest _ kept hmem
    · exact hrest _ kept hmem

omit [ScoreNumber N] in
/-- The entries that are kept take no more than what remains. -/
theorem allocateFrom_fits {budget : ContextBudget} (hfits : budget.Fits) {remaining : ℤ}
    (hremaining : 0 ≤ remaining) (entries : List (RankedTranscriptEntry N)) :
    (measured budget.measure (allocateFrom budget remaining entries) : ℤ) ≤ remaining := by
  induction entries generalizing remaining with
  | nil => exact hremaining
  | cons candidate rest ih =>
    unfold allocateFrom
    split
    · exact hremaining
    dsimp only
    split
    · next hsize =>
      have hleft : 0 ≤ remaining - budget.measure candidate.entry.content := by omega
      have hrest := ih hleft
      rw [measured_cons]
      omega
    split
    · have hsize := hfits candidate.entry.content remaining hremaining
      have hleft : 0 ≤ remaining -
          budget.measure (budget.truncate candidate.entry.content remaining) := by omega
      have hrest := ih hleft
      rw [measured_cons, withContent_content]
      omega
    · exact ih hremaining

/-! ## Compressing the transcript -/

/-- The tokens of an entry, and the ones it keeps at the least. -/
def tokenAmounts (minimum : ℤ) (candidate : RankedTranscriptEntry N) : ℤ × ℤ :=
  (estimateTokenCount candidate.entry.content, floorTokens minimum candidate.entry.content)

def tokensOf (content : JsString) : ℤ := estimateTokenCount content

omit [ScoreNumber N] in
/-- Compression drains the tokens from the lowest rank backwards. -/
theorem compressFrom_drains {minimum : ℤ} (hminimum : 0 ≤ minimum) (excess : ℤ)
    (ranked : List (RankedTranscriptEntry N)) : ∃ contents : List JsString,
      List.Forall₂ (fun candidate content => ∃ asked, Compressed minimum asked candidate content)
        ranked contents ∧
      (compressFrom minimum excess ranked).1 =
        List.zipWith RankedTranscriptEntry.withContent ranked contents ∧
      contents.map tokensOf = (Draining.drain excess (ranked.map (tokenAmounts minimum))).1 ∧
      (compressFrom minimum excess ranked).2 =
        (Draining.drain excess (ranked.map (tokenAmounts minimum))).2 := by
  induction ranked with
  | nil => exact ⟨[], .nil, rfl, rfl, rfl⟩
  | cons candidate rest ih =>
    obtain ⟨contents, hall, hentries, htokens, hleft⟩ := ih
    obtain ⟨content, hcompressed, hentry⟩ :=
      compressEntry_spec hminimum (compressFrom minimum excess rest).2 candidate
    have hstep : compressFrom minimum excess (candidate :: rest) =
        (candidate.withContent content :: (compressFrom minimum excess rest).1,
          (compressFrom minimum excess rest).2 -
            Draining.given (compressFrom minimum excess rest).2
              (estimateTokenCount candidate.entry.content : ℤ)
              (floorTokens minimum candidate.entry.content)) := by
      rw [compressFrom]
      simp only [hentry]
    refine ⟨content :: contents, .cons ⟨_, hcompressed⟩ hall, ?_, ?_, ?_⟩
    · rw [hstep, hentries, List.zipWith_cons_cons]
    · rw [List.map_cons, List.map_cons, tokenAmounts, Draining.drain_cons, htokens, ← hleft]
      exact congrArg (· :: _) hcompressed.tokens
    · rw [hstep, List.map_cons, tokenAmounts, Draining.drain_cons, ← hleft]

omit [ScoreNumber N] in
theorem tokenAmounts_floor (minimum : ℤ) (ranked : List (RankedTranscriptEntry N)) :
    ∀ amount ∈ ranked.map (tokenAmounts minimum), amount.2 ≤ amount.1 := by
  intro amount hmem
  obtain ⟨candidate, -, rfl⟩ := List.mem_map.mp hmem
  exact Int.ofNat_le.mpr (floorTokens_le minimum candidate.entry.content)

/-- What compression makes of the ranked transcript: `contents`, by rank, with the entries that lost
something standing above entries at their floor only. -/
structure CompressedBy (minimum tokenBudget : ℤ) (ranked : List (RankedTranscriptEntry N))
    (contents : List JsString) : Prop where
  length : contents.length = ranked.length
  total : (contents.map tokensOf).sum =
    if tokenBudget < (measured estimateTokenCount ranked : ℤ) then
      max tokenBudget (measured (floorTokens minimum) ranked : ℤ)
    else (measured estimateTokenCount ranked : ℤ)
  lowest : ∀ i j : ℕ, i < j → contents[i]? ≠ (ranked.map (·.entry.content))[i]? →
    (contents.map tokensOf)[j]? =
      (ranked.map fun candidate => (floorTokens minimum candidate.entry.content : ℤ))[j]?

omit [ScoreNumber N] in
theorem sum_cast (measure : JsString → ℕ) (ranked : List (RankedTranscriptEntry N)) :
    (ranked.map fun candidate => (measure candidate.entry.content : ℤ)).sum =
      (measured measure ranked : ℤ) := by
  induction ranked with
  | nil => rfl
  | cons candidate rest ih =>
    rw [List.map_cons, List.sum_cons, ih, measured_cons, Nat.cast_add]

omit [ScoreNumber N] in
theorem compressFrom_compressed {minimum : ℤ} (hminimum : 0 ≤ minimum) (tokenBudget : ℤ)
    (ranked : List (RankedTranscriptEntry N)) : ∃ contents,
      List.Forall₂ (fun candidate content => ∃ asked, Compressed minimum asked candidate content)
        ranked contents ∧
      (compressFrom minimum ((measured estimateTokenCount ranked : ℤ) - tokenBudget) ranked).1 =
        List.zipWith RankedTranscriptEntry.withContent ranked contents ∧
      CompressedBy minimum tokenBudget ranked contents := by
  obtain ⟨contents, hall, hentries, htokens, -⟩ := compressFrom_drains hminimum
    ((measured estimateTokenCount ranked : ℤ) - tokenBudget) ranked
  have hfloors := tokenAmounts_floor minimum ranked
  have hcurrent : (ranked.map (tokenAmounts minimum)).map Prod.fst =
      ranked.map fun candidate => (estimateTokenCount candidate.entry.content : ℤ) := by
    rw [List.map_map]
    rfl
  have hfloor : (ranked.map (tokenAmounts minimum)).map Prod.snd =
      ranked.map fun candidate => (floorTokens minimum candidate.entry.content : ℤ) := by
    rw [List.map_map]
    rfl
  refine ⟨contents, hall, hentries, hall.length_eq.symm, ?_, ?_⟩
  · rw [htokens]
    split
    · next hexcess =>
      rw [Draining.drain_total (by omega) hfloors, hcurrent, hfloor, sum_cast estimateTokenCount,
        sum_cast (floorTokens minimum), sub_sub_cancel]
    · next hexcess =>
      rw [Draining.drain_of_nonpos (by omega), hcurrent, sum_cast estimateTokenCount]
  · intro i j hij hchanged
    rw [htokens, ← hfloor]
    refine Draining.drain_later hfloors ?_ hij
    rw [← htokens, hcurrent, List.getElem?_map, List.getElem?_map]
    rw [List.getElem?_map] at hchanged
    intro hsame
    rcases lt_or_ge i ranked.length with hi | hi
    · have hi' : i < contents.length := by rw [← hall.length_eq]; exact hi
      have hget := List.forall₂_iff_get.mp hall
      obtain ⟨asked, hcompressed⟩ := hget.2 i hi hi'
      rw [List.getElem?_eq_getElem hi, List.getElem?_eq_getElem hi'] at hsame hchanged
      simp only [Option.map_some, ne_eq, Option.some.injEq] at hsame hchanged
      refine hcompressed.changed hchanged ?_
      exact Int.ofNat_inj.mp hsame
    · have hi' : contents.length ≤ i := by rw [← hall.length_eq]; exact hi
      rw [List.getElem?_eq_none hi, List.getElem?_eq_none hi'] at hchanged
      exact hchanged rfl

/-! ## Durable recall -/

def recallSize (budget : ContextBudget) (entries : List (DurableRecallEntry N)) : ℕ :=
  (entries.map fun entry => budget.measure entry.content).sum

omit [ScoreNumber N] in
theorem recallFrom_fits {budget : ContextBudget} (hfits : budget.Fits) {remaining : ℤ}
    (hremaining : 0 ≤ remaining) (seenIds : List Id) (seenContent : List JsString)
    (selected : List (DurableRecallEntry N)) (candidates : List (RetrievedMemory N)) :
    (recallSize budget (recallFrom (some budget) (some remaining) seenIds seenContent selected
      candidates) : ℤ) ≤ recallSize budget selected + remaining := by
  induction candidates generalizing remaining seenIds seenContent selected with
  | nil =>
    rw [recallFrom]
    omega
  | cons candidate rest ih =>
    unfold recallFrom
    split
    · omega
    split
    · exact ih hremaining _ _ _
    split
    · exact ih hremaining _ _ _
    dsimp only
    split
    · exact ih hremaining _ _ _
    · have hsize := hfits (truncate candidate.memory.content MAX_MEMORY_CHARS) remaining hremaining
      refine le_trans (ih (by omega) _ _ _) ?_
      have hselected : ∀ content, recallSize budget (selected ++ [⟨content, candidate⟩]) =
          recallSize budget selected + budget.measure content := by
        intro content
        rw [recallSize, List.map_append, List.sum_append]
        rfl
      rw [hselected]
      omega

theorem selectDurableRecall_fits {budget : ContextBudget} (hfits : budget.Fits) {available : ℤ}
    (havailable : 0 ≤ available) (candidates : List (RetrievedMemory N)) :
    (recallSize budget (selectDurableRecall candidates (some budget) (some available)) : ℤ) ≤
      available := by
  have hloop := recallFrom_fits hfits havailable [] [] [] (Comparison.sort compareCandidates candidates)
  have hperm := Comparison.sort_perm compareRecall (recallFrom (some budget) (some available) [] [] []
    (Comparison.sort compareCandidates candidates))
  have hsum : recallSize budget (selectDurableRecall candidates (some budget) (some available)) =
      recallSize budget (recallFrom (some budget) (some available) [] [] []
        (Comparison.sort compareCandidates candidates)) := (hperm.map _).sum_eq
  rw [hsum]
  exact le_trans hloop (by rw [recallSize]; simp)

/-! ## The background -/

def backgroundSize (budget : ContextBudget) (resources : List BackgroundResource) : ℕ :=
  (resources.map fun resource => budget.measure resource.content).sum

theorem reserveBackground_fits {budget : ContextBudget} (hfits : budget.Fits) (hlimit : 0 ≤ budget.limit)
    (project : Option MemoryRecord) :
    (backgroundSize budget (reserveBackground budget project) : ℤ) ≤ budget.limit := by
  unfold reserveBackground
  cases project with
  | none => exact hlimit
  | some project =>
    dsimp only
    split
    · split
      · have hsize := hfits (truncate project.content MAX_PROJECT_CHARS) budget.limit hlimit
        simpa [backgroundSize] using hsize
      · exact hlimit
    · exact hlimit

/-! ## The budget of a validated configuration -/

theorem nonNegativeInteger_nonneg {value : N} {name : String} {n : ℤ}
    (h : nonNegativeInteger value name = .ok n) : 0 ≤ n := by
  unfold nonNegativeInteger at h
  split at h
  · split at h
    · cases h
    · cases h
      omega
  · cases h

theorem resolveBudget_cases {ranking : ContextRankingConfig N} {budget : ContextBudget}
    (h : resolveBudget ranking = .ok (some budget)) :
    0 ≤ budget.limit ∧ budget.Fits ∧ budget.Cuts ∧
      (ranking.maxTokens.isSome → budget.measure = estimateTokenCount) := by
  unfold resolveBudget at h
  split at h
  · cases h
  · next characters _ htokens =>
    cases hlimit : nonNegativeInteger characters "maxCharacters" with
    | error e => rw [hlimit] at h; cases h
    | ok limit =>
      rw [hlimit] at h
      cases h
      refine ⟨nonNegativeInteger_nonneg hlimit, characterBudget_fits limit, characterBudget_cuts limit, ?_⟩
      intro hsome
      rw [htokens] at hsome
      cases hsome
  · next tokens _ _ =>
    cases hlimit : nonNegativeInteger tokens "maxTokens" with
    | error e => rw [hlimit] at h; cases h
    | ok limit =>
      rw [hlimit] at h
      cases h
      exact ⟨nonNegativeInteger_nonneg hlimit, tokenBudget_fits limit, tokenBudget_cuts limit,
        fun _ => rfl⟩
  · cases h

theorem resolveMinimum_cases {ranking : ContextRankingConfig N} {minimum : ℤ}
    (h : resolveMinimumCompressionCharacters ranking = .ok (some minimum)) :
    0 ≤ minimum ∧ ranking.maxTokens.isSome := by
  unfold resolveMinimumCompressionCharacters at h
  split at h
  · cases h
  next compression _ =>
    split at h
    · cases h
    next htokens =>
      cases hminimum : nonNegativeInteger (compression.minimumCharactersPerEntry.getD
          ((DEFAULT_MINIMUM_COMPRESSION_CHARACTERS : ℕ) : N))
          "compressionConfig.minimumCharactersPerEntry" with
      | error e => rw [hminimum] at h; cases h
      | ok n =>
        rw [hminimum] at h
        cases h
        refine ⟨nonNegativeInteger_nonneg hminimum, ?_⟩
        cases htokens' : ranking.maxTokens with
        | none => rw [htokens'] at htokens; exact absurd rfl htokens
        | some _ => rfl

end QuokyPlatform.ContextBuilding
