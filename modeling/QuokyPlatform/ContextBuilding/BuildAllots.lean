import QuokyPlatform.ContextBuilding.BudgetKept

/-! # The build allots its budget

For every validated configuration with a limit, over every state of the stores. -/

namespace QuokyPlatform.ContextBuilding

set_option autoImplicit false
set_option maxHeartbeats 250000

open Chunking (JsString)
open Routing (localeCompare)

variable {N : Type}

/-! ## Turns and records -/

/-- The transcript that is handed on, by the records it comes from: in their order, each the turn of
its record with what is `left` of its content. -/
def RecordsInOrder (left : JsString → JsString → Prop) (records : List MemoryRecord)
    (entries : List ConversationTranscriptEntry) : Prop :=
  ∃ places : List ℕ, places.Pairwise (· < ·) ∧
    List.Forall₂ (fun entry place => ∃ record turn content, records[place]? = some record ∧
      (toTranscriptEntries records)[place]? = some turn ∧ left turn.content content ∧
      left record.content content ∧ entry = { turn with content := content }) entries places

theorem toTranscriptEntry_content (record : MemoryRecord) (turnNumber : ℕ) (role : ConversationRole) :
    (toTranscriptEntry record turnNumber role).content = truncate record.content MAX_MEMORY_CHARS := by
  cases role <;> rfl

theorem toTranscriptEntriesFrom_record {turnNumber : ℕ} {records : List MemoryRecord} {place : ℕ}
    {turn : ConversationTranscriptEntry}
    (h : (toTranscriptEntriesFrom turnNumber records)[place]? = some turn) :
    ∃ record, records[place]? = some record ∧
      turn.content = truncate record.content MAX_MEMORY_CHARS := by
  induction records generalizing turnNumber place with
  | nil => cases h
  | cons record rest ih =>
    rw [toTranscriptEntriesFrom] at h
    cases place with
    | zero =>
      rw [List.getElem?_cons_zero, Option.some.injEq] at h
      exact ⟨record, rfl, by rw [← h, toTranscriptEntry_content]⟩
    | succ place =>
      rw [List.getElem?_cons_succ] at h
      exact ih h

theorem TurnsInOrder.records {left : JsString → JsString → Prop} {records : List MemoryRecord}
    {entries : List ConversationTranscriptEntry}
    (hleft : ∀ text content, left (truncate text MAX_MEMORY_CHARS) content → left text content)
    (h : TurnsInOrder left (toTranscriptEntries records) entries) :
    RecordsInOrder left records entries := by
  obtain ⟨places, hincreasing, hall⟩ := h
  refine ⟨places, hincreasing, hall.imp ?_⟩
  rintro entry place ⟨turn, content, hturn, hcontent, rfl⟩
  obtain ⟨record, hrecord, htext⟩ := toTranscriptEntriesFrom_record hturn
  refine ⟨record, turn, content, hrecord, hturn, hcontent, hleft _ _ ?_, rfl⟩
  rwa [← htext]

variable [ScoreNumber N]

omit [ScoreNumber N] in
theorem recentRecords_sorted (sources : Sources N) (task : Task) (excludeMemoryIds : List Id)
    (limit : ℕ) : (recentRecords sources task excludeMemoryIds limit).Pairwise
      fun earlier later => localeCompare earlier.createdAt later.createdAt ≤ 0 := by
  unfold recentRecords
  refine List.Pairwise.sublist (List.drop_sublist _ _) ?_
  exact (Routing.consistent_localeCompare.on fun r : MemoryRecord => r.createdAt).sort_pairwise _

/-! ## The transcript of a build -/

/-- What may be left of a content: a beginning of it, or nothing at all where compression need not
keep a single character. -/
def LeftBy (minimum : Option ℤ) (original content : JsString) : Prop :=
  Cut original content ∨ (minimum = some 0 ∧ content = [])

/-- The transcript was compressed to the budget it was allotted. -/
def CompressedTo (tokenBudget minimum : ℤ) (ranked : List (RankedTranscriptEntry N))
    (transcript : List ConversationTranscriptEntry) : Prop :=
  ∃ contents, CompressedBy minimum tokenBudget ranked contents ∧
    transcript =
      inChronologicalOrder (List.zipWith RankedTranscriptEntry.withContent ranked contents) ∧
    ((transcript.map fun entry => estimateTokenCount entry.content).sum : ℤ) =
      (contents.map tokensOf).sum

omit [ScoreNumber N] in
theorem zipWith_kept {minimum : ℤ} {ranked : List (RankedTranscriptEntry N)} {contents : List JsString}
    (hnodup : (ranked.map (·.chronologicalIndex)).Nodup)
    (hall : List.Forall₂ (fun candidate content => ∃ asked, Compressed minimum asked candidate content)
      ranked contents) :
    KeptOf (LeftBy (some minimum)) ranked
      (List.zipWith RankedTranscriptEntry.withContent ranked contents) := by
  have hindices : ∀ {ranked : List (RankedTranscriptEntry N)} {contents : List JsString},
      List.Forall₂ (fun candidate content => ∃ asked, Compressed minimum asked candidate content)
        ranked contents →
      (List.zipWith RankedTranscriptEntry.withContent ranked contents).map (·.chronologicalIndex) =
        ranked.map (·.chronologicalIndex) := by
    intro ranked contents hall
    induction hall with
    | nil => rfl
    | cons _ _ ih => rw [List.zipWith_cons_cons, List.map_cons, ih, List.map_cons]; rfl
  constructor
  · rw [hindices hall]
    exact hnodup
  · clear hnodup
    induction hall with
    | nil => exact fun _ hmem => absurd hmem List.not_mem_nil
    | @cons candidate content rest contents hcompressed _ ih =>
      intro kept hmem
      rw [List.zipWith_cons_cons] at hmem
      rcases List.mem_cons.mp hmem with rfl | hmem
      · obtain ⟨asked, hcompressed⟩ := hcompressed
        refine ⟨candidate, List.mem_cons_self, content, ?_, rfl⟩
        rcases hcompressed.cut with hcut | ⟨rfl, hnil⟩
        · exact .inl hcut
        · exact .inr ⟨rfl, hnil⟩
      · obtain ⟨original, horiginal, hkept⟩ := ih kept hmem
        exact ⟨original, List.mem_cons_of_mem _ horiginal, hkept⟩

omit [ScoreNumber N] in
theorem zipWith_tokens {minimum : ℤ} {ranked : List (RankedTranscriptEntry N)}
    {contents : List JsString}
    (hall : List.Forall₂ (fun candidate content => ∃ asked, Compressed minimum asked candidate content)
      ranked contents) :
    (measured estimateTokenCount (List.zipWith RankedTranscriptEntry.withContent ranked contents) : ℤ) =
      (contents.map tokensOf).sum := by
  induction hall with
  | nil => rfl
  | cons _ _ ih =>
    rw [List.zipWith_cons_cons, measured_cons, Nat.cast_add, ih, List.map_cons, List.sum_cons]
    rfl

/-- The transcript of a build, whichever way it is made: it fits unless it is compressed, and then it
comes down as far as compression goes. -/
theorem selectRankedTranscript_spec (texts : TextScores N)
    (transcript : List ConversationTranscriptEntry) {allotted : ℤ} (hallotted : 0 ≤ allotted)
    {ranking : ContextRankingConfig N} (hvalid : Validated ranking) {budget : ContextBudget}
    (hfits : budget.Fits) (hcuts : budget.Cuts) (summary : JsString) {minimum : Option ℤ}
    (hminimum : resolveMinimumCompressionCharacters ranking = .ok minimum) :
    ∃ selected ranked,
      selectRankedTranscript texts transcript allotted ranking budget summary minimum = .ok selected ∧
      rankTranscript texts transcript ranking summary = .ok ranked ∧
      TurnsInOrder (LeftBy minimum) transcript selected ∧
      (minimum = none → (transcriptSize budget selected : ℤ) ≤ allotted) ∧
      (∀ floor, minimum = some floor → CompressedTo allotted floor ranked selected) := by
  obtain ⟨ranked, hranked, hfrom⟩ := rankTranscript_from texts transcript hvalid summary
  unfold selectRankedTranscript
  rw [hranked]
  cases minimum with
  | none =>
    have hsorted := hfrom.perm (Comparison.sort_perm allocationOrder ranked)
    have horigin := allocateFrom_origin hcuts allotted (Comparison.sort allocationOrder ranked)
    have hkept : KeptOf (LeftBy none) (Comparison.sort allocationOrder ranked)
        (allocateFrom budget allotted (Comparison.sort allocationOrder ranked)) := by
      constructor
      · exact (allocateFrom_indices budget allotted _).nodup hsorted.nodup
      · intro kept hmem
        obtain ⟨original, hmem', content, hcut, hkept⟩ := horigin kept hmem
        exact ⟨original, hmem', content, .inl hcut, hkept⟩
    refine ⟨_, ranked, rfl, rfl, inChronologicalOrder_turns hsorted hkept, ?_, ?_⟩
    · intro _
      rw [transcriptSize, inChronologicalOrder_sum]
      exact allocateFrom_fits hfits hallotted _
    · intro floor hfloor
      cases hfloor
  | some minimum =>
    obtain ⟨hnonneg, -⟩ := resolveMinimum_cases hminimum
    obtain ⟨contents, hall, hentries, hcompressed⟩ :=
      compressFrom_compressed hnonneg allotted ranked
    have hselected : compressRankedTranscript ranked allotted minimum =
        inChronologicalOrder (List.zipWith RankedTranscriptEntry.withContent ranked contents) := by
      rw [compressRankedTranscript, hentries]
    refine ⟨compressRankedTranscript ranked allotted minimum, ranked, rfl, rfl, ?_, ?_, ?_⟩
    · rw [hselected]
      exact inChronologicalOrder_turns hfrom (zipWith_kept hfrom.nodup hall)
    · intro hnone
      cases hnone
    · intro floor hfloor
      cases hfloor
      refine ⟨contents, hcompressed, hselected, ?_⟩
      rw [hselected, inChronologicalOrder_sum, zipWith_tokens hall]

/-! ## The build -/

theorem LeftBy.of_truncate {minimum : Option ℤ} {text content : JsString}
    (h : LeftBy minimum (truncate text MAX_MEMORY_CHARS) content) : LeftBy minimum text content := by
  rcases h with hcut | hnil
  · exact .inl hcut.of_truncate
  · exact .inr hnil

/-- The parts of a build that has a limit. -/
theorem build_eq (texts : TextScores N) (sources : Sources N) {ranking : ContextRankingConfig N}
    {budget : ContextBudget} (hbudget : resolveBudget ranking = .ok (some budget))
    {minimum : Option ℤ} (hminimum : resolveMinimumCompressionCharacters ranking = .ok minimum)
    (task : Task) (excludeMemoryIds : List Id) (channelRecall : Bool)
    {records : List MemoryRecord} {resources : List BackgroundResource}
    {selected : List ConversationTranscriptEntry}
    (hrecords : records = recentRecords sources task excludeMemoryIds
      (retrievalLimit (some budget) (some ranking)))
    (hresources : resources = reserveBackground budget
      ((truthy task.projectId).bind sources.projectMemory))
    (hselected : selectRankedTranscript texts (toTranscriptEntries records)
      (afterBackground budget resources) ranking budget task.summary minimum = .ok selected) :
    build texts sources (some ranking) task excludeMemoryIds channelRecall = .ok
      { taskId := task.id
        conversationTranscript := selected
        backgroundResources := resources
        durableRecall := selectDurableRecall
          (deduplicated (toTranscriptEntries records) (retrieveDurableCandidates sources task
            excludeMemoryIds (task.direct || channelRecall)))
          (some budget) (some (max 0 (afterBackground budget resources -
            transcriptSize budget selected)))
        curatedExamples := selectCuratedExamples sources task (task.direct || channelRecall) } := by
  subst hrecords hresources
  unfold build budgetOf minimumOf
  simp only [hbudget, hminimum, hselected, bind, Except.bind, pure, Except.pure]

/-- A build always gives a bundle. Its transcript is in chronological order and made of beginnings of
turns; recall uses what the transcript left; without compression all three together stay within the
limit, and with it the transcript comes down to its allotment or to the floors, lowest ranks first. -/
theorem build_allots (texts : TextScores N) (sources : Sources N) (config : ContextBuilderConfig N)
    {ranking : ContextRankingConfig N} (hconfig : validateConfig config = .ok (some ranking))
    {budget : ContextBudget} (hbudget : resolveBudget ranking = .ok (some budget))
    {minimum : Option ℤ} (hminimum : resolveMinimumCompressionCharacters ranking = .ok minimum)
    (task : Task) (excludeMemoryIds : List Id) (channelRecall : Bool) :
    ∃ bundle records ranked,
      build texts sources (some ranking) task excludeMemoryIds channelRecall = .ok bundle ∧
      records = recentRecords sources task excludeMemoryIds
        (retrievalLimit (some budget) (some ranking)) ∧
      rankTranscript texts (toTranscriptEntries records) ranking task.summary = .ok ranked ∧
      (records.Pairwise fun earlier later =>
        localeCompare earlier.createdAt later.createdAt ≤ 0) ∧
      RecordsInOrder (LeftBy minimum) records bundle.conversationTranscript ∧
      (recallSize budget bundle.durableRecall : ℤ) ≤
        max 0 (afterBackground budget bundle.backgroundResources -
          transcriptSize budget bundle.conversationTranscript) ∧
      (minimum = none →
        (backgroundSize budget bundle.backgroundResources : ℤ) +
          transcriptSize budget bundle.conversationTranscript +
          recallSize budget bundle.durableRecall ≤ budget.limit) ∧
      (∀ floor, minimum = some floor →
        budget.measure = estimateTokenCount ∧
        CompressedTo (afterBackground budget bundle.backgroundResources) floor ranked
          bundle.conversationTranscript) := by
  have hvalid := validated_of_validateConfig hconfig
  obtain ⟨hlimit, hfits, hcuts, htokens⟩ := resolveBudget_cases hbudget
  obtain ⟨records, hrecords⟩ : ∃ records, records = recentRecords sources task excludeMemoryIds
    (retrievalLimit (some budget) (some ranking)) := ⟨_, rfl⟩
  obtain ⟨resources, hresources⟩ : ∃ resources, resources = reserveBackground budget
    ((truthy task.projectId).bind sources.projectMemory) := ⟨_, rfl⟩
  have hbackground : (backgroundSize budget resources : ℤ) ≤ budget.limit := by
    rw [hresources]
    exact reserveBackground_fits hfits hlimit _
  have hspent : afterBackground budget resources = budget.limit - backgroundSize budget resources :=
    rfl
  obtain ⟨selected, ranked, hselected, hranked, hturns, hplain, hcompressed⟩ :=
    selectRankedTranscript_spec texts (toTranscriptEntries records)
      (by omega : 0 ≤ afterBackground budget resources) hvalid hfits hcuts task.summary hminimum
  have hsorted : records.Pairwise fun earlier later =>
      localeCompare earlier.createdAt later.createdAt ≤ 0 := by
    rw [hrecords]
    exact recentRecords_sorted sources task excludeMemoryIds _
  have hrecall := selectDurableRecall_fits hfits
    (le_max_left 0 (afterBackground budget resources - transcriptSize budget selected))
    (deduplicated (toTranscriptEntries records) (retrieveDurableCandidates sources task
      excludeMemoryIds (task.direct || channelRecall)))
  refine ⟨_, records, ranked, build_eq texts sources hbudget hminimum task excludeMemoryIds
    channelRecall hrecords hresources hselected, hrecords, hranked, hsorted,
    hturns.records fun _ _ => LeftBy.of_truncate, hrecall, ?_, ?_⟩
  · intro hnone
    have hsize := hplain hnone
    have hleft : 0 ≤ afterBackground budget resources - transcriptSize budget selected := by omega
    have hrest := le_trans hrecall (max_le hleft (le_refl _))
    dsimp only
    omega
  · intro floor hfloor
    rw [hfloor] at hminimum
    exact ⟨htokens (resolveMinimum_cases hminimum).2, hcompressed floor hfloor⟩

/-! ## Runs -/

/-- No relevance, no explicit values. -/
def plainTexts : TextScores ℚ := ⟨fun _ _ => 0, fun _ => false⟩

def noOptions : ContextBuilderConfig ℚ where
  maxCharacters := none
  maxTokens := none
  roleWeights := none
  recencyWeight := none
  relevanceWeight := none
  compressionConfig := none
  rankingEnabled := none
  compressionEnabled := none

def ask : Task where
  id := "t"
  sessionId := some "s"
  projectId := none
  actorId := none
  channelId := "c"
  threadId := none
  direct := true
  summary := []
  capability := "GENERAL_CHAT"

/-- One turn of twelve characters, and nothing else. -/
def oneTurn : Sources ℚ where
  recentShortTerm _ _ :=
    [⟨"1", List.replicate 12 97, some (.str "user"), "2024-01-01T00:00:00.000Z"⟩]
  projectMemory _ := none
  retrieve := none
  readCandidate := some
  curatedExamples := none

/-- A token budget, and the characters an entry keeps at the least. -/
def compressing (maxTokens minimum : ℚ) : ContextBuilderConfig ℚ :=
  { noOptions with maxTokens := some maxTokens, compressionConfig := some ⟨some minimum⟩ }

theorem build_allots_twoTokens : ∃ bundle records ranked,
    build plainTexts oneTurn (some (compressing 2 4).toContextRankingConfig) ask [] false =
      .ok bundle ∧
    rankTranscript plainTexts (toTranscriptEntries records)
      (compressing 2 4).toContextRankingConfig ask.summary = .ok ranked ∧
    CompressedTo (afterBackground (tokenBudget 2) bundle.backgroundResources) 4 ranked
      bundle.conversationTranscript := by
  have hconfig : validateConfig (compressing 2 4) =
      .ok (some (compressing 2 4).toContextRankingConfig) := by decide +kernel
  have hbudget : resolveBudget (compressing 2 4).toContextRankingConfig =
      .ok (some (tokenBudget 2)) := by rfl
  have hminimum : resolveMinimumCompressionCharacters (compressing 2 4).toContextRankingConfig =
      .ok (some 4) := by decide +kernel
  obtain ⟨bundle, records, ranked, hbuild, -, hranked, -, -, -, -, hcompressed⟩ :=
    build_allots plainTexts oneTurn (compressing 2 4) hconfig hbudget hminimum ask [] false
  exact ⟨bundle, records, ranked, hbuild, hranked, (hcompressed 4 rfl).2⟩

/-- Compression that need not keep a character leaves an entry that is neither the turn nor a beginning
of it with an ellipsis: its content is empty. -/
theorem zeroMinimum_blanks : ∃ bundle,
    validateConfig (compressing 0 0) = .ok (some (compressing 0 0).toContextRankingConfig) ∧
    build plainTexts oneTurn (some (compressing 0 0).toContextRankingConfig) ask [] false =
      .ok bundle ∧
    bundle.conversationTranscript.map (·.content) = [[]] ∧
    ¬ RecordsInOrder Cut (recentRecords oneTurn ask [] RECENT_LIMIT)
      bundle.conversationTranscript := by
  have hconfig : validateConfig (compressing 0 0) =
      .ok (some (compressing 0 0).toContextRankingConfig) := by decide +kernel
  have htranscript :
      (build plainTexts oneTurn (some (compressing 0 0).toContextRankingConfig) ask [] false).map
        (·.conversationTranscript) = .ok [⟨1, .user, [], .user, .userClaimOrIntent⟩] := by
    decide +kernel
  cases hbuild : build plainTexts oneTurn (some (compressing 0 0).toContextRankingConfig) ask [] false with
  | error e =>
    rw [hbuild] at htranscript
    cases htranscript
  | ok bundle =>
    rw [hbuild] at htranscript
    have hentries : bundle.conversationTranscript = [⟨1, .user, [], .user, .userClaimOrIntent⟩] :=
      Except.ok.inj htranscript
    refine ⟨bundle, hconfig, rfl, by rw [hentries]; rfl, ?_⟩
    rintro ⟨places, -, hall⟩
    rw [hentries] at hall
    cases hall with
    | @cons _ place _ _ hfirst _ =>
      obtain ⟨record, turn, content, hrecord, -, -, hcut, hentry⟩ := hfirst
      have hempty : content = [] := (congrArg ConversationTranscriptEntry.content hentry).symm
      have hall : ∀ record ∈ recentRecords oneTurn ask [] RECENT_LIMIT,
          record.content = List.replicate 12 97 := by decide +kernel
      have htext := hall record (List.mem_of_getElem? hrecord)
      rw [htext, hempty] at hcut
      generalize hnil : ([] : JsString) = nothing at hcut
      cases hcut with
      | whole => cases hnil
      | shortened kept _ => exact absurd hnil.symm (by simp [ellipsis])

end QuokyPlatform.ContextBuilding
