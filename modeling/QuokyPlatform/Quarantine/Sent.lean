import QuokyPlatform.Quarantine.Summarizer

/-! # What the summariser sends and returns

A call of the model is preceded by the reservation of exactly its prompt. The prompt holds readouts of
the covered sources only; every source had a grant for this step of this run, and a remote model was
called for a single item only. A summary and its omitted items account for every document handed over. -/

namespace QuokyPlatform.Quarantine
open AgentRuns (AgentSummarySchemaId NlWave1EntryId AiExecutionLocality QuarantinedListingOnlyReason
  AGENT_M2_MAX_ITEMS sourceRefusal FlowTrust FlowEgress FlowScope FlowLabel readOutputLabel)
open Chunking (JsString CodeUnit units)
open Documents

set_option autoImplicit false
set_option maxHeartbeats 250000

/-! ## What a port handed over -/

theorem candidate_spec {slots : List (Option JsString)} {raw : RawDocument}
    {document : AgentSourceDocument} (h : raw.candidate slots = some document) :
    raw.claims document.position = true ∧ 1 ≤ document.position ∧
      slots[document.position - 1]? = some (some document.id) := by
  unfold RawDocument.candidate at h
  split at h
  · rename_i position id title author date body truncated
    split at h
    · cases h
    · rename_i hrange
      split at h
      · cases h
      · rename_i hslot
        rw [not_or, not_lt, gt_iff_lt, not_lt] at hrange
        have hfound : document.position = position.toNat ∧ document.id = id := by
          cases truncated <;> cases h <;> exact ⟨rfl, rfl⟩
        have hcast : (position.toNat : ℤ) = position := Int.toNat_of_nonneg (by omega)
        have hindex : (position - 1).toNat = document.position - 1 := by omega
        rw [not_not, hindex, Option.join_eq_some_iff] at hslot
        refine ⟨?_, by omega, ?_⟩
        · rw [hfound.1, RawDocument.claims, hcast]
          exact decide_eq_true rfl
        · rw [hslot, hfound.2]
  · cases h

/-- A position is claimed at least as often as candidates have it. -/
theorem count_positions_le (slots : List (Option JsString)) (position : ℕ) : ∀ raws : List RawDocument,
    ((raws.filterMap (RawDocument.candidate slots)).map AgentSourceDocument.position).count position ≤
      raws.countP (RawDocument.claims position)
  | [] => Nat.le_refl _
  | raw :: raws => by
    have ih := count_positions_le slots position raws
    rw [List.countP_cons]
    cases hcandidate : raw.candidate slots with
    | none =>
      rw [List.filterMap_cons_none hcandidate]
      exact ih.trans (Nat.le_add_right _ _)
    | some document =>
      rw [List.filterMap_cons_some hcandidate, List.map_cons, List.count_cons]
      by_cases hposition : document.position = position
      · have hclaims := (candidate_spec hcandidate).1
        rw [hposition] at hclaims
        rw [if_pos hclaims]
        split <;> omega
      · rw [if_neg (by simpa using hposition)]
        omega

theorem length_filterMap_add {α β : Type} (f : α → Option β) (list : List α) :
    (list.filterMap f).length + list.countP (fun a => (f a).isNone) = list.length := by
  induction list with
  | nil => rfl
  | cons a list ih =>
    cases hfound : f a with
    | none =>
      rw [List.filterMap_cons_none hfound, List.countP_cons_of_pos (by rw [hfound]; rfl), List.length_cons]
      omega
    | some b =>
      have hcount : list.countP (fun a => (f a).isNone) = (a :: list).countP fun a => (f a).isNone := by
        rw [List.countP_cons_of_neg]
        rw [hfound]
        exact Bool.false_ne_true
      rw [List.filterMap_cons_some hfound, ← hcount, List.length_cons, List.length_cons]
      omega

/-- Every document a port handed over is kept or counted as dropped; the kept ones have positions of their
own and the id the projection has there. -/
theorem validateSourceDocuments_checked (raw : Option (List RawDocument)) (slots : List (Option JsString)) :
    let checked := validateSourceDocuments raw slots
    checked.documents.length + checked.dropped = (raw.getD []).length ∧
      (checked.documents.map AgentSourceDocument.position).Nodup ∧
      ∀ document ∈ checked.documents, 1 ≤ document.position ∧
        slots[document.position - 1]? = some (some document.id) := by
  simp only [validateSourceDocuments]
  generalize raw.getD [] = raws
  refine ⟨?_, ?_, fun document hdocument => ?_⟩
  · have hcandidates := length_filterMap_add (RawDocument.candidate slots) raws
    have hkept := List.length_eq_length_filter_add (fun document : AgentSourceDocument =>
      decide (raws.countP (RawDocument.claims document.position) = 1))
      (l := raws.filterMap (RawDocument.candidate slots))
    rw [List.countP_eq_length_filter (l := raws.filterMap (RawDocument.candidate slots))]
    omega
  · rw [List.nodup_iff_count_le_one]
    intro position
    by_cases hmem : position ∈ ((raws.filterMap (RawDocument.candidate slots)).filter fun document =>
        decide (raws.countP (RawDocument.claims document.position) = 1)).map AgentSourceDocument.position
    · obtain ⟨document, hdocument, rfl⟩ := List.mem_map.mp hmem
      have halone := of_decide_eq_true (List.mem_filter.mp hdocument).2
      calc _ ≤ ((raws.filterMap (RawDocument.candidate slots)).map AgentSourceDocument.position).count
            document.position := List.Sublist.count_le _ (List.filter_sublist.map _)
        _ ≤ raws.countP (RawDocument.claims document.position) := count_positions_le slots _ raws
        _ = 1 := halone
    · rw [List.count_eq_zero_of_not_mem hmem]
      exact Nat.zero_le _
  · obtain ⟨raw, -, hcandidate⟩ := List.mem_filterMap.mp (List.mem_filter.mp hdocument).1
    exact (candidate_spec hcandidate).2

/-! ## What is gathered -/

/-- The documents handed over by the covered reads, those dropped before included. -/
def handedOver (sources : List AgentSummarySource) : ℕ :=
  (sources.map fun source => source.documents.length + source.dropped).sum

section

variable (guards : DocumentGuards)

/-- The item is the readout of a document of that source. -/
def FromSource (source : AgentSummarySource) (item : PreparedItem) : Prop :=
  item.entryId = source.entryId ∧ ∃ document ∈ source.documents, item.position = document.position ∧
    ∃ kind, readoutSource source.entryId = some kind ∧
      buildUntrustedDocumentReadout guards (document.input kind) = .ok item.readout

/-- The state of the loop after some sources. -/
structure Gathered (sources : List AgentSummarySource) (state : Preparation) : Prop where
  counted : state.items.length + state.omitted = state.held
  held : state.held = handedOver sources
  bounded : state.items.length ≤ AGENT_M2_MAX_ITEMS
  sourced : ∀ item ∈ state.items, ∃ source ∈ sources, FromSource guards source item
  readable : ∀ source ∈ sources, (readoutSource source.entryId).isSome

variable (entryId : NlWave1EntryId) (kind : UntrustedDocumentSource)

/-- One document is an item or omitted. -/
theorem prepareDocument_spec {state : Preparation} (document : AgentSourceDocument)
    (hbound : state.items.length ≤ AGENT_M2_MAX_ITEMS) :
    let next := prepareDocument guards entryId kind state document
    next.items.length + next.omitted = state.items.length + state.omitted + 1 ∧ next.held = state.held ∧
      next.items.length ≤ AGENT_M2_MAX_ITEMS ∧
      ∀ item ∈ next.items, item ∈ state.items ∨ (item.entryId = entryId ∧
        item.position = document.position ∧
        buildUntrustedDocumentReadout guards (document.input kind) = .ok item.readout) := by
  simp only [prepareDocument]
  split
  · exact ⟨(Nat.add_assoc _ _ _).symm, rfl, hbound, fun item hitem => .inl hitem⟩
  · rename_i hroom
    split
    · exact ⟨(Nat.add_assoc _ _ _).symm, rfl, hbound, fun item hitem => .inl hitem⟩
    · rename_i readout hbuilt
      refine ⟨?_, rfl, ?_, fun item hitem => ?_⟩
      · dsimp only
        rw [List.length_append, List.length_singleton]
        omega
      · rw [List.length_append, List.length_singleton]
        omega
      · rcases List.mem_append.mp hitem with hold | hnew
        · exact .inl hold
        · rw [List.mem_singleton.mp hnew]
          exact .inr ⟨rfl, rfl, hbuilt⟩

theorem foldl_prepareDocument (documents : List AgentSourceDocument) {state : Preparation}
    (hbound : state.items.length ≤ AGENT_M2_MAX_ITEMS) :
    let next := documents.foldl (prepareDocument guards entryId kind) state
    next.items.length + next.omitted = state.items.length + state.omitted + documents.length ∧
      next.held = state.held ∧ next.items.length ≤ AGENT_M2_MAX_ITEMS ∧
      ∀ item ∈ next.items, item ∈ state.items ∨ (item.entryId = entryId ∧ ∃ document ∈ documents,
        item.position = document.position ∧
        buildUntrustedDocumentReadout guards (document.input kind) = .ok item.readout) := by
  induction documents generalizing state with
  | nil => exact ⟨rfl, rfl, hbound, fun item hitem => .inl hitem⟩
  | cons document documents ih =>
    obtain ⟨hcount, hheld, hnext, hitems⟩ :=
      prepareDocument_spec guards entryId kind document hbound
    obtain ⟨hcount', hheld', hnext', hitems'⟩ := ih hnext
    refine ⟨?_, hheld'.trans hheld, hnext', fun item hitem => ?_⟩
    · rw [List.foldl_cons, hcount', hcount, List.length_cons]
      omega
    · rcases hitems' item hitem with hmem | ⟨hentry, later, hlater, hrest⟩
      · rcases hitems item hmem with hold | ⟨hentry, hposition, hbuilt⟩
        · exact .inl hold
        · exact .inr ⟨hentry, document, List.mem_cons_self, hposition, hbuilt⟩
      · exact .inr ⟨hentry, later, List.mem_cons_of_mem _ hlater, hrest⟩

variable {guards}

theorem prepareSource_gathered {schema : AgentSummarySchemaId} {done : List AgentSummarySource}
    {source : AgentSummarySource} {state next : Preparation} (hstate : Gathered guards done state)
    (h : prepareSource guards schema state source = .ok next) :
    Gathered guards (done ++ [source]) next := by
  unfold prepareSource at h
  cases hrefusal : sourceRefusal source.entryId schema with
  | some refusal => simp [hrefusal] at h
  | none =>
    cases hkind : readoutSource source.entryId with
    | none => simp [hrefusal, hkind] at h
    | some kind =>
      simp only [hrefusal, hkind, Except.ok.injEq] at h
      have hcounted := hstate.counted
      have hheld := hstate.held
      obtain ⟨hcount, hheld', hbounded, hitems⟩ := foldl_prepareDocument guards source.entryId
        kind source.documents (show (⟨state.items, state.omitted + source.dropped, state.held +
          (source.documents.length + source.dropped)⟩ : Preparation).items.length ≤ _ from hstate.bounded)
      rw [h] at hcount hheld' hbounded hitems
      dsimp only at hcount hheld'
      refine ⟨by omega, ?_, hbounded, fun item hitem => ?_, fun other hother => ?_⟩
      · rw [hheld', hheld, handedOver, handedOver, List.map_append, List.sum_append]
        rfl
      · rcases hitems item hitem with hold | ⟨hentry, document, hdocument, hposition, hbuilt⟩
        · obtain ⟨other, hother, hfrom⟩ := hstate.sourced item hold
          exact ⟨other, List.mem_append_left _ hother, hfrom⟩
        · exact ⟨source, List.mem_append_right _ (List.mem_singleton_self _), hentry, document, hdocument,
            hposition, kind, hkind, hbuilt⟩
      · rcases List.mem_append.mp hother with hold | hnew
        · exact hstate.readable other hold
        · rw [List.mem_singleton.mp hnew, hkind]
          rfl

theorem prepare_gathered {schema : AgentSummarySchemaId} {sources : List AgentSummarySource}
    {state : Preparation} (h : prepare guards schema sources = .ok state) :
    Gathered guards sources state := by
  have hrun : ∀ (rest done : List AgentSummarySource) (start : Preparation), Gathered guards done start →
      rest.foldlM (prepareSource guards schema) start = .ok state → Gathered guards (done ++ rest) state := by
    intro rest
    induction rest with
    | nil =>
      intro done start hstart h
      cases h
      rwa [List.append_nil]
    | cons source rest ih =>
      intro done start hstart h
      rw [List.foldlM_cons] at h
      cases hnext : prepareSource guards schema start source with
      | error refusal =>
        rw [hnext] at h
        cases h
      | ok next =>
        rw [hnext] at h
        have hgathered := ih (done ++ [source]) next (prepareSource_gathered hstart hnext) h
        rwa [List.append_assoc] at hgathered
  refine hrun sources [] ⟨[], 0, 0⟩ ⟨rfl, rfl, Nat.zero_le _, ?_, ?_⟩ h
  · exact fun _ hitem => nomatch hitem
  · exact fun _ hsource => nomatch hsource

end

/-! ## What fits -/

theorem fitting_spec (schema : AgentSummarySchemaId) (items : List PreparedItem) (remaining : ℕ) :
    ∀ kept, fitting schema items remaining kept ≤ kept ∧ (1 ≤ kept → 1 ≤ fitting schema items remaining kept)
  | 0 => ⟨Nat.le_refl _, fun h => h⟩
  | 1 => ⟨Nat.le_refl _, fun h => h⟩
  | kept + 2 => by
    rw [fitting]
    split
    · obtain ⟨hle, hone⟩ := fitting_spec schema items remaining (kept + 1)
      exact ⟨hle.trans (Nat.le_succ _), fun _ => hone (Nat.le_add_left _ _)⟩
    · exact ⟨Nat.le_refl _, fun h => h⟩

/-- The kept items are the first ones, and at least one. -/
theorem keptItems_spec (request : QuarantinedSummaryRequest) {items : List PreparedItem}
    (h : items.length ≠ 0) :
    1 ≤ (keptItems request items).length ∧ (keptItems request items).length ≤ items.length ∧
      ∀ item ∈ keptItems request items, item ∈ items := by
  unfold keptItems
  split
  · exact ⟨Nat.one_le_iff_ne_zero.mpr h, Nat.le_refl _, fun _ hitem => hitem⟩
  · rename_i remaining _
    obtain ⟨hle, hone⟩ := fitting_spec request.schema items remaining items.length
    have hlength := hone (Nat.one_le_iff_ne_zero.mpr h)
    refine ⟨?_, ?_, fun _ hitem => List.mem_of_mem_take hitem⟩
    · rw [List.length_take]
      omega
    · rw [List.length_take]
      omega

/-! ## The permitted model -/

section

variable {guards : AnswerGuards} {grants : Grants} {request : QuarantinedSummaryRequest}

theorem egress_of_readable {entryId : NlWave1EntryId} (h : (readoutSource entryId).isSome) :
    (readOutputLabel entryId).egress = .remoteOnSummaryRequest := by
  cases entryId <;> first | rfl | cases h

/-- A join of labels of one egress has that egress. -/
theorem joined_egress {labels : List FlowLabel} (hne : labels ≠ [])
    (h : ∀ label ∈ labels, label.egress = .remoteOnSummaryRequest) :
    (joinFlowLabels labels).egress = .remoteOnSummaryRequest := by
  have hfold : ∀ labels : List FlowLabel, (∀ label ∈ labels, label.egress = .remoteOnSummaryRequest) →
      labels.foldl (fun egress label => stricter FlowEgress.rank egress label.egress)
        .remoteOnSummaryRequest = .remoteOnSummaryRequest := by
    intro labels h
    induction labels with
    | nil => rfl
    | cons label labels ih =>
      rw [List.foldl_cons, h label List.mem_cons_self]
      exact ih fun other hother => h other (List.mem_cons_of_mem _ hother)
  obtain ⟨label, labels, rfl⟩ := List.exists_cons_of_ne_nil hne
  have hfirst := h label List.mem_cons_self
  have hrest := hfold labels fun other hother => h other (List.mem_cons_of_mem _ hother)
  simp only [joinFlowLabels, flowLabel, List.foldl_cons, hfirst]
  exact hrest

/-- A model that may be called: every source had its grant, and it is the first permitted one. -/
structure Permitted (grants : Grants) (request : QuarantinedSummaryRequest) (asked : ℕ)
    (selected : SelectedModel) : Prop where
  granted : ∀ source ∈ request.sources,
    grantMatches grants source.grant request.summaryStep source.entryId request.run = true
  first : (request.models.filterMap snapshotModel).find?
    (fun entry => asked = 1 || entry.locality = .local) = some selected

theorem chooseModel_permitted {asked : ℕ} {selected : SelectedModel} (hne : request.sources ≠ [])
    (hreadable : ∀ source ∈ request.sources, (readoutSource source.entryId).isSome)
    (h : chooseModel grants request asked = .ok selected) : Permitted grants request asked selected := by
  have hneeding : (request.sources.filter fun source =>
      (readOutputLabel source.entryId).egress = .remoteOnSummaryRequest) = request.sources :=
    List.filter_eq_self.mpr fun source hsource =>
      decide_eq_true (egress_of_readable (hreadable source hsource))
  have hegress : (joinFlowLabels (request.sources.map fun source => readOutputLabel source.entryId)).egress =
      .remoteOnSummaryRequest := by
    refine joined_egress (fun hnil => hne (List.map_eq_nil_iff.mp hnil)) fun label hlabel => ?_
    obtain ⟨source, hsource, rfl⟩ := List.mem_map.mp hlabel
    exact egress_of_readable (hreadable source hsource)
  simp only [chooseModel, hneeding, hegress, selectQuarantinedModel] at h
  by_cases hall : request.sources.length > 0 ∧ request.sources.all fun source =>
      grantMatches grants source.grant request.summaryStep source.entryId request.run
  · rw [if_pos hall] at h
    refine ⟨fun source hsource => List.all_eq_true.mp hall.2 source hsource, ?_⟩
    split at h
    · cases h
    · split at h
      · cases h
      · split at h
        · rename_i picked _ hcandidates
          cases h
          by_cases hone : asked = 1
          · rw [if_pos (.inr ⟨trivial, hone⟩)] at hcandidates
            rw [hcandidates, hone]
            rfl
          · have hnot : ¬ (FlowEgress.remoteOnSummaryRequest = .remoteOk ∨ True ∧ asked = 1) := by
              rintro (hremote | ⟨-, hasked⟩)
              · cases hremote
              · exact hone hasked
            rw [if_neg hnot] at hcandidates
            simp only [hone, decide_false, Bool.false_or]
            rw [← List.head?_filter, hcandidates]
            rfl
        · cases h
  · rw [if_neg hall] at h
    simp at h

theorem Permitted.listed {asked : ℕ} {selected : SelectedModel}
    (h : Permitted grants request asked selected) :
    ∃ model ∈ request.models, snapshotModel model = some selected :=
  List.mem_filterMap.mp (List.mem_of_find?_eq_some h.first)

/-- A remote model is permitted for one item only. -/
theorem Permitted.single {asked : ℕ} {selected : SelectedModel}
    (h : Permitted grants request asked selected) (hremote : selected.locality = .remote) : asked = 1 := by
  have hfound := List.find?_some h.first
  rw [hremote] at hfound
  simpa using hfound

/-! ## The call -/

/-- What was sent, and to whom. -/
structure Sent (guards : AnswerGuards) (grants : Grants) (request : QuarantinedSummaryRequest)
    (items : List PreparedItem) (selected : SelectedModel) : Prop where
  permitted : Permitted grants request (max request.askedItems (handedOver request.sources)) selected
  sourced : ∀ item ∈ items, ∃ source ∈ request.sources, FromSource guards.toDocumentGuards source item
  readable : ∀ source ∈ request.sources, (readoutSource source.entryId).isSome
  counted : 1 ≤ items.length ∧ items.length ≤ AGENT_M2_MAX_ITEMS
  unguarded : guards.containsCredentialMaterial (promptOf request.schema items) = false ∧
    guards.containsCredentialFileContent (promptOf request.schema items) = false

/-- The effects of a request: none, a reservation that was granted, or that and one call. -/
inductive Sends (guards : AnswerGuards) (grants : Grants) (request : QuarantinedSummaryRequest)
    (surroundings : CallSurroundings) : List Effect → Prop where
  | nothing : Sends guards grants request surroundings []
  | reserved (tokens : ℕ) (h : surroundings.reserve tokens = some true) :
    Sends guards grants request surroundings [.reserved tokens]
  | called (items : List PreparedItem) (selected : SelectedModel)
    (hreserved : surroundings.reserve (estimateInputTokens (promptOf request.schema items)) = some true)
    (hsent : Sent guards grants request items selected) :
    Sends guards grants request surroundings
      [.reserved (estimateInputTokens (promptOf request.schema items)),
        .ran selected (promptOf request.schema items)]

/-- The strings of a summary, joined. -/
def joinedTexts (entries : List SummaryEntry) : JsString :=
  Messages.newline.intercalate (entries.flatMap SummaryEntry.texts)

/-- What a summary says, and that with the omitted items it accounts for everything handed over. -/
structure Accounted (guards : AnswerGuards) (request : QuarantinedSummaryRequest)
    (items : List PreparedItem) (label : FlowLabel) (entries : List SummaryEntry) (omitted : ℕ) : Prop where
  total : entries.length + omitted = handedOver request.sources
  distinct : (entries.map SummaryEntry.n).Nodup
  numbered : ∀ entry ∈ entries, 1 ≤ entry.n ∧ ∃ item, items[entry.n - 1]? = some item ∧
    entry.entryId = item.entryId ∧ entry.position = item.position
  plain : ∀ entry ∈ entries, ∀ text ∈ entry.texts, text ≠ [] ∧
    pointCount text ≤ AGENT_M2_SUMMARY_MAX_CHARS ∧ hasLink guards.toDocumentGuards .display text = false
  unguarded : guards.containsCredentialMaterial (joinedTexts entries) = false ∧
    guards.containsCredentialFileContent (joinedTexts entries) = false
  untrusted : label.trust = .untrusted

/-- The outcome of a request whose effects are known. -/
def Answers (guards : AnswerGuards) (grants : Grants) (request : QuarantinedSummaryRequest) :
    QuarantinedSummaryOutcome × List Effect → Prop
  | (.summary label entries omitted _, effects) => ∃ items selected,
    effects = [.reserved (estimateInputTokens (promptOf request.schema items)),
      .ran selected (promptOf request.schema items)] ∧
    Sent guards grants request items selected ∧ Accounted guards request items label entries omitted
  | _ => True

/-! ## The answer -/

theorem cleanText_spec {value : Option AnswerValue} {max : ℕ} {text : JsString}
    (h : cleanText guards value max = some text) :
    text ≠ [] ∧ pointCount text ≤ max ∧ hasLink guards.toDocumentGuards .display text = false := by
  unfold cleanText at h
  split at h
  · rename_i value
    generalize flatText guards value = flat at h
    split at h
    · cases h
    · rename_i hfits
      split at h
      · cases h
      · rename_i hlink
        cases h
        rw [not_or, Nat.not_lt] at hfits
        exact ⟨fun hnil => hfits.1 (List.length_eq_zero_iff.mpr hnil), hfits.2, Bool.eq_false_iff.mpr hlink⟩
  · cases h

theorem mem_of_mapM {α β : Type} {f : α → Option β} : ∀ {list : List α} {results : List β},
    list.mapM f = some results → ∀ result ∈ results, ∃ a ∈ list, f a = some result
  | [], results, h, result, hmem => by
    cases h
    cases hmem
  | a :: list, results, h, result, hmem => by
    rw [List.mapM_cons] at h
    obtain ⟨first, hfirst, h⟩ := Option.bind_eq_some_iff.mp h
    obtain ⟨rest, hrest, h⟩ := Option.bind_eq_some_iff.mp h
    cases h
    rcases List.mem_cons.mp hmem with rfl | hmem
    · exact ⟨a, List.mem_cons_self, hfirst⟩
    · obtain ⟨later, hlater, heq⟩ := mem_of_mapM hrest result hmem
      exact ⟨later, List.mem_cons_of_mem _ hlater, heq⟩

theorem cleanTopics_spec {schema : AgentSummarySchemaId} {value : Option AnswerValue}
    {topics : List JsString} (h : cleanTopics guards schema value = some topics) :
    ∀ topic ∈ topics, topic ≠ [] ∧ pointCount topic ≤ AGENT_M2_TOPIC_MAX_CHARS ∧
      hasLink guards.toDocumentGuards .display topic = false := by
  intro topic htopic
  unfold cleanTopics at h
  split at h
  · cases h
    cases htopic
  · split at h
    · cases h
    · obtain ⟨raw, -, hclean⟩ := mem_of_mapM h topic htopic
      exact cleanText_spec hclean
  · cases h

/-- The entries read so far. -/
structure Parsed (guards : AnswerGuards) (items : List PreparedItem) (state : ParsedEntries) : Prop where
  seen : ∀ entry ∈ state.entries, entry.n ∈ state.seen
  distinct : (state.entries.map SummaryEntry.n).Nodup
  numbered : ∀ entry ∈ state.entries, 1 ≤ entry.n ∧ ∃ item, items[entry.n - 1]? = some item ∧
    entry.entryId = item.entryId ∧ entry.position = item.position
  plain : ∀ entry ∈ state.entries, ∀ text ∈ entry.texts, text ≠ [] ∧
    pointCount text ≤ AGENT_M2_SUMMARY_MAX_CHARS ∧ hasLink guards.toDocumentGuards .display text = false

theorem itemAt_spec {items : List PreparedItem} {value : Option AnswerValue} {n : ℕ} {item : PreparedItem}
    (h : itemAt items value = some (n, item)) : 1 ≤ n ∧ items[n - 1]? = some item := by
  unfold itemAt at h
  split at h
  · split at h
    · cases h
    · rename_i hpositive
      obtain ⟨found, hfound, heq⟩ := Option.map_eq_some_iff.mp h
      cases heq
      exact ⟨by omega, hfound⟩
  · cases h

theorem parseEntry_parsed {schema : AgentSummarySchemaId} {items : List PreparedItem}
    {state next : ParsedEntries} {raw : AnswerValue} (hstate : Parsed guards items state)
    (h : parseEntry guards schema items state raw = .ok next) : Parsed guards items next := by
  unfold parseEntry at h
  split at h
  · dsimp only at h
    split at h
    · cases h
    · split at h
      · cases h
      · rename_i n item hitem
        split at h
        · cases h
        · rename_i hnew
          split at h
          · rename_i summary topics hsummary htopics
            obtain ⟨hpositive, hlisted⟩ := itemAt_spec hitem
            split at h
            · cases h
              exact ⟨fun entry hentry => List.mem_cons_of_mem _ (hstate.seen entry hentry), hstate.distinct,
                hstate.numbered, hstate.plain⟩
            · cases h
              refine ⟨fun entry hentry => ?_, ?_, fun entry hentry => ?_, fun entry hentry => ?_⟩
              · rcases List.mem_append.mp hentry with hold | hlast
                · exact List.mem_cons_of_mem _ (hstate.seen entry hold)
                · rw [List.mem_singleton.mp hlast]
                  exact List.mem_cons_self
              · rw [List.map_append, List.map_singleton, List.nodup_append]
                refine ⟨hstate.distinct, List.nodup_singleton _, fun number hnumber other hother => ?_⟩
                obtain ⟨entry, hentry, rfl⟩ := List.mem_map.mp hnumber
                rw [List.mem_singleton.mp hother]
                exact fun heq => hnew (heq.subst (hstate.seen entry hentry))
              · rcases List.mem_append.mp hentry with hold | hlast
                · exact hstate.numbered entry hold
                · rw [List.mem_singleton.mp hlast]
                  exact ⟨hpositive, item, hlisted, rfl, rfl⟩
              · rcases List.mem_append.mp hentry with hold | hlast
                · exact hstate.plain entry hold
                · rw [List.mem_singleton.mp hlast]
                  intro text htext
                  rcases List.mem_cons.mp htext with rfl | htopic
                  · exact cleanText_spec hsummary
                  · obtain ⟨hne, hlength, hlink⟩ := cleanTopics_spec htopics text htopic
                    exact ⟨hne, hlength.trans (by decide), hlink⟩
          · cases h
  · cases h

theorem parseEntries_parsed {schema : AgentSummarySchemaId} {items : List PreparedItem} :
    ∀ (raws : List AnswerValue) {state next : ParsedEntries}, Parsed guards items state →
      raws.foldlM (parseEntry guards schema items) state = .ok next → Parsed guards items next
  | [], state, next, hstate, h => by
    cases h
    exact hstate
  | raw :: raws, state, next, hstate, h => by
    rw [List.foldlM_cons] at h
    cases hfirst : parseEntry guards schema items state raw with
    | error failure =>
      rw [hfirst] at h
      cases h
    | ok middle =>
      rw [hfirst] at h
      exact parseEntries_parsed raws (parseEntry_parsed hstate hfirst) h

theorem parseQuarantinedOutput_parsed {schema : AgentSummarySchemaId} {text : JsString}
    {items : List PreparedItem} {parsed : ParsedEntries}
    (h : parseQuarantinedOutput guards schema text items = .ok parsed) :
    Parsed guards items parsed ∧ guards.containsCredentialMaterial (joinedTexts parsed.entries) = false ∧
      guards.containsCredentialFileContent (joinedTexts parsed.entries) = false := by
  unfold parseQuarantinedOutput at h
  split at h
  · cases h
  · dsimp only at h
    split at h
    · cases h
    · split at h
      · cases h
      · rename_i entries _
        split at h
        · cases h
        · cases hrun : entries.foldlM (parseEntry guards schema items) ⟨[], [], 0⟩ with
          | error failure =>
            rw [hrun] at h
            cases h
          | ok state =>
            have hstart : Parsed guards items ⟨[], [], 0⟩ := by
              refine ⟨?_, List.nodup_nil, ?_, ?_⟩ <;> exact fun _ hentry => nomatch hentry
            have hstate := parseEntries_parsed entries hstart hrun
            rw [hrun] at h
            change (if guards.containsCredentialMaterial (joinedTexts state.entries) ||
              guards.containsCredentialFileContent (joinedTexts state.entries) then
                Except.error QuarantinedOutputFailure.credential else Except.ok state) = _ at h
            split at h
            · cases h
            · rename_i hclean
              cases h
              rw [Bool.or_eq_true, not_or] at hclean
              exact ⟨hstate, Bool.eq_false_iff.mpr hclean.1, Bool.eq_false_iff.mpr hclean.2⟩

/-- No more entries than items. -/
theorem Parsed.length_le {items : List PreparedItem} {state : ParsedEntries}
    (h : Parsed guards items state) : state.entries.length ≤ items.length := by
  have hsubset : state.entries.map SummaryEntry.n ⊆ List.range' 1 items.length := by
    intro number hnumber
    obtain ⟨entry, hentry, rfl⟩ := List.mem_map.mp hnumber
    obtain ⟨hpositive, item, hitem, -⟩ := h.numbered entry hentry
    have hbound := (List.getElem?_eq_some_iff.mp hitem).1
    rw [List.mem_range'_1]
    omega
  have hlength := (List.subperm_of_subset h.distinct hsubset).length_le
  rwa [List.length_map, List.length_range'] at hlength

/-! ## A whole request -/

variable {surroundings : CallSurroundings}

theorem sends_callSelected {items : List PreparedItem} {omitted : ℕ} {picked : SelectedModel}
    (hsent : guards.containsCredentialMaterial (promptOf request.schema items) = false →
      guards.containsCredentialFileContent (promptOf request.schema items) = false →
      Sent guards grants request items picked) :
    Sends guards grants request surroundings
      (callSelected guards request surroundings items omitted picked).2 := by
  simp only [callSelected]
  split
  · exact .nothing
  · rename_i hclean
    rw [Bool.or_eq_true, not_or] at hclean
    split
    · exact .nothing
    · split
      · exact .nothing
      · exact .nothing
      · rename_i hreserved
        split
        · exact .reserved _ hreserved
        · exact .called items picked hreserved
            (hsent (Bool.eq_false_iff.mpr hclean.1) (Bool.eq_false_iff.mpr hclean.2))

theorem answers_callSelected {items : List PreparedItem} {omitted : ℕ} {picked : SelectedModel}
    (htotal : items.length + omitted = handedOver request.sources)
    (hsent : guards.containsCredentialMaterial (promptOf request.schema items) = false →
      guards.containsCredentialFileContent (promptOf request.schema items) = false →
      Sent guards grants request items picked) :
    Answers guards grants request (callSelected guards request surroundings items omitted picked) := by
  simp only [callSelected]
  split
  · trivial
  · rename_i hclean
    rw [Bool.or_eq_true, not_or] at hclean
    split
    · trivial
    · split
      · trivial
      · trivial
      · split
        · trivial
        · cases hrun : picked.model.run (promptOf request.schema items) with
          | none => trivial
          | some text =>
            cases hparse : parseQuarantinedOutput guards request.schema text items with
            | error failure =>
              simp only [takeAnswer, hparse]
              cases failure <;> trivial
            | ok parsed =>
              obtain ⟨hparsed, hmaterial, hcontent⟩ := parseQuarantinedOutput_parsed hparse
              have hlength := hparsed.length_le
              simp only [takeAnswer, hparse]
              refine ⟨items, picked, rfl,
                hsent (Bool.eq_false_iff.mpr hclean.1) (Bool.eq_false_iff.mpr hclean.2), ?_⟩
              exact ⟨by omega, hparsed.distinct, hparsed.numbered, hparsed.plain, ⟨hmaterial, hcontent⟩, rfl⟩

/-- What a request that reaches a model has prepared. -/
theorem sent_of_prepared {state : Preparation} {picked : SelectedModel}
    (hstate : prepare guards.toDocumentGuards request.schema request.sources = .ok state)
    (hitems : state.items.length ≠ 0)
    (hpicked : chooseModel grants request (max request.askedItems state.held) = .ok picked)
    (hmaterial : guards.containsCredentialMaterial
      (promptOf request.schema (keptItems request state.items)) = false)
    (hcontent : guards.containsCredentialFileContent
      (promptOf request.schema (keptItems request state.items)) = false) :
    Sent guards grants request (keptItems request state.items) picked := by
  have hgathered := prepare_gathered hstate
  obtain ⟨hone, hle, hmem⟩ := keptItems_spec request hitems
  have hne : request.sources ≠ [] := by
    obtain ⟨item, hitem⟩ := List.exists_mem_of_length_pos (Nat.pos_of_ne_zero hitems)
    obtain ⟨source, hsource, -⟩ := hgathered.sourced item hitem
    exact List.ne_nil_of_mem hsource
  have hpermitted := chooseModel_permitted hne hgathered.readable hpicked
  rw [hgathered.held] at hpermitted
  exact ⟨hpermitted, fun item hitem => hgathered.sourced item (hmem item hitem), hgathered.readable,
    ⟨hone, hle.trans hgathered.bounded⟩, hmaterial, hcontent⟩

end

/-- Whatever a request covers and whatever the model and its surroundings do, at most one call is made,
and only after exactly its prompt was reserved. -/
theorem summarizer_sends (guards : AnswerGuards) (grants : Grants) (request : QuarantinedSummaryRequest)
    (surroundings : CallSurroundings) : Sends guards grants request surroundings
      (quarantinedSummarize guards grants request surroundings).2 := by
  unfold quarantinedSummarize
  cases hstate : prepare guards.toDocumentGuards request.schema request.sources with
  | error refusal => exact .nothing
  | ok state =>
    dsimp only
    split
    · exact .nothing
    · rename_i hitems
      cases hpicked : chooseModel grants request (max request.askedItems state.held) with
      | error reason => exact .nothing
      | ok picked => exact sends_callSelected (sent_of_prepared hstate hitems hpicked)

/-- A summary holds entries of the prompt only, each once and without links or credentials, and with the
omitted items accounts for every document the covered reads handed over. -/
theorem summary_accounts (guards : AnswerGuards) (grants : Grants) (request : QuarantinedSummaryRequest)
    (surroundings : CallSurroundings) :
    Answers guards grants request (quarantinedSummarize guards grants request surroundings) := by
  unfold quarantinedSummarize
  cases hstate : prepare guards.toDocumentGuards request.schema request.sources with
  | error refusal => trivial
  | ok state =>
    dsimp only
    split
    · trivial
    · rename_i hitems
      cases hpicked : chooseModel grants request (max request.askedItems state.held) with
      | error reason => trivial
      | ok picked =>
        have hgathered := prepare_gathered hstate
        obtain ⟨-, hle, -⟩ := keptItems_spec request hitems
        have hcounted := hgathered.counted
        have hheld := hgathered.held
        exact answers_callSelected (by omega) (sent_of_prepared hstate hitems hpicked)

end QuokyPlatform.Quarantine
