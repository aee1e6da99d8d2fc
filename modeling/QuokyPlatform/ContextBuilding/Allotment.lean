import QuokyPlatform.ContextBuilding.Shortening

/-! # What a build takes of its budget

The background, the transcript and durable recall take at most the limit; with compression the
transcript comes down to what is left of the limit, or to its floors. Either way it is in
chronological order, and every entry is the beginning of a turn. -/

namespace QuokyPlatform.ContextBuilding

set_option autoImplicit false
set_option maxHeartbeats 250000

open Chunking (JsString)
open Routing (localeCompare)

variable {N : Type}

/-! ## Entries of a transcript -/

/-- The entries are turns of the transcript, none of them twice. -/
structure FromTranscript (transcript : List ConversationTranscriptEntry)
    (entries : List (RankedTranscriptEntry N)) : Prop where
  nodup : (entries.map (·.chronologicalIndex)).Nodup
  turn : ∀ candidate ∈ entries, transcript[candidate.chronologicalIndex]? = some candidate.entry

/-- The entries that were kept of some others, each with a content of its own. -/
structure KeptOf (left : JsString → JsString → Prop) (entries kept : List (RankedTranscriptEntry N)) :
    Prop where
  nodup : (kept.map (·.chronologicalIndex)).Nodup
  origin : ∀ candidate ∈ kept, ∃ original ∈ entries, ∃ content,
    left original.entry.content content ∧ candidate = original.withContent content

@[simp] theorem withContent_index (candidate : RankedTranscriptEntry N) (content : JsString) :
    (candidate.withContent content).chronologicalIndex = candidate.chronologicalIndex := rfl

@[simp] theorem withContent_content (candidate : RankedTranscriptEntry N) (content : JsString) :
    (candidate.withContent content).entry.content = content := rfl

theorem FromTranscript.perm {transcript : List ConversationTranscriptEntry}
    {entries entries' : List (RankedTranscriptEntry N)} (h : FromTranscript transcript entries)
    (hperm : entries'.Perm entries) : FromTranscript transcript entries' where
  nodup := (hperm.map _).nodup_iff.mpr h.nodup
  turn candidate hmem := h.turn candidate (hperm.mem_iff.mp hmem)

theorem FromTranscript.sublist {transcript : List ConversationTranscriptEntry}
    {entries entries' : List (RankedTranscriptEntry N)} (h : FromTranscript transcript entries)
    (hsub : entries'.Sublist entries) : FromTranscript transcript entries' where
  nodup := (hsub.map _).nodup h.nodup
  turn candidate hmem := h.turn candidate (hsub.subset hmem)

/-- The transcript that is handed on: turns of the given one, in its order, each with what is `left`
of its content. -/
def TurnsInOrder (left : JsString → JsString → Prop)
    (transcript entries : List ConversationTranscriptEntry) : Prop :=
  ∃ places : List ℕ, places.Pairwise (· < ·) ∧
    List.Forall₂ (fun entry place => ∃ original content, transcript[place]? = some original ∧
      left original.content content ∧ entry = { original with content := content }) entries places

theorem byIndex_consistent : (byIndex (N := N)).Consistent := Comparison.consistent_byKey _

/-- Sorted by their places, entries that come from different turns are in the order of the turns. -/
theorem inChronologicalOrder_turns {left : JsString → JsString → Prop}
    {transcript : List ConversationTranscriptEntry} {entries kept : List (RankedTranscriptEntry N)}
    (hfrom : FromTranscript transcript entries) (hkept : KeptOf left entries kept) :
    TurnsInOrder left transcript (inChronologicalOrder kept) := by
  have hperm := Comparison.sort_perm byIndex kept
  refine ⟨(Comparison.sort byIndex kept).map (·.chronologicalIndex), ?_, ?_⟩
  · have hnodup : ((Comparison.sort byIndex kept).map (·.chronologicalIndex)).Nodup :=
      (hperm.map _).nodup_iff.mpr hkept.nodup
    have hsorted := (byIndex_consistent (N := N)).sort_pairwise kept
    rw [List.pairwise_map]
    rw [List.nodup_iff_pairwise_ne, List.pairwise_map] at hnodup
    refine List.Pairwise.imp₂ ?_ hsorted hnodup
    intro a b hle hne
    have hkey : (a.chronologicalIndex : ℤ) - b.chronologicalIndex ≤ 0 := hle
    omega
  · unfold inChronologicalOrder
    rw [List.forall₂_map_left_iff, List.forall₂_map_right_iff, List.forall₂_same]
    intro candidate hmem
    obtain ⟨original, horiginal, content, hleft, rfl⟩ := hkept.origin candidate (hperm.mem_iff.mp hmem)
    exact ⟨original.entry, content, hfrom.turn original horiginal, hleft, rfl⟩

theorem inChronologicalOrder_sum (measure : JsString → ℕ) (kept : List (RankedTranscriptEntry N)) :
    ((inChronologicalOrder kept).map fun entry => measure entry.content).sum = measured measure kept := by
  unfold inChronologicalOrder measured
  rw [List.map_map]
  exact ((Comparison.sort_perm byIndex kept).map _).sum_eq

/-! ## The ranked transcript -/

variable [ScoreNumber N]

theorem scoredTranscript_from (texts : TextScores N) (weights : ResolvedRoleWeights N)
    (scoring : ScoringWeights N) (summary : JsString)
    (transcript : List ConversationTranscriptEntry) :
    FromTranscript transcript (scoredTranscript texts weights scoring summary transcript) := by
  constructor
  · have hindices : (scoredTranscript texts weights scoring summary transcript).map
        (·.chronologicalIndex) = transcript.zipIdx.map Prod.snd := by
      unfold scoredTranscript
      rw [List.map_map]
      rfl
    rw [hindices, List.zipIdx_map_snd]
    exact List.nodup_range'
  · intro candidate hmem
    obtain ⟨⟨entry, place⟩, hplace, rfl⟩ := List.mem_map.mp hmem
    exact (List.mk_mem_zipIdx_iff_getElem?).mp hplace

theorem checkRoleWeights_ok {weights : List (String × Option N)}
    (h : ∀ weight ∈ weights, ∀ n, weight.2 = some n → ScoreNumber.isFinite n = true) :
    checkRoleWeights weights = .ok () := by
  induction weights with
  | nil => rfl
  | cons weight rest ih =>
    obtain ⟨role, value⟩ := weight
    have hrest := ih fun w hw => h w (List.mem_cons_of_mem _ hw)
    cases value with
    | none => exact hrest
    | some n =>
      have hfinite := h _ List.mem_cons_self n rfl
      rw [checkRoleWeights, if_pos hfinite, hrest]

theorem isFinite_of_checkRoleWeights {weights : List (String × Option N)}
    (h : checkRoleWeights weights = .ok ()) :
    ∀ weight ∈ weights, ∀ n, weight.2 = some n → ScoreNumber.isFinite n = true := by
  induction weights with
  | nil => exact fun _ hmem => absurd hmem List.not_mem_nil
  | cons weight rest ih =>
    obtain ⟨role, value⟩ := weight
    intro w hw n hn
    cases value with
    | none =>
      rcases List.mem_cons.mp hw with rfl | hw
      · cases hn
      · exact ih h w hw n hn
    | some value =>
      rw [checkRoleWeights] at h
      split at h
      swap
      · cases h
      next hfinite =>
        rcases List.mem_cons.mp hw with rfl | hw
        · cases hn
          exact hfinite
        · exact ih h w hw n hn

/-- What a configuration that passed has passed. -/
structure Validated (ranking : ContextRankingConfig N) : Prop where
  scoring : ∃ scoring, resolveScoringWeights ranking = .ok scoring
  minimum : ∃ minimum, resolveMinimumCompressionCharacters ranking = .ok minimum
  weights : ∀ weights, ranking.roleWeights = some weights → checkRoleWeights weights.entries = .ok ()

theorem validated_of_checkRanking {ranking : ContextRankingConfig N}
    (h : checkRanking ranking = .ok ()) : Validated ranking := by
  unfold checkRanking at h
  cases hbudget : resolveBudget ranking with
  | error e => rw [hbudget] at h; cases h
  | ok budget =>
    cases hscoring : resolveScoringWeights ranking with
    | error e => rw [hbudget, hscoring] at h; cases h
    | ok scoring =>
      cases hminimum : resolveMinimumCompressionCharacters ranking with
      | error e => rw [hbudget, hscoring, hminimum] at h; cases h
      | ok minimum =>
        rw [hbudget, hscoring, hminimum] at h
        refine ⟨⟨scoring, hscoring⟩, ⟨minimum, hminimum⟩, ?_⟩
        intro weights hsome
        rw [hsome] at h
        exact h

theorem validated_of_validateConfig {config : ContextBuilderConfig N}
    {ranking : ContextRankingConfig N} (h : validateConfig config = .ok (some ranking)) :
    Validated ranking := by
  unfold validateConfig at h
  dsimp only at h
  split at h
  · split at h
    · cases h
    · cases h
  split at h
  · cases h
  generalize ({ config.toContextRankingConfig with compressionConfig := _ } :
    ContextRankingConfig N) = given at h
  cases hcheck : checkRanking given with
  | error e => rw [hcheck] at h; cases h
  | ok _ =>
    rw [hcheck] at h
    cases h
    exact validated_of_checkRanking hcheck

theorem resolvedWeights_finite {ranking : ContextRankingConfig N} (h : Validated ranking) :
    checkRoleWeights [("user", some (resolveRoleWeights ranking).user),
      ("assistant", some (resolveRoleWeights ranking).assistant),
      ("unknown", some (resolveRoleWeights ranking).unknown)] = .ok () := by
  have hgiven : ∀ (pick : RoleWeights N → Option N) (role : String) (n : ℕ), n ≤ 2 →
      (∀ weights : RoleWeights N, (role, pick weights) ∈ weights.entries) →
      ScoreNumber.isFinite ((ranking.roleWeights.bind pick).getD (n : N)) = true := by
    intro pick role n hn hentry
    cases hweights : ranking.roleWeights with
    | none => exact ScoreNumber.isFinite_natCast n hn
    | some weights =>
      have hall := isFinite_of_checkRoleWeights (h.weights weights hweights) _ (hentry weights)
      rw [Option.bind_some]
      cases hpick : pick weights with
      | none => exact ScoreNumber.isFinite_natCast n hn
      | some value => exact hall value hpick
  have huser := hgiven (·.user) "user" 2 (by omega) fun weights => List.mem_cons_self
  have hassistant := hgiven (·.assistant) "assistant" 1 (by omega) fun weights =>
    List.mem_cons_of_mem _ List.mem_cons_self
  have hunknown := hgiven (·.unknown) "unknown" 0 (by omega) fun weights =>
    List.mem_cons_of_mem _ (List.mem_cons_of_mem _ List.mem_cons_self)
  refine checkRoleWeights_ok ?_
  intro weight hmem n hn
  simp only [List.mem_cons, List.not_mem_nil, or_false] at hmem
  rcases hmem with rfl | rfl | rfl
  · cases hn
    exact huser
  · cases hn
    exact hassistant
  · cases hn
    exact hunknown

/-- Ranking never fails on a validated configuration, and ranks turns of the transcript. -/
theorem rankTranscript_from (texts : TextScores N) (transcript : List ConversationTranscriptEntry)
    {ranking : ContextRankingConfig N} (h : Validated ranking) (summary : JsString) :
    ∃ ranked, rankTranscript texts transcript ranking summary = .ok ranked ∧
      FromTranscript transcript ranked := by
  obtain ⟨scoring, hscoring⟩ := h.scoring
  have hscored := scoredTranscript_from texts (resolveRoleWeights ranking) scoring summary transcript
  refine ⟨_, ?_, ((hscored.perm (Comparison.sort_perm allocationOrder _)).sublist
    (List.take_sublist RECENT_LIMIT _)).perm (Comparison.sort_perm rankOrder _)⟩
  unfold rankTranscript
  rw [hscoring]
  simp only [resolvedWeights_finite h, bind, Except.bind, pure, Except.pure]

end QuokyPlatform.ContextBuilding
