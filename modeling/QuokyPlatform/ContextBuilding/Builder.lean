import QuokyPlatform.ContextBuilding.Config
import QuokyPlatform.Foundations.PlainObject
import QuokyPlatform.Routing.Contracts

/-! # Building the context of one execution

Recent turns, project background and durable recall share one budget: the background first, then the
transcript by rank, then recall with what is left. -/

namespace QuokyPlatform.ContextBuilding

set_option autoImplicit false
set_option maxHeartbeats 250000

open Chunking (JsString)
open Routing (localeCompare)

/-! ## Records and entries -/

def RECENT_LIMIT : ℕ := 10

/-- Ranking considers a wider bounded window. -/
def RANKING_CANDIDATE_LIMIT : ℕ := RECENT_LIMIT * 2

def MAX_MEMORY_CHARS : ℕ := 400

def MAX_PROJECT_CHARS : ℕ := 1200

def DURABLE_RECALL_LIMIT : ℕ := 10

structure MemoryRecord where
  id : Id
  content : JsString
  /-- `metadata?.role` -/
  metadataRole : Option Json
  createdAt : String

inductive ConversationRole where
  | user
  | assistant
  | unknown
  deriving DecidableEq

inductive TranscriptProvenance where
  | user
  | assistant
  | legacyUnknown
  deriving DecidableEq

inductive EpistemicStatus where
  | userClaimOrIntent
  | assistantNonAuthoritative
  | nonAuthoritativeTranscript
  deriving DecidableEq

structure ConversationTranscriptEntry where
  turnNumber : ℕ
  role : ConversationRole
  content : JsString
  provenance : TranscriptProvenance
  epistemicStatus : EpistemicStatus
  deriving DecidableEq

def roleOf (record : MemoryRecord) : ConversationRole :=
  match record.metadataRole with
  | some (.str role) =>
    if role = "user" then .user else if role = "assistant" then .assistant else .unknown
  | _ => .unknown

def toTranscriptEntry (record : MemoryRecord) (turnNumber : ℕ) (role : ConversationRole) :
    ConversationTranscriptEntry :=
  let content := truncate record.content MAX_MEMORY_CHARS
  match role with
  | .user => ⟨turnNumber, role, content, .user, .userClaimOrIntent⟩
  | .assistant => ⟨turnNumber, role, content, .assistant, .assistantNonAuthoritative⟩
  | .unknown => ⟨turnNumber, role, content, .legacyUnknown, .nonAuthoritativeTranscript⟩

/-- A user turn, an unknown one and the very first one open a new number. -/
def toTranscriptEntriesFrom (currentTurnNumber : ℕ) :
    List MemoryRecord → List ConversationTranscriptEntry
  | [] => []
  | record :: rest =>
    let role := roleOf record
    let turnNumber :=
      if role = .user ∨ role = .unknown ∨ currentTurnNumber = 0 then currentTurnNumber + 1
      else currentTurnNumber
    toTranscriptEntry record turnNumber role :: toTranscriptEntriesFrom turnNumber rest

def toTranscriptEntries (records : List MemoryRecord) : List ConversationTranscriptEntry :=
  toTranscriptEntriesFrom 0 records

structure DurableMemory where
  id : Id
  content : JsString
  kind : String
  provenance : String
  authorityLevel : String
  scope : Json
  createdAt : String
  updatedAt : String
  metadata : Json

structure RetrievedMemory (N : Type) where
  memory : DurableMemory
  relevanceScore : N
  retrievalReason : String
  retrievalMode : Option String
  semanticScore : Option N

/-- The memory an entry comes from is its source: all but its content is kept there. -/
structure DurableRecallEntry (N : Type) where
  content : JsString
  candidate : RetrievedMemory N

/-- Always project memory, as background that is no evidence of the current state. -/
structure BackgroundResource where
  content : JsString
  deriving DecidableEq

structure CuratedExampleEntry where
  requestText : String
  idealAnswer : String
  deriving DecidableEq

structure ContextBundle (N : Type) where
  taskId : Id
  conversationTranscript : List ConversationTranscriptEntry
  backgroundResources : List BackgroundResource
  durableRecall : List (DurableRecallEntry N)
  curatedExamples : List CuratedExampleEntry

variable {N : Type} [ScoreNumber N]

open ScoreNumber

/-! ## Durable recall -/

/-- By relevance, then the newest, then by id. -/
def compareCandidates : Comparison (RetrievedMemory N) :=
  let relevance : Comparison (RetrievedMemory N) :=
    fun a b => sign (b.relevanceScore - a.relevanceScore)
  relevance.orElse ((localeCompare.on fun c : RetrievedMemory N => c.memory.updatedAt).reverse.orElse
    (localeCompare.on fun c : RetrievedMemory N => c.memory.id))

/-- The loop over the ranked candidates; without a budget nothing runs out. -/
def recallFrom (budget : Option ContextBudget) (remaining : Option ℤ) (seenIds : List Id)
    (seenContent : List JsString) (selected : List (DurableRecallEntry N)) :
    List (RetrievedMemory N) → List (DurableRecallEntry N)
  | [] => selected
  | candidate :: rest =>
    if selected.length ≥ DURABLE_RECALL_LIMIT || remaining.any (· ≤ 0) then selected
    else if candidate.memory.id ∈ seenIds then
      recallFrom budget remaining seenIds seenContent selected rest
    else if candidate.memory.content ∈ seenContent then
      recallFrom budget remaining seenIds seenContent selected rest
    else
      let boundedContent := truncate candidate.memory.content MAX_MEMORY_CHARS
      let content := match budget, remaining with
        | some budget, some remaining => budget.truncate boundedContent remaining
        | _, _ => boundedContent
      if content.length = 0 then recallFrom budget remaining seenIds seenContent selected rest
      else
        recallFrom budget
          (match budget, remaining with
            | some budget, some remaining => some (remaining - budget.measure content)
            | _, _ => remaining)
          (candidate.memory.id :: seenIds) (candidate.memory.content :: seenContent)
          (selected ++ [⟨content, candidate⟩]) rest

def compareRecall : Comparison (DurableRecallEntry N) :=
  (localeCompare.on fun entry : DurableRecallEntry N => entry.candidate.memory.createdAt).orElse
    (localeCompare.on fun entry : DurableRecallEntry N => entry.candidate.memory.id)

def selectDurableRecall (candidates : List (RetrievedMemory N)) (budget : Option ContextBudget)
    (availableBudget : Option ℤ) : List (DurableRecallEntry N) :=
  Comparison.sort compareRecall
    (recallFrom budget availableBudget [] [] [] (Comparison.sort compareCandidates candidates))

/-! ## Ranking the transcript -/

/-- What the scores take from the Unicode tables: the relevance of a text to the current summary, and
whether a text names an explicit value (`EXPLICIT_VALUE_PATTERN`). -/
structure TextScores (N : Type) where
  scoreSemanticRelevance : JsString → JsString → N
  testsExplicitValue : JsString → Bool

structure RankedTranscriptEntry (N : Type) where
  entry : ConversationTranscriptEntry
  chronologicalIndex : ℕ
  score : N
  continuityPriority : ℕ

/-- The last place with the role. -/
def newestRoleIndex (transcript : List ConversationTranscriptEntry) (role : ConversationRole) :
    Option ℕ :=
  (transcript.reverse.findIdx? fun entry => entry.role = role).map (transcript.length - 1 - ·)

/-- `EXPLICIT_USER_VALUE_WEIGHT` -/
def EXPLICIT_USER_VALUE_WEIGHT : N := 0.5

structure ResolvedRoleWeights (N : Type) where
  user : N
  assistant : N
  unknown : N

def resolveRoleWeights (config : ContextRankingConfig N) : ResolvedRoleWeights N where
  user := (config.roleWeights.bind (·.user)).getD ((2 : ℕ) : N)
  assistant := (config.roleWeights.bind (·.assistant)).getD ((1 : ℕ) : N)
  unknown := (config.roleWeights.bind (·.unknown)).getD ((0 : ℕ) : N)

def ResolvedRoleWeights.of (weights : ResolvedRoleWeights N) : ConversationRole → N
  | .user => weights.user
  | .assistant => weights.assistant
  | .unknown => weights.unknown

def scoreEntry (texts : TextScores N) (weights : ResolvedRoleWeights N) (scoring : ScoringWeights N)
    (currentSummary : JsString) (newestIndex : ℕ) (entry : ConversationTranscriptEntry)
    (chronologicalIndex : ℕ) : N :=
  let roleScore := weights.of entry.role
  match scoring with
  | .additive recencyWeight => ((0 : ℕ) : N) + (roleScore + (chronologicalIndex : N) * recencyWeight)
  | .blended recencyWeight relevanceWeight =>
    let explicitValueScore :=
      if entry.role = .user ∧ texts.testsExplicitValue entry.content then
        EXPLICIT_USER_VALUE_WEIGHT
      else ((0 : ℕ) : N)
    let recency : N :=
      if newestIndex = 0 then ((1 : ℕ) : N) else (chronologicalIndex : N) / (newestIndex : N)
    explicitValueScore + (roleScore + recency * recencyWeight +
      texts.scoreSemanticRelevance currentSummary entry.content * relevanceWeight)

def byScore : Comparison (RankedTranscriptEntry N) := fun a b => sign (b.score - a.score)

def byContinuity : Comparison (RankedTranscriptEntry N) :=
  (Comparison.byKey fun entry => (entry.continuityPriority : ℤ)).reverse

def byIndex : Comparison (RankedTranscriptEntry N) :=
  Comparison.byKey fun entry => (entry.chronologicalIndex : ℤ)

/-- The newest user turn and the newest reply come first, then the score, then the newest. -/
def allocationOrder : Comparison (RankedTranscriptEntry N) :=
  byContinuity.orElse (byScore.orElse byIndex.reverse)

/-- Highest score first, the newest of equals. -/
def rankOrder : Comparison (RankedTranscriptEntry N) := byScore.orElse byIndex.reverse

def scoredTranscript (texts : TextScores N) (weights : ResolvedRoleWeights N)
    (scoring : ScoringWeights N) (currentSummary : JsString)
    (transcript : List ConversationTranscriptEntry) : List (RankedTranscriptEntry N) :=
  transcript.zipIdx.map fun (entry, chronologicalIndex) =>
    { entry := entry
      chronologicalIndex := chronologicalIndex
      score := scoreEntry texts weights scoring currentSummary (transcript.length - 1) entry
        chronologicalIndex
      continuityPriority :=
        if newestRoleIndex transcript .user = some chronologicalIndex then 2
        else if newestRoleIndex transcript .assistant = some chronologicalIndex then 1
        else 0 }

/-- Continuity decides who is admitted, the score alone how those admitted are ranked. -/
def rankTranscript (texts : TextScores N) (transcript : List ConversationTranscriptEntry)
    (config : ContextRankingConfig N) (currentSummary : JsString) :
    Except RangeError (List (RankedTranscriptEntry N)) := do
  let weights := resolveRoleWeights config
  let scoring ← resolveScoringWeights config
  checkRoleWeights [("user", some weights.user), ("assistant", some weights.assistant),
    ("unknown", some weights.unknown)]
  let scored := scoredTranscript texts weights scoring currentSummary transcript
  return Comparison.sort rankOrder ((Comparison.sort allocationOrder scored).take RECENT_LIMIT)

/-! ## Selecting and compressing -/

def RankedTranscriptEntry.withContent (candidate : RankedTranscriptEntry N) (content : JsString) :
    RankedTranscriptEntry N :=
  { candidate with entry := { candidate.entry with content := content } }

/-- The loop over the allocation order: whole where it fits, else cut to what remains. -/
def allocateFrom (contextBudget : ContextBudget) (remaining : ℤ) :
    List (RankedTranscriptEntry N) → List (RankedTranscriptEntry N)
  | [] => []
  | candidate :: rest =>
    if remaining ≤ 0 then []
    else
      let estimatedSize := contextBudget.measure candidate.entry.content
      if (estimatedSize : ℤ) ≤ remaining then
        candidate :: allocateFrom contextBudget (remaining - estimatedSize) rest
      else
        let content := contextBudget.truncate candidate.entry.content remaining
        if content.length > 0 then
          candidate.withContent content ::
            allocateFrom contextBudget (remaining - contextBudget.measure content) rest
        else allocateFrom contextBudget remaining rest

/-- The tokens an entry keeps at the least. -/
def floorTokens (minimumCharactersPerEntry : ℤ) (content : JsString) : ℕ :=
  estimateTokenCount
    (content.take (min (content.length : ℤ) minimumCharactersPerEntry).toNat)

/-- One entry, with the excess that is still to be removed: what remains of both. -/
def compressEntry (minimumCharactersPerEntry excessTokens : ℤ) (candidate : RankedTranscriptEntry N) :
    RankedTranscriptEntry N × ℤ :=
  if excessTokens > 0 then
    let currentTokens : ℤ := estimateTokenCount candidate.entry.content
    let floorCharacters := min (candidate.entry.content.length : ℤ) minimumCharactersPerEntry
    let tokensToRemove := min excessTokens
      (currentTokens - floorTokens minimumCharactersPerEntry candidate.entry.content)
    if tokensToRemove ≤ 0 then (candidate, excessTokens)
    else
      let targetCharacters := max floorCharacters
        ((currentTokens - tokensToRemove) * ESTIMATED_CHARACTERS_PER_TOKEN)
      let content := truncateToBudget candidate.entry.content targetCharacters
      (candidate.withContent content, excessTokens - (currentTokens - estimateTokenCount content))
  else (candidate, excessTokens)

/-- The loop from the lowest rank backwards. -/
def compressFrom (minimumCharactersPerEntry excessTokens : ℤ) :
    List (RankedTranscriptEntry N) → List (RankedTranscriptEntry N) × ℤ
  | [] => ([], excessTokens)
  | candidate :: rest =>
    let (compressed, excessTokens) := compressFrom minimumCharactersPerEntry excessTokens rest
    let (candidate, excessTokens) := compressEntry minimumCharactersPerEntry excessTokens candidate
    (candidate :: compressed, excessTokens)

/-- The sum of what the entries take of a budget. -/
def measured (measure : JsString → ℕ) (entries : List (RankedTranscriptEntry N)) : ℕ :=
  (entries.map fun candidate => measure candidate.entry.content).sum

def inChronologicalOrder (selected : List (RankedTranscriptEntry N)) :
    List ConversationTranscriptEntry :=
  (Comparison.sort byIndex selected).map (·.entry)

def compressRankedTranscript (ranked : List (RankedTranscriptEntry N)) (tokenBudget : ℤ)
    (minimumCharactersPerEntry : ℤ) : List ConversationTranscriptEntry :=
  let excessTokens := (measured estimateTokenCount ranked : ℤ) - tokenBudget
  inChronologicalOrder (compressFrom minimumCharactersPerEntry excessTokens ranked).1

def selectRankedTranscript (texts : TextScores N) (transcript : List ConversationTranscriptEntry)
    (budget : ℤ) (config : ContextRankingConfig N) (contextBudget : ContextBudget)
    (currentSummary : JsString) (minimumCompressionCharacters : Option ℤ) :
    Except RangeError (List ConversationTranscriptEntry) := do
  let ranked ← rankTranscript texts transcript config currentSummary
  match minimumCompressionCharacters with
  | some minimum => return compressRankedTranscript ranked budget minimum
  | none =>
    return inChronologicalOrder
      (allocateFrom contextBudget budget (Comparison.sort allocationOrder ranked))

/-! ## The build -/

/-- The fields of a task that the builder reads. -/
structure Task where
  id : Id
  sessionId : Option Id
  projectId : Option Id
  actorId : Option Id
  channelId : Id
  threadId : Option Id
  direct : Bool
  summary : JsString
  capability : String

inductive MemoryScope where
  | session (sessionId : Id)
  | channel (channelId : Id) (threadId : Option Id)
  deriving DecidableEq

structure MemoryRetrievalRequest where
  query : JsString
  capability : String
  actorId : Id
  authorityFitness : List String
  maxResults : ℕ
  excludeIds : List Id

def DURABLE_AUTHORITY_FITNESS : List String :=
  ["USER_CLAIM_OR_INTENT", "ASSISTANT_NON_AUTHORITATIVE", "NON_AUTHORITATIVE_BACKGROUND"]

/-- The stores a build reads. The retriever and the example source may be left out or fail (`none`);
`readCandidate` is the defence against malformed and credential-like candidates. -/
structure Sources (N : Type) where
  recentShortTerm : MemoryScope → ℕ → List MemoryRecord
  projectMemory : Id → Option MemoryRecord
  retrieve : Option (MemoryRetrievalRequest → Option (List (RetrievedMemory N)))
  readCandidate : RetrievedMemory N → Option (RetrievedMemory N)
  curatedExamples : Option (Task → Option (List CuratedExampleEntry))

/-- `value ? … : …` for an optional text. -/
def truthy (value : Option Id) : Option Id := value.filter fun text => text ≠ ""

def retrieveDurableCandidates (sources : Sources N) (task : Task) (excludeMemoryIds : List Id)
    (privateContext : Bool) : List (RetrievedMemory N) :=
  match sources.retrieve, truthy task.actorId, privateContext with
  | some retrieve, some actorId, true =>
    ((retrieve
      { query := task.summary
        capability := task.capability
        actorId := actorId
        authorityFitness := DURABLE_AUTHORITY_FITNESS
        maxResults := DURABLE_RECALL_LIMIT
        excludeIds := excludeMemoryIds }).getD []).filterMap sources.readCandidate
  | _, _, _ => []

def selectCuratedExamples (sources : Sources N) (task : Task) (privateContext : Bool) :
    List CuratedExampleEntry :=
  match sources.curatedExamples with
  | none => []
  | some select =>
    if task.capability ≠ "GENERAL_CHAT" ∨ (truthy task.actorId).isNone ∨ !privateContext then []
    else (select task).getD []

def scopeOf (task : Task) : MemoryScope :=
  match truthy task.sessionId with
  | some sessionId => .session sessionId
  | none => .channel task.channelId (truthy task.threadId)

/-- The recent turns, oldest first, without those that are excluded. -/
def recentRecords (sources : Sources N) (task : Task) (excludeMemoryIds : List Id)
    (retrievalLimit : ℕ) : List MemoryRecord :=
  let fetched := sources.recentShortTerm (scopeOf task) (retrievalLimit + excludeMemoryIds.length)
  let sorted := Comparison.sort (localeCompare.on (·.createdAt))
    (fetched.filter fun record => record.id ∉ excludeMemoryIds)
  sorted.drop (sorted.length - retrievalLimit)

/-- The project background, reserved first. -/
def reserveBackground (budget : ContextBudget) (project : Option MemoryRecord) :
    List BackgroundResource :=
  match project with
  | none => []
  | some project =>
    if 0 < budget.limit then
      let content := budget.truncate (truncate project.content MAX_PROJECT_CHARS) budget.limit
      if content.length > 0 then [⟨content⟩] else []
    else []

/-- What the background leaves of the limit. -/
def afterBackground (budget : ContextBudget) (backgroundResources : List BackgroundResource) : ℤ :=
  budget.limit - (backgroundResources.map fun resource => budget.measure resource.content).sum

def transcriptSize (budget : ContextBudget) (transcript : List ConversationTranscriptEntry) : ℕ :=
  (transcript.map fun entry => budget.measure entry.content).sum

/-- How many turns are considered: a wider window when relevance is weighed within a budget. -/
def retrievalLimit (budget : Option ContextBudget) (ranking : Option (ContextRankingConfig N)) : ℕ :=
  if budget.isSome ∧ (ranking.bind (·.relevanceWeight)).isSome then RANKING_CANDIDATE_LIMIT
  else RECENT_LIMIT

/-- `resolveBudget(this.ranking)`, when there is a ranking. -/
def budgetOf : Option (ContextRankingConfig N) → Except RangeError (Option ContextBudget)
  | none => .ok none
  | some ranking => resolveBudget ranking

def minimumOf : Option (ContextRankingConfig N) → Except RangeError (Option ℤ)
  | none => .ok none
  | some ranking => resolveMinimumCompressionCharacters ranking

/-- The durable candidates that the transcript does not hold already. -/
def deduplicated (transcript : List ConversationTranscriptEntry)
    (candidates : List (RetrievedMemory N)) : List (RetrievedMemory N) :=
  candidates.filter fun candidate =>
    !transcript.any fun entry => candidate.memory.content = entry.content

/-- `ContextBuilder.build` -/
def build (texts : TextScores N) (sources : Sources N) (ranking : Option (ContextRankingConfig N))
    (task : Task) (excludeMemoryIds : List Id) (channelRecall : Bool) :
    Except RangeError (ContextBundle N) := do
  let privateContext := task.direct || channelRecall
  let budget ← budgetOf ranking
  let recent := recentRecords sources task excludeMemoryIds (retrievalLimit budget ranking)
  let transcript := toTranscriptEntries recent
  let project := (truthy task.projectId).bind sources.projectMemory
  let durableCandidates := deduplicated transcript
    (retrieveDurableCandidates sources task excludeMemoryIds privateContext)
  let curatedExamples := selectCuratedExamples sources task privateContext
  let minimumCompressionCharacters ← minimumOf ranking
  match ranking, budget with
  | some ranking, some budget => do
    let backgroundResources := reserveBackground budget project
    let remainingBudget := afterBackground budget backgroundResources
    let conversationTranscript ← selectRankedTranscript texts transcript remainingBudget ranking
      budget task.summary minimumCompressionCharacters
    let remainingBudget := max 0 (remainingBudget - transcriptSize budget conversationTranscript)
    return {
      taskId := task.id
      conversationTranscript := conversationTranscript
      backgroundResources := backgroundResources
      durableRecall := selectDurableRecall durableCandidates (some budget) (some remainingBudget)
      curatedExamples := curatedExamples }
  | _, _ =>
    return {
      taskId := task.id
      conversationTranscript := transcript
      backgroundResources := project.toList.map fun project =>
        ⟨truncate project.content MAX_PROJECT_CHARS⟩
      durableRecall := selectDurableRecall durableCandidates none none
      curatedExamples := curatedExamples }

end QuokyPlatform.ContextBuilding
