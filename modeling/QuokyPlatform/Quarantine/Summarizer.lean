import QuokyPlatform.Quarantine.Prompt

/-! # The quarantined summariser

One `summarize` step makes at most one model call. Which model may be called follows from the labels of
the covered sources and from grants that hold for one step, one source and one run; the answer is kept
only as entries of a closed shape. What a call reserved and sent is recorded in its effects. -/

namespace QuokyPlatform.Quarantine
open AgentRuns (AgentSummarySchemaId NlWave1EntryId AiExecutionLocality QuarantinedListingOnlyReason
  AGENT_M2_MAX_ITEMS sourceRefusal FlowTrust FlowEgress FlowScope FlowLabel readOutputLabel)
open Chunking (JsString CodeUnit units codePoints trim collapseWhiteSpace isPair)
open Documents

set_option autoImplicit false
set_option maxHeartbeats 250000

/-! ## Labels -/

def FlowTrust.rank : FlowTrust → ℕ
  | .trusted => 0 | .structured => 1 | .untrusted => 2

def FlowEgress.rank : FlowEgress → ℕ
  | .remoteOk => 0 | .remoteOnSummaryRequest => 1 | .localModelOnly => 2 | .hostOnly => 3

def FlowScope.rank : FlowScope → ℕ
  | .workChannelOk => 0 | .ownerDmOnly => 1

def stricter {α : Type} (rank : α → ℕ) (a b : α) : α := if rank a ≥ rank b then a else b

/-- A label with its sources sorted and listed once. -/
def flowLabel (trust : FlowTrust) (egress : FlowEgress) (scope : FlowScope) (sources : List String) :
    FlowLabel :=
  ⟨trust, egress, scope, sources.dedup.insertionSort (· ≤ ·)⟩

def joinFlowLabels (labels : List FlowLabel) : FlowLabel :=
  flowLabel (labels.foldl (fun trust label => stricter FlowTrust.rank trust label.trust) .trusted)
    (labels.foldl (fun egress label => stricter FlowEgress.rank egress label.egress) .remoteOk)
    (labels.foldl (fun scope label => stricter FlowScope.rank scope label.scope) .workChannelOk)
    (labels.flatMap FlowLabel.sources)

/-! ## Documents -/

structure AgentSourceDocument where
  id : JsString
  position : ℕ
  title : JsString
  author : JsString
  date : JsString
  body : JsString
  truncated : Bool
  deriving DecidableEq

/-- The member `truncated` of what a port handed over. -/
inductive RawTruncated where
  | absent
  | flag (value : Bool)
  | other
  deriving DecidableEq

/-- One document as a port handed it over: reading it throws, it is no plain object, or it has members;
a member that is no string (a position that is no integer) is `none`. -/
inductive RawDocument where
  | throwing
  | malformed
  | document (position : Option ℤ) (id title author date body : Option JsString)
      (truncated : RawTruncated)
  deriving DecidableEq

/-- Whether the document claims that position. -/
def RawDocument.claims (position : ℤ) : RawDocument → Bool
  | .document claimed .. => claimed = some position
  | _ => false

/-- The document a raw one stands for, if its members are well-formed and its id is the projected one at
its position. -/
def RawDocument.candidate (slots : List (Option JsString)) : RawDocument → Option AgentSourceDocument
  | .document (some position) (some id) (some title) (some author) (some date) (some body) truncated =>
    if position < 1 ∨ position > slots.length then none
    else if (slots[(position - 1).toNat]?).join ≠ some id then none
    else
      match truncated with
      | .other => none
      | .absent => some ⟨id, position.toNat, title, author, date, body, false⟩
      | .flag value => some ⟨id, position.toNat, title, author, date, body, value⟩
  | _ => none

structure CheckedDocuments where
  documents : List AgentSourceDocument
  dropped : ℕ

/-- `raw` is `none` when the port handed over no array. -/
def validateSourceDocuments (raw : Option (List RawDocument)) (slots : List (Option JsString)) :
    CheckedDocuments :=
  let list := raw.getD []
  let candidates := list.filterMap (RawDocument.candidate slots)
  let alone (document : AgentSourceDocument) : Bool :=
    list.countP (RawDocument.claims document.position) = 1
  ⟨candidates.filter alone,
    list.countP (fun raw => (raw.candidate slots).isNone) + candidates.countP fun document => !alone document⟩

/-! ## Grants and models -/

/-- A grant is an opaque object; what it permits is known of minted ones only. -/
structure Granted where
  step : ℕ
  entryId : NlWave1EntryId
  run : ℕ
  deriving DecidableEq

abbrev SummaryEgressGrant := ℕ

/-- The minted grants. -/
abbrev Grants := SummaryEgressGrant → Option Granted

def grantMatches (grants : Grants) (grant : Option SummaryEgressGrant) (step : ℕ)
    (entryId : NlWave1EntryId) (run : ℕ) : Bool :=
  grant.bind grants = some ⟨step, entryId, run⟩

/-- A model port. Reading its metadata may throw; `run` is `none` when the call throws, rejects or is
abandoned because the signal aborted meanwhile. -/
structure QuarantinedSummarizerModel where
  executionLocality : Except Unit (Option AiExecutionLocality)
  auditId : Except Unit (Option JsString)
  run : JsString → Option JsString

/-- Only an explicit declaration is local. -/
def executionLocalityOf (declared : Option AiExecutionLocality) : AiExecutionLocality :=
  if declared = some .local then .local else .remote

structure SelectedModel where
  model : QuarantinedSummarizerModel
  locality : AiExecutionLocality
  auditId : JsString

def snapshotModel (model : QuarantinedSummarizerModel) : Option SelectedModel :=
  match model.executionLocality, model.auditId with
  | .ok declared, .ok id => some ⟨model, executionLocalityOf declared, id.getD []⟩
  | _, _ => none

def selectQuarantinedModel (grants : Grants) (egress : FlowEgress) (grant : Option SummaryEgressGrant)
    (itemCount : ℕ) (models : List QuarantinedSummarizerModel) :
    Except QuarantinedListingOnlyReason SelectedModel :=
  if egress = .hostOnly then .error .hostOnly
  else if egress = .remoteOnSummaryRequest ∧ (grant.bind grants).isNone then .error .noSummaryGrant
  else
    let usable := models.filterMap snapshotModel
    let candidates :=
      if egress = .remoteOk ∨ (egress = .remoteOnSummaryRequest ∧ itemCount = 1) then usable
      else usable.filter fun entry => entry.locality = .local
    match candidates with
    | picked :: _ => .ok picked
    | [] => .error .noModel

/-! ## The request -/

structure AgentSummarySource where
  entryId : NlWave1EntryId
  documents : List AgentSourceDocument
  grant : Option SummaryEgressGrant
  dropped : ℕ

structure QuarantinedSummaryRequest where
  schema : AgentSummarySchemaId
  summaryStep : ℕ
  sources : List AgentSummarySource
  models : List QuarantinedSummarizerModel
  remainingInputTokens : Option ℕ
  run : ℕ
  askedItems : ℕ

/-- What the surroundings of a call do: the answer to a reservation (`none` when it throws), and whether
the signal is aborted before the reservation and right before the call. -/
structure CallSurroundings where
  reserve : ℕ → Option Bool
  abortedBefore : Bool
  abortedAtCall : Bool

/-- `AGENT_SUMMARY_READOUT_SOURCE` -/
def readoutSource : NlWave1EntryId → Option UntrustedDocumentSource
  | .mailList => some .mail
  | .driveFiles => some .drive
  | _ => none

structure PreparedItem where
  entryId : NlWave1EntryId
  position : ℕ
  readout : UntrustedDocumentReadout
  deriving DecidableEq

def PreparedItem.rendered (item : PreparedItem) : JsString := renderUntrustedDocumentForPrompt item.readout

/-- What the loop over the sources gathers. -/
structure Preparation where
  items : List PreparedItem
  omitted : ℕ
  held : ℕ

def Preparation.omit (state : Preparation) (count : ℕ) : Preparation :=
  { state with omitted := state.omitted + count }

def AgentSourceDocument.input (document : AgentSourceDocument) (source : UntrustedDocumentSource) :
    BuildUntrustedDocumentReadoutInput where
  source := source
  title := document.title
  author := document.author
  date := document.date
  body := document.body
  sourceTruncated := document.truncated
  sections := none

/-- The bytes of a text in UTF-8; a lone surrogate is written as the replacement character. -/
def utf8Length : JsString → ℕ
  | [] => 0
  | [unit] => if unit < 0x80 then 1 else if unit < 0x800 then 2 else 3
  | first :: second :: rest =>
    if isPair first second then 4 + utf8Length rest
    else (if first < 0x80 then 1 else if first < 0x800 then 2 else 3) + utf8Length (second :: rest)

def estimateInputTokens (prompt : JsString) : ℕ := utf8Length prompt

section

variable (guards : DocumentGuards)

def prepareDocument (entryId : NlWave1EntryId) (source : UntrustedDocumentSource) (state : Preparation)
    (document : AgentSourceDocument) : Preparation :=
  if state.items.length ≥ AGENT_M2_MAX_ITEMS then state.omit 1
  else
    match buildUntrustedDocumentReadout guards (document.input source) with
    | .error _ => state.omit 1
    | .ok readout => { state with items := state.items ++ [⟨entryId, document.position, readout⟩] }

def prepareSource (schema : AgentSummarySchemaId) (state : Preparation) (source : AgentSummarySource) :
    Except QuarantinedListingOnlyReason Preparation :=
  match sourceRefusal source.entryId schema, readoutSource source.entryId with
  | some refusal, _ => .error refusal
  | none, none => .error .noReadoutSource
  | none, some readoutSource =>
    .ok (source.documents.foldl (prepareDocument guards source.entryId readoutSource)
      ⟨state.items, state.omitted + source.dropped,
        state.held + (source.documents.length + source.dropped)⟩)

def prepare (schema : AgentSummarySchemaId) (sources : List AgentSummarySource) :
    Except QuarantinedListingOnlyReason Preparation :=
  sources.foldlM (prepareSource guards schema) ⟨[], 0, 0⟩

end

def promptOf (schema : AgentSummarySchemaId) (items : List PreparedItem) : JsString :=
  renderQuarantinedPrompt schema (items.map PreparedItem.rendered)

/-- The longest part of the items whose prompt fits, and one item in any case. -/
def fitting (schema : AgentSummarySchemaId) (items : List PreparedItem) (remaining : ℕ) : ℕ → ℕ
  | kept + 2 =>
    if estimateInputTokens (promptOf schema (items.take (kept + 2))) > remaining then
      fitting schema items remaining (kept + 1)
    else kept + 2
  | kept => kept

def keptItems (request : QuarantinedSummaryRequest) (items : List PreparedItem) : List PreparedItem :=
  match request.remainingInputTokens with
  | none => items
  | some remaining => items.take (fitting request.schema items remaining items.length)

/-! ## The answer -/

/-- A parsed JSON value; a number that is no integer is `fraction`. -/
inductive AnswerValue where
  | null
  | bool (value : Bool)
  | integer (value : ℤ)
  | fraction
  | text (value : JsString)
  | array (items : List AnswerValue)
  | object (fields : List (JsString × AnswerValue))

structure SummaryEntry where
  n : ℕ
  entryId : NlWave1EntryId
  position : ℕ
  text : JsString
  topics : List JsString
  deriving DecidableEq

inductive QuarantinedOutputFailure where
  | schema | credential
  deriving DecidableEq

/-- `JSON.parse` (`none` when it throws) and the guard against claims of an action. -/
structure AnswerGuards extends DocumentGuards where
  parseJson : JsString → Option AnswerValue
  containsDocumentActionClaim : JsString → UntrustedDocumentSource → Bool

def AGENT_M2_OUTPUT_MAX_BYTES : ℕ := 16 * 1024

structure ParsedEntries where
  seen : List ℕ
  entries : List SummaryEntry
  dropped : ℕ

/-- The strings of an entry. -/
def SummaryEntry.texts (entry : SummaryEntry) : List JsString := entry.text :: entry.topics

section

variable (guards : AnswerGuards)

/-- A text of the answer, normalized, without links and on one line. -/
def flatText (value : JsString) : JsString :=
  trim (collapseWhiteSpace (neutralized guards.toDocumentGuards .display
    (normalizeUntrustedText guards.toDocumentGuards value)))

def cleanText (value : Option AnswerValue) (max : ℕ) : Option JsString :=
  match value with
  | some (.text value) =>
    if (flatText guards value).length = 0 ∨ pointCount (flatText guards value) > max then none
    else if hasLink guards.toDocumentGuards .display (flatText guards value) then none
    else some (flatText guards value)
  | _ => none

def cleanTopics (schema : AgentSummarySchemaId) (value : Option AnswerValue) : Option (List JsString) :=
  match schema, value with
  | .digest, _ => some []
  | .meetingDigest, some (.array topics) =>
    if topics.length > AGENT_M2_TOPICS_MAX then none
    else topics.mapM fun topic => cleanText guards (some topic) AGENT_M2_TOPIC_MAX_CHARS
  | .meetingDigest, _ => none

def allowedKeys : AgentSummarySchemaId → List JsString
  | .digest => [units "n", units "summary"]
  | .meetingDigest => [units "n", units "summary", units "topics"]

/-- `byN.get(n)` of an integer. -/
def itemAt (items : List PreparedItem) : Option AnswerValue → Option (ℕ × PreparedItem)
  | some (.integer n) => if n < 1 then none else (items[n.toNat - 1]?).map fun item => (n.toNat, item)
  | _ => none

/-- One entry of the answer: kept, dropped because of what it claims, or a failure of the whole. -/
def parseEntry (schema : AgentSummarySchemaId) (items : List PreparedItem) (state : ParsedEntries)
    (raw : AnswerValue) : Except QuarantinedOutputFailure ParsedEntries :=
  match raw with
  | .object fields =>
    let keys := fields.map Prod.fst
    if ¬ (keys.all (· ∈ allowedKeys schema) && (allowedKeys schema).all (· ∈ keys)) then .error .schema
    else
      match itemAt items (fields.lookup (units "n")) with
      | none => .error .schema
      | some (n, item) =>
        if n ∈ state.seen then .error .schema
        else
          match cleanText guards (fields.lookup (units "summary")) AGENT_M2_SUMMARY_MAX_CHARS,
              cleanTopics guards schema (fields.lookup (units "topics")) with
          | some summary, some topics =>
            let entry : SummaryEntry := ⟨n, item.entryId, item.position, summary, topics⟩
            let claims := (readoutSource item.entryId).all fun source =>
              entry.texts.any fun part => guards.containsDocumentActionClaim part source
            if claims then .ok { state with seen := n :: state.seen, dropped := state.dropped + 1 }
            else .ok { state with seen := n :: state.seen, entries := state.entries ++ [entry] }
          | _, _ => .error .schema
  | _ => .error .schema

def itemsField : AnswerValue → Option (List AnswerValue)
  | .object fields =>
    if (units ",").intercalate (fields.map Prod.fst) ≠ units "items" then none
    else
      match fields.lookup (units "items") with
      | some (.array entries) => some entries
      | _ => none
  | _ => none

def parseQuarantinedOutput (schema : AgentSummarySchemaId) (text : JsString) (items : List PreparedItem) :
    Except QuarantinedOutputFailure ParsedEntries :=
  if utf8Length text > AGENT_M2_OUTPUT_MAX_BYTES then .error .schema
  else
    let body := trim text
    if body.head? ≠ some 0x7B ∨ body.getLast? ≠ some 0x7D then .error .schema
    else
      match (guards.parseJson body).bind itemsField with
      | none => .error .schema
      | some entries =>
        if entries.length = 0 ∨ entries.length > items.length then .error .schema
        else do
          let parsed ← entries.foldlM (parseEntry guards schema items) ⟨[], [], 0⟩
          let joined := Messages.newline.intercalate (parsed.entries.flatMap SummaryEntry.texts)
          if guards.containsCredentialMaterial joined || guards.containsCredentialFileContent joined then
            .error .credential
          else .ok parsed

end

/-! ## The call -/

/-- The audit of a call, without its latency. -/
structure QuarantinedCallAudit where
  locality : AiExecutionLocality
  auditId : JsString
  estimatedTokens : ℕ
  deriving DecidableEq

inductive FailureReason where
  | schema | credential | model
  deriving DecidableEq

inductive QuarantinedSummaryOutcome where
  | summary (label : FlowLabel) (entries : List SummaryEntry) (omitted : ℕ) (audit : QuarantinedCallAudit)
  | listingOnly (reason : QuarantinedListingOnlyReason)
  | bound
  | failed (reason : FailureReason) (audit : Option QuarantinedCallAudit)
  -- The reservation threw.
  | rejects

/-- What a call did outside itself. -/
inductive Effect where
  | reserved (tokens : ℕ)
  | ran (selected : SelectedModel) (prompt : JsString)

section

variable (guards : AnswerGuards) (grants : Grants)

/-- The model the covered sources permit. -/
def chooseModel (request : QuarantinedSummaryRequest) (asked : ℕ) :
    Except QuarantinedListingOnlyReason SelectedModel :=
  let joined := joinFlowLabels (request.sources.map fun source => readOutputLabel source.entryId)
  let needing := request.sources.filter fun source =>
    (readOutputLabel source.entryId).egress = .remoteOnSummaryRequest
  let allGranted := needing.length > 0 ∧ needing.all fun source =>
    grantMatches grants source.grant request.summaryStep source.entryId request.run
  selectQuarantinedModel grants joined.egress (if allGranted then needing.head?.bind (·.grant) else none)
    asked request.models

def summaryLabel (request : QuarantinedSummaryRequest) : FlowLabel :=
  { joinFlowLabels (request.sources.map fun source => readOutputLabel source.entryId) with
    trust := .untrusted }

/-- What becomes of the answer of a call. -/
def takeAnswer (request : QuarantinedSummaryRequest) (items : List PreparedItem) (omitted : ℕ)
    (audit : QuarantinedCallAudit) : Option JsString → QuarantinedSummaryOutcome
  | none => .failed .model (some audit)
  | some text =>
    match parseQuarantinedOutput guards request.schema text items with
    | .error .schema => .failed .schema (some audit)
    | .error .credential => .failed .credential (some audit)
    | .ok parsed =>
      .summary (summaryLabel request) parsed.entries (omitted + (items.length - parsed.entries.length))
        audit

/-- The reservation and the call. -/
def callSelected (request : QuarantinedSummaryRequest) (surroundings : CallSurroundings)
    (items : List PreparedItem) (omitted : ℕ) (picked : SelectedModel) :
    QuarantinedSummaryOutcome × List Effect :=
  let prompt := promptOf request.schema items
  if guards.containsCredentialMaterial prompt || guards.containsCredentialFileContent prompt then
    (.listingOnly .credentialInPrompt, [])
  else if surroundings.abortedBefore then (.failed .model none, [])
  else
    let estimatedTokens := estimateInputTokens prompt
    match surroundings.reserve estimatedTokens with
    | none => (.rejects, [])
    | some false => (.bound, [])
    | some true =>
      let audit : QuarantinedCallAudit := ⟨picked.locality, picked.auditId, estimatedTokens⟩
      if surroundings.abortedAtCall then (.failed .model (some audit), [.reserved estimatedTokens])
      else (takeAnswer guards request items omitted audit (picked.model.run prompt),
        [.reserved estimatedTokens, .ran picked prompt])

def quarantinedSummarize (request : QuarantinedSummaryRequest) (surroundings : CallSurroundings) :
    QuarantinedSummaryOutcome × List Effect :=
  match prepare guards.toDocumentGuards request.schema request.sources with
  | .error refusal => (.listingOnly refusal, [])
  | .ok prepared =>
    if prepared.items.length = 0 then (.listingOnly .noDocuments, [])
    else
      let items := keptItems request prepared.items
      let omitted := prepared.omitted + (prepared.items.length - items.length)
      match chooseModel grants request (max request.askedItems prepared.held) with
      | .error reason => (.listingOnly reason, [])
      | .ok picked => callSelected guards request surroundings items omitted picked

end

end QuokyPlatform.Quarantine
