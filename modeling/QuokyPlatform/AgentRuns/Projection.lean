import QuokyPlatform.Chunking.CodePoints
import QuokyPlatform.Foundations.Regex

/-! # What a run keeps of a read

`AGENT_READ_SOURCES` names the source, the destination origin and the projected id field of every
read entry. `projectStructure` keeps only structure of what a read port returned: closed-format ids,
one slot for each listed row, and the binding to the source. The values of a later reference are
taken from there. -/

namespace QuokyPlatform.AgentRuns
open Chunking

set_option autoImplicit false
set_option maxHeartbeats 250000

/-! ## The read entries -/

inductive NlWave1EntryId where
  | jiraIssues | jiraRelease | githubItems | slackSearch | confluenceSearch | calendarEvents
  | mailList | driveFiles | todoList | reminderList | briefToday | helpTopic
  deriving DecidableEq

structure AgentReadSource where
  source : String
  origin : String
  refField : Option String
  itemEntry : Option NlWave1EntryId
  connectorQueries : ℕ
  deriving DecidableEq

def AGENT_READ_SOURCES : NlWave1EntryId → AgentReadSource
  | .jiraIssues => ⟨"jira", "jira:configured-site", some "issueKeys", some .jiraIssues, 1⟩
  | .jiraRelease => ⟨"jira", "jira:configured-site", some "issueKeys", some .jiraIssues, 8⟩
  | .githubItems => ⟨"github", "github:configured-host", some "itemIds", none, 1⟩
  | .slackSearch =>
    ⟨"slack", "slack:configured-workspace", some "messageIds", some .slackSearch, 1⟩
  | .confluenceSearch => ⟨"confluence", "confluence:configured-site", some "pageIds", none, 1⟩
  | .calendarEvents => ⟨"calendar", "calendar:owner", some "eventIds", none, 1⟩
  | .mailList => ⟨"mail", "mail:owner", some "messageIds", some .mailList, 1⟩
  | .driveFiles => ⟨"drive", "drive:owner", some "fileIds", some .driveFiles, 1⟩
  | .todoList => ⟨"todo", "host", none, none, 2⟩
  | .reminderList => ⟨"reminder", "host", none, none, 0⟩
  | .briefToday => ⟨"brief", "host", none, none, 4⟩
  | .helpTopic => ⟨"help", "host", none, none, 0⟩

inductive FlowTrust where
  | trusted | structured | untrusted
  deriving DecidableEq

inductive FlowEgress where
  | remoteOk | remoteOnSummaryRequest | localModelOnly | hostOnly
  deriving DecidableEq

inductive FlowScope where
  | workChannelOk | ownerDmOnly
  deriving DecidableEq

structure FlowLabel where
  trust : FlowTrust
  egress : FlowEgress
  scope : FlowScope
  sources : List String
  deriving DecidableEq

def readOutputLabel (entryId : NlWave1EntryId) : FlowLabel :=
  let source := (AGENT_READ_SOURCES entryId).source
  match entryId with
  | .calendarEvents | .briefToday => ⟨.untrusted, .localModelOnly, .ownerDmOnly, [source]⟩
  | .mailList | .driveFiles => ⟨.untrusted, .remoteOnSummaryRequest, .ownerDmOnly, [source]⟩
  | .todoList | .reminderList => ⟨.untrusted, .remoteOk, .ownerDmOnly, [source]⟩
  | .helpTopic => ⟨.trusted, .remoteOk, .workChannelOk, [source]⟩
  | _ => ⟨.untrusted, .remoteOk, .workChannelOk, [source]⟩

/-! ## Closed id shapes -/

def isUpper (c : CodeUnit) : Bool := 0x41 ≤ c && c ≤ 0x5A

def isLower (c : CodeUnit) : Bool := 0x61 ≤ c && c ≤ 0x7A

def isDigit (c : CodeUnit) : Bool := 0x30 ≤ c && c ≤ 0x39

/-- The class of the ASCII letters, the digits and some punctuation. -/
def alphanumericOr (punctuation : String) (c : CodeUnit) : Bool :=
  isUpper c || isLower c || isDigit c || c ∈ units punctuation

/-- `^[accepts]{least,most}$` -/
def wholly (accepts : CodeUnit → Bool) (least most : ℕ) : Regex CodeUnit :=
  .seq .atStart (.seq (.repeated (.char accepts) least (some most)) .atEnd)

/-- `^[A-Z][A-Z0-9_]{1,19}-[1-9][0-9]{0,9}$` -/
def issueKey : Regex CodeUnit :=
  .seq .atStart <|
  .seq (.char isUpper) <|
  .seq (.repeated (.char fun c => isUpper c || isDigit c || c ∈ units "_") 1 (some 19)) <|
  .seq (.char fun c => c ∈ units "-") <|
  .seq (.char fun c => isDigit c && c ∉ units "0") <|
  .seq (.repeated (.char isDigit) 0 (some 9)) .atEnd

def FIELD_PATTERNS : List (String × Regex CodeUnit) :=
  [("issueKeys", issueKey),
    ("messageIds", wholly (alphanumericOr "._:-") 1 128),
    ("eventIds", wholly (alphanumericOr "_-") 1 256),
    ("fileIds", wholly (alphanumericOr "_-") 6 128),
    ("pageIds", wholly isDigit 1 20),
    ("itemIds", wholly (alphanumericOr "._/#:-") 1 200)]

/-- Whether a text is a closed-format id of a field. -/
def isProjectedId (field : String) (value : JsString) : Bool :=
  match FIELD_PATTERNS.lookup field with
  | some pattern => pattern.test (· == ·) value
  | none => false

/-! ## The projector -/

/-- A listed item, as far as the projector reads it: its id is a text, it has none (or is no object),
or reading it throws. -/
inductive AgentRawItem where
  | id (text : JsString)
  | unidentified
  | throwing
  deriving DecidableEq

structure StructureProjection where
  entryId : NlWave1EntryId
  source : String
  origin : String
  field : Option String
  ids : List JsString
  slots : List (Option JsString)
  itemCount : ℕ
  dropped : ℕ
  label : FlowLabel
  deriving DecidableEq

/-- The rows read so far. The set `seen` of the source holds the ids, so it is not kept twice. -/
structure ProjectedRows where
  ids : List JsString
  slots : List (Option JsString)
  dropped : ℕ
  deriving DecidableEq

namespace ProjectedRows

def empty : ProjectedRows := ⟨[], [], 0⟩

def drop (rows : ProjectedRows) : ProjectedRows :=
  { rows with slots := rows.slots ++ [none], dropped := rows.dropped + 1 }

def keep (rows : ProjectedRows) (id : JsString) : ProjectedRows :=
  { rows with ids := rows.ids ++ [id], slots := rows.slots ++ [some id] }

/-- The loop of the projector; `none` when reading an id throws. -/
def read (field : String) : ProjectedRows → List AgentRawItem → Option ProjectedRows
  | rows, [] => some rows
  | _, .throwing :: _ => none
  | rows, .unidentified :: rest => rows.drop.read field rest
  | rows, .id text :: rest =>
    if !isProjectedId field text || text ∈ rows.ids then rows.drop.read field rest
    else (rows.keep text).read field rest

end ProjectedRows

/-- `items` is `none` when the port returned no array there. -/
def projectStructure (entryId : NlWave1EntryId) (items : Option (List AgentRawItem)) :
    Option StructureProjection :=
  let binding := AGENT_READ_SOURCES entryId
  let output := readOutputLabel entryId
  let label : FlowLabel := ⟨.structured, output.egress, output.scope, output.sources⟩
  let list := items.getD []
  match binding.refField with
  | none => some ⟨entryId, binding.source, binding.origin, none, [], list.map fun _ => none, list.length, 0,
      label⟩
  | some field =>
    (ProjectedRows.empty.read field list).map fun rows =>
      ⟨entryId, binding.source, binding.origin, some field, rows.ids, rows.slots, list.length, rows.dropped,
        label⟩

/-! ## What a projection holds -/

/-- The ids are closed-format, listed once each, and every filled slot holds one of them. -/
structure ProjectedRows.Sound (field : String) (rows : ProjectedRows) : Prop where
  shaped : ∀ id ∈ rows.ids, isProjectedId field id
  distinct : rows.ids.Nodup
  slotted : ∀ id, some id ∈ rows.slots → id ∈ rows.ids
  counted : rows.ids.length + rows.dropped = rows.slots.length

namespace ProjectedRows

variable {field : String} {rows next : ProjectedRows}

theorem Sound.empty (field : String) : Sound field empty := by
  constructor <;> simp [ProjectedRows.empty]

theorem Sound.drop (h : rows.Sound field) : rows.drop.Sound field := by
  refine ⟨h.shaped, h.distinct, fun id hid => ?_, ?_⟩
  · refine h.slotted id ?_
    simpa [ProjectedRows.drop] using hid
  · have hcounted := h.counted
    simp only [ProjectedRows.drop, List.length_append, List.length_singleton]
    omega

theorem Sound.keep {text : JsString} (h : rows.Sound field) (hid : isProjectedId field text)
    (hnew : text ∉ rows.ids) : (rows.keep text).Sound field := by
  constructor
  · intro id hmem
    rcases List.mem_append.mp hmem with hold | hlast
    · exact h.shaped id hold
    · rw [List.mem_singleton.mp hlast]
      exact hid
  · rw [show (rows.keep text).ids = rows.ids ++ [text] from rfl, List.nodup_append]
    refine ⟨h.distinct, by simp, fun id hmem other hother => ?_⟩
    rw [List.mem_singleton.mp hother]
    exact fun heq => hnew (heq ▸ hmem)
  · intro id hmem
    rcases List.mem_append.mp hmem with hold | hlast
    · exact List.mem_append_left _ (h.slotted id hold)
    · cases List.mem_singleton.mp hlast
      exact List.mem_append_right _ (List.mem_singleton_self text)
  · have hcounted := h.counted
    simp only [ProjectedRows.keep, List.length_append, List.length_singleton]
    omega

theorem Sound.read {items : List AgentRawItem} (h : rows.Sound field)
    (hread : rows.read field items = some next) : next.Sound field := by
  induction items generalizing rows with
  | nil =>
    cases hread
    exact h
  | cons item rest ih =>
    cases item with
    | throwing => simp [ProjectedRows.read] at hread
    | unidentified => exact ih h.drop hread
    | id text =>
      rw [ProjectedRows.read] at hread
      split at hread
      · exact ih h.drop hread
      · rename_i hgood
        simp only [Bool.or_eq_true, Bool.not_eq_true', decide_eq_true_eq, not_or,
          Bool.not_eq_false] at hgood
        exact ih (h.keep hgood.1 hgood.2) hread

theorem read_slots {items : List AgentRawItem} (hread : rows.read field items = some next) :
    next.slots.length = rows.slots.length + items.length := by
  induction items generalizing rows with
  | nil =>
    cases hread
    rfl
  | cons item rest ih =>
    have hdrop : rows.drop.slots.length = rows.slots.length + 1 := by simp [drop]
    have hkeep : ∀ text, (rows.keep text).slots.length = rows.slots.length + 1 := by simp [keep]
    cases item with
    | throwing => simp [ProjectedRows.read] at hread
    | unidentified =>
      have h := ih hread
      simp only [List.length_cons]
      omega
    | id text =>
      rw [ProjectedRows.read] at hread
      split at hread <;>
      · have h := ih hread
        specialize hkeep text
        simp only [List.length_cons]
        omega

end ProjectedRows

section

variable {entryId : NlWave1EntryId} {items : Option (List AgentRawItem)}
  {projection : StructureProjection}

/-- A projection is bound to the source, the origin and the id field of its entry. -/
theorem projectStructure_bound (h : projectStructure entryId items = some projection) :
    projection.entryId = entryId ∧ projection.source = (AGENT_READ_SOURCES entryId).source ∧
      projection.origin = (AGENT_READ_SOURCES entryId).origin ∧
      projection.field = (AGENT_READ_SOURCES entryId).refField := by
  simp only [projectStructure] at h
  split at h
  · rename_i hfield
    cases h
    exact ⟨rfl, rfl, rfl, hfield.symm⟩
  · rename_i field hfield
    obtain ⟨rows, -, rfl⟩ := Option.map_eq_some_iff.mp h
    exact ⟨rfl, rfl, rfl, hfield.symm⟩

/-- Every projected id has the closed shape of the projected field, and is listed once. -/
theorem projectStructure_ids (h : projectStructure entryId items = some projection) :
    projection.ids.Nodup ∧
      ∀ id ∈ projection.ids, ∃ field, projection.field = some field ∧ isProjectedId field id := by
  simp only [projectStructure] at h
  split at h
  · cases h
    exact ⟨List.nodup_nil, by simp⟩
  · rename_i field _
    obtain ⟨rows, hread, rfl⟩ := Option.map_eq_some_iff.mp h
    have hsound := (ProjectedRows.Sound.empty field).read hread
    exact ⟨hsound.distinct, fun id hid => ⟨field, rfl, hsound.shaped id hid⟩⟩

/-- There is one slot for each listed row, and a filled slot holds a projected id. -/
theorem projectStructure_slots (h : projectStructure entryId items = some projection) :
    projection.slots.length = projection.itemCount ∧
      ∀ id, some id ∈ projection.slots → id ∈ projection.ids := by
  simp only [projectStructure] at h
  split at h
  · cases h
    exact ⟨List.length_map _, by simp⟩
  · rename_i field _
    obtain ⟨rows, hread, rfl⟩ := Option.map_eq_some_iff.mp h
    have hsound := (ProjectedRows.Sound.empty field).read hread
    refine ⟨?_, hsound.slotted⟩
    simpa [ProjectedRows.empty] using ProjectedRows.read_slots hread

end

end QuokyPlatform.AgentRuns
