import QuokyPlatform.Foundations.Date
import QuokyPlatform.Foundations.PlainObject
import QuokyPlatform.Foundations.Text

/-!
# The record of channel grants

Which capability groups the owner granted to which channel, with the digests of the applied seeds
and a note of the groups the owner revoked. The record is stored as JSON under one key of the
owner's metadata and read fail closed, entry by entry.
-/

namespace QuokyPlatform.SurfaceGrants
set_option autoImplicit false
set_option maxHeartbeats 250000

def SURFACE_GRANT_MAX_CHANNELS : ℕ := 16
def SURFACE_GRANT_MAX_SEEDS : ℕ := 32
def SURFACE_GRANT_MAX_REVOKED_CHANNELS : ℕ := 32

/-! ## Groups -/

inductive SurfaceGroupId where
  | chat | help | control | jiraMine | jiraProject | github | slackSearch | confluence | calendar
  | todo | reminder | memory | code | writes | mail | drive | brief | nlActions | agent
  deriving DecidableEq, Repr

inductive SurfaceGroupClass where
  | always
  | grantable
  | dmOnly
  deriving DecidableEq, Repr

def SURFACE_GROUP_IDS : List SurfaceGroupId :=
  [.chat, .help, .control, .jiraMine, .jiraProject, .github, .slackSearch, .confluence, .calendar,
    .todo, .reminder, .memory, .code, .writes, .mail, .drive, .brief, .nlActions, .agent]

def SurfaceGroupId.text : SurfaceGroupId → String
  | .chat => "chat"
  | .help => "help"
  | .control => "control"
  | .jiraMine => "jira-mine"
  | .jiraProject => "jira-project"
  | .github => "github"
  | .slackSearch => "slack-search"
  | .confluence => "confluence"
  | .calendar => "calendar"
  | .todo => "todo"
  | .reminder => "reminder"
  | .memory => "memory"
  | .code => "code"
  | .writes => "writes"
  | .mail => "mail"
  | .drive => "drive"
  | .brief => "brief"
  | .nlActions => "nl-actions"
  | .agent => "agent"

def surfaceGroupClass : SurfaceGroupId → SurfaceGroupClass
  | .chat | .help | .control => .always
  | .mail | .drive | .brief | .nlActions | .agent => .dmOnly
  | _ => .grantable

def isGrantableSurfaceGroup (id : SurfaceGroupId) : Bool := surfaceGroupClass id == .grantable

/-- The group a text names, if it is a group id. -/
def surfaceGroupOf (text : String) : Option SurfaceGroupId :=
  SURFACE_GROUP_IDS.find? fun id => id.text = text

/-! ## Data -/

inductive SurfaceGrantSource where
  | owner
  | seed
  deriving DecidableEq, Repr

def SurfaceGrantSource.text : SurfaceGrantSource → String
  | .owner => "owner"
  | .seed => "seed"

structure SurfaceGrantEntry where
  at' : String
  source : SurfaceGrantSource
  deriving DecidableEq, Repr

structure SurfaceGrantChannel where
  groups : PlainObject SurfaceGroupId SurfaceGrantEntry

/-- The groups the owner revoked in a channel, and when the note last changed. -/
structure SurfaceGrantRevokedNote where
  groups : List SurfaceGroupId
  at' : String
  deriving DecidableEq, Repr

/-- The record; an empty `revoked` stands for the absent property. -/
structure SurfaceGrantRecord where
  channels : PlainObject String SurfaceGrantChannel
  seeds : List String
  revoked : PlainObject String SurfaceGrantRevokedNote

def EMPTY_SURFACE_GRANT_RECORD : SurfaceGrantRecord := ⟨.empty, [], .empty⟩

/-- What the program takes from its host: `Date.parse` (`none` for `NaN`) and the canonical
SHA-256 digest of a domain and a shape. -/
structure Host where
  parseDate : String → Option ℤ
  sha256Canonical : String → Json → String

/-- A digest is written in hexadecimal. -/
def Host.WritesHex (host : Host) : Prop :=
  ∀ domain shape, isSha256Hex (host.sha256Canonical domain shape) = true

/-- A platform, a space and a channel, each of the allowed characters, joined by colons. -/
def CHANNEL_KEY_SHAPE (key : String) : Bool :=
  let other (c : Char) := c == '_' || c == '-'
  let lower (c : Char) := isLowerAscii c || isDigitAscii c || other c
  let name (c : Char) := isUpperAscii c || lower c || c == '.'
  let within (cs : List Char) (limit : ℕ) := 1 ≤ cs.length && cs.length ≤ limit
  match key.toList.splitOn ':' with
  | [platform, space, channel] =>
    platform.all lower && within platform 32 && space.all name && within space 64 &&
      channel.all name && within channel 64
  | _ => false

/-- The last `count` values. -/
def lastOf {α : Type} (count : ℕ) (values : List α) : List α := values.drop (values.length - count)

/-! ## Reading -/

section
variable (host : Host)

def sourceOf (text : String) : Option SurfaceGrantSource :=
  if text = "owner" then some .owner else if text = "seed" then some .seed else none

def readEntry (raw : Json) : Option SurfaceGrantEntry :=
  match raw.field "at", raw.field "source" with
  | some (.str at'), some (.str source) =>
    if (host.parseDate at').isSome then (sourceOf source).map fun source => ⟨at', source⟩ else none
  | _, _ => none

/-- A group that is not grantable is ignored. -/
def readGroup (groups : PlainObject SurfaceGroupId SurfaceGrantEntry) (field : String × Json) :
    PlainObject SurfaceGroupId SurfaceGrantEntry :=
  match surfaceGroupOf field.1 with
  | some id =>
    if isGrantableSurfaceGroup id then
      match readEntry host field.2 with
      | some entry => groups.set id entry
      | none => groups
    else groups
  | none => groups

def readChannel (key : String) (value : Json) : Option SurfaceGrantChannel :=
  match value.field "groups" with
  | some (.obj fields) =>
    let groups := fields.foldl (readGroup host) .empty
    if CHANNEL_KEY_SHAPE key && 0 < groups.size then some ⟨groups⟩ else none
  | _ => none

/-- One turn of the loop over the stored channels; a full table takes no more. -/
def addChannel (channels : PlainObject String SurfaceGrantChannel) (field : String × Json) :
    PlainObject String SurfaceGrantChannel :=
  if SURFACE_GRANT_MAX_CHANNELS ≤ channels.size then channels
  else
    match readChannel host field.1 field.2 with
    | some channel => channels.set field.1 channel
    | none => channels

def readSeeds (raw : Json) : List String :=
  match raw.field "seeds" with
  | some (.arr items) =>
    lastOf SURFACE_GRANT_MAX_SEEDS ((items.filterMap Json.text).filter isSha256Hex)
  | _ => []

/-- The grantable groups named in a list of values, in table order. -/
def listedGroups (listed : List Json) : List SurfaceGroupId :=
  SURFACE_GROUP_IDS.filter fun id =>
    isGrantableSurfaceGroup id && listed.any fun value => value.text = some id.text

def readNote (field : String × Json) : Option (String × SurfaceGrantRevokedNote) :=
  match field.2.field "groups", field.2.field "at" with
  | some (.arr listed), some (.str at') =>
    if CHANNEL_KEY_SHAPE field.1 && (host.parseDate at').isSome && listedGroups listed ≠ [] then
      some (field.1, ⟨listedGroups listed, at'⟩)
    else none
  | _, _ => none

/-- The first note changed no earlier than the second one. -/
def newerFirst (a b : String × SurfaceGrantRevokedNote) : Bool :=
  decide ((host.parseDate b.2.at').getD 0 ≤ (host.parseDate a.2.at').getD 0)

def readRevoked (raw : Json) : PlainObject String SurfaceGrantRevokedNote :=
  match raw.field "revoked" with
  | some (.obj fields) =>
    let notes := (fields.filterMap (readNote host)).mergeSort (newerFirst host)
    (notes.take SURFACE_GRANT_MAX_REVOKED_CHANNELS).foldl (fun revoked note =>
      revoked.set note.1 note.2) .empty
  | _ => .empty

/-- Read the stored value, fail closed, entry by entry. -/
def readSurfaceGrants (raw : Json) : SurfaceGrantRecord :=
  match raw.field "v" with
  | some (.num 1) =>
    { channels :=
        match raw.field "channels" with
        | some (.obj fields) => fields.foldl (addChannel host) .empty
        | _ => .empty
      seeds := readSeeds raw
      revoked := readRevoked host raw }
  | _ => EMPTY_SURFACE_GRANT_RECORD

/-! ## Writing -/

/-- The groups granted to one channel key, in table order. -/
def grantedSurfaceGroups (record : SurfaceGrantRecord) (key : String) : List SurfaceGroupId :=
  match record.channels.get key with
  | none => []
  | some channel => SURFACE_GROUP_IDS.filter fun id => (channel.groups.get id).isSome

def sortedKeys {V : Type} (object : PlainObject String V) : List String :=
  object.keys.mergeSort fun a b => decide (a ≤ b)

def entryJson (entry : SurfaceGrantEntry) : Json :=
  .obj [("at", .str entry.at'), ("source", .str entry.source.text)]

def channelJson (channel : SurfaceGrantChannel) : Json :=
  .obj [("groups", .obj (SURFACE_GROUP_IDS.filterMap fun id =>
    (channel.groups.get id).map fun entry => (id.text, entryJson entry)))]

def noteJson (note : SurfaceGrantRevokedNote) : Json :=
  .obj [("groups", .arr (note.groups.map fun id => .str id.text)), ("at", .str note.at')]

/-- The properties of an object by sorted key. -/
def sortedFields {V : Type} (write : V → Json) (object : PlainObject String V) :
    List (String × Json) :=
  (sortedKeys object).filterMap fun key => (object.get key).map fun value => (key, write value)

/-- A plain JSON copy for storage, with a stable key order. -/
def serializeSurfaceGrants (record : SurfaceGrantRecord) : Json :=
  .obj ([("v", .num 1), ("channels", .obj (sortedFields channelJson record.channels)),
    ("seeds", .arr (record.seeds.map Json.str))] ++
    if record.revoked.size = 0 then []
    else [("revoked", .obj (sortedFields noteJson record.revoked))])

/-! ## The revoked notes -/

inductive NoteOp where
  | add
  | remove
  deriving DecidableEq, Repr

/-- The note changed longest ago; of several the first. -/
def oldestNote : List (String × SurfaceGrantRevokedNote) → Option (String × SurfaceGrantRevokedNote)
  | [] => none
  | first :: rest => some (rest.foldl (fun a b =>
      if Date.lt (host.parseDate b.2.at') (host.parseDate a.2.at') then b else a) first)

/-- The loop that evicts notes until there is room for one; a round removes one note. -/
def evictOldest : ℕ → PlainObject String SurfaceGrantRevokedNote →
    PlainObject String SurfaceGrantRevokedNote
  | 0, revoked => revoked
  | rounds + 1, revoked =>
    if SURFACE_GRANT_MAX_REVOKED_CHANNELS ≤ revoked.size then
      match oldestNote host revoked.entries with
      | some oldest => evictOldest rounds (revoked.delete oldest.1)
      | none => revoked
    else revoked

/-- The groups noted for a channel. -/
def revokedGroups (record : SurfaceGrantRecord) (key : String) : List SurfaceGroupId :=
  ((record.revoked.get key).map SurfaceGrantRevokedNote.groups).getD []

/-- The record with `groups` noted as revoked for `key`, or no longer revoked; bounded. -/
def withRevokedNote (record : SurfaceGrantRecord) (key : String) (groups : List SurfaceGroupId)
    (op : NoteOp) (now : String) : SurfaceGrantRecord :=
  if groups = [] then record
  else
    let before := revokedGroups record key
    let current := match op with
      | .add => before ++ groups
      | .remove => before.filter fun id => id ∉ groups
    let revoked := record.revoked.delete key
    let ordered := SURFACE_GROUP_IDS.filter fun id => id ∈ current
    { record with
      revoked :=
        if ordered = [] then revoked
        else (evictOldest host revoked.size revoked).set key ⟨ordered, now⟩ }

/-! ## The operations -/

inductive SurfaceGrantChange where
  | ok (record : SurfaceGrantRecord) (changed : List SurfaceGroupId)
  /-- The channel limit is reached. -/
  | channelLimit

/-- One turn of the loop over the wanted groups; an existing grant keeps its date. -/
def grantGroup (source : SurfaceGrantSource) (now : String)
    (state : PlainObject SurfaceGroupId SurfaceGrantEntry × List SurfaceGroupId)
    (id : SurfaceGroupId) : PlainObject SurfaceGroupId SurfaceGrantEntry × List SurfaceGroupId :=
  if (state.1.get id).isSome then state else (state.1.set id ⟨now, source⟩, state.2 ++ [id])

/-- The groups of a channel; an absent one has none. -/
def groupsOf (record : SurfaceGrantRecord) (key : String) :
    PlainObject SurfaceGroupId SurfaceGrantEntry :=
  ((record.channels.get key).map SurfaceGrantChannel.groups).getD .empty

/-- Grant `groups` to `key`; grantable ones only. Refused past the channel limit. -/
def withSurfaceGroupsGranted (record : SurfaceGrantRecord) (key : String)
    (groups : List SurfaceGroupId) (source : SurfaceGrantSource) (now : String) :
    SurfaceGrantChange :=
  let wanted := groups.filter isGrantableSurfaceGroup
  if (record.channels.get key).isNone && SURFACE_GRANT_MAX_CHANNELS ≤ record.channels.size then
    .channelLimit
  else
    let (next, changed) := wanted.foldl (grantGroup source now) (groupsOf record key, [])
    if changed = [] then .ok record []
    else
      let granted := { record with channels := record.channels.set key ⟨next⟩ }
      .ok (withRevokedNote host granted key changed .remove now) changed

/-- One turn of the loop over the groups to revoke. -/
def revokeGroup (state : PlainObject SurfaceGroupId SurfaceGrantEntry × List SurfaceGroupId)
    (id : SurfaceGroupId) : PlainObject SurfaceGroupId SurfaceGrantEntry × List SurfaceGroupId :=
  if (state.1.get id).isNone then state else (state.1.delete id, state.2 ++ [id])

/-- Revoke `groups` from `key`; a channel left without grants is removed. -/
def withSurfaceGroupsRevoked (record : SurfaceGrantRecord) (key : String)
    (groups : List SurfaceGroupId) (now : String) : SurfaceGrantRecord × List SurfaceGroupId :=
  match record.channels.get key with
  | none => (record, [])
  | some current =>
    let (next, changed) := groups.foldl revokeGroup (current.groups, [])
    if changed = [] then (record, [])
    else
      let channels :=
        if next.size = 0 then record.channels.delete key else record.channels.set key ⟨next⟩
      (withRevokedNote host { record with channels := channels } key changed .add now, changed)

/-- Clear one channel; the seeds are kept. -/
def withSurfaceChannelCleared (record : SurfaceGrantRecord) (key : String) (now : String) :
    SurfaceGrantRecord × List SurfaceGroupId :=
  withSurfaceGroupsRevoked host record key (grantedSurfaceGroups record key) now

/-- Clear every channel; the seeds are kept. -/
def withAllSurfaceGrantsCleared (record : SurfaceGrantRecord) (now : String) :
    SurfaceGrantRecord × ℕ :=
  let keys := record.channels.keys
  let cleared := { record with channels := .empty }
  (keys.foldl (fun next key =>
    withRevokedNote host next key (grantedSurfaceGroups record key) .add now) cleared, keys.length)

/-! ## The seed -/

structure SurfaceGrantSeedChannel where
  key : String
  groups : List SurfaceGroupId
  deriving DecidableEq, Repr

/-- A deploy seed: its channels. -/
abbrev SurfaceGrantSeed := List SurfaceGrantSeedChannel

/-- Channels by key, groups in table order, duplicates dropped. -/
def canonicalSeed (seed : SurfaceGrantSeed) : SurfaceGrantSeed :=
  let keys := ((seed.map SurfaceGrantSeedChannel.key).eraseDups).mergeSort fun a b => decide (a ≤ b)
  keys.map fun key =>
    { key
      groups := SURFACE_GROUP_IDS.filter fun id =>
        seed.any fun channel => channel.key = key && channel.groups.contains id }

def surfaceGrantSeedDigest (seed : SurfaceGrantSeed) : String :=
  host.sha256Canonical "quoky.surfaceGrants.seed.v1" (.arr ((canonicalSeed seed).map fun channel =>
    .arr [.str channel.key, .arr (channel.groups.map fun id => .str id.text)]))

structure SurfaceGrantSeedResult where
  digest : String
  /-- False when the digest was already applied (nothing changed). -/
  applied : Bool
  record : SurfaceGrantRecord
  added : List SurfaceGrantSeedChannel
  /-- The added groups the owner had revoked. -/
  reAdded : List SurfaceGrantSeedChannel
  skippedForLimit : List String

/-- A channel with its groups, if there are any. -/
def listedChannel (key : String) (groups : List SurfaceGroupId) : List SurfaceGrantSeedChannel :=
  if groups = [] then [] else [⟨key, groups⟩]

/-- One turn of the loop over the channels of a seed. -/
def seedChannel (now : String) (result : SurfaceGrantSeedResult)
    (channel : SurfaceGrantSeedChannel) : SurfaceGrantSeedResult :=
  match withSurfaceGroupsGranted host result.record channel.key channel.groups .seed now with
  | .channelLimit =>
    { result with skippedForLimit := result.skippedForLimit ++ [channel.key] }
  | .ok record changed =>
    let revokedBefore := revokedGroups result.record channel.key
    let again := changed.filter fun id => id ∈ revokedBefore
    { result with
      record := record
      added := result.added ++ listedChannel channel.key changed
      reAdded := result.reAdded ++ listedChannel channel.key again }

/-- Apply a seed once per digest: it adds and never removes. -/
def applySurfaceGrantSeed (record : SurfaceGrantRecord) (seed : SurfaceGrantSeed) (now : String) :
    SurfaceGrantSeedResult :=
  let canonical := canonicalSeed seed
  let digest := surfaceGrantSeedDigest host canonical
  if digest ∈ record.seeds then ⟨digest, false, record, [], [], []⟩
  else
    let result := canonical.foldl (seedChannel host now) ⟨digest, true, record, [], [], []⟩
    { result with
      record := { result.record with
        seeds := lastOf SURFACE_GRANT_MAX_SEEDS (result.record.seeds ++ [digest]) } }

end

end QuokyPlatform.SurfaceGrants
