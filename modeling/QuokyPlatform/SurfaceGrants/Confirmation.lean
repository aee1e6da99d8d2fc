import Mathlib.Logic.Function.Basic
import QuokyPlatform.SurfaceGrants.Record

/-!
# Asking for a grant and confirming it

The owner asks for a grant in a channel; the question waits in the session row until the
confirmation phrase. A turn that met a question removes it under the session lock, and only then
grants under the actor lock. Between the two, other turns, revokes, seeds and kill-switch writes
may run.
-/

namespace QuokyPlatform.SurfaceGrants
set_option autoImplicit false
set_option maxHeartbeats 250000

def SURFACE_GRANTS_METADATA_KEY : String := "quoky.surfaceGrants"
def ACTION_SWITCH_METADATA_KEY : String := "quoky.actionSwitch"
def SURFACE_GRANT_PENDING_METADATA_KEY : String := "quoky.grantPending"
def SURFACE_GRANT_CONFIRM_TTL_MS : ℤ := 2 * 60 * 1000

/-! ## Actors, conversations and questions -/

abbrev Metadata := PlainObject String Json

structure ActorIdentity where
  platform : String
  externalId : String
  deriving DecidableEq, Repr

structure Actor where
  id : Id
  identities : List ActorIdentity
  metadata : Metadata

inductive SessionStatus where
  | ACTIVE
  | CLOSED
  deriving DecidableEq, Repr

structure Session where
  id : Id
  status : SessionStatus
  metadata : Metadata

structure ConversationContext where
  platform : String
  spaceId : Option String
  channelId : String
  userId : String
  direct : Bool
  deriving DecidableEq, Repr

/-- The owner ids of the configuration. -/
structure OwnerConfig where
  discordOwnerIds : List String
  telegramOwnerIds : List String

/-- The actor holds the identity of the message, and it is a configured owner id. -/
def surfaceOwnerCheck (config : OwnerConfig) (actor : Actor) (context : ConversationContext) :
    Bool :=
  let holds := actor.identities.any fun identity =>
    identity.platform = context.platform && identity.externalId = context.userId
  if !holds then false
  else if context.platform = "discord" then context.userId ∈ config.discordOwnerIds
  else if context.platform = "telegram" then context.userId ∈ config.telegramOwnerIds
  else false

def surfaceChannelKey (context : ConversationContext) : String :=
  context.platform ++ ":" ++ context.spaceId.getD "-" ++ ":" ++ context.channelId

/-- Whether a text is a channel key: three parts, none of them empty. -/
def parsesAsChannelKey (key : String) : Bool :=
  match key.toList.splitOn ':' with
  | [platform, space, channel] => platform ≠ [] && space ≠ [] && channel ≠ []
  | _ => false

/-- The grant that waits for the confirmation. -/
structure SurfaceGrantPending where
  id : String
  key : String
  groups : List SurfaceGroupId
  expiresAt : String
  userId : String
  grantsDigest : String
  switchDigest : String
  deriving DecidableEq, Repr

def SurfaceGrantPending.json (pending : SurfaceGrantPending) : Json :=
  .obj [("v", .num 1), ("id", .str pending.id), ("key", .str pending.key),
    ("groups", .arr (pending.groups.map fun id => .str id.text)),
    ("expiresAt", .str pending.expiresAt), ("userId", .str pending.userId),
    ("grantsDigest", .str pending.grantsDigest), ("switchDigest", .str pending.switchDigest)]

section
variable (host : Host)

def surfaceSwitchDigest (metadata : Metadata) : String :=
  host.sha256Canonical "quoky.actionSwitch.basis.v1"
    ((metadata.get ACTION_SWITCH_METADATA_KEY).getD .null)

def surfaceGrantsDigest (record : SurfaceGrantRecord) : String :=
  host.sha256Canonical "quoky.surfaceGrants.basis.v1" (serializeSurfaceGrants record)

/-- Every listed value names a grantable group. -/
def listsOnlyGrantable (listed : List Json) : Bool :=
  listed.all fun value =>
    match value.text.bind surfaceGroupOf with
    | some id => isGrantableSurfaceGroup id
    | none => false

/-- The question a stored value holds; anything malformed is none. -/
def readSurfaceGrantPending (raw : Json) : Option SurfaceGrantPending :=
  match raw.field "v", raw.field "key", raw.field "id", raw.field "expiresAt",
    raw.field "groups", raw.field "userId", raw.field "grantsDigest", raw.field "switchDigest" with
  | some (.num 1), some (.str key), some (.str id), some (.str expiresAt), some (.arr listed),
    some (.str userId), some (.str grantsDigest), some (.str switchDigest) =>
    if parsesAsChannelKey key && 0 < utf16Length id && utf16Length id ≤ 64 &&
        (host.parseDate expiresAt).isSome && listedGroups listed ≠ [] && listsOnlyGrantable listed &&
        0 < utf16Length userId && isSha256Hex grantsDigest && isSha256Hex switchDigest then
      some ⟨id, key, listedGroups listed, expiresAt, userId, grantsDigest, switchDigest⟩
    else none
  | _, _, _, _, _, _, _, _ => none

end

/-! ## The two locked writers -/

/-- The live row of a session, if it is there and active. -/
def liveSession (sessions : Id → Option Session) (id : Id) : Option Session :=
  (sessions id).filter fun session => session.status = .ACTIVE

/-- One key of a metadata object set to what an update returns, or removed. -/
def withMetadataEntry (metadata : Metadata) (key : String) (next : Option Json) : Metadata :=
  match next with
  | some value => metadata.set key value
  | none => metadata.delete key

/-- One key of the live session row is replaced; `none` when there is no active row. -/
def updateSessionEntry (sessions : Id → Option Session) (id : Id) (key : String)
    (update : Option Json → Option Json) : Option (Id → Option Session) :=
  (liveSession sessions id).map fun live =>
    Function.update sessions id (some { live with
      metadata := withMetadataEntry live.metadata key (update (live.metadata.get key)) })

/-- One key of the live actor is replaced; the fallback stands for an actor without a row. -/
def updateActorEntry (actors : Id → Option Actor) (id : Id) (key : String)
    (update : Option Json → Actor → Option Json) (fallback : Option Actor) :
    Option (Id → Option Actor) :=
  ((actors id).or fallback).map fun live =>
    Function.update actors id (some { live with
      metadata := withMetadataEntry live.metadata key (update (live.metadata.get key) live) })

/-! ## The steps of a turn -/

/-- One inbound message as the confirmation sees it. The actor is the copy the turn read, `confirm`
whether the text is the confirmation phrase, and `now` the time of the clock. -/
structure Turn where
  session : Id
  actor : Actor
  context : ConversationContext
  confirm : Bool
  cancelOnly : Bool
  now : String

inductive PendingReply where
  | noPending
  | writeFailed
  | expired
  | stale
  | channelLimit
  | alreadyGranted
  | granted (changed : List SurfaceGroupId)
  deriving DecidableEq, Repr

/-- What the turn ends with; `routes` is `undefined`. -/
inductive SurfaceGrantPendingResult where
  | routes
  | cleared
  | reply (reply : PendingReply)
  deriving DecidableEq, Repr

/-- Where a turn stands: it met a stored value, its removal of a question was saved and it is about
to grant, or it is over. -/
inductive Phase where
  | met (seen : Json)
  | granting (consumed : SurfaceGrantPending)
  | finished (result : SurfaceGrantPendingResult)

section
variable (host : Host) (config : OwnerConfig)

/-- The confirmation phrase, in a turn that may confirm. -/
def Turn.confirms (turn : Turn) : Bool := !turn.cancelOnly && turn.confirm

def Turn.owner (turn : Turn) : Bool := surfaceOwnerCheck config turn.actor turn.context

/-- The turn up to the removal, with the value its first read saw. -/
def Turn.begin (turn : Turn) (seen : Option Json) : Phase :=
  match seen with
  | some raw => .met raw
  | none =>
    if turn.cancelOnly || !turn.confirms || turn.context.direct || !turn.owner config then
      .finished .routes
    else .finished (.reply .noPending)

/-- The update under the session lock: the next value, the question taken and whether the stored
value was removed. A question that replaced the expected one is left as it is. -/
def takePending (expectedId : Option String) (current : Option Json) :
    Option Json × Option SurfaceGrantPending × Bool :=
  let live := current.bind (readSurfaceGrantPending host)
  if live.map SurfaceGrantPending.id ≠ expectedId then (current, none, false)
  else (none, live, true)

/-- The turn after the removal. -/
def Turn.afterRemoval (turn : Turn) (committed removed : Bool)
    (consumed : Option SurfaceGrantPending) : Phase :=
  if !turn.confirms || !turn.owner config then
    .finished (if !committed || !removed then .routes else .cleared)
  else if !committed then .finished (.reply .writeFailed)
  else
    match consumed with
    | none => .finished (.reply .noPending)
    | some pending =>
      if pending.key ≠ surfaceChannelKey turn.context || pending.userId ≠ turn.context.userId then
        .finished (.reply .noPending)
      else if Date.lt (host.parseDate pending.expiresAt) (host.parseDate turn.now) then
        .finished (.reply .expired)
      else .granting pending

/-- The change under the actor lock: the record to store, and the reply once it is stored. -/
def grantChange (turn : Turn) (basis : SurfaceGrantPending) (record : SurfaceGrantRecord)
    (live : Actor) : SurfaceGrantRecord × PendingReply :=
  if surfaceGrantsDigest host record ≠ basis.grantsDigest ||
      surfaceSwitchDigest host live.metadata ≠ basis.switchDigest then (record, .stale)
  else
    match withSurfaceGroupsGranted host record (surfaceChannelKey turn.context) basis.groups .owner
      turn.now with
    | .channelLimit => (record, .channelLimit)
    | .ok next changed =>
      (next, if changed = [] then .alreadyGranted else .granted changed)

/-- The record of a stored value that may be absent. -/
def readStored (current : Option Json) : SurfaceGrantRecord :=
  (current.map (readSurfaceGrants host)).getD EMPTY_SURFACE_GRANT_RECORD

/-- What an actor's metadata grants. -/
def grantsOf (actor : Actor) : SurfaceGrantRecord :=
  readStored host (actor.metadata.get SURFACE_GRANTS_METADATA_KEY)

/-! ## Asking -/

/-- A question to ask: the session and the channel it is asked in, the actor as the turn read it,
and the groups of the phrase. -/
structure Ask where
  session : Id
  actor : Actor
  context : ConversationContext
  groups : List SurfaceGroupId
  now : String

/-- The phrase is the owner's, in a channel, and names grantable groups only. -/
def Ask.accepted (ask : Ask) : Bool :=
  surfaceOwnerCheck config ask.actor ask.context && !ask.context.direct && ask.groups ≠ [] &&
    ask.groups.all isGrantableSurfaceGroup

/-- The question to save, if something is left to ask for and the clock's time is a date. -/
def askToConfirm (toISOString : ℤ → Option String) (ask : Ask) (id : String) :
    Option SurfaceGrantPending :=
  let record := grantsOf host ask.actor
  let key := surfaceChannelKey ask.context
  let already := grantedSurfaceGroups record key
  let wanted := ask.groups.filter fun id => id ∉ already
  if wanted = [] then none
  else if (record.channels.get key).isNone && SURFACE_GRANT_MAX_CHANNELS ≤ record.channels.size then
    none
  else
    ((host.parseDate ask.now).bind fun ms => toISOString (ms + SURFACE_GRANT_CONFIRM_TTL_MS)).map
      fun expiresAt =>
        { id
          key
          groups := SURFACE_GROUP_IDS.filter fun id => id ∈ wanted
          expiresAt
          userId := ask.context.userId
          grantsDigest := surfaceGrantsDigest host record
          switchDigest := surfaceSwitchDigest host ask.actor.metadata }

end

/-! ## The system -/

/-- What happened, as far as the questions and the grants on them go. -/
inductive Event where
  | asked (ask : Ask) (question : SurfaceGrantPending)
  | began (turn : ℕ)
  | removed (turn : ℕ) (question : SurfaceGrantPending)
  | removalFailed (turn : ℕ)
  | granted (turn : ℕ) (question : SurfaceGrantPending) (changed : List SurfaceGroupId)

/-- The rows, the turns by number, and the events, newest first. -/
structure World where
  sessions : Id → Option Session
  actors : Id → Option Actor
  turns : ℕ → Option (Turn × Phase)
  log : List Event

/-- The steps, each of them one read, one session update or one actor update; `saves` says whether
the save of the row succeeds. The actor of a step is the copy its turn read earlier. -/
inductive Action where
  | openSession (session : Id)
  | begin (number : ℕ) (turn : Turn)
  | remove (number : ℕ) (saves : Bool)
  | grant (number : ℕ) (saves : Bool)
  | ask (ask : Ask) (id : String) (saves : Bool)
  | revoke (actor : Actor) (key : String) (groups : List SurfaceGroupId) (now : String)
      (saves : Bool)
  | clearChannel (actor : Actor) (key : String) (now : String) (saves : Bool)
  | clearAll (actor : Actor) (now : String) (saves : Bool)
  | seed (actor : Id) (channels : SurfaceGrantSeed) (now : String) (saves : Bool)
  | switch (actor : Actor) (state : String) (now : String) (saves : Bool)

section
variable (host : Host) (config : OwnerConfig) (toISOString : ℤ → Option String)

/-- The stored value of a question, as a turn reads it. -/
def World.pending (world : World) (session : Id) : Option Json :=
  (world.sessions session).bind fun row => row.metadata.get SURFACE_GRANT_PENDING_METADATA_KEY

/-- The removal of a turn: the update of its session row, if the save succeeds. -/
def World.remove (world : World) (number : ℕ) (turn : Turn) (seen : Json) (saves : Bool) : World :=
  let expectedId := (readSurfaceGrantPending host seen).map SurfaceGrantPending.id
  let current := (liveSession world.sessions turn.session).bind fun live =>
    live.metadata.get SURFACE_GRANT_PENDING_METADATA_KEY
  let (_, taken, removed) := takePending host expectedId current
  match updateSessionEntry world.sessions turn.session SURFACE_GRANT_PENDING_METADATA_KEY
    (fun current => (takePending host expectedId current).1) with
  | some sessions =>
    if saves then
      { world with
        sessions
        turns := Function.update world.turns number
          (some (turn, turn.afterRemoval host config true removed taken))
        log := (taken.map fun question => .removed number question).toList ++ world.log }
    else
      { world with
        turns := Function.update world.turns number
          (some (turn, turn.afterRemoval host config false false none))
        log := .removalFailed number :: world.log }
  | none =>
    { world with
      turns := Function.update world.turns number
        (some (turn, turn.afterRemoval host config false false none))
      log := .removalFailed number :: world.log }

/-- An update of one key of an actor's metadata, if the save succeeds. -/
def World.updateActor (world : World) (id : Id) (key : String)
    (update : Option Json → Actor → Option Json) (fallback : Option Actor) (saves : Bool) : World :=
  match updateActorEntry world.actors id key update fallback with
  | some actors => if saves then { world with actors } else world
  | none => world

/-- The live actor of a writer, with the copy it read earlier as the fallback. -/
def World.live (world : World) (actor : Actor) : Actor := (world.actors actor.id).getD actor

/-- A locked change of the stored grants. -/
def World.write (world : World) (actor : Actor) (saves : Bool)
    (change : SurfaceGrantRecord → Actor → SurfaceGrantRecord) : World :=
  world.updateActor actor.id SURFACE_GRANTS_METADATA_KEY
    (fun current live => some (serializeSurfaceGrants (change (readStored host current) live)))
    (some actor) saves

/-- The grant of a turn. -/
def World.grant (world : World) (number : ℕ) (turn : Turn) (question : SurfaceGrantPending)
    (saves : Bool) : World :=
  let live := world.live turn.actor
  let reply := (grantChange host turn question (grantsOf host live) live).2
  { world.write host turn.actor saves
      (fun record live => (grantChange host turn question record live).1) with
    turns := Function.update world.turns number
      (some (turn, .finished (.reply (if saves then reply else .writeFailed))))
    log :=
      match saves, reply with
      | true, .granted changed => .granted number question changed :: world.log
      | _, _ => world.log }

/-- The question of an ask, saved in its session row. -/
def World.ask (world : World) (ask : Ask) (question : SurfaceGrantPending) (saves : Bool) : World :=
  match updateSessionEntry world.sessions ask.session SURFACE_GRANT_PENDING_METADATA_KEY
    (fun _ => some question.json) with
  | some sessions =>
    if saves then { world with sessions, log := .asked ask question :: world.log } else world
  | none => world

/-- No question was asked under the id. -/
def freshId (log : List Event) (id : String) : Bool :=
  log.all fun event =>
    match event with
    | .asked _ question => question.id ≠ id
    | _ => true

/-- The clock's time is a date. -/
def knownTime (now : String) : Bool := (host.parseDate now).isSome

def step (world : World) : Action → Option World
  | .openSession session =>
    if (world.sessions session).isNone then
      some { world with
        sessions := Function.update world.sessions session (some ⟨session, .ACTIVE, .empty⟩) }
    else none
  | .begin number turn =>
    if (world.turns number).isNone && knownTime host turn.now then
      some { world with
        turns := Function.update world.turns number
          (some (turn, turn.begin config (world.pending turn.session)))
        log := .began number :: world.log }
    else none
  | .remove number saves =>
    match world.turns number with
    | some (turn, .met seen) => some (world.remove host config number turn seen saves)
    | _ => none
  | .grant number saves =>
    match world.turns number with
    | some (turn, .granting question) => some (world.grant host number turn question saves)
    | _ => none
  | .ask ask id saves =>
    if ask.accepted config && freshId world.log id then
      match askToConfirm host toISOString ask id with
      | some question => some (world.ask ask question saves)
      | none => some world
    else none
  | .revoke actor key groups now saves =>
    some (world.write host actor saves fun record _ =>
      (withSurfaceGroupsRevoked host record key groups now).1)
  | .clearChannel actor key now saves =>
    some (world.write host actor saves fun record _ =>
      (withSurfaceChannelCleared host record key now).1)
  | .clearAll actor now saves =>
    some (world.write host actor saves fun record _ =>
      (withAllSurfaceGrantsCleared host record now).1)
  | .seed actor channels now saves =>
    some (world.updateActor actor SURFACE_GRANTS_METADATA_KEY
      (fun current _ =>
        let result := applySurfaceGrantSeed host (readStored host current) channels now
        if result.applied then some (serializeSurfaceGrants result.record) else current)
      none saves)
  | .switch actor state now saves =>
    some (world.updateActor actor.id ACTION_SWITCH_METADATA_KEY
      (fun _ _ => some (.obj [("state", .str state), ("at", .str now)])) (some actor) saves)

/-- No session holds a question yet, no turn began and nothing happened. -/
structure World.Initial (world : World) : Prop where
  pending : ∀ session, (world.pending session).bind (readSurfaceGrantPending host) = none
  turns : ∀ number, world.turns number = none
  log : world.log = []

end

end QuokyPlatform.SurfaceGrants
