import Mathlib.Data.List.Sort
import QuokyPlatform.NlRouting.References

/-! # The last listings of an actor

A session keeps, for each actor, the listing last shown of each source, the listings that were replied to
on the platform, and tombstones of those that can no longer be picked from. Every write cleans the states
of all actors; a message that replies to a listing is answered from the listing whose delivered reply it
names. A stored value is taken as its decoded records: what is malformed there is absent. -/

namespace QuokyPlatform.Listings
open Chunking (JsString)
open NlRouting (ItemSource SLOTS ListingItem ListingSlot AnyListingReplyMatch Reading
  youngerThan ageMs LAST_LISTING_TTL_MS LISTING_REPLY_TTL_MS)

set_option autoImplicit false
set_option maxHeartbeats 250000

/-! ## Records -/

abbrev Id := NlRouting.Id

abbrev IsoTimestamp := NlRouting.IsoTimestamp

structure Entry where
  source : ItemSource
  ids : List Id
  writtenAt : IsoTimestamp
  requestId : Option JsString
  replyIds : Option (List JsString)
  labels : Option (List ℕ)
  filtered : Bool
  deriving DecidableEq

/-- A listing that can no longer be picked from: only which replies it had. -/
structure Tombstone where
  source : ItemSource
  writtenAt : IsoTimestamp
  replyIds : List JsString
  deriving DecidableEq

structure ActorState where
  slots : ItemSource → Option Entry
  replied : List Entry
  expired : List Tombstone

def ActorState.empty : ActorState := ⟨fun _ => none, [], []⟩

/-- The state of every actor, in the order of the record. -/
abbrev ListingValue := List (Id × ActorState)

def LAST_LISTING_MAX_ACTORS : ℕ := 64
def LISTING_REPLY_TOMBSTONE_MS : ℤ := 7 * 24 * 60 * 60000
def LISTING_REPLIED_MAX : ℕ := 8
def LISTING_TOMBSTONES_MAX : ℕ := 64
def MAX_IDS : ℕ := 50
def MAX_ID_CHARS : ℕ := 512
def MAX_REPLY_IDS : ℕ := 16
def MAX_REPLY_ID_CHARS : ℕ := 256
def MAX_LABEL : ℕ := 1000000

/-- `list.slice(-count)` -/
def lastOf {α : Type} (count : ℕ) (list : List α) : List α := list.drop (list.length - count)

/-! ## Reading a stored record -/

def boundedText (max : ℕ) (text : JsString) : Bool := 0 < text.length && text.length ≤ max

def boundedIds (max maxChars : ℕ) (ids : List JsString) : Bool :=
  ids.length ≤ max && ids.all (boundedText maxChars)

def boundedLabels (count : ℕ) (labels : List ℕ) : Bool :=
  labels.length = count && labels.all (fun label => 1 ≤ label && label ≤ MAX_LABEL) && labels.Nodup

section

variable (reading : Reading)

/-- A stored entry, or nothing when it is malformed. A malformed request or reply id is left out. -/
def entryOf (source : Option ItemSource) (allowEmptyIds : Bool) (raw : Entry) : Option Entry :=
  if source.any (· ≠ raw.source) then none
  else if (reading.parse raw.writtenAt).isNone then none
  else if !boundedIds MAX_IDS MAX_ID_CHARS raw.ids || (raw.ids.length = 0 && !allowEmptyIds && !raw.filtered)
    then none
  else if raw.labels.any (fun labels => !boundedLabels raw.ids.length labels) then none
  else some { raw with
    requestId := raw.requestId.filter (boundedText MAX_REPLY_ID_CHARS)
    replyIds := raw.replyIds.filter fun ids =>
      boundedIds MAX_REPLY_IDS MAX_REPLY_ID_CHARS ids && ids.length > 0 }

def tombstoneOf (source : Option ItemSource) (raw : Tombstone) : Option Tombstone :=
  if source.any (· ≠ raw.source) then none
  else if (reading.parse raw.writtenAt).isNone then none
  else if boundedIds MAX_REPLY_IDS MAX_REPLY_ID_CHARS raw.replyIds && raw.replyIds.length > 0 then some raw
  else none

def fresh (writtenAt now : IsoTimestamp) : Bool := youngerThan reading LAST_LISTING_TTL_MS writtenAt now

/-- The time a sort compares. -/
def timeOf (writtenAt : IsoTimestamp) : ℤ := (reading.parse writtenAt).getD 0

/-- Oldest first; equal times keep their order. -/
def byAge {α : Type} (writtenAt : α → IsoTimestamp) (entries : List α) : List α :=
  entries.insertionSort fun a b => timeOf reading (writtenAt a) ≤ timeOf reading (writtenAt b)

def Entry.tombstone (entry : Entry) : Tombstone := ⟨entry.source, entry.writtenAt, entry.replyIds.getD []⟩

/-- The listing has reply ids and was written at a time that is not in the future. -/
def settles (now : IsoTimestamp) (entry : Entry) : Bool :=
  entry.replyIds.isSome && (ageMs reading entry.writtenAt now).any fun age => 0 ≤ age

/-- It can still be picked from. -/
def lives (now : IsoTimestamp) (entry : Entry) : Bool :=
  youngerThan reading LISTING_REPLY_TTL_MS entry.writtenAt now && entry.ids.length > 0

structure Settled where
  replied : List Entry
  expired : List Tombstone

/-- The replied-to listings and tombstones as they are kept: the newest live listings, and a tombstone of
every other one that is not too old. -/
def settle (candidates : List Entry) (tombstones : List Tombstone) (now : IsoTimestamp) : Settled :=
  let counted := candidates.filter (settles reading now)
  let ordered := byAge reading Entry.writtenAt (counted.filter (lives reading now))
  let evicted := ordered.take (ordered.length - LISTING_REPLIED_MAX)
  let dead := tombstones ++ (counted.filter fun entry => !lives reading now entry).map Entry.tombstone ++
    evicted.map Entry.tombstone
  { replied := lastOf LISTING_REPLIED_MAX ordered
    expired := lastOf LISTING_TOMBSTONES_MAX (byAge reading Tombstone.writtenAt (dead.filter fun tombstone =>
      tombstone.replyIds.length > 0 &&
        youngerThan reading LISTING_REPLY_TOMBSTONE_MS tombstone.writtenAt now)) }

/-- The slot as it is stored, checked. -/
def slotOf (raw : ActorState) (slot : ItemSource) : Option Entry :=
  (raw.slots slot).bind (entryOf reading (some slot) false)

/-- One actor's state: fresh slots; an aged slot is settled with the replied-to listings. -/
def actorStateOf (raw : ActorState) (now : IsoTimestamp) : ActorState :=
  let replied := (lastOf (LISTING_REPLIED_MAX * 2) raw.replied).filterMap (entryOf reading none true)
  let tombstones := (lastOf (LISTING_TOMBSTONES_MAX * 2) raw.expired).filterMap (tombstoneOf reading none)
  let aged := SLOTS.filterMap fun slot =>
    (slotOf reading raw slot).filter fun entry => !fresh reading entry.writtenAt now
  let settled := settle reading (replied ++ aged) tombstones now
  { slots := fun slot => (slotOf reading raw slot).filter fun entry => fresh reading entry.writtenAt now
    replied := settled.replied
    expired := settled.expired }

/-- Nothing is written of an empty state. -/
def ActorState.isEmpty (state : ActorState) : Bool :=
  SLOTS.all (fun slot => (state.slots slot).isNone) && state.replied.isEmpty && state.expired.isEmpty

/-! ## Writing -/

/-- The oldest states go while there are too many; the actor's own one is the last. -/
def dropOldest (own : ListingValue) : ListingValue → ListingValue
  | [] => own
  | other :: others =>
    if (other :: others ++ own).length > LAST_LISTING_MAX_ACTORS then dropOldest own others
    else other :: others ++ own

/-- The state of an actor as a write finds it. -/
def ownState (current : ListingValue) (actorId : Id) (now : IsoTimestamp) : ActorState :=
  actorStateOf reading ((current.lookup actorId).getD .empty) now

def rewrite (current : ListingValue) (actorId : Id) (now : IsoTimestamp) (own : ActorState) : ListingValue :=
  let others := (current.filter fun entry => entry.1 ≠ actorId).filterMap fun entry =>
    let state := actorStateOf reading entry.2 now
    if state.isEmpty then none else some (entry.1, state)
  dropOldest (if own.isEmpty then [] else [(actorId, own)]) others

def ActorState.setSlot (state : ActorState) (source : ItemSource) (entry : Option Entry) : ActorState :=
  { state with slots := fun slot => if slot = source then entry else state.slots slot }

/-- A slot is replaced; the listing it held moves to the replied-to ones if its reply was delivered. -/
def replaceSlot (own : ActorState) (source : ItemSource) (entry : Option Entry) (now : IsoTimestamp) :
    ActorState :=
  let replied := match own.slots source with
    | some previous => if previous.replyIds.isSome then own.replied ++ [previous] else own.replied
    | none => own.replied
  let settled := settle reading replied own.expired now
  { own.setSlot source entry with replied := settled.replied, expired := settled.expired }

def requestOf (requestId : Option JsString) : Option JsString :=
  requestId.filter (boundedText MAX_REPLY_ID_CHARS)

/-- The entry a shown listing is kept as. -/
def listingEntry (source : ItemSource) (ids : List Id) (now : IsoTimestamp) (requestId : Option JsString) :
    Option Entry :=
  if ids.length > 0 then some ⟨source, ids.take MAX_IDS, now, requestOf requestId, none, none, false⟩ else none

def withListing (current : ListingValue) (actorId : Id) (source : ItemSource) (ids : List Id)
    (now : IsoTimestamp) (requestId : Option JsString) : ListingValue :=
  rewrite reading current actorId now (replaceSlot reading (ownState reading current actorId now) source
    (listingEntry source ids now requestId) now)

/-! ## Labelled listings -/

inductive LabelledListingMode where
  | listing | merge
  deriving DecidableEq

/-- The shown items: labels, or positions from 1 on, with their ids. -/
def listingItems (ids : List Id) (labels : Option (List ℕ)) : List ListingItem :=
  ids.mapIdx fun index id => ⟨(labels.bind (·[index]?)).getD (index + 1), id⟩

/-- Well-formed items, each label once: the first item of a label counts. -/
def validItems (items : List ListingItem) : List ListingItem :=
  (items.zipIdx.filter fun entry => 1 ≤ entry.1.label && entry.1.label ≤ MAX_LABEL &&
    boundedText MAX_ID_CHARS entry.1.id &&
    items.findIdx (fun other => other.label = entry.1.label) = entry.2).map Prod.fst

/-- New items over kept ones: a kept label stays where it is and takes the new item of its label. -/
def mergedItems (kept valid : List ListingItem) : List ListingItem :=
  kept.map (fun item => (valid.find? fun next => next.label = item.label).getD item) ++
    valid.filter fun item => !kept.any fun existing => existing.label = item.label

/-- The items a labelled write keeps over the previous listing of the slot. -/
def shownItems (previous : Option Entry) (mode : LabelledListingMode) (items : List ListingItem) :
    List ListingItem :=
  (match mode, previous with
    | .merge, some previous => mergedItems (listingItems previous.ids previous.labels) (validItems items)
    | _, _ => validItems items).take MAX_IDS

/-- The entry of a labelled write; `none` leaves no listing. An empty filtered view stays as a marker. -/
def labelledEntry (source : ItemSource) (previous : Option Entry) (items : List ListingItem)
    (now : IsoTimestamp) (mode : LabelledListingMode) (requestId : Option JsString) (filtered : Bool) :
    Option Entry :=
  let merged := shownItems previous mode items
  if merged.length = 0 then
    match mode with
    | .listing => if filtered then some ⟨source, [], now, requestOf requestId, none, some [], true⟩ else none
    | .merge => previous
  else some ⟨source, merged.map ListingItem.id, now, requestOf requestId, none,
    some (merged.map ListingItem.label), if mode = .listing then filtered else previous.any Entry.filtered⟩

def withLabelledListing (current : ListingValue) (actorId : Id) (source : ItemSource)
    (items : List ListingItem) (now : IsoTimestamp) (mode : LabelledListingMode)
    (requestId : Option JsString) (filtered : Bool) : ListingValue :=
  let own := ownState reading current actorId now
  rewrite reading current actorId now (replaceSlot reading own source
    (labelledEntry source (own.slots source) items now mode requestId filtered) now)

/-! ## Delivered replies -/

/-- The well-formed reply ids, each once. -/
def cleanReplyIds (replyIds : List JsString) : List JsString :=
  ((replyIds.filter (boundedText MAX_REPLY_ID_CHARS)).foldl
    (fun seen id => if id ∈ seen then seen else seen ++ [id]) []).take MAX_REPLY_IDS

/-- The entry the delivered reply is recorded at: the current one of the source, if that request asked
for it. -/
def repliedEntry (own : ActorState) (source : ItemSource) (requestId : JsString)
    (replyIds : List JsString) : Option Entry :=
  (own.slots source).filter fun entry =>
    entry.requestId = some requestId && (cleanReplyIds replyIds).length ≠ 0

def withListingReplies (current : ListingValue) (actorId : Id) (source : ItemSource) (requestId : JsString)
    (replyIds : List JsString) (now : IsoTimestamp) : ListingValue × Bool :=
  let own := ownState reading current actorId now
  match repliedEntry own source requestId replyIds with
  | none => (current, false)
  | some entry =>
    let bound : Entry := { entry with replyIds := some (cleanReplyIds replyIds) }
    (rewrite reading current actorId now (own.setSlot source (some bound)), true)

/-! ## Looking a reply up -/

inductive ListingReplyMatch where
  | listing (writtenAt : IsoTimestamp) (ids : List Id) (labels : Option (List ℕ))
  | expired
  deriving DecidableEq

/-- The newest listing of the source whose reply had that id. -/
def repliedHit (raw : ActorState) (source : ItemSource) (replyMessageId : JsString) : Option Entry :=
  let candidates := (slotOf reading raw source).toList ++
    (lastOf (LISTING_REPLIED_MAX * 2) raw.replied).filterMap (entryOf reading (some source) true)
  ((candidates.filter fun entry => entry.replyIds.any (replyMessageId ∈ ·)).insertionSort fun a b =>
    timeOf reading b.writtenAt ≤ timeOf reading a.writtenAt).head?

def findListingByReply (value : ListingValue) (actorId : Id) (source : ItemSource)
    (replyMessageId : JsString) (now : IsoTimestamp) : Option ListingReplyMatch :=
  if replyMessageId.length = 0 then none
  else
    let raw := (value.lookup actorId).getD .empty
    let dead := (lastOf (LISTING_TOMBSTONES_MAX * 2) raw.expired).any fun item =>
      (tombstoneOf reading (some source) item).any fun tombstone =>
        replyMessageId ∈ tombstone.replyIds &&
          youngerThan reading LISTING_REPLY_TOMBSTONE_MS tombstone.writtenAt now
    match repliedHit reading raw source replyMessageId with
    | some hit =>
      if youngerThan reading LISTING_REPLY_TTL_MS hit.writtenAt now && hit.ids.length > 0 then
        some (.listing hit.writtenAt hit.ids hit.labels)
      else if youngerThan reading LISTING_REPLY_TOMBSTONE_MS hit.writtenAt now || dead then some .expired
      else none
    | none => if dead then some .expired else none

/-- The first source with a match to pick from, else the first with an expired one. -/
def findAnyListingByReply (value : ListingValue) (actorId : Id) (replyMessageId : JsString)
    (now : IsoTimestamp) : Option AnyListingReplyMatch :=
  let find (source : ItemSource) := findListingByReply reading value actorId source replyMessageId now
  let picked := SLOTS.findSome? fun source =>
    match find source with
    | some (.listing writtenAt ids labels) =>
      some (⟨source, writtenAt, listingItems ids labels, none, false⟩ : ListingSlot)
    | _ => none
  match picked with
  | some slot => some (.listing slot)
  | none => (SLOTS.find? fun source => find source = some .expired).map .expired

end

end QuokyPlatform.Listings
