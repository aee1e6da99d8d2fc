import Mathlib.Data.List.Infix
import QuokyPlatform.Chunking.TokenEstimate

/-!
# References to items

What the words `#3`, `last`, `this` and `recent` name, out of the listings that were shown, the last action
and the message that is replied to. The reading of the words and of timestamps is a parameter.
-/

namespace QuokyPlatform.NlRouting
open Chunking (JsString units)
set_option autoImplicit false
set_option maxHeartbeats 250000

/-! ## Records -/

/-- A listing slot and an item source. -/
inductive ItemSource where
  | mail
  | drive
  | todo
  | reminder
  | jira
  | slack
  deriving DecidableEq

def SLOTS : List ItemSource := [.mail, .drive, .todo, .reminder, .jira, .slack]

abbrev Id := JsString

abbrev IsoTimestamp := JsString

structure ListingItem where
  label : ℕ
  id : Id
  deriving DecidableEq

/-- A stored listing that is well formed; no `labels` are the positions. -/
structure Entry where
  ids : List Id
  writtenAt : IsoTimestamp
  requestId : Option JsString
  labels : Option (List ℕ)
  filtered : Bool

structure ListingSlot where
  source : ItemSource
  writtenAt : IsoTimestamp
  items : List ListingItem
  requestId : Option JsString
  filtered : Bool

structure ListingRecord where
  slots : ItemSource → Option ListingSlot
  mostRecent : Option ListingSlot

inductive AnyListingReplyMatch where
  | listing (slot : ListingSlot)
  | expired (source : ItemSource)

inductive LastActionSource where
  | todo
  | reminder
  | slack
  | jira
  | calendar
  deriving DecidableEq

/-- The item source of the same name. -/
def LastActionSource.item : LastActionSource → Option ItemSource
  | .todo => some .todo
  | .reminder => some .reminder
  | .slack => some .slack
  | .jira => some .jira
  | .calendar => none

def isLastActionExternalSource : LastActionSource → Bool
  | .todo => false
  | .reminder => false
  | .slack => true
  | .jira => true
  | .calendar => true

structure LastActionRecord where
  source : LastActionSource
  itemId : Id
  label : Option ℕ
  madeAt : IsoTimestamp
  undone : Bool
  requestId : Option JsString

structure LastActionView where
  record : LastActionRecord
  /-- Within the 10-minute window. -/
  fresh : Bool

structure LastReadRecord where
  source : ItemSource
  id : Id
  label : Option ℕ
  listingAt : Option IsoTimestamp
  readAt : IsoTimestamp

inductive NlRef where
  | index (index : ℕ)
  | recent
  | this
  | last
  | key (key : JsString)

inductive IndexWording where
  | digits
  | ordinal
  deriving DecidableEq

structure NlReferenceState where
  listings : ListingRecord
  lastAction : Option LastActionView
  lastRead : Option LastReadRecord
  r2Sources : List ItemSource
  /-- The message that is replied to, and the recorded listing it is, if any. -/
  replyTo : Option (Option AnyListingReplyMatch)
  now : IsoTimestamp

inductive NlActionEntryId where
  | itemSummarize
  | localWrite (name : String)
  deriving DecidableEq

structure NlReferenceInput where
  entryId : NlActionEntryId
  source : ItemSource
  ref : NlRef
  groundingText : JsString
  state : NlReferenceState

structure NlItemTarget where
  source : ItemSource
  id : Option Id
  label : Option ℕ
  listingAt : Option IsoTimestamp

inductive NlResolutionOutcome where
  | outOfRange
  | expired
  | ambiguous
  | stale
  | otherSource
  | none
  | conflict
  deriving DecidableEq

structure Unresolved where
  outcome : NlResolutionOutcome
  source : ItemSource
  found : Option ItemSource := Option.none
  candidates : Option (List ListingItem) := Option.none
  listingAt : Option IsoTimestamp := Option.none
  count : Option ℕ := Option.none
  index : Option ℕ := Option.none

inductive NlReferenceResolution where
  | resolved (target : NlItemTarget)
  | unresolved (question : Unresolved)

/-! ## Reading words and times -/

structure Reading where
  /-- `Date.parse`; `none` is no number. -/
  parse : IsoTimestamp → Option ℤ
  normalizeForMatch : JsString → JsString
  /-- The sources the words name, in their order; with the extra sources of `item.summarize`. -/
  nlNamedItemSources : JsString → Option (List ItemSource) → List ItemSource
  nlIndexWording : ℕ → JsString → Option IndexWording

section Resolution

variable (reading : Reading)

/-- `Date.parse(now) - Date.parse(at)` -/
def ageMs (writtenAt now : IsoTimestamp) : Option ℤ :=
  match reading.parse now, reading.parse writtenAt with
  | some now, some written => some (now - written)
  | _, _ => none

/-- An age of at least 0 and under the limit. -/
def youngerThan (limit : ℤ) (writtenAt now : IsoTimestamp) : Bool :=
  (ageMs reading writtenAt now).any fun age => 0 ≤ age ∧ age < limit

def LAST_LISTING_TTL_MS : ℤ := 30 * 60000
def LOCAL_WRITE_REPLY_PICK_MS : ℤ := 30 * 60000
def LISTING_REPLY_TTL_MS : ℤ := 24 * 60 * 60000
def REFERENCE_TIE_MS : ℤ := 1000

/-! ## Listings -/

/-- The shown items of a listing: its labels (or positions 1..n) paired with its ids. -/
def listingItems (entry : Entry) : List ListingItem :=
  entry.ids.mapIdx fun i id => ⟨((entry.labels.getD [])[i]?).getD (i + 1), id⟩

/-- `Date.parse(slot.at) > Date.parse(newest.at)` -/
def isLater (slot newest : ListingSlot) : Bool :=
  match reading.parse slot.writtenAt, reading.parse newest.writtenAt with
  | some slot, some newest => newest < slot
  | _, _ => false

def takeNewer (newest : Option ListingSlot) (slot : ListingSlot) : Option ListingSlot :=
  match newest with
  | none => some slot
  | some newest => if isLater reading slot newest then some slot else some newest

/-- The newest of the slots, the first among equals. -/
def newestSlot (slots : List ListingSlot) : Option ListingSlot := slots.foldl (takeNewer reading) none

/-- The slot of a stored listing that is fresh. -/
def freshSlot (stored : ItemSource → Option Entry) (now : IsoTimestamp) (source : ItemSource) :
    Option ListingSlot :=
  match stored source with
  | none => none
  | some entry =>
    if youngerThan reading LAST_LISTING_TTL_MS entry.writtenAt now then
      some ⟨source, entry.writtenAt, listingItems entry, entry.requestId, entry.filtered⟩
    else none

def readListingRecord (stored : ItemSource → Option Entry) (now : IsoTimestamp) : ListingRecord where
  slots := freshSlot reading stored now
  mostRecent := newestSlot reading (SLOTS.filterMap (freshSlot reading stored now))

/-- `Object.values(listings.slots)` -/
def ListingRecord.values (listings : ListingRecord) : List ListingSlot := SLOTS.filterMap listings.slots

/-! ## Recency -/

/-- What the words may mean besides a listing: the last action, or the last read. -/
structure LastItem where
  source : ItemSource
  itemId : Id
  label : Option ℕ
  madeAt : IsoTimestamp
  requestId : Option JsString

inductive ReferenceRecency where
  | action
  | listing (slot : ListingSlot)
  | tie (slot : ListingSlot)

def isActionEcho (slot : ListingSlot) (action : LastItem) : Bool :=
  slot.source = action.source && action.requestId.isSome && slot.requestId == action.requestId

def newestReference (action : LastItem) (listings : ListingRecord) : ReferenceRecency :=
  match newestSlot reading (listings.values.filter fun slot => !isActionEcho slot action) with
  | none => .action
  | some newest =>
    match reading.parse newest.writtenAt, reading.parse action.madeAt with
    | some newestAt, some madeAt =>
      let delta := newestAt - madeAt
      if |delta| < REFERENCE_TIE_MS then .tie newest
      else if delta > 0 then .listing newest
      else .action
    | _, _ => .tie newest

/-! ## Resolution -/

def REMINDER_NOUNS : List JsString := [[0xC54C, 0xB9BC], [0xB9AC, 0xB9C8, 0xC778, 0xB354],
  [0xB9AC, 0xB9C8, 0xC778, 0xB4DC], units "reminder"]

def aboutReminders (input : NlReferenceInput) : Bool :=
  let text := reading.normalizeForMatch input.groundingText
  REMINDER_NOUNS.any (fun noun => noun <:+: text) ||
    input.state.listings.mostRecent.any (fun slot => slot.source = .reminder) ||
    input.state.lastAction.any fun last => last.fresh && last.record.source = .reminder

def targetFrom (slot : ListingSlot) (item : ListingItem) : NlItemTarget where
  source := slot.source
  id := some item.id
  label := some item.label
  listingAt := if slot.source ∈ [.mail, .drive, .jira, .slack] then some slot.writtenAt else none

/-- The candidates of a listing, to ask about. -/
def askAbout (source : ItemSource) (slot : ListingSlot) : Unresolved where
  outcome := .ambiguous
  source := source
  found := some slot.source
  candidates := if slot.items = [] then none else some (slot.items.take 10)
  listingAt := some slot.writtenAt

/-- `items[index - 1]` -/
def itemAt (items : List ListingItem) : ℕ → Option ListingItem
  | 0 => none
  | index + 1 => items[index]?

/-- Pick within one slot of the entry's source. -/
def pickInSlot (input : NlReferenceInput) (slot : ListingSlot) : NlReferenceResolution :=
  match input.ref with
  | .index index =>
    let byPosition := slot.source = .reminder ∧
      reading.nlIndexWording index input.groundingText = some .ordinal
    let item := if byPosition then itemAt slot.items index
      else slot.items.find? fun candidate => candidate.label = index
    match item with
    | none => .unresolved { outcome := .outOfRange, source := input.source, count := slot.items.length
                            index := index, found := slot.source, listingAt := slot.writtenAt }
    | some item => .resolved (targetFrom slot item)
  | .last =>
    match slot.items.getLast? with
    | none => .unresolved { outcome := .none, source := input.source }
    | some item => .resolved (targetFrom slot item)
  | _ =>
    match slot.items with
    | [item] => .resolved (targetFrom slot item)
    | _ => .unresolved (askAbout input.source slot)

/-- `pickInSlot` of the most recent listing of the entry's source, else a question. -/
def pickMostRecent (input : NlReferenceInput) (outcome : NlResolutionOutcome) : NlReferenceResolution :=
  match input.state.listings.mostRecent with
  | none => .unresolved { outcome, source := input.source }
  | some slot =>
    if slot.source ≠ input.source then
      .unresolved { outcome := .otherSource, source := input.source, found := slot.source }
    else pickInSlot reading input slot

/-- A reply to a recorded listing names that listing. -/
def resolveReply (input : NlReferenceInput) : AnyListingReplyMatch → NlReferenceResolution
  | .expired source => .unresolved { outcome := .expired, source := input.source, found := source }
  | .listing slot =>
    let window := if input.entryId = .itemSummarize then LISTING_REPLY_TTL_MS
      else LOCAL_WRITE_REPLY_PICK_MS
    if youngerThan reading window slot.writtenAt input.state.now then
      if slot.source ≠ input.source then
        .unresolved { outcome := .otherSource, source := input.source, found := slot.source }
      else pickInSlot reading input slot
    else .unresolved { outcome := .expired, source := input.source, found := slot.source }

/-- A key names the delivered row of the fresh Jira listing that holds it. -/
def resolveKey (input : NlReferenceInput) (key : JsString) : NlReferenceResolution :=
  if input.entryId ≠ .itemSummarize ∨ input.source ≠ .jira then
    .unresolved { outcome := .none, source := input.source }
  else
    match input.state.listings.slots .jira with
    | none => .unresolved { outcome := .none, source := input.source }
    | some slot =>
      match slot.items.find? fun candidate => key ++ units ":" <+: candidate.id with
      | none => .unresolved { askAbout input.source slot with candidates := some (slot.items.take 10) }
      | some item => .resolved (targetFrom slot item)

/-- A reminder's display number: the listing supplies the id, the repository resolves it otherwise. -/
def resolveDisplayNumber (input : NlReferenceInput) (index : ℕ) : NlReferenceResolution :=
  let mostRecent := input.state.listings.mostRecent
  if !aboutReminders reading input then
    match mostRecent with
    | none => .unresolved { outcome := .none, source := input.source }
    | some slot =>
      if slot.source ≠ .reminder then
        .unresolved { outcome := .otherSource, source := input.source, found := slot.source }
      else .unresolved { outcome := .none, source := input.source }
  else
    match input.state.listings.slots .reminder with
    | none => .resolved ⟨.reminder, none, some index, none⟩
    | some slot =>
      match slot.items.find? fun item => item.label = index with
      | some listed => .resolved ⟨.reminder, some listed.id, some index, none⟩
      | none =>
        if slot.filtered ∧ mostRecent.any (fun recent => recent.source = .reminder) then
          if slot.items = [] then
            .unresolved { outcome := .outOfRange, source := input.source, count := some 0, index := index
                          found := some .reminder, listingAt := slot.writtenAt }
          else .unresolved { askAbout input.source slot with found := some .reminder }
        else .resolved ⟨.reminder, none, some index, none⟩

/-- The last action when it may be meant: fresh, of the entry's source, local and not undone. -/
def usableAction (input : NlReferenceInput) : Option LastActionRecord :=
  match input.state.lastAction with
  | none => none
  | some last =>
    if last.fresh ∧ last.record.source.item = some input.source ∧ !last.record.undone ∧
        !isLastActionExternalSource last.record.source then some last.record
    else none

/-- The last read, for `item.summarize`. -/
def usableRead (input : NlReferenceInput) : Option LastReadRecord :=
  if input.entryId = .itemSummarize then
    input.state.lastRead.filter fun read => read.source = input.source
  else none

def lastItemOf (input : NlReferenceInput) : Option LastItem :=
  match usableAction input with
  | some record =>
    some ⟨input.source, record.itemId, record.label, record.madeAt, record.requestId⟩
  | none => (usableRead input).map fun read => ⟨read.source, read.id, read.label, read.readAt, none⟩

/-- The shown item and the item of the action, to ask about. -/
def conflict (input : NlReferenceInput) (shown : ListingItem) (lastItem : LastItem) : NlReferenceResolution :=
  .unresolved { outcome := .conflict, source := input.source, found := some input.source
                candidates := some ([shown, ⟨lastItem.label.getD 0, lastItem.itemId⟩].filter fun item =>
                  item.label > 0) }

/-- The last item, unless the most recent listing is one other item of the source. -/
def resolveLastItem (input : NlReferenceInput) (lastItem : LastItem) : NlReferenceResolution :=
  let single := match input.state.listings.mostRecent with
    | none => none
    | some slot => if slot.source = input.source ∧ slot.items.length = 1 then slot.items.head? else none
  let listingAt := if (usableAction input).isSome then none
    else (usableRead input).bind LastReadRecord.listingAt
  let target : NlItemTarget := ⟨input.source, some lastItem.itemId, lastItem.label, listingAt⟩
  match single with
  | none => .resolved target
  | some item => if item.id ≠ lastItem.itemId then conflict input item lastItem else .resolved target

/-- A listing that is newer than the last item, or tied with it. -/
def resolveNewer (input : NlReferenceInput) (lastItem : LastItem) (newer : ListingSlot)
    (isTie isThis : Bool) : NlReferenceResolution :=
  if newer.source ≠ input.source then
    .unresolved { outcome := .otherSource, source := input.source, found := newer.source }
  else
    match newer.items with
    | [shown] =>
      if shown.id ≠ lastItem.itemId then conflict input shown lastItem
      else if isThis then
        if isTie then
          .unresolved { outcome := .ambiguous, source := input.source, found := some input.source
                        candidates := some [shown], listingAt := newer.writtenAt }
        else .resolved (targetFrom newer shown)
      else resolveLastItem input lastItem
    | _ => .unresolved { askAbout input.source newer with found := some input.source }

/-- `recent` and `this`. -/
def resolveDeictic (input : NlReferenceInput) (isThis : Bool) : NlReferenceResolution :=
  match lastItemOf input with
  | some lastItem =>
    match newestReference reading lastItem input.state.listings with
    | .listing newer => resolveNewer input lastItem newer false isThis
    | .tie newer =>
      if isThis then resolveNewer input lastItem newer true isThis else resolveLastItem input lastItem
    | .action => resolveLastItem input lastItem
  | none =>
    let stale := input.state.lastAction.any fun last => last.record.source.item = some input.source
    pickMostRecent reading input (if stale then .stale else .none)

/-- The words name another source than the entry's, or several. -/
def otherSourceNamed (input : NlReferenceInput) (named : List ItemSource) : Bool :=
  named.length > 1 || named.length = 1 && !named.contains input.source

/-- A reference in a message that replies to no listing. -/
def resolveWords (input : NlReferenceInput) : NlReferenceResolution :=
  match input.ref with
  | .index index =>
    if input.source = .reminder ∧ reading.nlIndexWording index input.groundingText = some .digits then
      resolveDisplayNumber reading input index
    else pickMostRecent reading input .none
  | .recent => resolveDeictic reading input false
  | .this => resolveDeictic reading input true
  | _ => pickMostRecent reading input .none

/-- A6-D2 resolution of one `ref` for an entry of `source`. -/
def resolveItemReference (input : NlReferenceInput) : NlReferenceResolution :=
  let r2Sources := if input.entryId = .itemSummarize then some input.state.r2Sources else none
  let named := reading.nlNamedItemSources input.groundingText r2Sources
  if otherSourceNamed input named then
    let meant := if named.length = 1 then named.head? else none
    let found := match input.state.replyTo with
      | some (some (.listing slot)) => some slot.source
      | _ => input.state.listings.mostRecent.map ListingSlot.source
    .unresolved { outcome := .otherSource, source := meant.getD input.source
                  found := if found = meant then none else found }
  else
    match input.ref with
    | .key key => resolveKey input key
    | _ =>
      match input.state.replyTo with
      | some (some listing) => resolveReply reading input listing
      | _ => resolveWords reading input

end Resolution

end QuokyPlatform.NlRouting
