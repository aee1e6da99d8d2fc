import QuokyPlatform.Listings.Store

/-! # A reply picks what its message showed

Runs of the listing store, with a log of what was shown and of which platform replies were recorded for
it. What is stored under a reply id never changes afterwards: moving a listing aside, aging, merging and
the writes of other actors keep it or drop it. So a reply is answered with the listing its message
showed, or not from a listing at all. -/

namespace QuokyPlatform.Listings
open Chunking (JsString)
open NlRouting (ItemSource SLOTS ListingItem ListingSlot AnyListingReplyMatch Reading
  youngerThan ageMs LAST_LISTING_TTL_MS LISTING_REPLY_TTL_MS)

set_option autoImplicit false
set_option maxHeartbeats 250000

/-! ## Runs -/

inductive Operation where
  | listing (actorId : Id) (source : ItemSource) (ids : List Id) (now : IsoTimestamp)
      (requestId : Option JsString)
  | labelled (actorId : Id) (source : ItemSource) (items : List ListingItem) (now : IsoTimestamp)
      (mode : LabelledListingMode) (requestId : Option JsString) (filtered : Bool)
  | replies (actorId : Id) (source : ItemSource) (requestId : JsString) (replyIds : List JsString)
      (now : IsoTimestamp)

/-- What a listing shows. -/
structure Listing where
  source : ItemSource
  writtenAt : IsoTimestamp
  ids : List Id
  labels : Option (List ℕ)
  deriving DecidableEq

def Entry.listing (entry : Entry) : Listing := ⟨entry.source, entry.writtenAt, entry.ids, entry.labels⟩

/-- A listing that was shown for a request. -/
structure Shown where
  actorId : Id
  requestId : Option JsString
  listing : Listing
  deriving DecidableEq

/-- The delivered reply of a listing. -/
structure Delivered where
  actorId : Id
  requestId : JsString
  replyIds : List JsString
  listing : Listing
  deriving DecidableEq

/-- The stored value, and the log of the run. -/
structure History where
  value : ListingValue
  shown : List Shown
  delivered : List Delivered

section

variable (reading : Reading)

def History.show (h : History) (actorId : Id) (entry : Option Entry) (next : ListingValue) : History where
  value := next
  shown := h.shown ++ (entry.map fun entry => (⟨actorId, entry.requestId, entry.listing⟩ : Shown)).toList
  delivered := h.delivered

def History.step (h : History) : Operation → History
  | .listing actorId source ids now requestId =>
    h.show actorId (listingEntry source ids now requestId)
      (withListing reading h.value actorId source ids now requestId)
  | .labelled actorId source items now mode requestId filtered =>
    h.show actorId
      (labelledEntry source ((ownState reading h.value actorId now).slots source) items now mode requestId
        filtered)
      (withLabelledListing reading h.value actorId source items now mode requestId filtered)
  | .replies actorId source requestId replyIds now =>
    { value := (withListingReplies reading h.value actorId source requestId replyIds now).1
      shown := h.shown
      delivered := h.delivered ++
        ((repliedEntry (ownState reading h.value actorId now) source requestId replyIds).map fun entry =>
          (⟨actorId, requestId, cleanReplyIds replyIds, entry.listing⟩ : Delivered)).toList }

def History.run (h : History) (operations : List Operation) : History :=
  operations.foldl (History.step reading) h

/-- A session without listings. -/
def History.start : History := ⟨[], [], []⟩

/-! ## What is stored was shown -/

/-- The log accounts for a stored entry: its request was shown that listing, and its reply ids were
recorded for it. -/
structure Recorded (h : History) (actorId : Id) (entry : Entry) : Prop where
  shown : ∀ requestId, entry.requestId = some requestId →
    (⟨actorId, some requestId, entry.listing⟩ : Shown) ∈ h.shown
  delivered : ∀ replyIds, entry.replyIds = some replyIds →
    ∃ requestId, (⟨actorId, requestId, replyIds, entry.listing⟩ : Delivered) ∈ h.delivered

structure RecordedState (h : History) (actorId : Id) (state : ActorState) : Prop where
  slots : ∀ slot entry, state.slots slot = some entry → Recorded h actorId entry
  replied : ∀ entry ∈ state.replied, Recorded h actorId entry

structure Faithful (h : History) : Prop where
  stored : ∀ entry ∈ h.value, RecordedState h entry.1 entry.2
  asked : ∀ delivered ∈ h.delivered,
    (⟨delivered.actorId, some delivered.requestId, delivered.listing⟩ : Shown) ∈ h.shown

variable {h next : History} {actorId : Id}

theorem Recorded.mono {entry : Entry} (hentry : Recorded h actorId entry)
    (hshown : h.shown ⊆ next.shown) (hdelivered : h.delivered ⊆ next.delivered) :
    Recorded next actorId entry :=
  ⟨fun requestId hrequest => hshown (hentry.shown requestId hrequest), fun replyIds hreplies =>
    (hentry.delivered replyIds hreplies).imp fun _ hmem => hdelivered hmem⟩

theorem RecordedState.mono {state : ActorState} (hstate : RecordedState h actorId state)
    (hshown : h.shown ⊆ next.shown) (hdelivered : h.delivered ⊆ next.delivered) :
    RecordedState next actorId state :=
  ⟨fun slot entry hentry => (hstate.slots slot entry hentry).mono hshown hdelivered,
    fun entry hentry => (hstate.replied entry hentry).mono hshown hdelivered⟩

theorem recordedState_empty : RecordedState h actorId .empty :=
  ⟨fun _ _ hentry => (nomatch hentry), fun _ hentry => (nomatch hentry)⟩

variable {reading}

/-- Reading an entry keeps what it shows and drops at most its ids of requests and replies. -/
theorem entryOf_spec {source : Option ItemSource} {allowEmptyIds : Bool} {raw entry : Entry}
    (hentry : entryOf reading source allowEmptyIds raw = some entry) :
    entry.listing = raw.listing ∧ (∀ slot, source = some slot → entry.source = slot) ∧
      (∀ requestId, entry.requestId = some requestId → raw.requestId = some requestId) ∧
      ∀ replyIds, entry.replyIds = some replyIds → raw.replyIds = some replyIds := by
  unfold entryOf at hentry
  split at hentry
  · cases hentry
  · rename_i hsource
    split at hentry
    · cases hentry
    · split at hentry
      · cases hentry
      · split at hentry
        · cases hentry
        · cases hentry
          refine ⟨rfl, ?_, ?_, ?_⟩
          · rintro slot rfl
            rw [Option.any_some, decide_eq_true_eq, ne_eq, not_not] at hsource
            exact hsource.symm
          · exact fun requestId hrequest => (Option.filter_eq_some_iff.mp hrequest).1
          · exact fun replyIds hreplies => (Option.filter_eq_some_iff.mp hreplies).1

theorem Recorded.read {source : Option ItemSource} {allowEmptyIds : Bool} {raw entry : Entry}
    (hraw : Recorded h actorId raw) (hentry : entryOf reading source allowEmptyIds raw = some entry) :
    Recorded h actorId entry := by
  obtain ⟨hlisting, -, hrequest, hreplies⟩ := entryOf_spec hentry
  constructor
  · intro requestId heq
    rw [hlisting]
    exact hraw.shown requestId (hrequest requestId heq)
  · intro replyIds heq
    rw [hlisting]
    exact hraw.delivered replyIds (hreplies replyIds heq)

theorem mem_lastOf {α : Type} {count : ℕ} {list : List α} {a : α} (hmem : a ∈ lastOf count list) :
    a ∈ list := List.mem_of_mem_drop hmem

theorem mem_byAge {α : Type} {writtenAt : α → IsoTimestamp} {entries : List α} {a : α} :
    a ∈ byAge reading writtenAt entries ↔ a ∈ entries :=
  (List.perm_insertionSort _ entries).mem_iff

/-- The listings that are kept are some of the candidates. -/
theorem mem_settle {candidates : List Entry} (tombstones : List Tombstone) {now : IsoTimestamp}
    {entry : Entry} (hentry : entry ∈ (settle reading candidates tombstones now).replied) : entry ∈ candidates := by
  have hsorted := mem_byAge.mp (mem_lastOf hentry)
  exact (List.mem_filter.mp (List.mem_filter.mp hsorted).1).1

theorem slotOf_recorded {raw : ActorState} (hraw : RecordedState h actorId raw) {slot : ItemSource}
    {entry : Entry} (hentry : slotOf reading raw slot = some entry) : Recorded h actorId entry := by
  obtain ⟨stored, hstored, hread⟩ := Option.bind_eq_some_iff.mp hentry
  exact (hraw.slots slot stored hstored).read hread

theorem actorStateOf_recorded {raw : ActorState} (hraw : RecordedState h actorId raw) (now : IsoTimestamp) :
    RecordedState h actorId (actorStateOf reading raw now) := by
  constructor
  · intro slot entry hentry
    exact slotOf_recorded hraw (Option.filter_eq_some_iff.mp hentry).1
  · intro entry hentry
    rcases List.mem_append.mp (mem_settle
        ((lastOf (LISTING_TOMBSTONES_MAX * 2) raw.expired).filterMap (tombstoneOf reading none)) hentry) with hreplied | haged
    · obtain ⟨stored, hstored, hread⟩ := List.mem_filterMap.mp hreplied
      exact (hraw.replied stored (mem_lastOf hstored)).read hread
    · obtain ⟨slot, -, hslot⟩ := List.mem_filterMap.mp haged
      exact slotOf_recorded hraw (Option.filter_eq_some_iff.mp hslot).1

theorem ownState_recorded (reading : Reading) (hfaithful : Faithful h) (actorId : Id) (now : IsoTimestamp) :
    RecordedState h actorId (ownState reading h.value actorId now) := by
  refine actorStateOf_recorded ?_ now
  cases hlookup : h.value.lookup actorId with
  | none => exact recordedState_empty
  | some state =>
    obtain ⟨before, after, hvalue, -⟩ := List.lookup_eq_some_iff.mp hlookup
    refine hfaithful.stored (actorId, state) ?_
    rw [hvalue]
    exact List.mem_append_right _ List.mem_cons_self

theorem mem_dropOldest {own others : ListingValue} {entry : Id × ActorState}
    (hentry : entry ∈ dropOldest own others) : entry ∈ others ∨ entry ∈ own := by
  induction others with
  | nil => exact .inr hentry
  | cons other others ih =>
    rw [dropOldest] at hentry
    split at hentry
    · exact (ih hentry).imp (List.mem_cons_of_mem _) id
    · exact List.mem_append.mp hentry

theorem rewrite_recorded {value : ListingValue} (hvalue : ∀ entry ∈ value, RecordedState h entry.1 entry.2)
    {own : ActorState} (hown : RecordedState h actorId own) (now : IsoTimestamp) :
    ∀ entry ∈ rewrite reading value actorId now own, RecordedState h entry.1 entry.2 := by
  intro entry hentry
  rcases mem_dropOldest hentry with hother | hmine
  · obtain ⟨stored, hstored, hkept⟩ := List.mem_filterMap.mp hother
    dsimp only at hkept
    split at hkept
    · cases hkept
    · cases hkept
      exact actorStateOf_recorded (hvalue stored (List.mem_filter.mp hstored).1) now
  · split at hmine
    · cases hmine
    · rw [List.mem_singleton.mp hmine]
      exact hown

theorem RecordedState.setSlot {state : ActorState} (hstate : RecordedState h actorId state)
    {source : ItemSource} {entry : Option Entry} (hentry : ∀ e, entry = some e → Recorded h actorId e) :
    RecordedState h actorId (state.setSlot source entry) := by
  refine ⟨fun slot e heq => ?_, hstate.replied⟩
  simp only [ActorState.setSlot] at heq
  split at heq
  · exact hentry e heq
  · exact hstate.slots slot e heq

theorem replaceSlot_recorded {own : ActorState} (hown : RecordedState h actorId own) {source : ItemSource}
    {entry : Option Entry} (hentry : ∀ e, entry = some e → Recorded h actorId e) (now : IsoTimestamp) :
    RecordedState h actorId (replaceSlot reading own source entry now) := by
  refine ⟨(hown.setSlot hentry).slots, fun e he => ?_⟩
  have hmem := mem_settle own.expired he
  split at hmem
  · rename_i previous hprevious
    split at hmem
    · rcases List.mem_append.mp hmem with hold | hlast
      · exact hown.replied e hold
      · rw [List.mem_singleton.mp hlast]
        exact hown.slots source previous hprevious
    · exact hown.replied e hmem
  · exact hown.replied e hmem

/-! ## Steps -/

theorem requestOf_listing {source : ItemSource} {ids : List Id} {now : IsoTimestamp}
    {requestId : Option JsString} {entry : Entry} (h : listingEntry source ids now requestId = some entry) :
    entry.replyIds = none := by
  unfold listingEntry at h
  split at h
  · cases h
    rfl
  · cases h

/-- What is shown now is recorded from now on. -/
theorem recorded_shown {entry : Entry} {value : ListingValue} (hreplies : entry.replyIds = none) :
    Recorded (h.show actorId (some entry) value) actorId entry := by
  constructor
  · intro requestId hrequest
    rw [← hrequest]
    exact List.mem_append_right _ (List.mem_singleton_self _)
  · intro replyIds hsome
    rw [hreplies] at hsome
    cases hsome

/-- A labelled write stores new items, or leaves the listing that was there. -/
theorem labelledEntry_spec {source : ItemSource} {previous : Option Entry} {items : List ListingItem}
    {now : IsoTimestamp} {mode : LabelledListingMode} {requestId : Option JsString} {filtered : Bool}
    {entry : Entry} (h : labelledEntry source previous items now mode requestId filtered = some entry) :
    entry.replyIds = none ∨ previous = some entry := by
  simp only [labelledEntry] at h
  split at h
  · cases mode with
    | listing =>
      cases filtered with
      | true =>
        cases h
        exact .inl rfl
      | false => cases h
    | merge => exact .inr h
  · cases h
    exact .inl rfl

theorem show_subset (h : History) (actorId : Id) (entry : Option Entry) (value : ListingValue) :
    h.shown ⊆ (h.show actorId entry value).shown := List.subset_append_left _ _

/-- A write of one slot, its new content being shown or what was there. -/
theorem Faithful.show (hfaithful : Faithful h) (actorId : Id) (source : ItemSource) (now : IsoTimestamp)
    {entry : Option Entry} (hentry : ∀ e, entry = some e → e.replyIds = none ∨
      (ownState reading h.value actorId now).slots source = some e) :
    Faithful (h.show actorId entry (rewrite reading h.value actorId now
      (replaceSlot reading (ownState reading h.value actorId now) source entry now))) := by
  have hshown : ∀ value, h.shown ⊆ (h.show actorId entry value).shown := show_subset h actorId entry
  have hown := ownState_recorded reading hfaithful actorId now
  constructor
  · refine rewrite_recorded (fun stored hstored => ?_) (replaceSlot_recorded ?_ ?_ now) now
    · exact (hfaithful.stored stored hstored).mono (hshown _) (List.Subset.refl _)
    · exact hown.mono (hshown _) (List.Subset.refl _)
    · rintro e rfl
      rcases hentry e rfl with hnew | hold
      · exact recorded_shown hnew
      · exact (hown.slots source e hold).mono (hshown _) (List.Subset.refl _)
  · exact fun delivered hdelivered => hshown _ (hfaithful.asked delivered hdelivered)

theorem Faithful.replies (hfaithful : Faithful h) (actorId : Id) (source : ItemSource)
    (requestId : JsString) (replyIds : List JsString) (now : IsoTimestamp) :
    Faithful (h.step reading (.replies actorId source requestId replyIds now)) := by
  have hown := ownState_recorded reading hfaithful actorId now
  simp only [History.step, withListingReplies]
  cases hfound : repliedEntry (ownState reading h.value actorId now) source requestId replyIds with
  | none =>
    simp only [Option.map_none, Option.toList_none, List.append_nil]
    exact hfaithful
  | some entry =>
    simp only [Option.map_some, Option.toList_some]
    obtain ⟨hslot, hasked⟩ := Option.filter_eq_some_iff.mp hfound
    rw [Bool.and_eq_true, decide_eq_true_eq] at hasked
    have hshown := (hown.slots source entry hslot).shown requestId hasked.1
    constructor
    · refine rewrite_recorded (fun stored hstored => ?_) (RecordedState.setSlot ?_ ?_) now
      · exact (hfaithful.stored stored hstored).mono (List.Subset.refl _) (List.subset_append_left _ _)
      · exact hown.mono (List.Subset.refl _) (List.subset_append_left _ _)
      · rintro e heq
        cases heq
        refine ⟨(hown.slots source entry hslot).shown, fun ids hids => ⟨requestId, ?_⟩⟩
        cases hids
        exact List.mem_append_right _ (List.mem_singleton_self _)
    · intro delivered hdelivered
      rcases List.mem_append.mp hdelivered with hold | hnew
      · exact hfaithful.asked delivered hold
      · rw [List.mem_singleton.mp hnew]
        exact hshown

theorem Faithful.step (hfaithful : Faithful h) (operation : Operation) :
    Faithful (h.step reading operation) := by
  cases operation with
  | listing actorId source ids now requestId =>
    exact hfaithful.show actorId source now fun e he => .inl (requestOf_listing he)
  | labelled actorId source items now mode requestId filtered =>
    exact hfaithful.show actorId source now fun e he => labelledEntry_spec he
  | replies actorId source requestId replyIds now =>
    exact hfaithful.replies actorId source requestId replyIds now

theorem faithful_run (reading : Reading) (operations : List Operation) : Faithful (History.start.run reading operations) := by
  have hall : ∀ (operations : List Operation) (h : History), Faithful h →
      Faithful (h.run reading operations) := by
    intro operations
    induction operations with
    | nil => exact fun h hfaithful => hfaithful
    | cons operation rest ih => exact fun h hfaithful => ih _ (hfaithful.step operation)
  refine hall operations _ ⟨fun _ hentry => ?_, fun _ hdelivered => ?_⟩
  · cases hentry
  · cases hdelivered

/-! ## The answer to a reply -/

theorem repliedHit_spec {raw : ActorState} (hraw : RecordedState h actorId raw) {source : ItemSource}
    {replyMessageId : JsString} {hit : Entry} (hhit : repliedHit reading raw source replyMessageId = some hit) :
    Recorded h actorId hit ∧ hit.source = source ∧
      ∃ replyIds, hit.replyIds = some replyIds ∧ replyMessageId ∈ replyIds := by
  have hsorted := List.mem_of_head? hhit
  obtain ⟨hcandidate, hany⟩ := List.mem_filter.mp ((List.perm_insertionSort _ _).mem_iff.mp hsorted)
  have hreplies : ∃ replyIds, hit.replyIds = some replyIds ∧ replyMessageId ∈ replyIds := by
    cases hids : hit.replyIds with
    | none =>
      rw [hids] at hany
      cases hany
    | some replyIds =>
      rw [hids, Option.any_some, decide_eq_true_eq] at hany
      exact ⟨replyIds, rfl, hany⟩
  refine ⟨?_, ?_, hreplies⟩
  · rcases List.mem_append.mp hcandidate with hslot | hreplied
    · exact slotOf_recorded hraw (Option.mem_toList.mp hslot)
    · obtain ⟨stored, hstored, hread⟩ := List.mem_filterMap.mp hreplied
      exact (hraw.replied stored (mem_lastOf hstored)).read hread
  · rcases List.mem_append.mp hcandidate with hslot | hreplied
    · obtain ⟨stored, -, hread⟩ := Option.bind_eq_some_iff.mp (Option.mem_toList.mp hslot)
      exact (entryOf_spec hread).2.1 source rfl
    · obtain ⟨stored, -, hread⟩ := List.mem_filterMap.mp hreplied
      exact (entryOf_spec hread).2.1 source rfl

/-- A listing that is found for a reply was recorded for it, and is not too old. -/
theorem findListingByReply_spec (hfaithful : Faithful h) {source : ItemSource} {replyMessageId : JsString}
    {now writtenAt : IsoTimestamp} {ids : List Id} {labels : Option (List ℕ)}
    (hfind : findListingByReply reading h.value actorId source replyMessageId now =
      some (.listing writtenAt ids labels)) :
    (∃ requestId replyIds, replyMessageId ∈ replyIds ∧
      (⟨actorId, requestId, replyIds, ⟨source, writtenAt, ids, labels⟩⟩ : Delivered) ∈ h.delivered) ∧
      youngerThan reading LISTING_REPLY_TTL_MS writtenAt now = true := by
  have hraw : RecordedState h actorId ((h.value.lookup actorId).getD .empty) := by
    cases hlookup : h.value.lookup actorId with
    | none => exact recordedState_empty
    | some state =>
      obtain ⟨before, after, hvalue, -⟩ := List.lookup_eq_some_iff.mp hlookup
      refine hfaithful.stored (actorId, state) ?_
      rw [hvalue]
      exact List.mem_append_right _ List.mem_cons_self
  simp only [findListingByReply] at hfind
  split at hfind
  · cases hfind
  · split at hfind
    · rename_i hit hhit
      obtain ⟨hrecorded, rfl, replyIds, hreplies, hmem⟩ := repliedHit_spec hraw hhit
      obtain ⟨requestId, hdelivered⟩ := hrecorded.delivered replyIds hreplies
      split at hfind
      · rename_i hyoung
        cases hfind
        exact ⟨⟨requestId, replyIds, hmem, hdelivered⟩, (Bool.and_eq_true_iff.mp hyoung).1⟩
      · split at hfind <;> cases hfind
    · split at hfind <;> cases hfind

/-- In every run, the listing a reply is answered with is the one its message showed. -/
theorem reply_picks_what_was_shown (reading : Reading) (operations : List Operation) (actorId : Id)
    (replyMessageId : JsString) (now : IsoTimestamp) (slot : ListingSlot)
    (h : findAnyListingByReply reading (History.start.run reading operations).value actorId replyMessageId
      now = some (.listing slot)) :
    ∃ delivered ∈ (History.start.run reading operations).delivered,
      delivered.actorId = actorId ∧ replyMessageId ∈ delivered.replyIds ∧
      (⟨actorId, some delivered.requestId, delivered.listing⟩ : Shown) ∈
        (History.start.run reading operations).shown ∧
      slot.source = delivered.listing.source ∧ slot.writtenAt = delivered.listing.writtenAt ∧
      slot.items = listingItems delivered.listing.ids delivered.listing.labels ∧
      youngerThan reading LISTING_REPLY_TTL_MS slot.writtenAt now = true := by
  have hfaithful := faithful_run reading operations
  simp only [findAnyListingByReply] at h
  split at h
  · rename_i picked hpicked
    cases h
    obtain ⟨source, -, hsource⟩ := List.exists_of_findSome?_eq_some hpicked
    split at hsource
    · rename_i writtenAt ids labels hfind
      cases hsource
      obtain ⟨⟨requestId, replyIds, hmem, hdelivered⟩, hyoung⟩ := findListingByReply_spec hfaithful hfind
      exact ⟨_, hdelivered, rfl, hmem, hfaithful.asked _ hdelivered, rfl, rfl, rfl, hyoung⟩
    · cases hsource
  · obtain ⟨source, -, hexpired⟩ := Option.map_eq_some_iff.mp h
    cases hexpired

end

/-! ## A run -/

def atNine : IsoTimestamp := Chunking.units "2026-10-19T09:00:00.000Z"
def tenPastNine : IsoTimestamp := Chunking.units "2026-10-19T09:10:00.000Z"
def atThree : IsoTimestamp := Chunking.units "2026-10-19T15:00:00.000Z"

def dayReading : Reading where
  parse := fun text =>
    List.lookup text [(atNine, 1792400400000), (tenPastNine, 1792401000000), (atThree, 1792422000000)]
  normalizeForMatch := id
  nlNamedItemSources := fun _ _ => []
  nlIndexWording := fun _ _ => none

/-- Two mails are shown and the reply delivered; ten minutes later another mail is shown. -/
def twoListings : List Operation := [
  .listing [1] .mail [[7], [8]] atNine (some [2]),
  .replies [1] .mail [2] [[3]] atNine,
  .listing [1] .mail [[9]] tenPastNine (some [4])]

theorem twoListings_found :
    findAnyListingByReply dayReading (History.start.run dayReading twoListings).value [1] [3] atThree =
      some (.listing ⟨.mail, atNine, [⟨1, [7]⟩, ⟨2, [8]⟩], none, false⟩) := by
  rfl

/-- In the afternoon the first message is answered with the two mails it showed. -/
theorem reply_picks_what_was_shown_first :
    ∃ delivered ∈ (History.start.run dayReading twoListings).delivered,
      delivered.actorId = [1] ∧ [3] ∈ delivered.replyIds ∧
      (⟨[1], some delivered.requestId, delivered.listing⟩ : Shown) ∈
        (History.start.run dayReading twoListings).shown ∧
      ItemSource.mail = delivered.listing.source ∧ atNine = delivered.listing.writtenAt ∧
      [(⟨1, [7]⟩ : ListingItem), ⟨2, [8]⟩] = listingItems delivered.listing.ids delivered.listing.labels ∧
      youngerThan dayReading LISTING_REPLY_TTL_MS atNine atThree = true :=
  reply_picks_what_was_shown dayReading twoListings [1] [3] atThree _ twoListings_found

end QuokyPlatform.Listings
