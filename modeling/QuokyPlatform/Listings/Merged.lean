import QuokyPlatform.Listings.Bounded

/-! # Reading a merge back

An echo merges its labels into the fresh listing of its source. What is read afterwards is that listing
with every label where it was, the new items under their labels and the other items unchanged. -/

namespace QuokyPlatform.Listings
open Chunking (JsString)
open NlRouting (ItemSource SLOTS ListingItem Reading youngerThan ageMs LAST_LISTING_TTL_MS)

set_option autoImplicit false
set_option maxHeartbeats 250000

/-- The current listing of the source within the window. -/
def freshEntry (reading : Reading) (value : ListingValue) (actorId : Id) (source : ItemSource)
    (now : IsoTimestamp) : Option Entry :=
  (slotOf reading ((value.lookup actorId).getD .empty) source).filter fun entry =>
    fresh reading entry.writtenAt now

variable {reading : Reading}

/-- A write finds in its slot what a reader is shown. -/
theorem ownState_slots (value : ListingValue) (actorId : Id) (source : ItemSource) (now : IsoTimestamp) :
    (ownState reading value actorId now).slots source = freshEntry reading value actorId source now := rfl

/-! ## Items -/

/-- An item that a stored listing may show. -/
structure Showable (item : ListingItem) : Prop where
  label : 1 ≤ item.label ∧ item.label ≤ MAX_LABEL
  id : boundedText MAX_ID_CHARS item.id = true

theorem showable_validItems {items : List ListingItem} {item : ListingItem} (hitem : item ∈ validItems items) :
    Showable item := by
  obtain ⟨entry, hentry, rfl⟩ := List.mem_map.mp hitem
  have hvalid := (List.mem_filter.mp hentry).2
  simp only [Bool.and_eq_true, decide_eq_true_eq] at hvalid
  exact ⟨hvalid.1.1, hvalid.1.2⟩

theorem showable_listingItems {source : Option ItemSource} {allowEmptyIds : Bool} {raw entry : Entry}
    (hentry : entryOf reading source allowEmptyIds raw = some entry) {item : ListingItem}
    (hitem : item ∈ listingItems entry.ids entry.labels) : Showable item := by
  unfold entryOf at hentry
  split at hentry
  · cases hentry
  · split at hentry
    · cases hentry
    · split at hentry
      · cases hentry
      · rename_i hids
        split at hentry
        · cases hentry
        · rename_i hlabels
          cases hentry
          rw [Bool.or_eq_true, not_or, Bool.not_eq_true', Bool.not_eq_false] at hids
          obtain ⟨hlength, htexts⟩ := Bool.and_eq_true_iff.mp hids.1
          obtain ⟨index, hindex, rfl⟩ := List.mem_mapIdx.mp hitem
          refine ⟨?_, List.all_eq_true.mp htexts _ (List.getElem_mem hindex)⟩
          have hfew : raw.ids.length ≤ MAX_IDS := of_decide_eq_true hlength
          cases hraw : raw.labels with
          | none =>
            have hsmall : MAX_IDS ≤ MAX_LABEL := by decide
            exact ⟨Nat.le_add_left _ _, (Nat.succ_le_of_lt hindex).trans (hfew.trans hsmall)⟩
          | some labels =>
            rw [hraw, Option.any_some, Bool.not_eq_true, Bool.not_eq_false'] at hlabels
            simp only [boundedLabels, Bool.and_eq_true, decide_eq_true_eq] at hlabels
            obtain ⟨⟨hcount, hrange⟩, -⟩ := hlabels
            have hlabel : index < labels.length := hcount ▸ hindex
            have hbounds := List.all_eq_true.mp hrange _ (List.getElem_mem hlabel)
            rw [Bool.and_eq_true, decide_eq_true_eq, decide_eq_true_eq] at hbounds
            simpa only [Option.bind_some, List.getElem?_eq_getElem hlabel, Option.getD_some] using hbounds

/-- A merged item is a new one, or a kept one whose label no new item has. -/
theorem mem_mergedItems {kept valid : List ListingItem} {item : ListingItem}
    (hitem : item ∈ mergedItems kept valid) :
    item ∈ valid ∨ item ∈ kept ∧ ∀ next ∈ valid, next.label ≠ item.label := by
  rcases List.mem_append.mp hitem with hplace | hnew
  · obtain ⟨existing, hexisting, rfl⟩ := List.mem_map.mp hplace
    cases hfound : valid.find? fun next => next.label = existing.label with
    | some next => exact .inl (List.mem_of_find?_eq_some hfound)
    | none =>
      refine .inr ⟨hexisting, fun next hnext hsame => ?_⟩
      exact List.find?_eq_none.mp hfound next hnext (decide_eq_true hsame)
  · exact .inl (List.mem_filter.mp hnew).1

/-- Each new item stands at the place of its label, or after the kept ones. -/
theorem mem_mergedItems_of_valid {kept valid : List ListingItem} (honce : (valid.map ListingItem.label).Nodup)
    {next : ListingItem} (hnext : next ∈ valid) :
    (next.label ∈ kept.map ListingItem.label ∧
      next ∈ kept.map fun item => (valid.find? fun other => other.label = item.label).getD item) ∨
    (next.label ∉ kept.map ListingItem.label ∧ next ∈ mergedItems kept valid) := by
  by_cases hkept : next.label ∈ kept.map ListingItem.label
  · obtain ⟨existing, hexisting, hsame⟩ := List.mem_map.mp hkept
    refine .inl ⟨hkept, List.mem_map.mpr ⟨existing, hexisting, ?_⟩⟩
    have hsome : (valid.find? fun other => other.label = existing.label).isSome := by
      rw [List.find?_isSome]
      exact ⟨next, hnext, decide_eq_true hsame.symm⟩
    obtain ⟨found, hfound⟩ := Option.isSome_iff_exists.mp hsome
    have hlabel := List.find?_some hfound
    rw [hfound, Option.getD_some]
    exact List.inj_on_of_nodup_map honce (List.mem_of_find?_eq_some hfound) hnext
      ((of_decide_eq_true hlabel).trans hsame)
  · refine .inr ⟨hkept, List.mem_append_right _ (List.mem_filter.mpr ⟨hnext, ?_⟩)⟩
    rw [Bool.not_eq_true', List.any_eq_false]
    exact fun existing hexisting hsame =>
      hkept (List.mem_map.mpr ⟨existing, hexisting, of_decide_eq_true hsame⟩)

/-! ## Reading a write back -/

theorem lookup_rewrite (current : ListingValue) (actorId : Id) (now : IsoTimestamp) {own : ActorState}
    (hown : own.isEmpty = false) : (rewrite reading current actorId now own).lookup actorId = some own := by
  obtain ⟨k, hk⟩ := dropOldest_eq [(actorId, own)] (otherStates reading current actorId now)
  have hrewrite : rewrite reading current actorId now own =
      (otherStates reading current actorId now).drop k ++ [(actorId, own)] := by
    rw [← hk]
    simp only [rewrite, hown, Bool.false_eq_true, if_false]
    rfl
  have hothers : ((otherStates reading current actorId now).drop k).lookup actorId = none := by
    rw [List.lookup_eq_none_iff]
    intro entry hentry
    have hkey := List.mem_map_of_mem (f := Prod.fst) (List.mem_of_mem_drop hentry)
    rw [bne_iff_ne]
    rintro rfl
    exact actorId_notMem_otherStates current _ now hkey
  rw [hrewrite, List.lookup_append, hothers, Option.none_or, List.lookup_cons_self]

/-- A well-formed entry without delivered replies is read as it was written. -/
theorem entryOf_showable {source : ItemSource} {shown : List ListingItem} {now : IsoTimestamp}
    {requestId : Option JsString} {filtered : Bool} (hparsed : (reading.parse now).isSome)
    (hsome : shown ≠ []) (hfew : shown.length ≤ MAX_IDS) (hshowable : ∀ item ∈ shown, Showable item)
    (honce : (shown.map ListingItem.label).Nodup) :
    entryOf reading (some source) false ⟨source, shown.map ListingItem.id, now, requestOf requestId, none,
        some (shown.map ListingItem.label), filtered⟩ =
      some ⟨source, shown.map ListingItem.id, now, requestOf requestId, none,
        some (shown.map ListingItem.label), filtered⟩ := by
  have hids : boundedIds MAX_IDS MAX_ID_CHARS (shown.map ListingItem.id) = true := by
    rw [boundedIds, Bool.and_eq_true, decide_eq_true_eq, List.length_map, List.all_eq_true]
    refine ⟨hfew, fun id hid => ?_⟩
    obtain ⟨item, hitem, rfl⟩ := List.mem_map.mp hid
    exact (hshowable item hitem).id
  have hlabels : boundedLabels (shown.map ListingItem.id).length (shown.map ListingItem.label) = true := by
    simp only [boundedLabels, Bool.and_eq_true, decide_eq_true_eq, List.length_map, true_and]
    refine ⟨List.all_eq_true.mpr fun label hlabel => ?_, honce⟩
    obtain ⟨item, hitem, rfl⟩ := List.mem_map.mp hlabel
    rw [Bool.and_eq_true, decide_eq_true_eq, decide_eq_true_eq]
    exact (hshowable item hitem).label
  have hcount : (shown.map ListingItem.id).length ≠ 0 := by
    rw [List.length_map]
    exact fun hzero => hsome (List.length_eq_zero_iff.mp hzero)
  obtain ⟨time, htime⟩ := Option.isSome_iff_exists.mp hparsed
  have hrequest : (requestOf requestId).filter (boundedText MAX_REPLY_ID_CHARS) = requestOf requestId := by
    rw [requestOf, Option.filter_filter]
    simp only [Bool.and_self]
  simp only [entryOf, Option.any_some, ne_eq, not_true_eq_false, decide_false, Bool.false_eq_true, if_false,
    htime, Option.isNone_some, hids, hcount, hlabels, Bool.not_true, Bool.false_and, Bool.or_self,
    Option.filter_none, hrequest]

theorem listingItems_shown (shown : List ListingItem) :
    listingItems (shown.map ListingItem.id) (some (shown.map ListingItem.label)) = shown := by
  refine List.ext_getElem? fun index => ?_
  rw [listingItems, List.getElem?_mapIdx, List.getElem?_map]
  cases hindex : shown[index]? with
  | none => rfl
  | some item => simp [hindex]

theorem isEmpty_of_slot {state : ActorState} {source : ItemSource} {entry : Entry}
    (h : state.slots source = some entry) : state.isEmpty = false := by
  have hslot : SLOTS.all (fun slot => (state.slots slot).isNone) = false := by
    rw [List.all_eq_false]
    refine ⟨source, by cases source <;> decide, ?_⟩
    rw [h]
    exact Bool.false_ne_true
  rw [ActorState.isEmpty, hslot]
  rfl

theorem fresh_parsed {writtenAt now : IsoTimestamp} (h : fresh reading writtenAt now = true) :
    (reading.parse now).isSome := by
  simp only [fresh, youngerThan, ageMs] at h
  cases hnow : reading.parse now with
  | none => simp [hnow] at h
  | some time => rfl

/-- A merge into a fresh listing, read back: the labels of the listing lead, each in its place; an item is a
new one or an item of the listing that no new one names; a new item is missing only where the listing is
full and did not have its label. -/
theorem merge_reads_back (reading : Reading) (current : ListingValue) (actorId : Id) (source : ItemSource)
    (items : List ListingItem) (now later : IsoTimestamp) (requestId : Option JsString) (filtered : Bool)
    (previous : Entry) (hprevious : freshEntry reading current actorId source now = some previous)
    (hshown : shownItems (some previous) .merge items ≠ []) (hlater : fresh reading now later = true) :
    ∃ entry, freshEntry reading
        (withLabelledListing reading current actorId source items now .merge requestId filtered)
        actorId source later = some entry ∧
      entry.writtenAt = now ∧ entry.replyIds = none ∧ entry.filtered = previous.filtered ∧
      (listingItems previous.ids previous.labels).map ListingItem.label <+:
        (listingItems entry.ids entry.labels).map ListingItem.label ∧
      (∀ item ∈ listingItems entry.ids entry.labels, item ∈ validItems items ∨
        item ∈ listingItems previous.ids previous.labels ∧
          ∀ next ∈ validItems items, next.label ≠ item.label) ∧
      ∀ next ∈ validItems items, next ∈ listingItems entry.ids entry.labels ∨
        (listingItems entry.ids entry.labels).length = MAX_IDS ∧
          next.label ∉ (listingItems previous.ids previous.labels).map ListingItem.label := by
  obtain ⟨stored, -, hread⟩ := Option.bind_eq_some_iff.mp (Option.filter_eq_some_iff.mp hprevious).1
  have hlabelled := entryOf_wellLabelled hread
  have hlength : (listingItems previous.ids previous.labels).length ≤ MAX_IDS := by
    rw [listingItems, List.length_mapIdx]
    exact hlabelled.1
  have hnow : (reading.parse now).isSome := fresh_parsed (Option.filter_eq_some_iff.mp hprevious).2
  set kept := listingItems previous.ids previous.labels with hkept
  set shown := shownItems (some previous) .merge items with hshownEq
  have hmerged : shown = (mergedItems kept (validItems items)).take MAX_IDS := rfl
  have hshowable : ∀ item ∈ shown, Showable item := by
    intro item hitem
    rcases mem_mergedItems (List.mem_of_mem_take hitem) with hnew | ⟨hold, -⟩
    · exact showable_validItems hnew
    · exact showable_listingItems hread hold
  have honce : (shown.map ListingItem.label).Nodup :=
    shownItems_nodup (fun e he => Option.some.inj he ▸ hlabelled) .merge items
  have hfew : shown.length ≤ MAX_IDS := List.length_take_le _ _
  set entry : Entry := ⟨source, shown.map ListingItem.id, now, requestOf requestId, none,
    some (shown.map ListingItem.label), previous.filtered⟩ with hentry
  have hwritten : labelledEntry source (some previous) items now .merge requestId filtered = some entry := by
    have hcount : shown.length ≠ 0 := fun hzero => hshown (List.length_eq_zero_iff.mp hzero)
    simp only [labelledEntry, ← hshownEq, hcount, if_false, reduceCtorEq, Option.any_some, hentry]
  have hitems : listingItems entry.ids entry.labels = shown := listingItems_shown shown
  refine ⟨entry, ?_, rfl, rfl, rfl, ?_, ?_, ?_⟩
  · have hslot : (replaceSlot reading (ownState reading current actorId now) source (some entry) now).slots
        source = some entry := if_pos rfl
    have hvalue : withLabelledListing reading current actorId source items now .merge requestId filtered =
        rewrite reading current actorId now
          (replaceSlot reading (ownState reading current actorId now) source (some entry) now) := by
      unfold withLabelledListing
      dsimp only
      rw [ownState_slots, hprevious, hwritten]
    rw [hvalue, freshEntry, lookup_rewrite current actorId now (isEmpty_of_slot hslot), Option.getD_some,
      slotOf, hslot, Option.bind_some, entryOf_showable hnow hshown hfew hshowable honce]
    exact Option.filter_eq_some_iff.mpr ⟨rfl, hlater⟩
  · rw [hitems, hmerged, List.map_take, mergedItems_labels, List.prefix_take_iff, List.length_map]
    exact ⟨List.prefix_append _ _, hlength⟩
  · rw [hitems]
    exact fun item hitem => mem_mergedItems (List.mem_of_mem_take hitem)
  · rw [hitems]
    intro next hnext
    rcases mem_mergedItems_of_valid (validItems_nodup items) hnext with
      ⟨-, hplace⟩ | ⟨hnew, hmem⟩
    · have hfirst : (kept.map fun item =>
          ((validItems items).find? fun other => other.label = item.label).getD item) <+: shown := by
        rw [hmerged, List.prefix_take_iff, List.length_map]
        exact ⟨List.prefix_append _ _, hlength⟩
      exact .inl (hfirst.mem hplace)
    · by_cases hroom : (mergedItems kept (validItems items)).length ≤ MAX_IDS
      · rw [hmerged, List.take_of_length_le hroom]
        exact .inl hmem
      · rw [hmerged, List.length_take]
        exact .inr ⟨min_eq_left (not_le.mp hroom).le, hnew⟩

/-- Two tasks were listed at nine. -/
def twoTasks : ListingValue :=
  withLabelledListing dayReading [] [1] .todo [⟨1, [7]⟩, ⟨2, [8]⟩] atNine .listing none false

/-- Ten minutes later an echo adds task 7 and names another task 2; task 1 stays where it was. -/
theorem merge_reads_back_echo :
    ∃ entry, freshEntry dayReading (withLabelledListing dayReading twoTasks [1] .todo
        [⟨7, [10]⟩, ⟨2, [9]⟩] tenPastNine .merge none false) [1] .todo tenPastNine = some entry ∧
      entry.writtenAt = tenPastNine ∧ entry.replyIds = none ∧ entry.filtered = false ∧
      (listingItems [[7], [8]] (some [1, 2])).map ListingItem.label <+:
        (listingItems entry.ids entry.labels).map ListingItem.label ∧
      (∀ item ∈ listingItems entry.ids entry.labels, item ∈ validItems [⟨7, [10]⟩, ⟨2, [9]⟩] ∨
        item ∈ listingItems [[7], [8]] (some [1, 2]) ∧
          ∀ next ∈ validItems [⟨7, [10]⟩, ⟨2, [9]⟩], next.label ≠ item.label) ∧
      ∀ next ∈ validItems [⟨7, [10]⟩, ⟨2, [9]⟩], next ∈ listingItems entry.ids entry.labels ∨
        (listingItems entry.ids entry.labels).length = MAX_IDS ∧
          next.label ∉ (listingItems [[7], [8]] (some [1, 2])).map ListingItem.label :=
  merge_reads_back dayReading twoTasks [1] .todo [⟨7, [10]⟩, ⟨2, [9]⟩] tenPastNine tenPastNine none false
    ⟨.todo, [[7], [8]], atNine, none, none, some [1, 2], false⟩ rfl (by decide) rfl

end QuokyPlatform.Listings
