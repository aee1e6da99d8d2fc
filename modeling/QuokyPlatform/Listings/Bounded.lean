import QuokyPlatform.Listings.PickedAsShown

/-! # The bounds of the listing store

Whatever is written, the store keeps at most 64 actors, and for each at most one listing of a source with
at most 50 items and different labels, 8 replied-to listings and 64 tombstones. -/

namespace QuokyPlatform.Listings
open Chunking (JsString)
open NlRouting (ItemSource SLOTS ListingItem Reading)

set_option autoImplicit false
set_option maxHeartbeats 250000

/-! ## Labels -/

/-- The labels of a listing are as many as its items and different. -/
def WellLabelled (entry : Entry) : Prop :=
  entry.ids.length ≤ MAX_IDS ∧
    ∀ labels, entry.labels = some labels → labels.length = entry.ids.length ∧ labels.Nodup

theorem map_label_listingItems {ids : List Id} {labels : List ℕ} (h : labels.length = ids.length) :
    (listingItems ids (some labels)).map ListingItem.label = labels := by
  refine List.ext_getElem? fun index => ?_
  rw [listingItems, List.getElem?_map, List.getElem?_mapIdx]
  by_cases hindex : index < ids.length
  · rw [List.getElem?_eq_getElem hindex, List.getElem?_eq_getElem (h.symm ▸ hindex)]
    simp [h, hindex]
  · rw [List.getElem?_eq_none (not_lt.mp hindex), List.getElem?_eq_none (h ▸ not_lt.mp hindex)]
    rfl

theorem map_label_positions (ids : List Id) :
    (listingItems ids none).map ListingItem.label = List.range' 1 ids.length := by
  refine List.ext_getElem? fun index => ?_
  rw [listingItems, List.getElem?_map, List.getElem?_mapIdx]
  by_cases hindex : index < ids.length
  · rw [List.getElem?_eq_getElem hindex, List.getElem?_range' hindex]
    simp [Nat.add_comm]
  · rw [List.getElem?_eq_none (not_lt.mp hindex), List.getElem?_eq_none]
    · rfl
    · rw [List.length_range']
      exact not_lt.mp hindex

theorem labels_nodup {ids : List Id} {labels : Option (List ℕ)}
    (h : ∀ list, labels = some list → list.length = ids.length ∧ list.Nodup) :
    ((listingItems ids labels).map ListingItem.label).Nodup := by
  cases labels with
  | none =>
    rw [map_label_positions]
    exact List.nodup_range'
  | some list =>
    obtain ⟨hlength, hnodup⟩ := h list rfl
    rw [map_label_listingItems hlength]
    exact hnodup

theorem zipIdx_nodup (items : List ListingItem) : items.zipIdx.Nodup := by
  refine List.Nodup.of_map Prod.snd ?_
  rw [List.zipIdx_map_snd]
  exact List.nodup_range'

/-- Each label of the well-formed items is there once. -/
theorem validItems_nodup (items : List ListingItem) : ((validItems items).map ListingItem.label).Nodup := by
  rw [validItems, List.map_map]
  refine List.Nodup.map_on (fun a ha b hb heq => ?_) (List.Nodup.filter _ (zipIdx_nodup items))
  obtain ⟨hina, hfirsta⟩ := List.mem_filter.mp ha
  obtain ⟨hinb, hfirstb⟩ := List.mem_filter.mp hb
  simp only [Bool.and_eq_true, decide_eq_true_eq] at hfirsta hfirstb
  have hindex : a.2 = b.2 := by
    rw [← hfirsta.2, ← hfirstb.2, show a.1.label = b.1.label from heq]
  have hitem : a.1 = b.1 := by
    have hgeta := List.mem_zipIdx_iff_getElem?.mp hina
    have hgetb := List.mem_zipIdx_iff_getElem?.mp hinb
    rw [hindex, hgetb] at hgeta
    exact (Option.some.inj hgeta).symm
  exact Prod.ext hitem hindex

theorem mergedItems_labels (kept valid : List ListingItem) :
    (mergedItems kept valid).map ListingItem.label = kept.map ListingItem.label ++
      (valid.filter fun item => !kept.any fun existing => existing.label = item.label).map
        ListingItem.label := by
  rw [mergedItems, List.map_append, List.map_map]
  congr 1
  refine List.map_congr_left fun item _ => ?_
  change ((valid.find? fun next => next.label = item.label).getD item).label = item.label
  cases hfound : valid.find? fun next => next.label = item.label with
  | none => rfl
  | some next =>
    have hlabel := List.find?_some hfound
    exact of_decide_eq_true hlabel

theorem mergedItems_nodup {kept valid : List ListingItem} (hkept : (kept.map ListingItem.label).Nodup)
    (hvalid : (valid.map ListingItem.label).Nodup) :
    ((mergedItems kept valid).map ListingItem.label).Nodup := by
  rw [mergedItems_labels, List.nodup_append]
  refine ⟨hkept, hvalid.sublist (List.filter_sublist.map _), fun label hlabel other hother => ?_⟩
  rintro rfl
  obtain ⟨existing, hexisting, hsame⟩ := List.mem_map.mp hlabel
  obtain ⟨item, hitem, rfl⟩ := List.mem_map.mp hother
  have hnew := (List.mem_filter.mp hitem).2
  rw [Bool.not_eq_true', List.any_eq_false] at hnew
  exact hnew existing hexisting (decide_eq_true hsame)

theorem shownItems_nodup {previous : Option Entry} (hprevious : ∀ e, previous = some e → WellLabelled e)
    (mode : LabelledListingMode) (items : List ListingItem) :
    ((shownItems previous mode items).map ListingItem.label).Nodup := by
  unfold shownItems
  rw [List.map_take]
  refine List.Nodup.sublist (List.take_sublist _ _) ?_
  have hvalid := validItems_nodup items
  split
  · rename_i entry
    exact mergedItems_nodup (labels_nodup (hprevious entry rfl).2) hvalid
  · exact hvalid

/-! ## What is kept -/

/-- What the store keeps of an actor. -/
structure BoundedState (state : ActorState) : Prop where
  slots : ∀ slot entry, state.slots slot = some entry → entry.source = slot ∧ WellLabelled entry
  replied : state.replied.length ≤ LISTING_REPLIED_MAX
  expired : state.expired.length ≤ LISTING_TOMBSTONES_MAX

structure BoundedValue (value : ListingValue) : Prop where
  states : ∀ entry ∈ value, BoundedState entry.2
  actors : value.length ≤ LAST_LISTING_MAX_ACTORS
  once : (value.map Prod.fst).Nodup

variable {reading : Reading}

theorem length_lastOf {α : Type} (count : ℕ) (list : List α) : (lastOf count list).length ≤ count := by
  rw [lastOf, List.length_drop]
  omega

theorem entryOf_wellLabelled {source : Option ItemSource} {allowEmptyIds : Bool} {raw entry : Entry}
    (hentry : entryOf reading source allowEmptyIds raw = some entry) : WellLabelled entry := by
  unfold entryOf at hentry
  split at hentry
  · cases hentry
  · split at hentry
    · cases hentry
    · split at hentry
      · cases hentry
      · rename_i hids
        split at hentry
        · cases hentry
        · rename_i hlabels
          cases hentry
          rw [Bool.or_eq_true, not_or, Bool.not_eq_true', Bool.not_eq_false] at hids
          obtain ⟨hlength, -⟩ := Bool.and_eq_true_iff.mp hids.1
          refine ⟨of_decide_eq_true hlength, fun labels hsome => ?_⟩
          rw [show raw.labels = some labels from hsome, Option.any_some, Bool.not_eq_true,
            Bool.not_eq_false'] at hlabels
          simp only [boundedLabels, Bool.and_eq_true, decide_eq_true_eq] at hlabels
          exact ⟨hlabels.1.1, hlabels.2⟩

/-- Whatever was stored, an actor's state is within the bounds once it is read. -/
theorem actorStateOf_bounded (raw : ActorState) (now : IsoTimestamp) :
    BoundedState (actorStateOf reading raw now) := by
  unfold actorStateOf settle
  refine ⟨fun slot entry hentry => ?_, length_lastOf _ _, ?_⟩
  · obtain ⟨stored, -, hread⟩ := Option.bind_eq_some_iff.mp (Option.filter_eq_some_iff.mp hentry).1
    exact ⟨(entryOf_spec hread).2.1 slot rfl, entryOf_wellLabelled hread⟩
  · dsimp only
    exact length_lastOf _ _

theorem BoundedState.setSlot {state : ActorState} (hstate : BoundedState state) {source : ItemSource}
    {entry : Option Entry} (hentry : ∀ e, entry = some e → e.source = source ∧ WellLabelled e) :
    BoundedState (state.setSlot source entry) := by
  refine ⟨fun slot e he => ?_, hstate.replied, hstate.expired⟩
  simp only [ActorState.setSlot] at he
  split at he
  · rename_i hslot
    rw [hslot]
    exact hentry e he
  · exact hstate.slots slot e he

theorem replaceSlot_bounded {own : ActorState} (hown : BoundedState own) {source : ItemSource}
    {entry : Option Entry} (hentry : ∀ e, entry = some e → e.source = source ∧ WellLabelled e)
    (now : IsoTimestamp) : BoundedState (replaceSlot reading own source entry now) :=
  ⟨(hown.setSlot hentry).slots, length_lastOf LISTING_REPLIED_MAX _, length_lastOf LISTING_TOMBSTONES_MAX _⟩

theorem listingEntry_bounded {source : ItemSource} {ids : List Id} {now : IsoTimestamp}
    {requestId : Option JsString} {entry : Entry} (h : listingEntry source ids now requestId = some entry) :
    entry.source = source ∧ WellLabelled entry := by
  unfold listingEntry at h
  split at h
  · cases h
    exact ⟨rfl, List.length_take_le _ _, fun labels hlabels => (nomatch hlabels)⟩
  · cases h

theorem labelledEntry_bounded {source : ItemSource} {previous : Option Entry}
    (hprevious : ∀ e, previous = some e → e.source = source ∧ WellLabelled e) {items : List ListingItem}
    {now : IsoTimestamp} {mode : LabelledListingMode} {requestId : Option JsString} {filtered : Bool}
    {entry : Entry} (h : labelledEntry source previous items now mode requestId filtered = some entry) :
    entry.source = source ∧ WellLabelled entry := by
  have hnodup := shownItems_nodup (fun e he => (hprevious e he).2) mode items
  simp only [labelledEntry] at h
  split at h
  · cases mode with
    | listing =>
      cases filtered with
      | true =>
        cases h
        exact ⟨rfl, Nat.zero_le _, fun labels hlabels => Option.some.inj hlabels ▸ ⟨rfl, List.nodup_nil⟩⟩
      | false => cases h
    | merge => exact hprevious entry h
  · cases h
    refine ⟨rfl, ?_, fun labels hlabels => ?_⟩
    · rw [List.length_map]
      exact List.length_take_le _ _
    · cases hlabels
      exact ⟨by rw [List.length_map, List.length_map], hnodup⟩

/-! ## The actors -/

theorem dropOldest_length {own others : ListingValue} (hown : own.length ≤ LAST_LISTING_MAX_ACTORS) :
    (dropOldest own others).length ≤ LAST_LISTING_MAX_ACTORS := by
  induction others with
  | nil => exact hown
  | cons other others ih =>
    rw [dropOldest]
    split
    · exact ih
    · rename_i hfits
      exact not_lt.mp hfits

/-- Only other actors go, the first ones first. -/
theorem dropOldest_eq (own others : ListingValue) : ∃ k, dropOldest own others = others.drop k ++ own := by
  induction others with
  | nil => exact ⟨0, rfl⟩
  | cons other others ih =>
    rw [dropOldest]
    split
    · obtain ⟨k, hk⟩ := ih
      exact ⟨k + 1, hk⟩
    · exact ⟨0, rfl⟩

/-- The other actors' cleaned states. -/
def otherStates (reading : Reading) (current : ListingValue) (actorId : Id) (now : IsoTimestamp) :
    ListingValue :=
  (current.filter fun entry => entry.1 ≠ actorId).filterMap fun entry =>
    let state := actorStateOf reading entry.2 now
    if state.isEmpty then none else some (entry.1, state)

theorem otherStates_keys (current : ListingValue) (actorId : Id) (now : IsoTimestamp) :
    ((otherStates reading current actorId now).map Prod.fst).Sublist (current.map Prod.fst) := by
  rw [otherStates]
  have hkept : ((current.filter fun entry => entry.1 ≠ actorId).map Prod.fst).Sublist
      (current.map Prod.fst) := List.filter_sublist.map Prod.fst
  refine List.Sublist.trans ?_ hkept
  induction current.filter fun entry => entry.1 ≠ actorId with
  | nil => exact List.Sublist.refl _
  | cons entry rest ih =>
    by_cases hempty : (actorStateOf reading entry.2 now).isEmpty
    · simp only [List.filterMap_cons, hempty, if_true, List.map_cons]
      exact ih.cons _
    · simp only [List.filterMap_cons, hempty, Bool.false_eq_true, if_false, List.map_cons]
      exact ih.cons_cons _

theorem actorId_notMem_otherStates (current : ListingValue) (actorId : Id) (now : IsoTimestamp) :
    actorId ∉ (otherStates reading current actorId now).map Prod.fst := by
  rw [otherStates, List.mem_map]
  rintro ⟨entry, hentry, rfl⟩
  obtain ⟨stored, hstored, hkept⟩ := List.mem_filterMap.mp hentry
  have hother := of_decide_eq_true (List.mem_filter.mp hstored).2
  dsimp only at hkept
  split at hkept
  · cases hkept
  · cases hkept
    exact hother rfl

theorem rewrite_bounded {value : ListingValue} (hvalue : BoundedValue value) (actorId : Id)
    (now : IsoTimestamp) {own : ActorState} (hown : BoundedState own) :
    BoundedValue (rewrite reading value actorId now own) := by
  have hself : (if own.isEmpty then [] else [(actorId, own)]).length ≤ LAST_LISTING_MAX_ACTORS := by
    split
    · exact Nat.zero_le _
    · exact (by decide : 1 ≤ LAST_LISTING_MAX_ACTORS)
  refine ⟨fun entry hentry => ?_, dropOldest_length hself, ?_⟩
  · rcases mem_dropOldest hentry with hother | hmine
    · obtain ⟨stored, -, hkept⟩ := List.mem_filterMap.mp hother
      dsimp only at hkept
      split at hkept
      · cases hkept
      · cases hkept
        exact actorStateOf_bounded stored.2 now
    · split at hmine
      · cases hmine
      · rw [List.mem_singleton.mp hmine]
        exact hown
  · obtain ⟨k, hk⟩ := dropOldest_eq (if own.isEmpty then [] else [(actorId, own)])
      (otherStates reading value actorId now)
    rw [show rewrite reading value actorId now own = _ from hk]
    refine (((List.drop_sublist k _).append (List.Sublist.refl _)).map Prod.fst).nodup ?_
    rw [List.map_append, List.nodup_append']
    refine ⟨(otherStates_keys value actorId now).nodup hvalue.once, ?_, ?_⟩
    · split
      · exact List.nodup_nil
      · exact List.nodup_singleton _
    · split
      · exact List.disjoint_nil_right _
      · exact List.disjoint_singleton.mpr (actorId_notMem_otherStates value actorId now)

/-! ## Runs -/

theorem boundedValue_nil : BoundedValue [] :=
  ⟨fun _ h => (nomatch h), Nat.zero_le _, List.nodup_nil⟩

theorem step_bounded {h : History} (hvalue : BoundedValue h.value) (operation : Operation) :
    BoundedValue (h.step reading operation).value := by
  have hown : ∀ actorId now, BoundedState (ownState reading h.value actorId now) :=
    fun actorId now => actorStateOf_bounded _ now
  cases operation with
  | listing actorId source ids now requestId =>
    exact rewrite_bounded hvalue actorId now
      (replaceSlot_bounded (hown actorId now) (fun e he => listingEntry_bounded he) now)
  | labelled actorId source items now mode requestId filtered =>
    exact rewrite_bounded hvalue actorId now (replaceSlot_bounded (hown actorId now)
      (fun e he => labelledEntry_bounded ((hown actorId now).slots source) he) now)
  | replies actorId source requestId replyIds now =>
    simp only [History.step, withListingReplies]
    cases hfound : repliedEntry (ownState reading h.value actorId now) source requestId replyIds with
    | none => exact hvalue
    | some entry =>
      obtain ⟨hsource, hlabelled⟩ := (hown actorId now).slots source entry
        (Option.filter_eq_some_iff.mp hfound).1
      refine rewrite_bounded hvalue actorId now ((hown actorId now).setSlot fun e he => ?_)
      cases he
      exact ⟨hsource, hlabelled⟩

/-- In every run, the store stays within its bounds. -/
theorem listings_bounded (reading : Reading) (operations : List Operation) :
    BoundedValue (History.start.run reading operations).value := by
  have hall : ∀ (operations : List Operation) (h : History), BoundedValue h.value →
      BoundedValue (h.run reading operations).value := by
    intro operations
    induction operations with
    | nil => exact fun h hvalue => hvalue
    | cons operation rest ih => exact fun h hvalue => ih _ (step_bounded hvalue operation)
  exact hall operations _ boundedValue_nil

end QuokyPlatform.Listings
