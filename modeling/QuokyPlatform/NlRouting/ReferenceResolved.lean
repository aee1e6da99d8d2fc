import QuokyPlatform.NlRouting.References

/-!
# What a resolved reference names

A reference that resolves names an item of the entry's source that was shown, or the item of the last
action when the newest other listing does not speak against it.
-/

namespace QuokyPlatform.NlRouting
open Chunking (JsString units)
set_option autoImplicit false
set_option maxHeartbeats 250000

/-! ## The newest listing -/

section Newest

variable {reading : Reading}

def Dated (reading : Reading) (slot : ListingSlot) (time : ℤ) : Prop := reading.parse slot.writtenAt = some time

theorem foldl_takeNewer {slots : List ListingSlot} {first newest : ListingSlot} {start : ℤ}
    (hfirst : Dated reading first start) (hdated : ∀ slot ∈ slots, ∃ time, Dated reading slot time)
    (h : slots.foldl (takeNewer reading) (some first) = some newest) :
    (newest = first ∨ newest ∈ slots) ∧ ∃ last, Dated reading newest last ∧ start ≤ last ∧
      ∀ slot ∈ slots, ∀ time, Dated reading slot time → time ≤ last := by
  induction slots generalizing first start with
  | nil =>
    rw [List.foldl_nil] at h
    rw [← Option.some.inj h]
    exact ⟨.inl rfl, start, hfirst, le_refl _, fun _ hslot => absurd hslot List.not_mem_nil⟩
  | cons slot rest ih =>
    obtain ⟨time, htime⟩ := hdated slot List.mem_cons_self
    have hrest : ∀ other ∈ rest, ∃ time, Dated reading other time := fun other hother =>
      hdated other (List.mem_cons_of_mem slot hother)
    have hlater : isLater reading slot first = decide (start < time) := by
      unfold isLater
      rw [show reading.parse slot.writtenAt = some time from htime,
        show reading.parse first.writtenAt = some start from hfirst]
    rw [List.foldl_cons] at h
    by_cases hnewer : start < time
    · have htake : takeNewer reading (some first) slot = some slot := by
        unfold takeNewer
        simp only []
        rw [hlater, if_pos (decide_eq_true hnewer)]
      rw [htake] at h
      obtain ⟨hmem, last, hlast, hle, hall⟩ := ih htime hrest h
      refine ⟨.inr ?_, last, hlast, by omega, fun other hother otherTime hdate => ?_⟩
      · rcases hmem with rfl | hmem
        · exact List.mem_cons_self
        · exact List.mem_cons_of_mem slot hmem
      · rcases List.mem_cons.mp hother with rfl | hother
        · rw [Option.some.inj (hdate.symm.trans htime)]
          exact hle
        · exact hall other hother otherTime hdate
    · have htake : takeNewer reading (some first) slot = some first := by
        unfold takeNewer
        simp only []
        rw [hlater, decide_eq_false hnewer]
        rfl
      rw [htake] at h
      obtain ⟨hmem, last, hlast, hle, hall⟩ := ih hfirst hrest h
      refine ⟨?_, last, hlast, hle, fun other hother otherTime hdate => ?_⟩
      · rcases hmem with hmem | hmem
        · exact .inl hmem
        · exact .inr (List.mem_cons_of_mem slot hmem)
      · rcases List.mem_cons.mp hother with rfl | hother
        · rw [Option.some.inj (hdate.symm.trans htime)]
          omega
        · exact hall other hother otherTime hdate

/-- The newest of dated slots is one of them, and none is later. -/
def Newest (reading : Reading) (slots : List ListingSlot) (newest : ListingSlot) : Prop :=
  newest ∈ slots ∧ ∃ last, Dated reading newest last ∧
    ∀ slot ∈ slots, ∀ time, Dated reading slot time → time ≤ last

theorem newest_of_newestSlot {slots : List ListingSlot} {newest : ListingSlot}
    (hdated : ∀ slot ∈ slots, ∃ time, Dated reading slot time)
    (h : newestSlot reading slots = some newest) : Newest reading slots newest := by
  cases slots with
  | nil => cases h
  | cons first rest =>
    obtain ⟨start, hstart⟩ := hdated first List.mem_cons_self
    have hrest : ∀ slot ∈ rest, ∃ time, Dated reading slot time := fun slot hslot =>
      hdated slot (List.mem_cons_of_mem first hslot)
    obtain ⟨hmem, last, hlast, hle, hall⟩ := foldl_takeNewer hstart hrest h
    refine ⟨?_, last, hlast, fun slot hslot time hdate => ?_⟩
    · rcases hmem with rfl | hmem
      · exact List.mem_cons_self
      · exact List.mem_cons_of_mem first hmem
    · rcases List.mem_cons.mp hslot with rfl | hslot
      · rw [Option.some.inj (hdate.symm.trans hstart)]
        exact hle
      · exact hall slot hslot time hdate

theorem newestSlot_eq_none {slots : List ListingSlot} (h : newestSlot reading slots = none) : slots = [] := by
  cases slots with
  | nil => rfl
  | cons first rest =>
    have hsome : ∀ (rest : List ListingSlot) (first : ListingSlot),
        rest.foldl (takeNewer reading) (some first) ≠ none := by
      intro rest
      induction rest with
      | nil => exact fun first => Option.some_ne_none first
      | cons slot rest ih =>
        intro first
        rw [List.foldl_cons]
        unfold takeNewer
        simp only []
        split
        · exact ih slot
        · exact ih first
    exact absurd h (hsome rest first)

/-- The slots of a record that is read are dated. -/
theorem values_dated {stored : ItemSource → Option Entry} {readAt : IsoTimestamp} {slot : ListingSlot}
    (h : slot ∈ (readListingRecord reading stored readAt).values) :
    ∃ time, Dated reading slot time := by
  obtain ⟨source, -, hslot⟩ := List.mem_filterMap.mp h
  change freshSlot reading stored readAt source = some slot at hslot
  unfold freshSlot at hslot
  split at hslot
  · cases hslot
  · rename_i entry hentry
    split at hslot
    · rename_i hyoung
      rw [← Option.some.inj hslot]
      unfold youngerThan ageMs at hyoung
      unfold Dated
      cases hparse : reading.parse entry.writtenAt with
      | some time => exact ⟨time, rfl⟩
      | none =>
        rw [hparse] at hyoung
        cases hnow : reading.parse readAt with
        | none =>
          rw [hnow] at hyoung
          cases hyoung
        | some now =>
          rw [hnow] at hyoung
          cases hyoung
    · cases hslot

end Newest

/-! ## What may be meant -/

section Meaning

variable (reading : Reading) (input : NlReferenceInput) (target : NlItemTarget)

/-- The target is an item of the listing. -/
def IsItemOf (slot : ListingSlot) : Prop :=
  ∃ item ∈ slot.items, target.id = some item.id ∧ target.label = some item.label

/-- An item of the most recent listing, which is of the entry's source. -/
def OfMostRecent : Prop :=
  ∃ slot, input.state.listings.mostRecent = some slot ∧ slot.source = input.source ∧ IsItemOf target slot

/-- The display number of a reminder, asked for in digits in a turn about reminders. -/
def IsDisplayNumber (index : ℕ) : Prop :=
  input.source = .reminder ∧ reading.nlIndexWording index input.groundingText = some .digits ∧
    aboutReminders reading input = true ∧ target.label = some index

def IsSingle (slot : ListingSlot) (id : Id) : Prop := ∃ label, slot.items = [⟨label, id⟩]

/-- The listing is newer than the action; for a recency word, by a second or more. -/
def NewerThan (isThis : Bool) (record : LastActionRecord) (slot : ListingSlot) : Prop :=
  ∃ shown made, Dated reading slot shown ∧ reading.parse record.madeAt = some made ∧
    if isThis then made < shown else made + REFERENCE_TIE_MS ≤ shown

/-- The listings but for the echo of the action. -/
def otherListings (record : LastActionRecord) : List ListingSlot :=
  input.state.listings.values.filter fun slot =>
    !isActionEcho slot ⟨input.source, record.itemId, record.label, record.madeAt, record.requestId⟩

/-- The item of a fresh, not undone, local last action; no other listing newer than it is of another source
or something else than exactly that item. -/
def IsActionItem (isThis : Bool) : Prop :=
  ∃ record, input.state.lastAction = some ⟨record, true⟩ ∧ record.source.item = some input.source ∧
    record.undone = false ∧ isLastActionExternalSource record.source = false ∧
    target.id = some record.itemId ∧
    ∀ slot ∈ otherListings input record, NewerThan reading isThis record slot →
      slot.source = input.source ∧ IsSingle slot record.itemId

/-- The one item of the most recent listing, which is of the entry's source. -/
def IsSingleRecent : Prop :=
  ∃ slot item, input.state.listings.mostRecent = some slot ∧ slot.source = input.source ∧
    slot.items = [item] ∧ target.id = some item.id

/-- What a resolved reference of another entry than `item.summarize` names. -/
structure Meant : Prop where
  source : target.source = input.source
  named : ∀ source ∈ reading.nlNamedItemSources input.groundingText none, source = input.source
  replied : ∀ slot, input.state.replyTo = some (some (.listing slot)) →
    IsItemOf target slot ∧ slot.source = input.source ∧
      youngerThan reading LOCAL_WRITE_REPLY_PICK_MS slot.writtenAt input.state.now = true
  index : ∀ index, (∀ listing, input.state.replyTo ≠ some (some listing)) → input.ref = .index index →
    OfMostRecent input target ∨ IsDisplayNumber reading input target index
  last : (∀ listing, input.state.replyTo ≠ some (some listing)) → input.ref = .last →
    OfMostRecent input target
  recent : (∀ listing, input.state.replyTo ≠ some (some listing)) → input.ref = .recent →
    IsActionItem reading input target false ∨ IsSingleRecent input target
  this : (∀ listing, input.state.replyTo ≠ some (some listing)) → input.ref = .this →
    IsActionItem reading input target true ∨ IsSingleRecent input target

end Meaning

/-! ## The functions one by one -/

section Functions

variable {reading : Reading} {input : NlReferenceInput} {target : NlItemTarget}

theorem targetFrom_spec (slot : ListingSlot) (item : ListingItem) (h : item ∈ slot.items) :
    (targetFrom slot item).source = slot.source ∧ IsItemOf (targetFrom slot item) slot :=
  ⟨rfl, item, h, rfl, rfl⟩

theorem itemAt_mem {items : List ListingItem} {index : ℕ} {item : ListingItem}
    (h : itemAt items index = some item) : item ∈ items := by
  cases index with
  | zero => cases h
  | succ index => exact List.mem_of_getElem? h

theorem pickInSlot_resolved {slot : ListingSlot} (h : pickInSlot reading input slot = .resolved target) :
    target.source = slot.source ∧ IsItemOf target slot := by
  unfold pickInSlot at h
  split at h
  · simp only [] at h
    split at h
    · cases h
    · rename_i index _ item hitem
      rw [← NlReferenceResolution.resolved.inj h]
      refine targetFrom_spec slot item ?_
      split at hitem
      · exact itemAt_mem hitem
      · exact List.mem_of_find?_eq_some hitem
  · split at h
    · cases h
    · rename_i item hitem
      rw [← NlReferenceResolution.resolved.inj h]
      exact targetFrom_spec slot item (List.mem_of_getLast? hitem)
  · split at h
    · rename_i item hitems
      rw [← NlReferenceResolution.resolved.inj h]
      exact targetFrom_spec slot item (hitems ▸ List.mem_cons_self)
    · cases h

/-- A word that names no position only resolves in a listing of one item. -/
theorem pickInSlot_single {slot : ListingSlot} (href : input.ref = .recent ∨ input.ref = .this)
    (h : pickInSlot reading input slot = .resolved target) :
    ∃ item, slot.items = [item] ∧ target = targetFrom slot item := by
  unfold pickInSlot at h
  split at h
  · rename_i index hindex
    rw [hindex] at href
    rcases href with href | href <;> cases href
  · rename_i hlast
    rw [hlast] at href
    rcases href with href | href <;> cases href
  · split at h
    · rename_i item hitems
      exact ⟨item, hitems, (NlReferenceResolution.resolved.inj h).symm⟩
    · cases h

theorem pickMostRecent_resolved {outcome : NlResolutionOutcome}
    (h : pickMostRecent reading input outcome = .resolved target) :
    ∃ slot, input.state.listings.mostRecent = some slot ∧ slot.source = input.source ∧
      pickInSlot reading input slot = .resolved target := by
  unfold pickMostRecent at h
  split at h
  · cases h
  · rename_i slot hslot
    split at h
    · cases h
    · rename_i hsource
      exact ⟨slot, hslot, not_not.mp hsource, h⟩

theorem ofMostRecent {outcome : NlResolutionOutcome}
    (h : pickMostRecent reading input outcome = .resolved target) :
    target.source = input.source ∧ OfMostRecent input target := by
  obtain ⟨slot, hslot, hsource, hpick⟩ := pickMostRecent_resolved h
  obtain ⟨htarget, hitem⟩ := pickInSlot_resolved hpick
  exact ⟨htarget.trans hsource, slot, hslot, hsource, hitem⟩

theorem singleRecent {outcome : NlResolutionOutcome} (href : input.ref = .recent ∨ input.ref = .this)
    (h : pickMostRecent reading input outcome = .resolved target) :
    target.source = input.source ∧ IsSingleRecent input target := by
  obtain ⟨slot, hslot, hsource, hpick⟩ := pickMostRecent_resolved h
  obtain ⟨item, hitems, htarget⟩ := pickInSlot_single href hpick
  subst htarget
  exact ⟨hsource, slot, item, hslot, hsource, hitems, rfl⟩

theorem resolveReply_resolved (hentry : input.entryId ≠ .itemSummarize) {found : AnyListingReplyMatch}
    (h : resolveReply reading input found = .resolved target) :
    ∃ slot, found = .listing slot ∧ target.source = input.source ∧ IsItemOf target slot ∧
      slot.source = input.source ∧
      youngerThan reading LOCAL_WRITE_REPLY_PICK_MS slot.writtenAt input.state.now = true := by
  unfold resolveReply at h
  split at h
  · cases h
  · rename_i slot
    simp only [] at h
    rw [if_neg hentry] at h
    split at h
    · rename_i hyoung
      split at h
      · cases h
      · rename_i hsource
        obtain ⟨htarget, hitem⟩ := pickInSlot_resolved h
        exact ⟨slot, rfl, htarget.trans (not_not.mp hsource), hitem, not_not.mp hsource, hyoung⟩
    · cases h

theorem resolveDisplayNumber_resolved {index : ℕ}
    (h : resolveDisplayNumber reading input index = .resolved target) :
    target.source = .reminder ∧ aboutReminders reading input = true ∧ target.label = some index := by
  unfold resolveDisplayNumber at h
  simp only [] at h
  split at h
  · split at h
    · cases h
    · split at h
      · cases h
      · cases h
  · rename_i habout
    have habout : aboutReminders reading input = true := by
      cases hvalue : aboutReminders reading input with
      | true => rfl
      | false =>
        rw [hvalue] at habout
        exact absurd rfl habout
    split at h
    · rw [← NlReferenceResolution.resolved.inj h]
      exact ⟨rfl, habout, rfl⟩
    · split at h
      · rw [← NlReferenceResolution.resolved.inj h]
        exact ⟨rfl, habout, rfl⟩
      · split at h
        · split at h
          · cases h
          · cases h
        · rw [← NlReferenceResolution.resolved.inj h]
          exact ⟨rfl, habout, rfl⟩

theorem resolveLastItem_resolved {lastItem : LastItem}
    (h : resolveLastItem input lastItem = .resolved target) :
    target.source = input.source ∧ target.id = some lastItem.itemId := by
  unfold resolveLastItem at h
  simp only [] at h
  split at h
  · rw [← NlReferenceResolution.resolved.inj h]
    exact ⟨rfl, rfl⟩
  · split at h
    · cases h
    · rw [← NlReferenceResolution.resolved.inj h]
      exact ⟨rfl, rfl⟩

theorem resolveNewer_resolved {lastItem : LastItem} {newer : ListingSlot} {isTie isThis : Bool}
    (h : resolveNewer input lastItem newer isTie isThis = .resolved target) :
    newer.source = input.source ∧ IsSingle newer lastItem.itemId ∧ target.source = input.source ∧
      target.id = some lastItem.itemId := by
  unfold resolveNewer at h
  split at h
  · cases h
  · rename_i hsource
    have hsource : newer.source = input.source := not_not.mp hsource
    split at h
    · rename_i shown hitems
      split at h
      · cases h
      · rename_i hsame
        have hsame : shown.id = lastItem.itemId := not_not.mp hsame
        have hsingle : IsSingle newer lastItem.itemId := ⟨shown.label, by rw [hitems, ← hsame]⟩
        split at h
        · split at h
          · cases h
          · rw [← NlReferenceResolution.resolved.inj h]
            exact ⟨hsource, hsingle, hsource, congrArg some hsame⟩
        · obtain ⟨htarget, hid⟩ := resolveLastItem_resolved h
          exact ⟨hsource, hsingle, htarget, hid⟩
    · cases h

theorem usableAction_spec {record : LastActionRecord} (h : usableAction input = some record) :
    input.state.lastAction = some ⟨record, true⟩ ∧ record.source.item = some input.source ∧
      record.undone = false ∧ isLastActionExternalSource record.source = false := by
  unfold usableAction at h
  split at h
  · cases h
  · rename_i last hlast
    split at h
    · rename_i husable
      obtain ⟨hfresh, hsource, hundone, hlocal⟩ := husable
      rw [← Option.some.inj h]
      refine ⟨?_, hsource, ?_, ?_⟩
      · rw [hlast, ← hfresh]
      · simpa using hundone
      · simpa using hlocal
    · cases h

theorem lastItemOf_spec (hentry : input.entryId ≠ .itemSummarize) {lastItem : LastItem}
    (h : lastItemOf input = some lastItem) : ∃ record, usableAction input = some record ∧
      lastItem = ⟨input.source, record.itemId, record.label, record.madeAt, record.requestId⟩ := by
  unfold lastItemOf at h
  split at h
  · rename_i record hrecord
    exact ⟨record, hrecord, (Option.some.inj h).symm⟩
  · unfold usableRead at h
    rw [if_neg hentry] at h
    cases h

/-- The newest other listing, and how it stands to the action. -/
theorem newestReference_cases (action : LastItem) (listings : ListingRecord) :
    match newestReference reading action listings with
    | .action => newestSlot reading (listings.values.filter fun slot => !isActionEcho slot action) = none ∨
      ∃ newest shown made,
        newestSlot reading (listings.values.filter fun slot => !isActionEcho slot action) = some newest ∧
        Dated reading newest shown ∧ reading.parse action.madeAt = some made ∧
          shown + REFERENCE_TIE_MS ≤ made
    | .listing newer =>
      newestSlot reading (listings.values.filter fun slot => !isActionEcho slot action) = some newer
    | .tie newer =>
      newestSlot reading (listings.values.filter fun slot => !isActionEcho slot action) = some newer ∧
      ∀ shown made, Dated reading newer shown → reading.parse action.madeAt = some made →
        |shown - made| < REFERENCE_TIE_MS := by
  unfold newestReference
  cases hnewest : newestSlot reading (listings.values.filter fun slot => !isActionEcho slot action) with
  | none => exact .inl rfl
  | some newest =>
    simp only []
    cases hshown : reading.parse newest.writtenAt with
    | none => exact ⟨rfl, fun shown _ hdate => absurd (hshown.symm.trans hdate) (Option.some_ne_none _).symm⟩
    | some shown =>
      cases hmade : reading.parse action.madeAt with
      | none => exact ⟨rfl, fun _ _ _ hnone => absurd hnone (Option.some_ne_none _).symm⟩
      | some made =>
        simp only []
        by_cases htie : |shown - made| < REFERENCE_TIE_MS
        · rw [if_pos htie]
          refine ⟨rfl, fun time other htime hother => ?_⟩
          rw [← Option.some.inj (hshown.symm.trans htime), ← Option.some.inj hother]
          exact htie
        · rw [if_neg htie]
          by_cases hlater : shown - made > 0
          · rw [if_pos hlater]
          · rw [if_neg hlater]
            refine .inr ⟨newest, shown, made, rfl, hshown, rfl, ?_⟩
            rw [abs_of_nonpos (by omega)] at htie
            omega

/-- A record as it is read: the most recent listing is the newest one, and every slot holds its source. -/
def WellRead (reading : Reading) (listings : ListingRecord) : Prop :=
  listings.mostRecent = newestSlot reading listings.values ∧
    (∀ source slot, listings.slots source = some slot → slot.source = source) ∧
    ∀ slot ∈ listings.values, ∃ time, Dated reading slot time

theorem wellRead_readListingRecord (stored : ItemSource → Option Entry) (readAt : IsoTimestamp) :
    WellRead reading (readListingRecord reading stored readAt) := by
  refine ⟨rfl, fun source slot hslot => ?_, fun _ => values_dated⟩
  change freshSlot reading stored readAt source = some slot at hslot
  unfold freshSlot at hslot
  split at hslot
  · cases hslot
  · split at hslot
    · rw [← Option.some.inj hslot]
    · cases hslot

/-- When the newest other listing is of the action's source, it is the most recent one: the action has no
echo. -/
theorem mostRecent_of_newest {record : LastActionRecord} {newest : ListingSlot}
    (hread : WellRead reading input.state.listings)
    (hnewest : newestSlot reading (otherListings input record) = some newest)
    (hsource : newest.source = input.source) : input.state.listings.mostRecent = some newest := by
  obtain ⟨hrecent, hslots, hdated⟩ := hread
  have hmem := (newest_of_newestSlot (fun slot hslot => hdated slot (List.mem_filter.mp hslot).1) hnewest).1
  obtain ⟨hvalue, hnot⟩ := List.mem_filter.mp hmem
  have hslot : ∀ slot ∈ input.state.listings.values, input.state.listings.slots slot.source = some slot := by
    intro slot hslot
    obtain ⟨source, -, hfound⟩ := List.mem_filterMap.mp hslot
    rw [hslots source slot hfound]
    exact hfound
  have hall : otherListings input record = input.state.listings.values := by
    refine List.filter_eq_self.mpr fun slot hvalue' => ?_
    by_cases hsame : slot.source = input.source
    · have heq : slot = newest := by
        have hfirst := hslot slot hvalue'
        rw [hsame, ← hsource] at hfirst
        exact Option.some.inj (hfirst.symm.trans (hslot newest hvalue))
      rw [heq]
      exact hnot
    · unfold isActionEcho
      simp only [decide_eq_false hsame, Bool.false_and, Bool.not_false]
  rw [hrecent, ← hall, hnewest]

theorem resolveDeictic_resolved {isThis : Bool} (hentry : input.entryId ≠ .itemSummarize)
    (href : input.ref = .recent ∨ input.ref = .this) (hread : WellRead reading input.state.listings)
    (h : resolveDeictic reading input isThis = .resolved target) :
    target.source = input.source ∧
      (IsActionItem reading input target isThis ∨ IsSingleRecent input target) := by
  unfold resolveDeictic at h
  cases hitem : lastItemOf input with
  | none =>
    rw [hitem] at h
    obtain ⟨htarget, hsingle⟩ := singleRecent href h
    exact ⟨htarget, .inr hsingle⟩
  | some lastItem =>
    rw [hitem] at h
    simp only [] at h
    obtain ⟨record, hrecord, rfl⟩ := lastItemOf_spec hentry hitem
    obtain ⟨hlast, hsource, hundone, hlocal⟩ := usableAction_spec hrecord
    have hcases := @newestReference_cases reading
      ⟨input.source, record.itemId, record.label, record.madeAt, record.requestId⟩ input.state.listings
    have hnewest : ∀ newest, newestSlot reading (otherListings input record) = some newest →
        Newest reading (otherListings input record) newest := fun newest =>
      newest_of_newestSlot fun slot hslot => hread.2.2 slot (List.mem_filter.mp hslot).1
    -- when no other listing is newer, the action is meant
    have haction : target.id = some record.itemId →
        (∀ slot ∈ otherListings input record, ¬ NewerThan reading isThis record slot) →
          IsActionItem reading input target isThis := fun hid hnone =>
      ⟨record, hlast, hsource, hundone, hlocal, hid, fun slot hslot hnewer =>
        absurd hnewer (hnone slot hslot)⟩
    have hrecent : ∀ newer, newestSlot reading (otherListings input record) = some newer →
        newer.source = input.source → IsSingle newer record.itemId → target.id = some record.itemId →
          IsSingleRecent input target := by
      intro newer hsome hnewer hsingle hid
      obtain ⟨label, hitems⟩ := hsingle
      exact ⟨newer, ⟨label, record.itemId⟩, mostRecent_of_newest hread hsome hnewer, hnewer, hitems, hid⟩
    cases horder : newestReference reading
        ⟨input.source, record.itemId, record.label, record.madeAt, record.requestId⟩
        input.state.listings with
    | action =>
      rw [horder] at h hcases
      obtain ⟨htarget, hid⟩ := resolveLastItem_resolved h
      refine ⟨htarget, .inl (haction hid fun slot hslot => ?_)⟩
      rcases hcases with hnone | ⟨newest, shown, made, hsome, hdate, hmade, hle⟩
      · have hempty : otherListings input record = [] := newestSlot_eq_none hnone
        rw [hempty] at hslot
        exact absurd hslot List.not_mem_nil
      · rintro ⟨time, made', htime, hmade', hnewer⟩
        obtain ⟨-, last, hlastDate, hall⟩ := hnewest newest hsome
        have hle' := hall slot hslot time htime
        rw [Option.some.inj (hlastDate.symm.trans hdate)] at hle'
        rw [Option.some.inj (hmade'.symm.trans hmade)] at hnewer
        unfold REFERENCE_TIE_MS at hle hnewer
        split at hnewer
        · omega
        · omega
    | listing newer =>
      rw [horder] at h hcases
      obtain ⟨hnewer, hsingle, htarget, hid⟩ := resolveNewer_resolved h
      exact ⟨htarget, .inr (hrecent newer hcases hnewer hsingle hid)⟩
    | tie newer =>
      rw [horder] at h hcases
      cases isThis with
      | true =>
        obtain ⟨hnewer, hsingle, htarget, hid⟩ := resolveNewer_resolved h
        exact ⟨htarget, .inr (hrecent newer hcases.1 hnewer hsingle hid)⟩
      | false =>
        obtain ⟨htarget, hid⟩ := resolveLastItem_resolved h
        refine ⟨htarget, .inl (haction hid fun slot hslot => ?_)⟩
        rintro ⟨time, made, htime, hmade, hlate⟩
        obtain ⟨-, last, hlastDate, hall⟩ := hnewest newer hcases.1
        have hle := hall slot hslot time htime
        have htie := hcases.2 last made hlastDate hmade
        rw [if_neg Bool.false_ne_true] at hlate
        rw [abs_lt] at htie
        omega

end Functions

/-! ## References -/

section References

variable {reading : Reading} {input : NlReferenceInput} {target : NlItemTarget}

theorem named_of_not_other {named : List ItemSource} (h : otherSourceNamed input named = false) :
    ∀ source ∈ named, source = input.source := by
  unfold otherSourceNamed at h
  rw [Bool.or_eq_false_iff] at h
  obtain ⟨hseveral, hother⟩ := h
  match named, hseveral, hother with
  | [], _, _ => exact fun source hsource => absurd hsource List.not_mem_nil
  | [single], _, hother =>
    have hmem : [single].contains input.source = true := by simpa using hother
    intro source hsource
    rw [List.mem_singleton.mp hsource]
    exact (List.mem_singleton.mp (List.contains_iff_mem.mp hmem)).symm
  | _ :: _ :: _, hseveral, _ =>
    exact absurd (of_decide_eq_false hseveral) (by simp)

theorem meant_of_reply
    (hnamed : ∀ source ∈ reading.nlNamedItemSources input.groundingText none, source = input.source)
    (hentry : input.entryId ≠ .itemSummarize) {found : AnyListingReplyMatch}
    (hreply : input.state.replyTo = some (some found))
    (h : resolveReply reading input found = .resolved target) : Meant reading input target := by
  obtain ⟨slot, hfound, htarget, hitem, hsource, hyoung⟩ := resolveReply_resolved hentry h
  have hnone : ¬ ∀ listing, input.state.replyTo ≠ some (some listing) := fun hno => hno found hreply
  exact {
    source := htarget
    named := hnamed
    replied := by
      intro other hother
      rw [hreply, hfound] at hother
      cases hother
      exact ⟨hitem, hsource, hyoung⟩
    index := fun _ hno => absurd hno hnone
    last := fun hno => absurd hno hnone
    recent := fun hno => absurd hno hnone
    this := fun hno => absurd hno hnone }

/-- A message that replies to no listing. -/
theorem meant_of_words
    (hnamed : ∀ source ∈ reading.nlNamedItemSources input.groundingText none, source = input.source)
    (hentry : input.entryId ≠ .itemSummarize)
    (hread : WellRead reading input.state.listings)
    (hreply : ∀ listing, input.state.replyTo ≠ some (some listing))
    (hkey : ∀ key, input.ref ≠ .key key)
    (h : resolveWords reading input = .resolved target) : Meant reading input target := by
  unfold resolveWords at h
  have hreplied : ∀ slot, input.state.replyTo = some (some (.listing slot)) →
      IsItemOf target slot ∧ slot.source = input.source ∧
        youngerThan reading LOCAL_WRITE_REPLY_PICK_MS slot.writtenAt input.state.now = true :=
    fun slot hslot => absurd hslot (hreply _)
  cases href : input.ref with
  | index index =>
    rw [href] at h
    simp only [] at h
    have hmeant : target.source = input.source ∧
        (OfMostRecent input target ∨ IsDisplayNumber reading input target index) := by
      split at h
      · rename_i hdigits
        obtain ⟨htarget, habout, hlabel⟩ := resolveDisplayNumber_resolved h
        exact ⟨htarget.trans hdigits.1.symm, .inr ⟨hdigits.1, hdigits.2, habout, hlabel⟩⟩
      · obtain ⟨htarget, hitem⟩ := ofMostRecent h
        exact ⟨htarget, .inl hitem⟩
    refine ⟨hmeant.1, hnamed, hreplied, fun other _ hother => ?_, fun _ hother => ?_,
      fun _ hother => ?_, fun _ hother => ?_⟩
    · rw [href] at hother
      cases hother
      exact hmeant.2
    all_goals
      rw [href] at hother
      cases hother
  | last =>
    rw [href] at h
    obtain ⟨htarget, hitem⟩ := ofMostRecent h
    refine ⟨htarget, hnamed, hreplied, fun other _ hother => ?_, fun _ _ => hitem,
      fun _ hother => ?_, fun _ hother => ?_⟩
    all_goals
      rw [href] at hother
      cases hother
  | recent =>
    rw [href] at h
    obtain ⟨htarget, hmeant⟩ := resolveDeictic_resolved hentry (.inl href) hread h
    refine ⟨htarget, hnamed, hreplied, fun other _ hother => ?_, fun _ hother => ?_,
      fun _ _ => hmeant, fun _ hother => ?_⟩
    all_goals
      rw [href] at hother
      cases hother
  | this =>
    rw [href] at h
    obtain ⟨htarget, hmeant⟩ := resolveDeictic_resolved hentry (.inr href) hread h
    refine ⟨htarget, hnamed, hreplied, fun other _ hother => ?_, fun _ hother => ?_,
      fun _ hother => ?_, fun _ _ => hmeant⟩
    all_goals
      rw [href] at hother
      cases hother
  | key key => exact absurd href (hkey key)

def actedAt : IsoTimestamp := units "2026-01-01T00:00:00.000Z"

def shownAt : IsoTimestamp := units "2026-01-01T00:00:00.500Z"

def readAt : IsoTimestamp := units "2026-01-01T00:01:00.000Z"

/-- The words name no source. -/
def plainReading : Reading where
  parse := fun text =>
    List.lookup text [(actedAt, 1767225600000), (shownAt, 1767225600500), (readAt, 1767225660000)]
  normalizeForMatch := id
  nlNamedItemSources := fun _ _ => []
  nlIndexWording := fun _ _ => none

/-- A mail listing, shown half a second after the action. -/
def mailShown : ItemSource → Option Entry
  | .mail => some ⟨[units "m"], shownAt, none, none, false⟩
  | _ => none

def theOneJustNow : NlReferenceInput where
  entryId := .localWrite "todo.complete"
  source := .todo
  ref := .recent
  groundingText := []
  state := {
    listings := readListingRecord plainReading mailShown readAt
    lastAction := some ⟨⟨.todo, units "t", none, actedAt, false, none⟩, true⟩
    lastRead := none
    r2Sources := []
    replyTo := none
    now := readAt }

def theTodo : NlItemTarget := ⟨.todo, some (units "t"), none, none⟩

theorem theOneJustNow_resolved :
    resolveItemReference plainReading theOneJustNow = .resolved theTodo := by
  rfl

end References

end QuokyPlatform.NlRouting
