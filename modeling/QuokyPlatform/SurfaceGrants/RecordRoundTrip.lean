import Mathlib.Data.List.Sort
import QuokyPlatform.SurfaceGrants.RecordInvariant

/-!
# Storing a record and reading it again

What is read from a stored record denotes the same grants, seeds and notes. Only the order of the
properties may differ: a stored record has its channels by key and their groups in table order, and
the notes are read newest first.
-/

namespace QuokyPlatform.SurfaceGrants
set_option autoImplicit false
set_option maxHeartbeats 250000

/-- Two records denote the same channels, grants, seeds and notes. -/
structure SurfaceGrantRecord.Same (record other : SurfaceGrantRecord) : Prop where
  channels : ∀ key, (record.channels.get key).isSome = (other.channels.get key).isSome
  grants : ∀ key id, record.grant key id = other.grant key id
  seeds : record.seeds = other.seeds
  revoked : ∀ key, record.revoked.get key = other.revoked.get key

/-! ## One channel -/

theorem surfaceGroupOf_text (id : SurfaceGroupId) : surfaceGroupOf id.text = some id := by
  cases id <;> decide

theorem text_injective {id other : SurfaceGroupId} (h : id.text = other.text) : id = other := by
  have hid := surfaceGroupOf_text id
  rw [h, surfaceGroupOf_text] at hid
  exact (Option.some.inj hid).symm

theorem sourceOf_text (source : SurfaceGrantSource) : sourceOf source.text = some source := by
  cases source <;> decide

section
variable (host : Host)

theorem readEntry_entryJson {entry : SurfaceGrantEntry} (h : Parseable host entry.at') :
    readEntry host (entryJson entry) = some entry := by
  have hsome : (host.parseDate entry.at').isSome = true := h
  simp [readEntry, entryJson, Json.field, hsome, sourceOf_text]

/-- The groups of a channel in table order. -/
def grantedEntries (channel : SurfaceGrantChannel) : List (SurfaceGroupId × SurfaceGrantEntry) :=
  SURFACE_GROUP_IDS.filterMap fun id => (channel.groups.get id).map fun entry => (id, entry)

theorem mem_grantedEntries {channel : SurfaceGrantChannel} {id : SurfaceGroupId}
    {entry : SurfaceGrantEntry} :
    (id, entry) ∈ grantedEntries channel ↔ channel.groups.get id = some entry := by
  simp only [grantedEntries, List.mem_filterMap, Option.map_eq_some_iff, Prod.mk.injEq]
  constructor
  · rintro ⟨id', -, entry', hget, rfl, rfl⟩
    exact hget
  · intro hget
    exact ⟨id, mem_SURFACE_GROUP_IDS id, entry, hget, rfl, rfl⟩

theorem keys_filterMap_sublist {K V : Type} (keys : List K) (get : K → Option V) :
    ((keys.filterMap fun key => (get key).map fun value => (key, value)).map Prod.fst).Sublist
      keys := by
  induction keys with
  | nil => simp
  | cons key rest ih =>
    cases hget : get key with
    | none => simpa [hget] using ih.cons key
    | some value => simpa [hget] using ih.cons_cons key

theorem channelJson_eq (channel : SurfaceGrantChannel) :
    channelJson channel = .obj [("groups", .obj ((grantedEntries channel).map fun granted =>
      (granted.1.text, entryJson granted.2)))] := by
  simp only [channelJson, grantedEntries, List.map_filterMap, Option.map_map]
  rfl

/-- A channel as it is read again. -/
def storedChannel (channel : SurfaceGrantChannel) : SurfaceGrantChannel :=
  ⟨((grantedEntries channel).map fun granted => (granted.1.text, entryJson granted.2)).foldl
    (readGroup host) .empty⟩

theorem storedChannel_entries {channel : SurfaceGrantChannel} (h : channel.Valid host) :
    (storedChannel host channel).groups.entries = grantedEntries channel := by
  have hread := PlainObject.entries_foldl_set
    (fun groups (granted : SurfaceGroupId × SurfaceGrantEntry) =>
      readGroup host groups (granted.1.text, entryJson granted.2))
    (fun granted => granted) (grantedEntries channel).length (grantedEntries channel) .empty
    ?_ ?_ ?_
  · rw [storedChannel, List.foldl_map, hread]
    simp [PlainObject.empty]
  · intro granted hgranted groups _
    have hget := mem_grantedEntries.mp hgranted
    have hentry := readEntry_entryJson host (h.dated _ _ hget)
    simp [readGroup, surfaceGroupOf_text, h.grantable _ _ hget, hentry]
  · simp [PlainObject.size, PlainObject.empty]
  · exact nodup_SURFACE_GROUP_IDS.sublist (keys_filterMap_sublist _ _)

theorem storedChannel_get {channel : SurfaceGrantChannel} (h : channel.Valid host)
    (id : SurfaceGroupId) :
    (storedChannel host channel).groups.get id = channel.groups.get id := by
  apply Option.ext
  intro entry
  rw [PlainObject.get_eq_some, storedChannel_entries host h, mem_grantedEntries]

theorem readChannel_channelJson {key : String} {channel : SurfaceGrantChannel}
    (hkey : CHANNEL_KEY_SHAPE key = true) (h : channel.Valid host) :
    readChannel host key (channelJson channel) = some (storedChannel host channel) := by
  have hpos : 0 < (storedChannel host channel).groups.size := by
    have hlt := h.size_pos
    obtain ⟨⟨id, entry⟩, hmem⟩ := List.exists_mem_of_length_pos hlt
    have hget := PlainObject.get_of_mem hmem
    rw [← storedChannel_get host h] at hget
    exact PlainObject.size_pos_of_get hget
  rw [channelJson_eq]
  simp only [readChannel, Json.field, List.find?_cons, decide_true, Option.map_some, hkey,
    Bool.true_and]
  exact if_pos (decide_eq_true hpos)

/-! ## The tables by key -/

/-- The properties of an object by sorted key. -/
def sortedEntries {V : Type} (object : PlainObject String V) : List (String × V) :=
  (sortedKeys object).filterMap fun key => (object.get key).map fun value => (key, value)

theorem sortedFields_eq {V : Type} (write : V → Json) (object : PlainObject String V) :
    sortedFields write object = (sortedEntries object).map fun entry => (entry.1, write entry.2) := by
  simp only [sortedFields, sortedEntries, List.map_filterMap, Option.map_map]
  rfl

theorem mem_sortedEntries {V : Type} {object : PlainObject String V} {key : String} {value : V} :
    (key, value) ∈ sortedEntries object ↔ object.get key = some value := by
  simp only [sortedEntries, sortedKeys, List.mem_filterMap, List.mem_mergeSort,
    Option.map_eq_some_iff, Prod.mk.injEq]
  constructor
  · rintro ⟨key', -, value', hget, rfl, rfl⟩
    exact hget
  · intro hget
    exact ⟨key, PlainObject.mem_keys.mpr ⟨value, hget⟩, value, hget, rfl, rfl⟩

theorem sortedEntries_nodup {V : Type} (object : PlainObject String V) :
    ((sortedEntries object).map Prod.fst).Nodup := by
  have hkeys : (sortedKeys object).Nodup :=
    (List.mergeSort_perm _ _).nodup_iff.mpr object.distinct
  exact hkeys.sublist (keys_filterMap_sublist _ _)

theorem length_sortedEntries_le {V : Type} (object : PlainObject String V) :
    (sortedEntries object).length ≤ object.size := by
  have hle := List.length_filterMap_le (fun key => (object.get key).map fun value => (key, value))
    (sortedKeys object)
  have hlength : (sortedKeys object).length = object.size := by
    simp [sortedKeys, PlainObject.keys, PlainObject.size]
  rw [hlength] at hle
  exact hle

theorem readChannels_entries {record : SurfaceGrantRecord} (h : record.Bounded host) :
    ((sortedFields channelJson record.channels).foldl (addChannel host) .empty).entries =
      (sortedEntries record.channels).map fun entry => (entry.1, storedChannel host entry.2) := by
  have hsize := length_sortedEntries_le record.channels
  have hlimit := h.channels_le
  have hread := PlainObject.entries_foldl_set
    (fun channels (entry : String × SurfaceGrantChannel) =>
      addChannel host channels (entry.1, channelJson entry.2))
    (fun entry => (entry.1, storedChannel host entry.2)) SURFACE_GRANT_MAX_CHANNELS
    (sortedEntries record.channels) .empty ?_ ?_ ?_
  · rw [sortedFields_eq, List.foldl_map, hread]
    simp [PlainObject.empty]
  · intro entry hentry channels hroom
    obtain ⟨hkey, hchannel⟩ := h.channel_shape _ _ (mem_sortedEntries.mp hentry)
    have hchannel := readChannel_channelJson host hkey hchannel
    simp only [addChannel, if_neg (Nat.not_le.mpr hroom), hchannel]
  · simp only [PlainObject.size, PlainObject.empty, List.length_nil, Nat.zero_add]
    simp only [PlainObject.size] at hsize hlimit
    omega
  · exact sortedEntries_nodup record.channels

theorem readChannels_get {record : SurfaceGrantRecord} (h : record.Bounded host) (key : String) :
    ((sortedFields channelJson record.channels).foldl (addChannel host) .empty).get key =
      (record.channels.get key).map (storedChannel host) := by
  apply Option.ext
  intro channel
  rw [PlainObject.get_eq_some, readChannels_entries host h, List.mem_map, Option.map_eq_some_iff]
  constructor
  · rintro ⟨⟨key', stored⟩, hmem, heq⟩
    cases heq
    exact ⟨stored, mem_sortedEntries.mp hmem, rfl⟩
  · rintro ⟨stored, hget, rfl⟩
    exact ⟨(key, stored), mem_sortedEntries.mpr hget, rfl⟩

theorem readSeeds_stored {record : SurfaceGrantRecord} (h : record.Bounded host) :
    readSeeds (serializeSurfaceGrants record) = record.seeds := by
  have htexts : (record.seeds.map Json.str).filterMap Json.text = record.seeds := by
    rw [List.filterMap_map]
    exact List.filterMap_some
  have hhex : record.seeds.filter isSha256Hex = record.seeds :=
    List.filter_eq_self.mpr h.seeds_hex
  have hle := h.seeds_le
  have hfield : (serializeSurfaceGrants record).field "seeds" =
      some (.arr (record.seeds.map Json.str)) := by
    simp [serializeSurfaceGrants, Json.field]
  have hzero : record.seeds.length - SURFACE_GRANT_MAX_SEEDS = 0 := by omega
  simp only [readSeeds, hfield, htexts, hhex, lastOf, hzero, List.drop_zero]

theorem listedGroups_texts {groups : List SurfaceGroupId}
    (hgrantable : ∀ id ∈ groups, isGrantableSurfaceGroup id = true) :
    listedGroups (groups.map fun id => .str id.text) =
      SURFACE_GROUP_IDS.filter fun id => id ∈ groups := by
  apply List.filter_congr
  intro id _
  rw [Bool.eq_iff_iff, Bool.and_eq_true, List.any_eq_true, decide_eq_true_eq]
  constructor
  · rintro ⟨-, value, hvalue, htext⟩
    obtain ⟨other, hother, rfl⟩ := List.mem_map.mp hvalue
    have heq : other = id := text_injective (by simpa [Json.text] using htext)
    rwa [← heq]
  · intro hid
    exact ⟨hgrantable id hid, .str id.text, List.mem_map.mpr ⟨id, hid, rfl⟩, by simp [Json.text]⟩

theorem readNote_noteJson {key : String} {note : SurfaceGrantRevokedNote}
    (hkey : CHANNEL_KEY_SHAPE key = true) (h : note.Valid host) :
    readNote host (key, noteJson note) = some (key, note) := by
  have hlisted : listedGroups (note.groups.map fun id => .str id.text) = note.groups :=
    (listedGroups_texts h.grantable).trans h.ordered
  have hdated : (host.parseDate note.at').isSome = true := h.dated
  simp [readNote, noteJson, Json.field, hlisted, hkey, hdated, h.groups_ne]

theorem readRevoked_get {record : SurfaceGrantRecord} (h : record.Bounded host) (key : String) :
    (readRevoked host (serializeSurfaceGrants record)).get key = record.revoked.get key := by
  by_cases hzero : record.revoked.size = 0
  · have hfield : (serializeSurfaceGrants record).field "revoked" = none := by
      simp [serializeSurfaceGrants, Json.field, hzero]
    rw [PlainObject.size_eq_zero.mp hzero]
    simp only [readRevoked, hfield]
  · have hfield : (serializeSurfaceGrants record).field "revoked" =
        some (.obj (sortedFields noteJson record.revoked)) := by
      simp [serializeSurfaceGrants, Json.field, hzero]
    have hnotes : (sortedFields noteJson record.revoked).filterMap (readNote host) =
        sortedEntries record.revoked := by
      rw [sortedFields_eq, List.filterMap_map]
      apply (List.filterMap_eq_map_iff_forall_eq_some (g := id)).mpr ?_ |>.trans (List.map_id _)
      intro entry hentry
      obtain ⟨hkey, hnote⟩ := h.note_shape _ _ (mem_sortedEntries.mp hentry)
      exact readNote_noteJson host hkey hnote
    have hperm := List.mergeSort_perm (sortedEntries record.revoked) (newerFirst host)
    have hlength := hperm.length_eq
    have hsize := length_sortedEntries_le record.revoked
    have hlimit := h.revoked_le
    have htake : ((sortedEntries record.revoked).mergeSort (newerFirst host)).take
        SURFACE_GRANT_MAX_REVOKED_CHANNELS =
          (sortedEntries record.revoked).mergeSort (newerFirst host) :=
      List.take_of_length_le (by omega)
    have hread := PlainObject.entries_foldl_set
      (fun revoked (note : String × SurfaceGrantRevokedNote) => revoked.set note.1 note.2)
      (fun note => note) SURFACE_GRANT_MAX_REVOKED_CHANNELS
      ((sortedEntries record.revoked).mergeSort (newerFirst host)) .empty
      (fun _ _ _ _ => rfl) ?_ ?_
    · apply Option.ext
      intro note
      rw [PlainObject.get_eq_some]
      simp only [readRevoked, hfield, hnotes, htake, hread]
      simp only [PlainObject.empty, List.nil_append, List.map_id', hperm.mem_iff]
      exact mem_sortedEntries
    · simp only [PlainObject.size, PlainObject.empty, List.length_nil, Nat.zero_add]
      simp only [PlainObject.size] at hsize hlimit
      omega
    · exact ((hperm.map Prod.fst).nodup_iff).mpr (sortedEntries_nodup record.revoked)

/-- Storing a record and reading it loses nothing. -/
theorem readSurfaceGrants_stored {record : SurfaceGrantRecord} (h : record.Bounded host) :
    (readSurfaceGrants host (serializeSurfaceGrants record)).Same record := by
  have hversion : (serializeSurfaceGrants record).field "v" = some (.num 1) := by
    simp [serializeSurfaceGrants, Json.field]
  have hchannels : (serializeSurfaceGrants record).field "channels" =
      some (.obj (sortedFields channelJson record.channels)) := by
    simp [serializeSurfaceGrants, Json.field]
  have hread : readSurfaceGrants host (serializeSurfaceGrants record) =
      { channels := (sortedFields channelJson record.channels).foldl (addChannel host) .empty
        seeds := readSeeds (serializeSurfaceGrants record)
        revoked := readRevoked host (serializeSurfaceGrants record) } := by
    simp only [readSurfaceGrants, hversion, hchannels]
  rw [hread]
  refine ⟨?_, ?_, readSeeds_stored host h, readRevoked_get host h⟩
  · intro key
    simp [readChannels_get host h]
  · intro key id
    simp only [SurfaceGrantRecord.grant, groupsOf, readChannels_get host h, Option.map_map]
    cases hget : record.channels.get key with
    | none => rfl
    | some channel => exact storedChannel_get host (h.channel_shape key channel hget).2 id

/-! ## Nothing is granted by reading -/

theorem readGroups_get {fields : List (String × Json)}
    {groups : PlainObject SurfaceGroupId SurfaceGrantEntry} {id : SurfaceGroupId}
    {entry : SurfaceGrantEntry} (h : (fields.foldl (readGroup host) groups).get id = some entry) :
    groups.get id = some entry ∨
      ∃ field ∈ fields, surfaceGroupOf field.1 = some id ∧ readEntry host field.2 = some entry := by
  induction fields generalizing groups with
  | nil => exact Or.inl h
  | cons field rest ih =>
    rw [List.foldl_cons] at h
    cases ih h with
    | inr hrest =>
      obtain ⟨other, hother, hread⟩ := hrest
      exact Or.inr ⟨other, List.mem_cons_of_mem _ hother, hread⟩
    | inl hfirst =>
      unfold readGroup at hfirst
      cases hgroup : surfaceGroupOf field.1 with
      | none =>
        rw [hgroup] at hfirst
        exact Or.inl hfirst
      | some other =>
        cases hentry : readEntry host field.2 with
        | none =>
          simp only [hgroup, hentry, ite_self] at hfirst
          exact Or.inl hfirst
        | some value =>
          simp only [hgroup, hentry] at hfirst
          split at hfirst
          · rw [PlainObject.get_set] at hfirst
            split at hfirst
            · rename_i heq
              refine Or.inr ⟨field, List.mem_cons_self, ?_, ?_⟩
              · rw [hgroup, heq]
              · rw [hentry, hfirst]
            · exact Or.inl hfirst
          · exact Or.inl hfirst

theorem readChannels_mem {fields : List (String × Json)}
    {channels : PlainObject String SurfaceGrantChannel} {key : String}
    {channel : SurfaceGrantChannel}
    (h : (fields.foldl (addChannel host) channels).get key = some channel) :
    channels.get key = some channel ∨
      ∃ value, (key, value) ∈ fields ∧ readChannel host key value = some channel := by
  induction fields generalizing channels with
  | nil => exact Or.inl h
  | cons field rest ih =>
    rw [List.foldl_cons] at h
    cases ih h with
    | inr hrest =>
      obtain ⟨value, hvalue, hread⟩ := hrest
      exact Or.inr ⟨value, List.mem_cons_of_mem _ hvalue, hread⟩
    | inl hfirst =>
      unfold addChannel at hfirst
      split at hfirst
      · exact Or.inl hfirst
      · cases hread : readChannel host field.1 field.2 with
        | none =>
          rw [hread] at hfirst
          exact Or.inl hfirst
        | some read =>
          rw [hread] at hfirst
          simp only [PlainObject.get_set] at hfirst
          split at hfirst
          · rename_i heq
            subst heq
            cases hfirst
            exact Or.inr ⟨field.2, List.mem_cons_self, hread⟩
          · exact Or.inl hfirst

/-- What is read from a stored record was granted in it. -/
theorem readSurfaceGrants_grant {record : SurfaceGrantRecord} {key : String} {id : SurfaceGroupId}
    {entry : SurfaceGrantEntry}
    (h : (readSurfaceGrants host (serializeSurfaceGrants record)).grant key id = some entry) :
    record.grant key id = some entry := by
  have hversion : (serializeSurfaceGrants record).field "v" = some (.num 1) := by
    simp [serializeSurfaceGrants, Json.field]
  have hchannels : (serializeSurfaceGrants record).field "channels" =
      some (.obj (sortedFields channelJson record.channels)) := by
    simp [serializeSurfaceGrants, Json.field]
  simp only [SurfaceGrantRecord.grant, groupsOf, readSurfaceGrants, hversion, hchannels] at h
  cases hget : ((sortedFields channelJson record.channels).foldl (addChannel host)
      .empty).get key with
  | none => simp [hget] at h
  | some read =>
    rw [hget] at h
    simp only [Option.map_some, Option.getD_some] at h
    cases readChannels_mem host hget with
    | inl hempty => cases hempty
    | inr hfield =>
      obtain ⟨value, hvalue, hread⟩ := hfield
      rw [sortedFields_eq] at hvalue
      obtain ⟨⟨key', channel⟩, hmem, heq⟩ := List.mem_map.mp hvalue
      cases heq
      have hstored := mem_sortedEntries.mp hmem
      rw [SurfaceGrantRecord.grant_of_get hstored]
      simp only [readChannel, channelJson_eq, Json.field, List.find?_cons, decide_true,
        Option.map_some] at hread
      split at hread
      · cases hread
        cases readGroups_get host h with
        | inl hempty => cases hempty
        | inr hentry =>
          obtain ⟨field, hfield, hgroup, hread⟩ := hentry
          obtain ⟨⟨id', entry'⟩, hgranted, rfl⟩ := List.mem_map.mp hfield
          have hid : id' = id := Option.some.inj ((surfaceGroupOf_text id').symm.trans hgroup)
          have hentry : entry' = entry := by
            simp only [readEntry, entryJson, Json.field] at hread
            simp [sourceOf_text] at hread
            exact hread.2
          rw [← hid, ← hentry]
          exact mem_grantedEntries.mp hgranted
      · cases hread

end

end QuokyPlatform.SurfaceGrants
