import QuokyPlatform.SurfaceGrants.RecordRoundTrip

/-!
# Runs of operations on a record

The five operations one after the other, with the record stored and read again anywhere between
them.
-/

namespace QuokyPlatform.SurfaceGrants
set_option autoImplicit false
set_option maxHeartbeats 250000

inductive Operation where
  | grant (key : String) (groups : List SurfaceGroupId) (source : SurfaceGrantSource)
      (now : String)
  | revoke (key : String) (groups : List SurfaceGroupId) (now : String)
  | clearChannel (key : String) (now : String)
  | clearAll (now : String)
  | seed (channels : SurfaceGrantSeed) (now : String)

section
variable (host : Host)

/-- The channel keys have their shape and the time is a date. -/
def Operation.Allowed : Operation → Prop
  | .grant key _ _ now => CHANNEL_KEY_SHAPE key = true ∧ Parseable host now
  | .revoke key _ now => CHANNEL_KEY_SHAPE key = true ∧ Parseable host now
  | .clearChannel key now => CHANNEL_KEY_SHAPE key = true ∧ Parseable host now
  | .clearAll now => Parseable host now
  | .seed channels now =>
    (∀ channel ∈ channels, CHANNEL_KEY_SHAPE channel.key = true) ∧ Parseable host now

/-- The record after the operation; a refused grant leaves it as it is. -/
def Operation.apply (record : SurfaceGrantRecord) : Operation → SurfaceGrantRecord
  | .grant key groups source now =>
    match withSurfaceGroupsGranted host record key groups source now with
    | .ok next _ => next
    | .channelLimit => record
  | .revoke key groups now => (withSurfaceGroupsRevoked host record key groups now).1
  | .clearChannel key now => (withSurfaceChannelCleared host record key now).1
  | .clearAll now => (withAllSurfaceGrantsCleared host record now).1
  | .seed channels now => (applySurfaceGrantSeed host record channels now).record

/-- The records reachable from the empty one. -/
inductive Reached : SurfaceGrantRecord → Prop
  | empty : Reached EMPTY_SURFACE_GRANT_RECORD
  | operation {record : SurfaceGrantRecord} {operation : Operation} (h : Reached record)
      (hallowed : operation.Allowed host) : Reached (operation.apply host record)
  | stored {record : SurfaceGrantRecord} (h : Reached record) :
      Reached (readSurfaceGrants host (serializeSurfaceGrants record))

theorem Operation.apply_valid {record : SurfaceGrantRecord} {operation : Operation}
    (hhost : host.WritesHex) (hvalid : record.Valid host) (hallowed : operation.Allowed host) :
    (operation.apply host record).Valid host := by
  cases operation with
  | grant key groups source now =>
    simp only [Operation.apply]
    cases h : withSurfaceGroupsGranted host record key groups source now with
    | channelLimit => exact hvalid
    | ok next changed =>
      exact withSurfaceGroupsGranted_valid host hvalid hallowed.1 hallowed.2 h
  | revoke key groups now =>
    exact withSurfaceGroupsRevoked_valid host groups hvalid hallowed.1 hallowed.2
  | clearChannel key now => exact withSurfaceChannelCleared_valid host hvalid hallowed.1 hallowed.2
  | clearAll now => exact withAllSurfaceGrantsCleared_valid host hvalid hallowed
  | seed channels now => exact applySurfaceGrantSeed_valid host hhost hvalid hallowed.1 hallowed.2

/-! ## Records that denote the same -/

theorem SurfaceGrantRecord.Same.valid {record other : SurfaceGrantRecord}
    (h : record.Same other) (hvalid : other.Valid host) : record.Valid host := by
  have hentry : ∀ key channel, record.channels.get key = some channel →
      ∃ written, other.channels.get key = some written ∧
        ∀ id, channel.groups.get id = written.groups.get id := by
    intro key channel hget
    have hsome := h.channels key
    rw [hget, Option.isSome_some] at hsome
    obtain ⟨written, hwritten⟩ := Option.isSome_iff_exists.mp hsome.symm
    refine ⟨written, hwritten, fun id => ?_⟩
    have hgrant := h.grants key id
    rwa [SurfaceGrantRecord.grant_of_get hget, SurfaceGrantRecord.grant_of_get hwritten] at hgrant
  have hchannels : record.channels.size = other.channels.size :=
    PlainObject.size_eq_of_isSome h.channels
  have hrevoked : record.revoked.size = other.revoked.size :=
    PlainObject.size_eq_of_isSome fun key => by rw [h.revoked key]
  refine ⟨⟨?_, ?_, ?_, ?_, ?_, ?_, ?_⟩, ?_⟩
  · rw [hchannels]
    exact hvalid.channels_le
  · intro key channel hget
    obtain ⟨written, hwritten, hgroups⟩ := hentry key channel hget
    obtain ⟨hkey, hshape⟩ := hvalid.channel_shape key written hwritten
    refine ⟨hkey, ?_, ?_, ?_⟩
    · have hsize : channel.groups.size = written.groups.size :=
        PlainObject.size_eq_of_isSome fun id => by rw [hgroups]
      have hpos := hshape.size_pos
      omega
    · intro id entry hentry
      exact hshape.grantable id entry (hgroups id ▸ hentry)
    · intro id entry hentry
      exact hshape.dated id entry (hgroups id ▸ hentry)
  · rw [h.seeds]
    exact hvalid.seeds_le
  · rw [h.seeds]
    exact hvalid.seeds_nodup
  · rw [h.seeds]
    exact hvalid.seeds_hex
  · rw [hrevoked]
    exact hvalid.revoked_le
  · intro key note hget
    rw [h.revoked] at hget
    exact hvalid.note_shape key note hget
  · intro key id hid
    rw [h.grants]
    apply hvalid.disjoint key id
    rwa [revokedGroups, ← h.revoked]

theorem empty_valid : EMPTY_SURFACE_GRANT_RECORD.Valid host := by
  have hget : ∀ key, EMPTY_SURFACE_GRANT_RECORD.revoked.get key = none := fun _ => rfl
  refine ⟨⟨by decide, ?_, by decide, List.nodup_nil, ?_, by decide, ?_⟩, ?_⟩
  · intro key channel h
    cases h
  · intro digest h
    cases h
  · intro key note h
    cases h
  · intro key id _
    rfl

theorem Reached.valid {record : SurfaceGrantRecord} (hhost : host.WritesHex)
    (h : Reached host record) : record.Valid host := by
  induction h with
  | empty => exact empty_valid host
  | operation _ hallowed ih => exact Operation.apply_valid host hhost ih hallowed
  | stored _ ih => exact (readSurfaceGrants_stored host ih.toBounded).valid host ih

/-- A reachable record keeps the bounds of its tables and never both grants and notes a group, and
storing it loses no grant, seed or note. -/
theorem reached_record_keeps {record : SurfaceGrantRecord} (hhost : host.WritesHex)
    (h : Reached host record) :
    record.channels.size ≤ SURFACE_GRANT_MAX_CHANNELS ∧
    (∀ key channel, record.channels.get key = some channel →
      (∃ id, (channel.groups.get id).isSome = true) ∧
      ∀ id, (channel.groups.get id).isSome = true → isGrantableSurfaceGroup id = true) ∧
    record.seeds.length ≤ SURFACE_GRANT_MAX_SEEDS ∧ record.seeds.Nodup ∧
    record.revoked.size ≤ SURFACE_GRANT_MAX_REVOKED_CHANNELS ∧
    (∀ key note, record.revoked.get key = some note → note.groups ≠ []) ∧
    (∀ key, ∀ id ∈ grantedSurfaceGroups record key, id ∉ revokedGroups record key) ∧
    (readSurfaceGrants host (serializeSurfaceGrants record)).Same record := by
  have hvalid := h.valid host hhost
  refine ⟨hvalid.channels_le, ?_, hvalid.seeds_le, hvalid.seeds_nodup, hvalid.revoked_le, ?_, ?_,
    readSurfaceGrants_stored host hvalid.toBounded⟩
  · intro key channel hget
    obtain ⟨-, hchannel⟩ := hvalid.channel_shape key channel hget
    constructor
    · obtain ⟨⟨id, entry⟩, hmem⟩ := List.exists_mem_of_length_pos hchannel.size_pos
      exact ⟨id, Option.isSome_iff_exists.mpr ⟨entry, PlainObject.get_of_mem hmem⟩⟩
    · intro id hsome
      obtain ⟨entry, hentry⟩ := Option.isSome_iff_exists.mp hsome
      exact hchannel.grantable id entry hentry
  · intro key note hget
    exact (hvalid.note_shape key note hget).2.groups_ne
  · intro key id hgranted hnoted
    have hnone := hvalid.disjoint key id hnoted
    simp [mem_grantedSurfaceGroups, hnone] at hgranted

end

/-- A host that knows one date and the digest of one seed. -/
def oneSeedHost : Host where
  parseDate text := if text = "2026-06-28T10:00:00.000Z" then some 1782640800000 else none
  sha256Canonical _ _ := "655fb315bbed7b15c83e1cfa536b70dae061384e30842a3e38c495c84ea7fa9e"

theorem oneSeedHost_writesHex : oneSeedHost.WritesHex := fun _ _ =>
  (by decide : isSha256Hex "655fb315bbed7b15c83e1cfa536b70dae061384e30842a3e38c495c84ea7fa9e")

def oneSeed : Operation := .seed [⟨"discord:-:c1", [.github]⟩] "2026-06-28T10:00:00.000Z"

theorem reached_record_keeps_one_seed :
    (readSurfaceGrants oneSeedHost (serializeSurfaceGrants
      (oneSeed.apply oneSeedHost EMPTY_SURFACE_GRANT_RECORD))).Same
      (oneSeed.apply oneSeedHost EMPTY_SURFACE_GRANT_RECORD) :=
  have hdate : (oneSeedHost.parseDate "2026-06-28T10:00:00.000Z").isSome = true := by decide
  have hallowed : oneSeed.Allowed oneSeedHost := ⟨by decide, hdate⟩
  (reached_record_keeps oneSeedHost oneSeedHost_writesHex
    (.operation .empty hallowed)).2.2.2.2.2.2.2

end QuokyPlatform.SurfaceGrants
