import QuokyPlatform.SurfaceGrants.Record

/-!
# What the operations keep of a record

The bounds of the three tables, what a channel and a note may hold, and that no group of a channel
is both granted and noted as revoked.
-/

namespace QuokyPlatform.SurfaceGrants
set_option autoImplicit false
set_option maxHeartbeats 250000

/-- The group an entry of a channel is stored under, if the channel has one. -/
def SurfaceGrantRecord.grant (record : SurfaceGrantRecord) (key : String) (id : SurfaceGroupId) :
    Option SurfaceGrantEntry := (groupsOf record key).get id

section
variable (host : Host)

def Parseable (now : String) : Prop := (host.parseDate now).isSome = true

/-- A channel has a group, every one of them is grantable and dated. -/
structure SurfaceGrantChannel.Valid (channel : SurfaceGrantChannel) : Prop where
  size_pos : 0 < channel.groups.size
  grantable : ∀ id entry, channel.groups.get id = some entry → isGrantableSurfaceGroup id = true
  dated : ∀ id entry, channel.groups.get id = some entry → Parseable host entry.at'

/-- A note lists a group, every one of them is grantable, and they stand in table order. -/
structure SurfaceGrantRevokedNote.Valid (note : SurfaceGrantRevokedNote) : Prop where
  groups_ne : note.groups ≠ []
  grantable : ∀ id ∈ note.groups, isGrantableSurfaceGroup id = true
  ordered : SURFACE_GROUP_IDS.filter (fun id => id ∈ note.groups) = note.groups
  dated : Parseable host note.at'

/-- The bounds and the shapes of a record. -/
structure SurfaceGrantRecord.Bounded (record : SurfaceGrantRecord) : Prop where
  channels_le : record.channels.size ≤ SURFACE_GRANT_MAX_CHANNELS
  channel_shape : ∀ key channel, record.channels.get key = some channel →
    CHANNEL_KEY_SHAPE key = true ∧ channel.Valid host
  seeds_le : record.seeds.length ≤ SURFACE_GRANT_MAX_SEEDS
  seeds_nodup : record.seeds.Nodup
  seeds_hex : ∀ digest ∈ record.seeds, isSha256Hex digest = true
  revoked_le : record.revoked.size ≤ SURFACE_GRANT_MAX_REVOKED_CHANNELS
  note_shape : ∀ key note, record.revoked.get key = some note →
    CHANNEL_KEY_SHAPE key = true ∧ note.Valid host

/-- No group of the channel is both granted and noted as revoked. -/
def SurfaceGrantRecord.DisjointAt (record : SurfaceGrantRecord) (key : String) : Prop :=
  ∀ id ∈ revokedGroups record key, record.grant key id = none

structure SurfaceGrantRecord.Valid (record : SurfaceGrantRecord) : Prop extends
    record.Bounded host where
  disjoint : ∀ key, record.DisjointAt key

end

/-! ## Groups -/

theorem mem_SURFACE_GROUP_IDS (id : SurfaceGroupId) : id ∈ SURFACE_GROUP_IDS := by
  cases id <;> decide

theorem nodup_SURFACE_GROUP_IDS : SURFACE_GROUP_IDS.Nodup := by decide

@[simp] theorem mem_filter_SURFACE_GROUP_IDS {p : SurfaceGroupId → Bool} {id : SurfaceGroupId} :
    id ∈ SURFACE_GROUP_IDS.filter p ↔ p id = true := by
  simp [mem_SURFACE_GROUP_IDS]

/-- Choosing in table order twice is choosing once. -/
theorem filter_mem_filter_SURFACE_GROUP_IDS (p : SurfaceGroupId → Bool) :
    SURFACE_GROUP_IDS.filter (fun id => id ∈ SURFACE_GROUP_IDS.filter p) =
      SURFACE_GROUP_IDS.filter p := by
  apply List.filter_congr
  intro id _
  rw [Bool.eq_iff_iff, decide_eq_true_eq, mem_filter_SURFACE_GROUP_IDS]

theorem mem_grantedSurfaceGroups {record : SurfaceGrantRecord} {key : String}
    {id : SurfaceGroupId} :
    id ∈ grantedSurfaceGroups record key ↔ (record.grant key id).isSome = true := by
  unfold grantedSurfaceGroups SurfaceGrantRecord.grant groupsOf
  cases record.channels.get key with
  | none => simp
  | some channel => simp [mem_SURFACE_GROUP_IDS]

/-! ## The loops over the groups of one call -/

theorem grantGroups_get (source : SurfaceGrantSource) (now : String) (wanted : List SurfaceGroupId)
    (state : PlainObject SurfaceGroupId SurfaceGrantEntry × List SurfaceGroupId)
    (id : SurfaceGroupId) :
    (wanted.foldl (grantGroup source now) state).1.get id =
      (state.1.get id).or (if id ∈ wanted then some ⟨now, source⟩ else none) := by
  induction wanted generalizing state with
  | nil => simp
  | cons first rest ih =>
    rw [List.foldl_cons, ih]
    unfold grantGroup
    by_cases hfirst : (state.1.get first).isSome = true
    · rw [if_pos hfirst]
      by_cases heq : id = first
      · subst heq
        obtain ⟨entry, hentry⟩ := Option.isSome_iff_exists.mp hfirst
        simp [hentry]
      · simp [heq]
    · rw [if_neg hfirst, PlainObject.get_set]
      by_cases heq : id = first
      · subst heq
        have hnone : state.1.get id = none := by simpa using hfirst
        simp [hnone]
      · simp [heq]

theorem mem_grantGroups_changed (source : SurfaceGrantSource) (now : String)
    (wanted : List SurfaceGroupId)
    (state : PlainObject SurfaceGroupId SurfaceGrantEntry × List SurfaceGroupId)
    (id : SurfaceGroupId) :
    id ∈ (wanted.foldl (grantGroup source now) state).2 ↔
      id ∈ state.2 ∨ (id ∈ wanted ∧ state.1.get id = none) := by
  induction wanted generalizing state with
  | nil => simp
  | cons first rest ih =>
    rw [List.foldl_cons, ih]
    unfold grantGroup
    by_cases hfirst : (state.1.get first).isSome = true
    · rw [if_pos hfirst]
      have hne : state.1.get id = none → id ≠ first := by
        rintro hnone rfl
        simp [hnone] at hfirst
      have hrest : (id ∈ first :: rest ∧ state.1.get id = none) ↔
          (id ∈ rest ∧ state.1.get id = none) := by
        constructor
        · rintro ⟨hmem, hnone⟩
          exact ⟨by simpa [hne hnone] using hmem, hnone⟩
        · rintro ⟨hmem, hnone⟩
          exact ⟨List.mem_cons_of_mem _ hmem, hnone⟩
      rw [hrest]
    · rw [if_neg hfirst]
      by_cases heq : id = first
      · subst heq
        have hnone : state.1.get id = none := by simpa using hfirst
        simp [hnone]
      · simp [PlainObject.get_set, heq]

theorem revokeGroups_get (groups : List SurfaceGroupId)
    (state : PlainObject SurfaceGroupId SurfaceGrantEntry × List SurfaceGroupId)
    (id : SurfaceGroupId) :
    (groups.foldl revokeGroup state).1.get id =
      if id ∈ groups then none else state.1.get id := by
  induction groups generalizing state with
  | nil => simp
  | cons first rest ih =>
    rw [List.foldl_cons, ih]
    unfold revokeGroup
    by_cases hfirst : (state.1.get first).isNone = true
    · rw [if_pos hfirst]
      by_cases heq : id = first
      · subst heq
        have hnone : state.1.get id = none := by simpa using hfirst
        simp [hnone]
      · simp [heq]
    · rw [if_neg hfirst, PlainObject.get_delete]
      by_cases heq : id = first <;> simp [heq]

theorem mem_revokeGroups_changed (groups : List SurfaceGroupId)
    (state : PlainObject SurfaceGroupId SurfaceGrantEntry × List SurfaceGroupId)
    (id : SurfaceGroupId) :
    id ∈ (groups.foldl revokeGroup state).2 ↔
      id ∈ state.2 ∨ (id ∈ groups ∧ (state.1.get id).isSome = true) := by
  induction groups generalizing state with
  | nil => simp
  | cons first rest ih =>
    rw [List.foldl_cons, ih]
    unfold revokeGroup
    by_cases hfirst : (state.1.get first).isNone = true
    · rw [if_pos hfirst]
      by_cases heq : id = first
      · subst heq
        have hnone : state.1.get id = none := by simpa using hfirst
        simp [hnone]
      · simp [heq]
    · rw [if_neg hfirst]
      by_cases heq : id = first
      · subst heq
        have hsome : (state.1.get id).isSome = true := by
          simpa [Option.isSome_iff_ne_none] using hfirst
        simp [hsome]
      · simp [PlainObject.get_delete, heq]

/-! ## The note of a channel -/

section
variable (host : Host)

theorem oldestNote_mem {notes : List (String × SurfaceGrantRevokedNote)}
    {oldest : String × SurfaceGrantRevokedNote} (h : oldestNote host notes = some oldest) :
    oldest ∈ notes := by
  cases notes with
  | nil => cases h
  | cons first rest =>
    have hfold : ∀ (rest : List (String × SurfaceGrantRevokedNote)) first,
        rest.foldl (fun a b => if Date.lt (host.parseDate b.2.at') (host.parseDate a.2.at') then b
          else a) first ∈ first :: rest := by
      intro rest
      induction rest with
      | nil => simp
      | cons next rest ih =>
        intro first
        rw [List.foldl_cons]
        by_cases hlt : Date.lt (host.parseDate next.2.at') (host.parseDate first.2.at') = true
        · rw [if_pos hlt]
          exact List.mem_cons_of_mem _ (ih next)
        · rw [if_neg hlt]
          have hmem := ih first
          simp only [List.mem_cons] at hmem ⊢
          tauto
    cases h
    exact hfold rest first

theorem oldestNote_eq_none {notes : List (String × SurfaceGrantRevokedNote)}
    (h : oldestNote host notes = none) : notes = [] := by
  cases notes with
  | nil => rfl
  | cons first rest => cases h

theorem evictOldest_of_lt {rounds : ℕ} {revoked : PlainObject String SurfaceGrantRevokedNote}
    (h : revoked.size < SURFACE_GRANT_MAX_REVOKED_CHANNELS) :
    evictOldest host rounds revoked = revoked := by
  cases rounds with
  | zero => rfl
  | succ rounds => rw [evictOldest, if_neg (by omega)]

/-- Evicting only removes notes. -/
theorem evictOldest_get {rounds : ℕ} {revoked : PlainObject String SurfaceGrantRevokedNote}
    {key : String} {note : SurfaceGrantRevokedNote}
    (h : (evictOldest host rounds revoked).get key = some note) : revoked.get key = some note := by
  induction rounds generalizing revoked with
  | zero => exact h
  | succ rounds ih =>
    rw [evictOldest] at h
    split at h
    · cases hold : oldestNote host revoked.entries with
      | none =>
        rw [hold] at h
        exact h
      | some oldest =>
        rw [hold] at h
        have hdelete := ih h
        rw [PlainObject.get_delete] at hdelete
        by_cases heq : key = oldest.1
        · simp [heq] at hdelete
        · rwa [if_neg heq] at hdelete
    · exact h

/-- Enough rounds leave room for one more note. -/
theorem evictOldest_size {rounds : ℕ} {revoked : PlainObject String SurfaceGrantRevokedNote}
    (h : revoked.size < SURFACE_GRANT_MAX_REVOKED_CHANNELS + rounds) :
    (evictOldest host rounds revoked).size < SURFACE_GRANT_MAX_REVOKED_CHANNELS := by
  induction rounds generalizing revoked with
  | zero => exact h
  | succ rounds ih =>
    rw [evictOldest]
    split
    · cases hold : oldestNote host revoked.entries with
      | none =>
        have hnil := oldestNote_eq_none host hold
        simp [PlainObject.size, hnil, SURFACE_GRANT_MAX_REVOKED_CHANNELS]
      | some oldest =>
        have hmem := List.mem_map_of_mem (f := Prod.fst) (oldestNote_mem host hold)
        have hlt : (revoked.delete oldest.1).size < revoked.size := PlainObject.size_delete_lt hmem
        exact ih (by omega)
    · omega

@[simp] theorem withRevokedNote_channels (record : SurfaceGrantRecord) (key : String)
    (groups : List SurfaceGroupId) (op : NoteOp) (now : String) :
    (withRevokedNote host record key groups op now).channels = record.channels := by
  unfold withRevokedNote
  split <;> rfl

@[simp] theorem withRevokedNote_seeds (record : SurfaceGrantRecord) (key : String)
    (groups : List SurfaceGroupId) (op : NoteOp) (now : String) :
    (withRevokedNote host record key groups op now).seeds = record.seeds := by
  unfold withRevokedNote
  split <;> rfl

@[simp] theorem withRevokedNote_nil (record : SurfaceGrantRecord) (key : String) (op : NoteOp)
    (now : String) : withRevokedNote host record key [] op now = record := by
  simp [withRevokedNote]

/-- The notes after the call: the one of the channel is written anew or dropped. -/
theorem withRevokedNote_revoked {groups : List SurfaceGroupId} (hgroups : groups ≠ [])
    (record : SurfaceGrantRecord) (key : String) (op : NoteOp) (now : String) :
    ∃ ordered : List SurfaceGroupId,
      (∀ id, id ∈ ordered ↔ match op with
        | .add => id ∈ revokedGroups record key ∨ id ∈ groups
        | .remove => id ∈ revokedGroups record key ∧ id ∉ groups) ∧
      SURFACE_GROUP_IDS.filter (fun id => id ∈ ordered) = ordered ∧
      (withRevokedNote host record key groups op now).revoked =
        if ordered = [] then record.revoked.delete key
        else (evictOldest host (record.revoked.delete key).size (record.revoked.delete key)).set key
          ⟨ordered, now⟩ := by
  refine ⟨SURFACE_GROUP_IDS.filter fun id => id ∈ match op with
    | .add => revokedGroups record key ++ groups
    | .remove => (revokedGroups record key).filter fun id => id ∉ groups, ?_, ?_, ?_⟩
  · intro id
    rw [mem_filter_SURFACE_GROUP_IDS]
    cases op <;> simp
  · exact filter_mem_filter_SURFACE_GROUP_IDS _
  · unfold withRevokedNote
    cases op <;> exact congrArg SurfaceGrantRecord.revoked (if_neg hgroups)

theorem withRevokedNote_get {record : SurfaceGrantRecord} {key other : String}
    {groups : List SurfaceGroupId} {op : NoteOp} {now : String} {note : SurfaceGrantRevokedNote}
    (hother : other ≠ key)
    (h : (withRevokedNote host record key groups op now).revoked.get other = some note) :
    record.revoked.get other = some note := by
  by_cases hgroups : groups = []
  · rwa [hgroups, withRevokedNote_nil] at h
  · obtain ⟨ordered, -, -, hrevoked⟩ := withRevokedNote_revoked host hgroups record key op now
    rw [hrevoked] at h
    split at h
    · rwa [PlainObject.get_delete, if_neg hother] at h
    · rw [PlainObject.get_set, if_neg hother] at h
      have hdelete := evictOldest_get host h
      rwa [PlainObject.get_delete, if_neg hother] at hdelete

theorem mem_revokedGroups_withRevokedNote {record : SurfaceGrantRecord} {key : String}
    {groups : List SurfaceGroupId} {op : NoteOp} {now : String} {id : SurfaceGroupId} :
    id ∈ revokedGroups (withRevokedNote host record key groups op now) key ↔
      match op with
      | .add => id ∈ revokedGroups record key ∨ id ∈ groups
      | .remove => id ∈ revokedGroups record key ∧ id ∉ groups := by
  by_cases hgroups : groups = []
  · cases op <;> simp [hgroups]
  · obtain ⟨ordered, hmem, -, hrevoked⟩ := withRevokedNote_revoked host hgroups record key op now
    rw [← hmem id, revokedGroups, hrevoked]
    split
    · rename_i hnil
      simp [PlainObject.get_delete, hnil]
    · simp [PlainObject.get_set]

/-- The groups a note of the channel lists are a subset of the ones it listed before. -/
theorem revokedGroups_withRevokedNote_subset {record : SurfaceGrantRecord} {key other : String}
    {groups : List SurfaceGroupId} {op : NoteOp} {now : String} (hother : other ≠ key)
    {id : SurfaceGroupId}
    (h : id ∈ revokedGroups (withRevokedNote host record key groups op now) other) :
    id ∈ revokedGroups record other := by
  unfold revokedGroups at h ⊢
  cases hget : (withRevokedNote host record key groups op now).revoked.get other with
  | none => simp [hget] at h
  | some note =>
    have hbefore := withRevokedNote_get host hother hget
    rw [hget] at h
    simpa [hbefore] using h

/-- A note keeps the bounds and the shapes. -/
theorem withRevokedNote_bounded {record : SurfaceGrantRecord} {key : String}
    {groups : List SurfaceGroupId} {now : String} (op : NoteOp) (h : record.Bounded host)
    (hkey : CHANNEL_KEY_SHAPE key = true) (hnow : Parseable host now)
    (hgroups : ∀ id ∈ groups, isGrantableSurfaceGroup id = true) :
    (withRevokedNote host record key groups op now).Bounded host := by
  by_cases hnil : groups = []
  · rwa [hnil, withRevokedNote_nil]
  · obtain ⟨ordered, hmem, hordered, hrevoked⟩ :=
      withRevokedNote_revoked host hnil record key op now
    have hnoted : ∀ id ∈ revokedGroups record key, isGrantableSurfaceGroup id = true := by
      intro id hid
      unfold revokedGroups at hid
      cases hget : record.revoked.get key with
      | none => simp [hget] at hid
      | some note =>
        rw [hget] at hid
        exact (h.note_shape key note hget).2.grantable id (by simpa using hid)
    have hgrantable : ∀ id ∈ ordered, isGrantableSurfaceGroup id = true := by
      intro id hid
      have hcase := (hmem id).mp hid
      cases op with
      | add => exact hcase.elim (hnoted id) (hgroups id)
      | remove => exact hnoted id hcase.1
    have hdelete := PlainObject.size_delete_le record.revoked key
    have hle := h.revoked_le
    refine ⟨by simpa using h.channels_le, ?_, by simpa using h.seeds_le, by simpa using h.seeds_nodup,
      by simpa using h.seeds_hex, ?_, ?_⟩
    · simpa using h.channel_shape
    · rw [hrevoked]
      split
      · omega
      · have hroom : (evictOldest host (record.revoked.delete key).size
            (record.revoked.delete key)).size < SURFACE_GRANT_MAX_REVOKED_CHANNELS :=
          evictOldest_size host (by simp [SURFACE_GRANT_MAX_REVOKED_CHANNELS])
        rw [PlainObject.size_set]
        split <;> omega
    · intro other note hnote
      by_cases hother : other = key
      · subst hother
        rw [hrevoked] at hnote
        split at hnote
        · simp [PlainObject.get_delete] at hnote
        · rename_i hne
          simp only [PlainObject.get_set, if_true, Option.some.injEq] at hnote
          subst hnote
          exact ⟨hkey, hne, hgrantable, hordered, hnow⟩
      · exact h.note_shape other note (withRevokedNote_get host hother hnote)

/-! ## Granting -/

theorem SurfaceGrantRecord.grant_of_get {record : SurfaceGrantRecord} {key : String}
    {channel : SurfaceGrantChannel} (h : record.channels.get key = some channel)
    (id : SurfaceGroupId) : record.grant key id = channel.groups.get id := by
  simp [SurfaceGrantRecord.grant, groupsOf, h]

theorem SurfaceGrantRecord.grant_set (record : SurfaceGrantRecord) (key other : String)
    (channel : SurfaceGrantChannel) (id : SurfaceGroupId) :
    SurfaceGrantRecord.grant { record with channels := record.channels.set key channel } other id =
      if other = key then channel.groups.get id else record.grant other id := by
  unfold SurfaceGrantRecord.grant groupsOf
  simp only [PlainObject.get_set]
  by_cases h : other = key <;> simp [h]

theorem SurfaceGrantRecord.grant_delete (record : SurfaceGrantRecord) (key other : String)
    (id : SurfaceGroupId) :
    SurfaceGrantRecord.grant { record with channels := record.channels.delete key } other id =
      if other = key then none else record.grant other id := by
  unfold SurfaceGrantRecord.grant groupsOf
  simp only [PlainObject.get_delete]
  by_cases h : other = key <;> simp [h]

@[simp] theorem grant_withRevokedNote (record : SurfaceGrantRecord) (key other : String)
    (groups : List SurfaceGroupId) (op : NoteOp) (now : String) (id : SurfaceGroupId) :
    (withRevokedNote host record key groups op now).grant other id = record.grant other id := by
  simp [SurfaceGrantRecord.grant, groupsOf]

/-- A grant that succeeds: what changed, and the record written when something did. -/
theorem withSurfaceGroupsGranted_ok {record next : SurfaceGrantRecord} {key : String}
    {groups changed : List SurfaceGroupId} {source : SurfaceGrantSource} {now : String}
    (h : withSurfaceGroupsGranted host record key groups source now = .ok next changed) :
    (∀ id, id ∈ changed ↔
      (id ∈ groups ∧ isGrantableSurfaceGroup id = true) ∧ record.grant key id = none) ∧
    ((changed = [] ∧ next = record) ∨
      (changed ≠ [] ∧
        (record.channels.get key = none → record.channels.size < SURFACE_GRANT_MAX_CHANNELS) ∧
        ∃ granted : PlainObject SurfaceGroupId SurfaceGrantEntry,
          (∀ id, granted.get id =
            (record.grant key id).or (if id ∈ changed then some ⟨now, source⟩ else none)) ∧
          next = withRevokedNote host
            { record with channels := record.channels.set key ⟨granted⟩ } key changed .remove
              now)) := by
  unfold withSurfaceGroupsGranted at h
  simp only at h
  split at h
  · cases h
  · rename_i hlimit
    have hmem : ∀ id, id ∈ ((groups.filter isGrantableSurfaceGroup).foldl (grantGroup source now)
        (groupsOf record key, [])).2 ↔
        (id ∈ groups ∧ isGrantableSurfaceGroup id = true) ∧ record.grant key id = none := by
      intro id
      simp [mem_grantGroups_changed, SurfaceGrantRecord.grant]
    split at h
    · rename_i hnil
      cases h
      rw [hnil] at hmem
      exact ⟨hmem, Or.inl ⟨rfl, rfl⟩⟩
    · rename_i hne
      cases h
      refine ⟨hmem, Or.inr ⟨hne, ?_, _, ?_, rfl⟩⟩
      · intro hnone
        simpa [hnone] using hlimit
      · intro id
        rw [grantGroups_get]
        cases hget : record.grant key id with
        | some entry =>
          have hsome : (groupsOf record key).get id = some entry := hget
          simp [hsome]
        | none =>
          have hnone : (groupsOf record key).get id = none := hget
          have hiff := hmem id
          rw [hget] at hiff
          simp only [hnone, Option.none_or, List.mem_filter]
          simp [hiff]

/-- A granted group is in the record; nothing else moved. -/
theorem withSurfaceGroupsGranted_grant {record next : SurfaceGrantRecord} {key : String}
    {groups changed : List SurfaceGroupId} {source : SurfaceGrantSource} {now : String}
    (h : withSurfaceGroupsGranted host record key groups source now = .ok next changed)
    (other : String) (id : SurfaceGroupId) :
    next.grant other id = (record.grant other id).or
      (if other = key ∧ id ∈ changed then some ⟨now, source⟩ else none) := by
  obtain ⟨-, hcase⟩ := withSurfaceGroupsGranted_ok host h
  cases hcase with
  | inl hnone =>
    obtain ⟨rfl, rfl⟩ := hnone
    simp
  | inr hsome =>
    obtain ⟨-, -, granted, hgranted, rfl⟩ := hsome
    rw [grant_withRevokedNote, SurfaceGrantRecord.grant_set]
    by_cases heq : other = key
    · subst heq
      simp [hgranted]
    · simp [heq]

@[simp] theorem withSurfaceGroupsGranted_seeds {record next : SurfaceGrantRecord} {key : String}
    {groups changed : List SurfaceGroupId} {source : SurfaceGrantSource} {now : String}
    (h : withSurfaceGroupsGranted host record key groups source now = .ok next changed) :
    next.seeds = record.seeds := by
  obtain ⟨-, hcase⟩ := withSurfaceGroupsGranted_ok host h
  cases hcase with
  | inl hnone => rw [hnone.2]
  | inr hsome =>
    obtain ⟨-, -, granted, -, rfl⟩ := hsome
    simp

theorem SurfaceGrantRecord.Bounded.grant_shape {record : SurfaceGrantRecord} {key : String}
    {id : SurfaceGroupId} {entry : SurfaceGrantEntry} (h : record.Bounded host)
    (hgrant : record.grant key id = some entry) :
    isGrantableSurfaceGroup id = true ∧ Parseable host entry.at' := by
  unfold SurfaceGrantRecord.grant groupsOf at hgrant
  cases hget : record.channels.get key with
  | none => simp [hget] at hgrant
  | some channel =>
    have hentry : channel.groups.get id = some entry := by simpa [hget] using hgrant
    obtain ⟨-, hvalid⟩ := h.channel_shape key channel hget
    exact ⟨hvalid.grantable id entry hentry, hvalid.dated id entry hentry⟩

/-- Setting a channel to groups that are there, grantable and dated keeps the bounds. -/
theorem SurfaceGrantRecord.Bounded.set_channel {record : SurfaceGrantRecord} {key : String}
    {channel : SurfaceGrantChannel} (h : record.Bounded host)
    (hkey : CHANNEL_KEY_SHAPE key = true) (hchannel : channel.Valid host)
    (hroom : record.channels.get key = none → record.channels.size < SURFACE_GRANT_MAX_CHANNELS) :
    SurfaceGrantRecord.Bounded host
      { record with channels := record.channels.set key channel } := by
  refine { h with channels_le := ?_, channel_shape := ?_ }
  · have hle := h.channels_le
    rw [PlainObject.size_set]
    split
    · exact hle
    · rename_i hmem
      exact hroom (PlainObject.get_eq_none.mpr hmem)
  · intro other value hvalue
    rw [PlainObject.get_set] at hvalue
    split at hvalue
    · rename_i heq
      cases hvalue
      exact ⟨heq ▸ hkey, hchannel⟩
    · exact h.channel_shape other value hvalue

theorem withSurfaceGroupsGranted_valid {record next : SurfaceGrantRecord} {key : String}
    {groups changed : List SurfaceGroupId} {source : SurfaceGrantSource} {now : String}
    (hvalid : record.Valid host) (hkey : CHANNEL_KEY_SHAPE key = true) (hnow : Parseable host now)
    (h : withSurfaceGroupsGranted host record key groups source now = .ok next changed) :
    next.Valid host := by
  have hgrant := withSurfaceGroupsGranted_grant host h
  obtain ⟨hchanged, hcase⟩ := withSurfaceGroupsGranted_ok host h
  cases hcase with
  | inl hnone =>
    obtain ⟨-, rfl⟩ := hnone
    exact hvalid
  | inr hsome =>
    obtain ⟨hne, hroom, granted, hgranted, rfl⟩ := hsome
    have hentry : ∀ id entry, granted.get id = some entry →
        isGrantableSurfaceGroup id = true ∧ Parseable host entry.at' := by
      intro id entry hget
      rw [hgranted, Option.or_eq_some_iff] at hget
      cases hget with
      | inl hold => exact hvalid.grant_shape host hold
      | inr hnew =>
        split at hnew
        · rename_i hmem
          cases hnew.2
          exact ⟨((hchanged id).mp hmem).1.2, hnow⟩
        · cases hnew.2
    have hpos : 0 < granted.size := by
      obtain ⟨id, hid⟩ := List.exists_mem_of_ne_nil changed hne
      have hnone := ((hchanged id).mp hid).2
      have hget : granted.get id = some ⟨now, source⟩ := by
        rw [hgranted, hnone, if_pos hid]
        rfl
      exact PlainObject.size_pos_of_get hget
    have hchannel : SurfaceGrantChannel.Valid host ⟨granted⟩ :=
      ⟨hpos, fun id entry hget => (hentry id entry hget).1,
        fun id entry hget => (hentry id entry hget).2⟩
    refine ⟨withRevokedNote_bounded host .remove
      (hvalid.toBounded.set_channel host hkey hchannel hroom) hkey hnow
      (fun id hid => ((hchanged id).mp hid).1.2), ?_⟩
    intro other id hid
    rw [hgrant other id]
    by_cases heq : other = key
    · subst heq
      obtain ⟨hbefore, hnew⟩ := (mem_revokedGroups_withRevokedNote host).mp hid
      have hnone := hvalid.disjoint other id hbefore
      simp [hnone, hnew]
    · have hbefore := revokedGroups_withRevokedNote_subset host heq hid
      have hnone := hvalid.disjoint other id hbefore
      simp [hnone, heq]

/-! ## Revoking -/

/-- What a revoke changes, and the record written when something did. -/
theorem withSurfaceGroupsRevoked_cases (record : SurfaceGrantRecord) (key : String)
    (groups : List SurfaceGroupId) (now : String) :
    (∀ id, id ∈ (withSurfaceGroupsRevoked host record key groups now).2 ↔
      id ∈ groups ∧ (record.grant key id).isSome = true) ∧
    (((withSurfaceGroupsRevoked host record key groups now).2 = [] ∧
        (withSurfaceGroupsRevoked host record key groups now).1 = record) ∨
      (withSurfaceGroupsRevoked host record key groups now).2 ≠ [] ∧
      ∃ left : PlainObject SurfaceGroupId SurfaceGrantEntry,
        (∀ id, left.get id = if id ∈ groups then none else record.grant key id) ∧
        record.channels.get key ≠ none ∧
        (withSurfaceGroupsRevoked host record key groups now).1 = withRevokedNote host
          { record with
            channels :=
              if left.size = 0 then record.channels.delete key
              else record.channels.set key ⟨left⟩ }
          key (withSurfaceGroupsRevoked host record key groups now).2 .add now) := by
  unfold withSurfaceGroupsRevoked
  cases hget : record.channels.get key with
  | none => simp [SurfaceGrantRecord.grant, groupsOf, hget]
  | some current =>
    have hgrant := SurfaceGrantRecord.grant_of_get hget
    have hmem : ∀ id, id ∈ (groups.foldl revokeGroup (current.groups, [])).2 ↔
        id ∈ groups ∧ (record.grant key id).isSome = true := by
      intro id
      simp [mem_revokeGroups_changed, hgrant]
    simp only
    split
    · rename_i hnil
      rw [hnil] at hmem
      exact ⟨hmem, Or.inl ⟨rfl, rfl⟩⟩
    · rename_i hne
      refine ⟨hmem, Or.inr ⟨hne, _, ?_, by simp, rfl⟩⟩
      intro id
      rw [revokeGroups_get, hgrant]

/-- The groups listed in the call are revoked in its channel; nothing else moved. -/
theorem withSurfaceGroupsRevoked_grant (record : SurfaceGrantRecord) (key : String)
    (groups : List SurfaceGroupId) (now : String) (other : String) (id : SurfaceGroupId) :
    (withSurfaceGroupsRevoked host record key groups now).1.grant other id =
      if other = key ∧ id ∈ groups then none else record.grant other id := by
  obtain ⟨hchanged, hcase⟩ := withSurfaceGroupsRevoked_cases host record key groups now
  cases hcase with
  | inl hnone =>
    rw [hnone.2]
    split
    · rename_i h
      obtain ⟨rfl, hid⟩ := h
      have hiff := hchanged id
      rw [hnone.1] at hiff
      simpa [hid] using hiff
    · rfl
  | inr hsome =>
    obtain ⟨-, left, hleft, -, hnext⟩ := hsome
    rw [hnext, grant_withRevokedNote]
    by_cases hzero : left.size = 0
    · have hempty : ∀ id, left.get id = none := by
        intro id
        rw [PlainObject.size_eq_zero.mp hzero, PlainObject.get_empty]
      rw [if_pos hzero, SurfaceGrantRecord.grant_delete]
      by_cases heq : other = key
      · subst heq
        have hid := hleft id
        rw [hempty id] at hid
        simpa using hid
      · simp [heq]
    · rw [if_neg hzero, SurfaceGrantRecord.grant_set]
      by_cases heq : other = key
      · subst heq
        simp [hleft]
      · simp [heq]

@[simp] theorem withSurfaceGroupsRevoked_seeds (record : SurfaceGrantRecord) (key : String)
    (groups : List SurfaceGroupId) (now : String) :
    (withSurfaceGroupsRevoked host record key groups now).1.seeds = record.seeds := by
  obtain ⟨-, hcase⟩ := withSurfaceGroupsRevoked_cases host record key groups now
  cases hcase with
  | inl hnone => rw [hnone.2]
  | inr hsome =>
    obtain ⟨-, left, -, -, hnext⟩ := hsome
    rw [hnext, withRevokedNote_seeds]

theorem SurfaceGrantRecord.Bounded.delete_channel {record : SurfaceGrantRecord} (key : String)
    (h : record.Bounded host) :
    SurfaceGrantRecord.Bounded host { record with channels := record.channels.delete key } := by
  refine { h with channels_le := ?_, channel_shape := ?_ }
  · exact Nat.le_trans (PlainObject.size_delete_le record.channels key) h.channels_le
  · intro other value hvalue
    rw [PlainObject.get_delete] at hvalue
    split at hvalue
    · cases hvalue
    · exact h.channel_shape other value hvalue

theorem withSurfaceGroupsRevoked_valid {record : SurfaceGrantRecord} {key : String}
    (groups : List SurfaceGroupId) {now : String} (hvalid : record.Valid host)
    (hkey : CHANNEL_KEY_SHAPE key = true) (hnow : Parseable host now) :
    (withSurfaceGroupsRevoked host record key groups now).1.Valid host := by
  have hgrant := withSurfaceGroupsRevoked_grant host record key groups now
  obtain ⟨hchanged, hcase⟩ := withSurfaceGroupsRevoked_cases host record key groups now
  cases hcase with
  | inl hnone =>
    rw [hnone.2]
    exact hvalid
  | inr hsome =>
    obtain ⟨-, left, hleft, hpresent, hnext⟩ := hsome
    have hold : ∀ id entry, left.get id = some entry → record.grant key id = some entry := by
      intro id entry hget
      rw [hleft] at hget
      split at hget
      · cases hget
      · exact hget
    have hgrantable : ∀ id ∈ (withSurfaceGroupsRevoked host record key groups now).2,
        isGrantableSurfaceGroup id = true := by
      intro id hid
      obtain ⟨entry, hentry⟩ := Option.isSome_iff_exists.mp ((hchanged id).mp hid).2
      exact (hvalid.grant_shape host hentry).1
    have hbounded : SurfaceGrantRecord.Bounded host
        { record with
          channels :=
            if left.size = 0 then record.channels.delete key
            else record.channels.set key ⟨left⟩ } := by
      split
      · exact hvalid.toBounded.delete_channel host key
      · rename_i hsize
        have hchannel : SurfaceGrantChannel.Valid host ⟨left⟩ :=
          ⟨Nat.pos_of_ne_zero hsize,
            fun id entry hget => (hvalid.grant_shape host (hold id entry hget)).1,
            fun id entry hget => (hvalid.grant_shape host (hold id entry hget)).2⟩
        exact hvalid.toBounded.set_channel host hkey hchannel (fun hnone => absurd hnone hpresent)
    refine ⟨?_, ?_⟩
    · rw [hnext]
      exact withRevokedNote_bounded host .add hbounded hkey hnow hgrantable
    · intro other id hid
      rw [hgrant]
      rw [hnext] at hid
      split
      · rfl
      · rename_i h
        by_cases heq : other = key
        · subst heq
          cases (mem_revokedGroups_withRevokedNote host).mp hid with
          | inl hbefore => exact hvalid.disjoint other id hbefore
          | inr hnew => exact absurd ⟨rfl, ((hchanged id).mp hnew).1⟩ h
        · have hbefore := revokedGroups_withRevokedNote_subset host heq hid
          exact hvalid.disjoint other id hbefore

theorem withSurfaceChannelCleared_valid {record : SurfaceGrantRecord} {key : String} {now : String}
    (hvalid : record.Valid host) (hkey : CHANNEL_KEY_SHAPE key = true) (hnow : Parseable host now) :
    (withSurfaceChannelCleared host record key now).1.Valid host :=
  withSurfaceGroupsRevoked_valid host _ hvalid hkey hnow

/-- The loop over the channels of the record that is cleared: it holds no grants any more. -/
theorem clearNotes_valid {record : SurfaceGrantRecord} {now : String} (hvalid : record.Valid host)
    (hnow : Parseable host now) {keys : List String}
    (hkeys : ∀ key ∈ keys, CHANNEL_KEY_SHAPE key = true) {next : SurfaceGrantRecord}
    (hnext : next.Bounded host) (hempty : next.channels = .empty) :
    (keys.foldl (fun next key => withRevokedNote host next key (grantedSurfaceGroups record key)
      .add now) next).Valid host := by
  induction keys generalizing next with
  | nil =>
    refine ⟨hnext, ?_⟩
    intro key id _
    simp [SurfaceGrantRecord.grant, groupsOf, hempty]
  | cons key rest ih =>
    rw [List.foldl_cons]
    apply ih (fun key hkey => hkeys key (List.mem_cons_of_mem _ hkey))
    · apply withRevokedNote_bounded host .add hnext (hkeys key List.mem_cons_self) hnow
      intro id hid
      obtain ⟨entry, hentry⟩ := Option.isSome_iff_exists.mp (mem_grantedSurfaceGroups.mp hid)
      exact (hvalid.grant_shape host hentry).1
    · rw [withRevokedNote_channels, hempty]

theorem withAllSurfaceGrantsCleared_valid {record : SurfaceGrantRecord} {now : String}
    (hvalid : record.Valid host) (hnow : Parseable host now) :
    (withAllSurfaceGrantsCleared host record now).1.Valid host := by
  have hkeys : ∀ key ∈ record.channels.keys, CHANNEL_KEY_SHAPE key = true := by
    intro key hkey
    obtain ⟨channel, hchannel⟩ := PlainObject.mem_keys.mp hkey
    exact (hvalid.channel_shape key channel hchannel).1
  apply clearNotes_valid host hvalid hnow hkeys
  · refine { hvalid.toBounded with channels_le := ?_, channel_shape := ?_ }
    · simp [PlainObject.size, PlainObject.empty]
    · intro key channel hchannel
      cases hchannel
  · rfl

/-! ## Seeding -/

theorem mem_canonicalSeed_key {seed : SurfaceGrantSeed} {channel : SurfaceGrantSeedChannel}
    (h : channel ∈ canonicalSeed seed) : ∃ written ∈ seed, written.key = channel.key := by
  simp only [canonicalSeed, List.mem_map, List.mem_mergeSort, List.mem_eraseDups] at h
  obtain ⟨key, ⟨written, hwritten, rfl⟩, rfl⟩ := h
  exact ⟨written, hwritten, rfl⟩

/-- One channel of a seed: it is skipped, or its groups are granted. -/
theorem seedChannel_record (now : String) (result : SurfaceGrantSeedResult)
    (channel : SurfaceGrantSeedChannel) :
    (seedChannel host now result channel).record = result.record ∨
      ∃ changed, withSurfaceGroupsGranted host result.record channel.key channel.groups .seed now =
        .ok (seedChannel host now result channel).record changed := by
  unfold seedChannel
  cases h : withSurfaceGroupsGranted host result.record channel.key channel.groups .seed now with
  | channelLimit => exact Or.inl rfl
  | ok next changed => exact Or.inr ⟨changed, rfl⟩

theorem seedChannels_seeds (now : String) (channels : List SurfaceGrantSeedChannel)
    (result : SurfaceGrantSeedResult) :
    (channels.foldl (seedChannel host now) result).record.seeds = result.record.seeds := by
  induction channels generalizing result with
  | nil => rfl
  | cons channel rest ih =>
    rw [List.foldl_cons, ih]
    cases seedChannel_record host now result channel with
    | inl hsame => rw [hsame]
    | inr hgranted =>
      obtain ⟨changed, hchanged⟩ := hgranted
      exact withSurfaceGroupsGranted_seeds host hchanged

theorem seedChannels_valid {now : String} {channels : List SurfaceGrantSeedChannel}
    (result : SurfaceGrantSeedResult) (hvalid : result.record.Valid host)
    (hkeys : ∀ channel ∈ channels, CHANNEL_KEY_SHAPE channel.key = true)
    (hnow : Parseable host now) :
    (channels.foldl (seedChannel host now) result).record.Valid host := by
  induction channels generalizing result with
  | nil => exact hvalid
  | cons channel rest ih =>
    rw [List.foldl_cons]
    apply ih _ _ (fun channel h => hkeys channel (List.mem_cons_of_mem _ h))
    cases seedChannel_record host now result channel with
    | inl hsame => rwa [hsame]
    | inr hgranted =>
      obtain ⟨changed, hchanged⟩ := hgranted
      exact withSurfaceGroupsGranted_valid host hvalid (hkeys channel List.mem_cons_self) hnow
        hchanged

theorem lastOf_sublist {α : Type} (count : ℕ) (values : List α) :
    (lastOf count values).Sublist values :=
  List.drop_sublist _ _

theorem length_lastOf_le {α : Type} (count : ℕ) (values : List α) :
    (lastOf count values).length ≤ count := by
  simp only [lastOf, List.length_drop]
  omega

theorem applySurfaceGrantSeed_valid {record : SurfaceGrantRecord} {seed : SurfaceGrantSeed}
    {now : String} (hhost : host.WritesHex) (hvalid : record.Valid host)
    (hkeys : ∀ channel ∈ seed, CHANNEL_KEY_SHAPE channel.key = true) (hnow : Parseable host now) :
    (applySurfaceGrantSeed host record seed now).record.Valid host := by
  unfold applySurfaceGrantSeed
  simp only
  split
  · exact hvalid
  · rename_i hfresh
    have hcanonical : ∀ channel ∈ canonicalSeed seed, CHANNEL_KEY_SHAPE channel.key = true := by
      intro channel hchannel
      obtain ⟨written, hwritten, hkey⟩ := mem_canonicalSeed_key hchannel
      exact hkey ▸ hkeys written hwritten
    have hnext := seedChannels_valid host ⟨surfaceGrantSeedDigest host
      (canonicalSeed seed), true, record, [], [], []⟩ hvalid hcanonical hnow
    have hseeds := seedChannels_seeds host now (canonicalSeed seed)
      ⟨surfaceGrantSeedDigest host (canonicalSeed seed), true, record, [], [], []⟩
    have hnodup : (record.seeds ++ [surfaceGrantSeedDigest host (canonicalSeed seed)]).Nodup :=
      hvalid.seeds_nodup.append (List.nodup_singleton _) (by simpa using hfresh)
    refine ⟨{ hnext.toBounded with seeds_le := ?_, seeds_nodup := ?_, seeds_hex := ?_ },
      hnext.disjoint⟩
    · exact length_lastOf_le _ _
    · rw [hseeds]
      exact hnodup.sublist (lastOf_sublist _ _)
    · intro digest hdigest
      rw [hseeds] at hdigest
      have hmem := (lastOf_sublist _ _).subset hdigest
      simp only [List.mem_append, List.mem_singleton] at hmem
      cases hmem with
      | inl hold => exact hvalid.seeds_hex digest hold
      | inr hnew =>
        rw [hnew]
        exact hhost _ _

end

end QuokyPlatform.SurfaceGrants
