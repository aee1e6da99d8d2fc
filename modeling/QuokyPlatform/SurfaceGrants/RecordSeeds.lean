import QuokyPlatform.SurfaceGrants.RecordRuns

/-!
# A seed never undoes a revoke

Histories of operations, newest first, with the record stored and read again after each of them:
how long the digest of a seed stays, and what the notes say of the groups a changed seed adds.
-/

namespace QuokyPlatform.SurfaceGrants
set_option autoImplicit false
set_option maxHeartbeats 250000

section
variable (host : Host)

/-- The record after a history, newest operation first. -/
def recordAfter : List Operation → SurfaceGrantRecord
  | [] => EMPTY_SURFACE_GRANT_RECORD
  | operation :: earlier =>
    readSurfaceGrants host (serializeSurfaceGrants (operation.apply host (recordAfter earlier)))

/-- The digest of the seed the operation applied, if it applied one. -/
def appliedDigest (record : SurfaceGrantRecord) : Operation → Option String
  | .seed channels now =>
    let result := applySurfaceGrantSeed host record channels now
    if result.applied then some result.digest else none
  | _ => none

/-- The digests of the seeds applied in `later`, which follows `earlier`. -/
def appliedDigests : List Operation → List Operation → List String
  | [], _ => []
  | operation :: later, earlier =>
    (appliedDigest host (recordAfter host (later ++ earlier)) operation).toList ++
      appliedDigests later earlier

inductive OwnerAct where
  | granted
  | revoked
  deriving DecidableEq, Repr

/-- What the operation, as an action of the owner, changed of a group of a channel. -/
def ownerAct (record : SurfaceGrantRecord) (operation : Operation) (key : String)
    (id : SurfaceGroupId) : Option OwnerAct :=
  if (record.grant key id).isSome = ((operation.apply host record).grant key id).isSome then none
  else
    match operation with
    | .grant _ _ .owner _ => some .granted
    | .grant _ _ .seed _ | .seed _ _ => none
    | .revoke _ _ _ | .clearChannel _ _ | .clearAll _ => some .revoked

def lastOwnerAct : List Operation → String → SurfaceGroupId → Option OwnerAct
  | [], _, _ => none
  | operation :: earlier, key, id =>
    (ownerAct host (recordAfter host earlier) operation key id).or (lastOwnerAct earlier key id)

/-- The channels the operation writes a note for. -/
def notedBy (record : SurfaceGrantRecord) : Operation → List String
  | .revoke key groups now =>
    if (withSurfaceGroupsRevoked host record key groups now).2 = [] then [] else [key]
  | .clearChannel key now =>
    if (withSurfaceChannelCleared host record key now).2 = [] then [] else [key]
  | .clearAll _ => record.channels.keys
  | .grant _ _ _ _ | .seed _ _ => []

/-- The channels that ever had a note. -/
def notedKeys : List Operation → Finset String
  | [] => ∅
  | operation :: earlier =>
    (notedBy host (recordAfter host earlier) operation).toFinset ∪ notedKeys earlier

/-- The channel and the group are listed. -/
def Lists (channels : List SurfaceGrantSeedChannel) (key : String) (id : SurfaceGroupId) : Prop :=
  ∃ channel ∈ channels, channel.key = key ∧ id ∈ channel.groups

theorem recordAfter_valid {history : List Operation} (hhost : host.WritesHex)
    (hallowed : ∀ operation ∈ history, operation.Allowed host) :
    (recordAfter host history).Valid host := by
  induction history with
  | nil => exact empty_valid host
  | cons operation earlier ih =>
    have hearlier := ih fun operation h => hallowed operation (List.mem_cons_of_mem _ h)
    have hnext := Operation.apply_valid host hhost hearlier (hallowed operation List.mem_cons_self)
    exact (readSurfaceGrants_stored host hnext.toBounded).valid host hnext

/-- Storing the record keeps what the operation made of it. -/
theorem recordAfter_same {operation : Operation} {earlier : List Operation}
    (hhost : host.WritesHex)
    (hallowed : ∀ other ∈ operation :: earlier, other.Allowed host) :
    (recordAfter host (operation :: earlier)).Same
      (operation.apply host (recordAfter host earlier)) := by
  have hearlier := recordAfter_valid host hhost fun other h =>
    hallowed other (List.mem_cons_of_mem _ h)
  have hnext := Operation.apply_valid host hhost hearlier (hallowed operation List.mem_cons_self)
  exact readSurfaceGrants_stored host hnext.toBounded

/-! ## The stored digests -/

theorem clearNotes_seeds (record : SurfaceGrantRecord) (now : String) (keys : List String)
    (next : SurfaceGrantRecord) :
    (keys.foldl (fun next key => withRevokedNote host next key (grantedSurfaceGroups record key)
      .add now) next).seeds = next.seeds := by
  induction keys generalizing next with
  | nil => rfl
  | cons key rest ih => rw [List.foldl_cons, ih, withRevokedNote_seeds]

theorem seedChannels_digest (now : String) (channels : List SurfaceGrantSeedChannel)
    (result : SurfaceGrantSeedResult) :
    (channels.foldl (seedChannel host now) result).digest = result.digest ∧
      (channels.foldl (seedChannel host now) result).applied = result.applied := by
  induction channels generalizing result with
  | nil => exact ⟨rfl, rfl⟩
  | cons channel rest ih =>
    rw [List.foldl_cons, (ih _).1, (ih _).2]
    unfold seedChannel
    split <;> exact ⟨rfl, rfl⟩

/-- The state in which the loop over the channels of a seed ends. -/
def seededChannels (record : SurfaceGrantRecord) (seed : SurfaceGrantSeed) (now : String) :
    SurfaceGrantSeedResult :=
  (canonicalSeed seed).foldl (seedChannel host now)
    ⟨surfaceGrantSeedDigest host (canonicalSeed seed), true, record, [], [], []⟩

/-- A seed whose digest is stored changes nothing; another one is applied, and its digest is stored
as the youngest. -/
theorem applySurfaceGrantSeed_cases (record : SurfaceGrantRecord) (seed : SurfaceGrantSeed)
    (now : String) :
    (surfaceGrantSeedDigest host (canonicalSeed seed) ∈ record.seeds ∧
      applySurfaceGrantSeed host record seed now =
        ⟨surfaceGrantSeedDigest host (canonicalSeed seed), false, record, [], [], []⟩) ∨
    (surfaceGrantSeedDigest host (canonicalSeed seed) ∉ record.seeds ∧
      applySurfaceGrantSeed host record seed now =
        { seededChannels host record seed now with
          record := { (seededChannels host record seed now).record with
            seeds := lastOf SURFACE_GRANT_MAX_SEEDS
              (record.seeds ++ [surfaceGrantSeedDigest host (canonicalSeed seed)]) } }) := by
  by_cases hmem : surfaceGrantSeedDigest host (canonicalSeed seed) ∈ record.seeds
  · refine Or.inl ⟨hmem, ?_⟩
    simp only [applySurfaceGrantSeed, if_pos hmem]
  · refine Or.inr ⟨hmem, ?_⟩
    have hseeds : (seededChannels host record seed now).record.seeds = record.seeds :=
      seedChannels_seeds host now _ _
    rw [← hseeds]
    simp only [applySurfaceGrantSeed, if_neg hmem]
    rfl

theorem applySurfaceGrantSeed_digest (record : SurfaceGrantRecord) (seed : SurfaceGrantSeed)
    (now : String) : (applySurfaceGrantSeed host record seed now).digest =
      surfaceGrantSeedDigest host (canonicalSeed seed) := by
  cases applySurfaceGrantSeed_cases host record seed now with
  | inl hstored => rw [hstored.2]
  | inr hnew =>
    rw [hnew.2]
    exact (seedChannels_digest host now _ _).1

theorem applySurfaceGrantSeed_applied (record : SurfaceGrantRecord) (seed : SurfaceGrantSeed)
    (now : String) : (applySurfaceGrantSeed host record seed now).applied = true ↔
      (applySurfaceGrantSeed host record seed now).digest ∉ record.seeds := by
  rw [applySurfaceGrantSeed_digest]
  cases applySurfaceGrantSeed_cases host record seed now with
  | inl hstored => simp [hstored.2, hstored.1]
  | inr hnew =>
    have happlied : (seededChannels host record seed now).applied = true :=
      (seedChannels_digest host now _ _).2
    simp [hnew.2, hnew.1, happlied]

theorem applySurfaceGrantSeed_seeds (record : SurfaceGrantRecord) (seed : SurfaceGrantSeed)
    (now : String) : (applySurfaceGrantSeed host record seed now).record.seeds =
      if (applySurfaceGrantSeed host record seed now).applied = true then
        lastOf SURFACE_GRANT_MAX_SEEDS
          (record.seeds ++ [(applySurfaceGrantSeed host record seed now).digest])
      else record.seeds := by
  rw [applySurfaceGrantSeed_digest]
  cases applySurfaceGrantSeed_cases host record seed now with
  | inl hstored => simp [hstored.2]
  | inr hnew =>
    have happlied : (seededChannels host record seed now).applied = true :=
      (seedChannels_digest host now _ _).2
    simp [hnew.2, happlied]

/-- Only an applied seed changes the stored digests. -/
theorem apply_seeds (record : SurfaceGrantRecord) (operation : Operation) :
    (operation.apply host record).seeds =
      match appliedDigest host record operation with
      | some digest => lastOf SURFACE_GRANT_MAX_SEEDS (record.seeds ++ [digest])
      | none => record.seeds := by
  cases operation with
  | grant key groups source now =>
    simp only [Operation.apply, appliedDigest]
    cases h : withSurfaceGroupsGranted host record key groups source now with
    | channelLimit => rfl
    | ok next changed => exact withSurfaceGroupsGranted_seeds host h
  | revoke key groups now => exact withSurfaceGroupsRevoked_seeds host record key groups now
  | clearChannel key now => exact withSurfaceGroupsRevoked_seeds host record key _ now
  | clearAll now => exact clearNotes_seeds host record now _ _
  | seed channels now =>
    simp only [Operation.apply, appliedDigest]
    rw [applySurfaceGrantSeed_seeds]
    by_cases happlied : (applySurfaceGrantSeed host record channels now).applied = true <;>
      simp [happlied]

theorem lastOf_append {α : Type} {count : ℕ} (older recent : List α)
    (h : recent.length ≤ count) : ∃ kept, lastOf count (older ++ recent) = kept ++ recent := by
  refine ⟨older.drop (older.length + recent.length - count), ?_⟩
  rw [lastOf, List.length_append, List.drop_append_of_le_length (by omega)]

/-- The digest of an applied seed stays, and only the digests applied since are younger, as long as
they are fewer than the bound. -/
theorem applied_digest_stays {digest : String} {later earlier : List Operation}
    (hhost : host.WritesHex)
    (hallowed : ∀ operation ∈ later ++ earlier, operation.Allowed host)
    (hlast : ∃ older, (recordAfter host earlier).seeds = older ++ [digest])
    (hfew : ((appliedDigests host later earlier).toFinset.erase digest).card <
      SURFACE_GRANT_MAX_SEEDS) :
    ∃ older recent, (recordAfter host (later ++ earlier)).seeds = older ++ digest :: recent ∧
      ∀ younger ∈ recent, younger ∈ appliedDigests host later earlier := by
  induction later with
  | nil =>
    obtain ⟨older, holder⟩ := hlast
    exact ⟨older, [], holder, by simp⟩
  | cons operation later ih =>
    have hsubset : (appliedDigests host later earlier).toFinset.erase digest ⊆
        (appliedDigests host (operation :: later) earlier).toFinset.erase digest := by
      apply Finset.erase_subset_erase
      intro younger hyounger
      simp only [appliedDigests, List.mem_toFinset, List.mem_append] at hyounger ⊢
      exact Or.inr hyounger
    obtain ⟨older, recent, hseeds, hrecent⟩ := ih
      (fun operation h => hallowed operation (List.mem_cons_of_mem _ h))
      (lt_of_le_of_lt (Finset.card_le_card hsubset) hfew)
    have hall : ∀ other ∈ operation :: (later ++ earlier), other.Allowed host := hallowed
    have hnext : (recordAfter host ((operation :: later) ++ earlier)).seeds =
        (operation.apply host (recordAfter host (later ++ earlier))).seeds :=
      (recordAfter_same host hhost hall).seeds
    rw [hnext, apply_seeds]
    cases happlied : appliedDigest host (recordAfter host (later ++ earlier)) operation with
    | none =>
      refine ⟨older, recent, hseeds, ?_⟩
      intro younger hyounger
      simp only [appliedDigests, List.mem_append]
      exact Or.inr (hrecent younger hyounger)
    | some fresh =>
      have hfresh : fresh ∉ older ++ digest :: recent := by
        rw [← hseeds]
        cases operation with
        | seed channels now =>
          simp only [appliedDigest, Option.ite_none_right_eq_some, Option.some.injEq] at happlied
          obtain ⟨hdone, rfl⟩ := happlied
          exact (applySurfaceGrantSeed_applied host _ _ _).mp hdone
        | _ => cases happlied
      have hvalid := recordAfter_valid host hhost fun other h =>
        hall other (List.mem_cons_of_mem _ h)
      have hnodup : (digest :: (recent ++ [fresh])).Nodup := by
        have hstored := hvalid.seeds_nodup
        rw [hseeds] at hstored
        have happend : ((older ++ digest :: recent) ++ [fresh]).Nodup :=
          hstored.append (List.nodup_singleton _) (by simpa using hfresh)
        rw [List.append_assoc] at happend
        exact (List.nodup_append.mp happend).2.1
      have hmem : ∀ younger ∈ recent ++ [fresh],
          younger ∈ appliedDigests host (operation :: later) earlier := by
        intro younger hyounger
        simp only [List.mem_append, List.mem_singleton] at hyounger
        simp only [appliedDigests, happlied, List.mem_append, Option.mem_toList]
        cases hyounger with
        | inl hold => exact Or.inr (hrecent younger hold)
        | inr heq => exact Or.inl (by rw [heq])
      have hlength : (recent ++ [fresh]).length ≤
          ((appliedDigests host (operation :: later) earlier).toFinset.erase digest).card := by
        rw [← List.toFinset_card_of_nodup (List.nodup_cons.mp hnodup).2]
        apply Finset.card_le_card
        intro younger hyounger
        have hin := List.mem_toFinset.mp hyounger
        have hne : younger ≠ digest := fun heq => (List.nodup_cons.mp hnodup).1 (heq ▸ hin)
        exact Finset.mem_erase.mpr ⟨hne, List.mem_toFinset.mpr (hmem younger hin)⟩
      have hrecent' : (digest :: (recent ++ [fresh])).length ≤ SURFACE_GRANT_MAX_SEEDS := by
        rw [List.length_cons]
        omega
      obtain ⟨kept, hkept⟩ := lastOf_append older _ hrecent'
      refine ⟨kept, recent ++ [fresh], ?_, hmem⟩
      rw [hseeds, ← hkept]
      simp

/-! ## The notes without eviction -/

/-- Every channel with a note is among `keys`. -/
def NotesWithin (record : SurfaceGrantRecord) (keys : Finset String) : Prop :=
  ∀ key, (record.revoked.get key).isSome = true → key ∈ keys

theorem NotesWithin.room {record : SurfaceGrantRecord} {keys : Finset String} {key : String}
    (h : NotesWithin record keys) (hkey : key ∈ keys)
    (hfew : keys.card ≤ SURFACE_GRANT_MAX_REVOKED_CHANNELS) :
    (record.revoked.delete key).size < SURFACE_GRANT_MAX_REVOKED_CHANNELS := by
  have hsize : (record.revoked.delete key).size ≤ (keys.erase key).card := by
    apply PlainObject.size_le_card
    intro other hother
    rw [PlainObject.get_delete] at hother
    by_cases heq : other = key
    · simp [heq] at hother
    · rw [if_neg heq] at hother
      exact Finset.mem_erase.mpr ⟨heq, h other hother⟩
  have hcard := Finset.card_erase_of_mem hkey
  have hpos := Finset.card_pos.mpr ⟨key, hkey⟩
  omega

/-- With room for the note of the channel, the other notes stay. -/
theorem withRevokedNote_get_other {record : SurfaceGrantRecord} {key other : String}
    {groups : List SurfaceGroupId} {op : NoteOp} {now : String}
    (hroom : (record.revoked.delete key).size < SURFACE_GRANT_MAX_REVOKED_CHANNELS)
    (hother : other ≠ key) :
    (withRevokedNote host record key groups op now).revoked.get other =
      record.revoked.get other := by
  by_cases hgroups : groups = []
  · rw [hgroups, withRevokedNote_nil]
  · obtain ⟨ordered, -, -, hrevoked⟩ := withRevokedNote_revoked host hgroups record key op now
    rw [hrevoked, evictOldest_of_lt host hroom]
    split
    · rw [PlainObject.get_delete, if_neg hother]
    · rw [PlainObject.get_set, if_neg hother, PlainObject.get_delete, if_neg hother]

/-- Noting revoked groups: nothing else is noted, and no note is lost. -/
theorem addNote_notes (record : SurfaceGrantRecord) {keys : Finset String} {key : String}
    (groups : List SurfaceGroupId) (now : String) (h : NotesWithin record keys) (hkey : key ∈ keys)
    (hfew : keys.card ≤ SURFACE_GRANT_MAX_REVOKED_CHANNELS) :
    NotesWithin (withRevokedNote host record key groups .add now) keys ∧
    ∀ other id, id ∈ revokedGroups (withRevokedNote host record key groups .add now) other ↔
      id ∈ revokedGroups record other ∨ (other = key ∧ id ∈ groups) := by
  have hroom := h.room hkey hfew
  constructor
  · intro other hother
    by_cases heq : other = key
    · rwa [heq]
    · rw [withRevokedNote_get_other host hroom heq] at hother
      exact h other hother
  · intro other id
    by_cases heq : other = key
    · rw [heq, mem_revokedGroups_withRevokedNote]
      simp
    · simp [revokedGroups, withRevokedNote_get_other host hroom heq, heq]

/-- Dropping groups from a note never evicts another one. -/
theorem removeNote_get_other {record : SurfaceGrantRecord} {key other : String}
    {groups : List SurfaceGroupId} {now : String}
    (hle : record.revoked.size ≤ SURFACE_GRANT_MAX_REVOKED_CHANNELS) (hother : other ≠ key) :
    (withRevokedNote host record key groups .remove now).revoked.get other =
      record.revoked.get other := by
  by_cases hnote : key ∈ record.revoked.keys
  · have hlt := PlainObject.size_delete_lt hnote
    exact withRevokedNote_get_other host (by omega) hother
  · by_cases hgroups : groups = []
    · rw [hgroups, withRevokedNote_nil]
    · obtain ⟨ordered, hmem, -, hrevoked⟩ :=
        withRevokedNote_revoked host hgroups record key .remove now
      have hnone : record.revoked.get key = none := PlainObject.get_eq_none.mpr hnote
      have hnil : ordered = [] := by
        apply List.eq_nil_iff_forall_not_mem.mpr
        intro id hid
        have hbefore := ((hmem id).mp hid).1
        simp [revokedGroups, hnone] at hbefore
      rw [hrevoked, if_pos hnil, PlainObject.get_delete, if_neg hother]

theorem removeNote_channels {record : SurfaceGrantRecord} {key other : String}
    {groups : List SurfaceGroupId} {now : String}
    (h : ((withRevokedNote host record key groups .remove now).revoked.get other).isSome = true) :
    (record.revoked.get other).isSome = true := by
  obtain ⟨note, hnote⟩ := Option.isSome_iff_exists.mp h
  by_cases heq : other = key
  · subst heq
    by_cases hgroups : groups = []
    · rw [hgroups, withRevokedNote_nil] at hnote
      simp [hnote]
    · obtain ⟨ordered, hmem, -, hrevoked⟩ :=
        withRevokedNote_revoked host hgroups record other .remove now
      rw [hrevoked] at hnote
      split at hnote
      · simp [PlainObject.get_delete] at hnote
      · rename_i hne
        obtain ⟨id, hid⟩ := List.exists_mem_of_ne_nil ordered hne
        have hbefore := ((hmem id).mp hid).1
        unfold revokedGroups at hbefore
        cases hget : record.revoked.get other with
        | none => simp [hget] at hbefore
        | some before => rfl
  · simp [withRevokedNote_get host heq hnote]

/-- The next record has no new channel with a note, and of the groups that are not granted in it,
none was granted and the same are noted. -/
structure KeepsNotes (record next : SurfaceGrantRecord) : Prop where
  channels : ∀ key, (next.revoked.get key).isSome = true → (record.revoked.get key).isSome = true
  grant : ∀ key id, next.grant key id = none → record.grant key id = none
  noted : ∀ key id, next.grant key id = none →
    (id ∈ revokedGroups next key ↔ id ∈ revokedGroups record key)

theorem KeepsNotes.refl (record : SurfaceGrantRecord) : KeepsNotes record record :=
  ⟨fun _ h => h, fun _ _ h => h, fun _ _ _ => Iff.rfl⟩

theorem KeepsNotes.trans {record next last : SurfaceGrantRecord} (h : KeepsNotes record next)
    (h' : KeepsNotes next last) : KeepsNotes record last where
  channels key hkey := h.channels key (h'.channels key hkey)
  grant key id hid := h.grant key id (h'.grant key id hid)
  noted key id hid := (h'.noted key id hid).trans (h.noted key id (h'.grant key id hid))

theorem withSurfaceGroupsGranted_keepsNotes {record next : SurfaceGrantRecord} {key : String}
    {groups changed : List SurfaceGroupId} {source : SurfaceGrantSource} {now : String}
    (hle : record.revoked.size ≤ SURFACE_GRANT_MAX_REVOKED_CHANNELS)
    (h : withSurfaceGroupsGranted host record key groups source now = .ok next changed) :
    KeepsNotes record next := by
  have hgrant := withSurfaceGroupsGranted_grant host h
  obtain ⟨-, hcase⟩ := withSurfaceGroupsGranted_ok host h
  cases hcase with
  | inl hnone =>
    rw [hnone.2]
    exact KeepsNotes.refl record
  | inr hsome =>
    obtain ⟨-, -, granted, -, hnext⟩ := hsome
    have hother : ∀ other, other ≠ key → next.revoked.get other = record.revoked.get other := by
      intro other hne
      rw [hnext]
      apply removeNote_get_other host
      · exact hle
      · exact hne
    have hkey : ∀ id, id ∈ revokedGroups next key ↔
        id ∈ revokedGroups record key ∧ id ∉ changed := by
      intro id
      rw [hnext, mem_revokedGroups_withRevokedNote]
      rfl
    refine ⟨?_, ?_, ?_⟩
    · intro other hsome
      rw [hnext] at hsome
      have hbefore := removeNote_channels host hsome
      exact hbefore
    · intro other id hid
      rw [hgrant] at hid
      exact (Option.or_eq_none_iff.mp hid).1
    · intro other id hid
      rw [hgrant] at hid
      have hchanged := (Option.or_eq_none_iff.mp hid).2
      by_cases heq : other = key
      · subst heq
        have hnot : id ∉ changed := by simpa using hchanged
        simp [hkey, hnot]
      · simp [revokedGroups, hother other heq]

/-! ## What a seed adds -/

theorem lists_append {channels others : List SurfaceGrantSeedChannel} {key : String}
    {id : SurfaceGroupId} :
    Lists (channels ++ others) key id ↔ Lists channels key id ∨ Lists others key id := by
  simp only [Lists, List.mem_append, or_and_right, exists_or]

theorem lists_listedChannel {key other : String} {groups : List SurfaceGroupId}
    {id : SurfaceGroupId} :
    Lists (listedChannel key groups) other id ↔ key = other ∧ id ∈ groups := by
  unfold listedChannel
  split
  · rename_i hnil
    simp [Lists, hnil]
  · simp [Lists]

/-- The state of the loop over the channels of a seed, against the record it began with. -/
structure SeedState (record : SurfaceGrantRecord) (result : SurfaceGrantSeedResult) : Prop where
  kept : KeepsNotes record result.record
  added : ∀ key id, Lists result.added key id → record.grant key id = none
  reAdded : ∀ key id, Lists result.reAdded key id ↔
    Lists result.added key id ∧ id ∈ revokedGroups record key

theorem seedChannel_state {record : SurfaceGrantRecord} {result : SurfaceGrantSeedResult}
    (now : String) (channel : SurfaceGrantSeedChannel) (h : SeedState record result)
    (hle : result.record.revoked.size ≤ SURFACE_GRANT_MAX_REVOKED_CHANNELS) :
    SeedState record (seedChannel host now result channel) := by
  unfold seedChannel
  cases hgranted : withSurfaceGroupsGranted host result.record channel.key channel.groups .seed
    now with
  | channelLimit => exact ⟨h.kept, h.added, h.reAdded⟩
  | ok next changed =>
    have hkept := withSurfaceGroupsGranted_keepsNotes host hle hgranted
    obtain ⟨hchanged, -⟩ := withSurfaceGroupsGranted_ok host hgranted
    have hnone : ∀ id ∈ changed, result.record.grant channel.key id = none :=
      fun id hid => ((hchanged id).mp hid).2
    refine ⟨h.kept.trans hkept, ?_, ?_⟩
    · intro key id hadded
      cases lists_append.mp hadded with
      | inl hold => exact h.added key id hold
      | inr hnew =>
        obtain ⟨rfl, hid⟩ := lists_listedChannel.mp hnew
        exact h.kept.grant _ id (hnone id hid)
    · intro key id
      simp only [lists_append, lists_listedChannel, h.reAdded, List.mem_filter, decide_eq_true_eq]
      constructor
      · rintro (⟨hadded, hnoted⟩ | ⟨rfl, hid, hnoted⟩)
        · exact ⟨Or.inl hadded, hnoted⟩
        · exact ⟨Or.inr ⟨rfl, hid⟩, (h.kept.noted _ id (hnone id hid)).mp hnoted⟩
      · rintro ⟨hadded | ⟨rfl, hid⟩, hnoted⟩
        · exact Or.inl ⟨hadded, hnoted⟩
        · exact Or.inr ⟨rfl, hid, (h.kept.noted _ id (hnone id hid)).mpr hnoted⟩

theorem seedChannels_state {record : SurfaceGrantRecord} {now : String}
    {channels : List SurfaceGrantSeedChannel} {result : SurfaceGrantSeedResult}
    (h : SeedState record result) (hvalid : result.record.Valid host)
    (hkeys : ∀ channel ∈ channels, CHANNEL_KEY_SHAPE channel.key = true)
    (hnow : Parseable host now) :
    SeedState record (channels.foldl (seedChannel host now) result) := by
  induction channels generalizing result with
  | nil => exact h
  | cons channel rest ih =>
    rw [List.foldl_cons]
    apply ih
    · exact seedChannel_state host now channel h hvalid.revoked_le
    · have hone : ∀ other ∈ [channel], CHANNEL_KEY_SHAPE other.key = true := by
        intro other hother
        rw [List.mem_singleton.mp hother]
        exact hkeys channel List.mem_cons_self
      exact seedChannels_valid host result hvalid hone hnow
    · exact fun other hother => hkeys other (List.mem_cons_of_mem _ hother)

/-- A seed keeps every grant; of the pairs it adds it lists again those noted as revoked. -/
theorem applySurfaceGrantSeed_state {record : SurfaceGrantRecord} {seed : SurfaceGrantSeed}
    {now : String} (hvalid : record.Valid host)
    (hkeys : ∀ channel ∈ seed, CHANNEL_KEY_SHAPE channel.key = true) (hnow : Parseable host now) :
    SeedState record (applySurfaceGrantSeed host record seed now) := by
  cases applySurfaceGrantSeed_cases host record seed now with
  | inl hstored =>
    rw [hstored.2]
    refine ⟨KeepsNotes.refl record, ?_, ?_⟩ <;> simp [Lists]
  | inr hnew =>
    have hcanonical : ∀ channel ∈ canonicalSeed seed, CHANNEL_KEY_SHAPE channel.key = true := by
      intro channel hchannel
      obtain ⟨written, hwritten, hkey⟩ := mem_canonicalSeed_key hchannel
      exact hkey ▸ hkeys written hwritten
    have hstart : SeedState record
        ⟨surfaceGrantSeedDigest host (canonicalSeed seed), true, record, [], [], []⟩ := by
      refine ⟨KeepsNotes.refl record, ?_, ?_⟩ <;> simp [Lists]
    have hstate := seedChannels_state host hstart hvalid hcanonical hnow
    rw [hnew.2]
    exact ⟨⟨hstate.kept.channels, hstate.kept.grant, hstate.kept.noted⟩, hstate.added,
      hstate.reAdded⟩

theorem seedChannels_grant {now : String} {channels : List SurfaceGrantSeedChannel}
    (result : SurfaceGrantSeedResult) {key : String} {id : SurfaceGroupId}
    {entry : SurfaceGrantEntry} (h : result.record.grant key id = some entry) :
    (channels.foldl (seedChannel host now) result).record.grant key id = some entry := by
  induction channels generalizing result with
  | nil => exact h
  | cons channel rest ih =>
    rw [List.foldl_cons]
    apply ih (seedChannel host now result channel)
    cases seedChannel_record host now result channel with
    | inl hsame => rwa [hsame]
    | inr hgranted =>
      obtain ⟨changed, hchanged⟩ := hgranted
      rw [withSurfaceGroupsGranted_grant host hchanged, h]
      rfl

theorem applySurfaceGrantSeed_grant {record : SurfaceGrantRecord} (seed : SurfaceGrantSeed)
    (now : String) {key : String} {id : SurfaceGroupId} {entry : SurfaceGrantEntry}
    (h : record.grant key id = some entry) :
    (applySurfaceGrantSeed host record seed now).record.grant key id = some entry := by
  cases applySurfaceGrantSeed_cases host record seed now with
  | inl hstored => rwa [hstored.2]
  | inr hnew =>
    rw [hnew.2]
    exact seedChannels_grant host ⟨_, true, record, [], [], []⟩ h

/-! ## The notes of a history -/

/-- What an operation does to the notes: of the groups that are not granted after it, those are
noted that were granted or noted before. -/
structure NotesStep (record next : SurfaceGrantRecord) (keys : Finset String) : Prop where
  within : NotesWithin next keys
  noted : ∀ key id, next.grant key id = none →
    (id ∈ revokedGroups next key ↔
      (record.grant key id).isSome = true ∨ id ∈ revokedGroups record key)

theorem KeepsNotes.notesStep {record next : SurfaceGrantRecord} {keys : Finset String}
    (h : KeepsNotes record next) (hwithin : NotesWithin record keys) :
    NotesStep record next keys := by
  refine ⟨fun key hkey => hwithin key (h.channels key hkey), ?_⟩
  intro key id hid
  rw [h.noted key id hid, h.grant key id hid]
  simp

theorem withSurfaceGroupsRevoked_notesStep {record : SurfaceGrantRecord} {keys : Finset String}
    {key : String} (groups : List SurfaceGroupId) (now : String)
    (hwithin : NotesWithin record keys)
    (hkey : (withSurfaceGroupsRevoked host record key groups now).2 ≠ [] → key ∈ keys)
    (hfew : keys.card ≤ SURFACE_GRANT_MAX_REVOKED_CHANNELS) :
    NotesStep record (withSurfaceGroupsRevoked host record key groups now).1 keys := by
  have hgrant := withSurfaceGroupsRevoked_grant host record key groups now
  obtain ⟨hchanged, hcase⟩ := withSurfaceGroupsRevoked_cases host record key groups now
  cases hcase with
  | inl hnone =>
    rw [hnone.2]
    exact (KeepsNotes.refl record).notesStep hwithin
  | inr hsome =>
    obtain ⟨hne, left, -, -, hnext⟩ := hsome
    have hnotes := addNote_notes host { record with
        channels := if left.size = 0 then record.channels.delete key
          else record.channels.set key ⟨left⟩ }
      (withSurfaceGroupsRevoked host record key groups now).2 now hwithin (hkey hne) hfew
    rw [← hnext] at hnotes
    refine ⟨hnotes.1, ?_⟩
    intro other id hid
    rw [hgrant] at hid
    have hnoted := hnotes.2 other id
    have hsame : id ∈ revokedGroups { record with
        channels := if left.size = 0 then record.channels.delete key
          else record.channels.set key ⟨left⟩ } other ↔ id ∈ revokedGroups record other := Iff.rfl
    rw [hnoted, hsame, or_comm]
    apply or_congr_left
    by_cases heq : other = key
    · subst heq
      rw [hchanged]
      constructor
      · exact fun h => h.2.2
      · intro h
        by_cases hlisted : id ∈ groups
        · exact ⟨rfl, hlisted, h⟩
        · simp [hlisted] at hid
          simp [hid] at h
    · simp only [heq, false_and, if_false] at hid
      simp [heq, hid]

/-- The loop over the channels of a record that is cleared notes every group of theirs. -/
theorem clearNotes_notes (record next : SurfaceGrantRecord) {keys : Finset String}
    {cleared : List String} (now : String) (hwithin : NotesWithin next keys)
    (hkeys : ∀ key ∈ cleared, key ∈ keys) (hfew : keys.card ≤ SURFACE_GRANT_MAX_REVOKED_CHANNELS) :
    NotesWithin (cleared.foldl (fun next key => withRevokedNote host next key
      (grantedSurfaceGroups record key) .add now) next) keys ∧
    ∀ key id, id ∈ revokedGroups (cleared.foldl (fun next key => withRevokedNote host next key
      (grantedSurfaceGroups record key) .add now) next) key ↔
      id ∈ revokedGroups next key ∨ (key ∈ cleared ∧ (record.grant key id).isSome = true) := by
  induction cleared generalizing next with
  | nil => simpa using hwithin
  | cons first rest ih =>
    rw [List.foldl_cons]
    obtain ⟨hfirst, hnoted⟩ := addNote_notes host next (grantedSurfaceGroups record first) now
      hwithin (hkeys first List.mem_cons_self) hfew
    obtain ⟨hrest, hall⟩ := ih _ hfirst fun key h => hkeys key (List.mem_cons_of_mem _ h)
    refine ⟨hrest, ?_⟩
    intro key id
    rw [hall, hnoted, mem_grantedSurfaceGroups, List.mem_cons]
    constructor
    · rintro ((hbefore | ⟨rfl, hid⟩) | ⟨hmem, hid⟩)
      · exact Or.inl hbefore
      · exact Or.inr ⟨Or.inl rfl, hid⟩
      · exact Or.inr ⟨Or.inr hmem, hid⟩
    · rintro (hbefore | ⟨rfl | hmem, hid⟩)
      · exact Or.inl (Or.inl hbefore)
      · exact Or.inl (Or.inr ⟨rfl, hid⟩)
      · exact Or.inr ⟨hmem, hid⟩

theorem SurfaceGrantRecord.mem_keys_of_grant {record : SurfaceGrantRecord} {key : String}
    {id : SurfaceGroupId} (h : (record.grant key id).isSome = true) :
    key ∈ record.channels.keys := by
  unfold SurfaceGrantRecord.grant groupsOf at h
  cases hget : record.channels.get key with
  | none => simp [hget] at h
  | some channel => exact PlainObject.mem_keys.mpr ⟨channel, hget⟩

theorem apply_notesStep {record : SurfaceGrantRecord} {operation : Operation}
    {keys : Finset String} (hvalid : record.Valid host) (hallowed : operation.Allowed host)
    (hwithin : NotesWithin record keys) (hnoted : ∀ key ∈ notedBy host record operation, key ∈ keys)
    (hfew : keys.card ≤ SURFACE_GRANT_MAX_REVOKED_CHANNELS) :
    NotesStep record (operation.apply host record) keys := by
  cases operation with
  | grant key groups source now =>
    simp only [Operation.apply]
    cases h : withSurfaceGroupsGranted host record key groups source now with
    | channelLimit => exact (KeepsNotes.refl record).notesStep hwithin
    | ok next changed =>
      exact (withSurfaceGroupsGranted_keepsNotes host hvalid.revoked_le h).notesStep hwithin
  | revoke key groups now =>
    apply withSurfaceGroupsRevoked_notesStep host groups now hwithin ?_ hfew
    intro hne
    apply hnoted key
    simp [notedBy, hne]
  | clearChannel key now =>
    apply withSurfaceGroupsRevoked_notesStep host _ now hwithin ?_ hfew
    intro hne
    apply hnoted key
    have hcleared : (withSurfaceChannelCleared host record key now).2 ≠ [] := hne
    simp [notedBy, hcleared]
  | clearAll now =>
    obtain ⟨hkeys, hall⟩ := clearNotes_notes host record { record with channels := .empty } now
      hwithin hnoted hfew
    refine ⟨hkeys, ?_⟩
    intro key id _
    have hbefore : id ∈ revokedGroups { record with channels := .empty } key ↔
        id ∈ revokedGroups record key := Iff.rfl
    have hiff := hall key id
    rw [hbefore, or_comm] at hiff
    refine hiff.trans (or_congr_left ?_)
    exact ⟨fun h => h.2, fun h => ⟨SurfaceGrantRecord.mem_keys_of_grant h, h⟩⟩
  | seed channels now =>
    exact (applySurfaceGrantSeed_state host hvalid hallowed.1 hallowed.2).kept.notesStep hwithin

/-- Grants and seeds take no group away. -/
theorem apply_takes {record : SurfaceGrantRecord} {operation : Operation} {key : String}
    {id : SurfaceGroupId} (hbefore : (record.grant key id).isSome = true)
    (hafter : (operation.apply host record).grant key id = none) :
    ownerAct host record operation key id = some .revoked := by
  unfold ownerAct
  rw [hbefore, hafter, if_neg (by simp)]
  obtain ⟨entry, hentry⟩ := Option.isSome_iff_exists.mp hbefore
  cases operation with
  | grant other groups source now =>
    simp only [Operation.apply] at hafter
    cases h : withSurfaceGroupsGranted host record other groups source now with
    | channelLimit =>
      rw [h] at hafter
      rw [hafter] at hentry
      cases hentry
    | ok next changed =>
      rw [h] at hafter
      simp only at hafter
      rw [withSurfaceGroupsGranted_grant host h, hentry] at hafter
      cases hafter
  | revoke _ _ _ => rfl
  | clearChannel _ _ => rfl
  | clearAll _ => rfl
  | seed channels now =>
    simp only [Operation.apply] at hafter
    rw [applySurfaceGrantSeed_grant host channels now hentry] at hafter
    cases hafter

/-- The notes of a history: of the groups that are not granted, those are noted that the owner
revoked last. -/
theorem recordAfter_notes {history : List Operation} (hhost : host.WritesHex)
    (hallowed : ∀ operation ∈ history, operation.Allowed host)
    (hfew : (notedKeys host history).card ≤ SURFACE_GRANT_MAX_REVOKED_CHANNELS) :
    NotesWithin (recordAfter host history) (notedKeys host history) ∧
    ∀ key id, (recordAfter host history).grant key id = none →
      (id ∈ revokedGroups (recordAfter host history) key ↔
        lastOwnerAct host history key id = some .revoked) := by
  induction history with
  | nil =>
    constructor
    · intro key h
      cases h
    · intro key id _
      simp [recordAfter, lastOwnerAct, revokedGroups, EMPTY_SURFACE_GRANT_RECORD]
  | cons operation earlier ih =>
    have hearlier : ∀ other ∈ earlier, other.Allowed host :=
      fun other h => hallowed other (List.mem_cons_of_mem _ h)
    have hsubset : notedKeys host earlier ⊆ notedKeys host (operation :: earlier) :=
      Finset.subset_union_right
    obtain ⟨hwithin, hnoted⟩ := ih hearlier ((Finset.card_le_card hsubset).trans hfew)
    have hvalid := recordAfter_valid host hhost hearlier
    have hstep := apply_notesStep host hvalid (hallowed operation List.mem_cons_self)
      (fun key hkey => hsubset (hwithin key hkey))
      (fun key hkey => Finset.mem_union_left _ (List.mem_toFinset.mpr hkey)) hfew
    have hsame := recordAfter_same host hhost hallowed
    have hgroups : ∀ key, revokedGroups (recordAfter host (operation :: earlier)) key =
        revokedGroups (operation.apply host (recordAfter host earlier)) key := by
      intro key
      rw [revokedGroups, hsame.revoked]
      rfl
    constructor
    · intro key hkey
      rw [hsame.revoked] at hkey
      exact hstep.within key hkey
    · intro key id hid
      rw [hsame.grants] at hid
      rw [hgroups, hstep.noted key id hid, lastOwnerAct]
      cases hbefore : (recordAfter host earlier).grant key id with
      | some entry =>
        have hrevoked := apply_takes host (by rw [hbefore]; rfl) hid
        simp [hrevoked]
      | none =>
        have hnothing : ownerAct host (recordAfter host earlier) operation key id = none := by
          unfold ownerAct
          rw [hbefore, hid, if_pos rfl]
        rw [hnothing, hnoted key id hbefore]
        simp

/-! ## The result -/

/-- A seed with the digest of an applied one adds nothing while fewer than 32 other digests were
applied since, whatever the owner revoked. A seed removes no grant and none of the last 32 digests.
Of the groups a seed adds, those are listed as added again whose last change by the owner was a
revoke or a clear, when at most 32 channels ever had a note. -/
theorem seed_never_undoes_revoke (hhost : host.WritesHex) :
    (∀ (earlier later : List Operation) (channels again : SurfaceGrantSeed) (now time : String),
      (∀ operation ∈ later ++ .seed channels now :: earlier, operation.Allowed host) →
      let first := applySurfaceGrantSeed host (recordAfter host earlier) channels now
      let record := recordAfter host (later ++ .seed channels now :: earlier)
      let result := applySurfaceGrantSeed host record again time
      first.applied = true → result.digest = first.digest →
      ((appliedDigests host later (.seed channels now :: earlier)).toFinset.erase
        first.digest).card < SURFACE_GRANT_MAX_SEEDS →
      result.applied = false ∧ result.record = record ∧ result.added = []) ∧
    (∀ (record : SurfaceGrantRecord) (seed : SurfaceGrantSeed) (now : String),
      let result := applySurfaceGrantSeed host record seed now
      (∀ key id entry, record.grant key id = some entry →
        result.record.grant key id = some entry) ∧
      ∀ stored ∈ lastOf SURFACE_GRANT_MAX_SEEDS (record.seeds ++ [result.digest]),
        stored ∈ result.record.seeds) ∧
    (∀ (history : List Operation) (seed : SurfaceGrantSeed) (now : String),
      (∀ operation ∈ .seed seed now :: history, operation.Allowed host) →
      (notedKeys host history).card ≤ SURFACE_GRANT_MAX_REVOKED_CHANNELS →
      let result := applySurfaceGrantSeed host (recordAfter host history) seed now
      ∀ key id, Lists result.reAdded key id ↔
        Lists result.added key id ∧ lastOwnerAct host history key id = some .revoked) := by
  refine ⟨?_, ?_, ?_⟩
  · intro earlier later channels again now time hallowed first record result happlied hsame hfew
    have hfirst : ∀ other ∈ .seed channels now :: earlier, other.Allowed host :=
      fun other h => hallowed other (List.mem_append_right _ h)
    have hlast : ∃ older, (recordAfter host (.seed channels now :: earlier)).seeds =
        older ++ [first.digest] := by
      have hseeds := applySurfaceGrantSeed_seeds host (recordAfter host earlier) channels now
      rw [if_pos happlied] at hseeds
      have hone : [first.digest].length ≤ SURFACE_GRANT_MAX_SEEDS := by
        simp [SURFACE_GRANT_MAX_SEEDS]
      obtain ⟨kept, hkept⟩ := lastOf_append (recordAfter host earlier).seeds _ hone
      exact ⟨kept, ((recordAfter_same host hhost hfirst).seeds.trans hseeds).trans hkept⟩
    obtain ⟨older, recent, hseeds, -⟩ := applied_digest_stays host hhost hallowed hlast hfew
    have hmem : result.digest ∈ record.seeds := by
      show result.digest ∈ (recordAfter host _).seeds
      rw [hseeds, hsame]
      simp
    cases applySurfaceGrantSeed_cases host record again time with
    | inl hstored =>
      have hresult : result = _ := hstored.2
      rw [hresult]
      exact ⟨rfl, rfl, rfl⟩
    | inr hnew =>
      have hdigest : result.digest = _ := applySurfaceGrantSeed_digest host record again time
      exact absurd (hdigest ▸ hmem) hnew.1
  · intro record seed now result
    refine ⟨fun key id entry h => applySurfaceGrantSeed_grant host seed now h, ?_⟩
    intro stored hstored
    have hseeds : result.record.seeds = _ := applySurfaceGrantSeed_seeds host record seed now
    have happlied := applySurfaceGrantSeed_applied host record seed now
    rw [hseeds]
    split
    · exact hstored
    · rename_i hnot
      have hdigest : result.digest ∈ record.seeds := by
        by_contra hfresh
        exact hnot (happlied.mpr hfresh)
      have hmem := (lastOf_sublist _ _).subset hstored
      simp only [List.mem_append, List.mem_singleton] at hmem
      cases hmem with
      | inl hold => exact hold
      | inr heq => rwa [heq]
  · intro history seed now hallowed hfew result key id
    have hhistory : ∀ other ∈ history, other.Allowed host :=
      fun other h => hallowed other (List.mem_cons_of_mem _ h)
    obtain ⟨hkeys, hnow⟩ := hallowed _ List.mem_cons_self
    have hvalid := recordAfter_valid host hhost hhistory
    have hstate := applySurfaceGrantSeed_state host hvalid hkeys hnow
    have hnotes := (recordAfter_notes host hhost hhistory hfew).2
    rw [hstate.reAdded]
    constructor
    · rintro ⟨hadded, hnoted⟩
      exact ⟨hadded, (hnotes key id (hstate.added key id hadded)).mp hnoted⟩
    · rintro ⟨hadded, hlast⟩
      exact ⟨hadded, (hnotes key id (hstate.added key id hadded)).mpr hlast⟩

end

/-- The owner asks to revoke the one group of the seed. -/
def oneRevoke : Operation := .revoke "discord:-:c1" [.github] "2026-06-28T10:00:00.000Z"

theorem seed_never_undoes_revoke_one_seed :
    (applySurfaceGrantSeed oneSeedHost (recordAfter oneSeedHost [oneRevoke, oneSeed])
      [⟨"discord:-:c1", [.github]⟩] "2026-06-28T10:00:00.000Z").added = [] :=
  have hdate : (oneSeedHost.parseDate "2026-06-28T10:00:00.000Z").isSome = true := by decide
  have hallowed : ∀ operation ∈ [oneRevoke, oneSeed], operation.Allowed oneSeedHost := by
    intro operation h
    simp only [List.mem_cons, List.not_mem_nil, or_false] at h
    cases h with
    | inl h => exact h ▸ ⟨by decide, hdate⟩
    | inr h => exact h ▸ ⟨by decide, hdate⟩
  have happlied : (applySurfaceGrantSeed oneSeedHost (recordAfter oneSeedHost [])
      [⟨"discord:-:c1", [.github]⟩] "2026-06-28T10:00:00.000Z").applied = true :=
    (applySurfaceGrantSeed_applied oneSeedHost _ _ _).mpr List.not_mem_nil
  ((seed_never_undoes_revoke oneSeedHost oneSeedHost_writesHex).1 [] [oneRevoke] _ _ _ _ hallowed
    happlied (by rw [applySurfaceGrantSeed_digest, applySurfaceGrantSeed_digest]) (by decide)).2.2

/-! ## A request that changes nothing -/

/-- What the operation, as a request of the owner, asks for a group of a channel, whether or not
it changes anything. -/
def ownerRequest (operation : Operation) (key : String) (id : SurfaceGroupId) : Option OwnerAct :=
  match operation with
  | .grant other groups .owner _ => if other = key ∧ id ∈ groups then some .granted else none
  | .revoke other groups _ => if other = key ∧ id ∈ groups then some .revoked else none
  | .clearChannel other _ => if other = key then some .revoked else none
  | .clearAll _ => some .revoked
  | .grant _ _ .seed _ | .seed _ _ => none

/-- A revoke of a group that is not granted leaves no note: the group a seed then adds is not
listed as added again. -/
theorem reAdded_misses_idle_revoke :
    ownerRequest oneRevoke "discord:-:c1" .github = some .revoked ∧
    notedKeys oneSeedHost [oneRevoke] = ∅ ∧
    (applySurfaceGrantSeed oneSeedHost (recordAfter oneSeedHost [oneRevoke])
      [⟨"discord:-:c1", [.github]⟩] "2026-06-28T10:00:00.000Z").added =
        [⟨"discord:-:c1", [.github]⟩] ∧
    (applySurfaceGrantSeed oneSeedHost (recordAfter oneSeedHost [oneRevoke])
      [⟨"discord:-:c1", [.github]⟩] "2026-06-28T10:00:00.000Z").reAdded = [] := by
  decide +kernel

end QuokyPlatform.SurfaceGrants
