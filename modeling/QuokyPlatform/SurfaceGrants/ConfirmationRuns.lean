import QuokyPlatform.Foundations.Machine
import QuokyPlatform.SurfaceGrants.ConfirmationInvariant

/-!
# Runs of the confirmation

Where the grants of an actor's row come from, and what holds over every interleaving of the steps.
-/

namespace QuokyPlatform.SurfaceGrants
set_option autoImplicit false
set_option maxHeartbeats 250000

section
variable {host : Host} {config : OwnerConfig} {toISOString : ℤ → Option String}

/-! ## Where grants come from -/

/-- The copy of the actor a writer falls back on. -/
def Action.copy (world : World) : Action → Option Actor
  | .grant number _ => (world.turns number).map fun state => state.1.actor
  | .revoke actor _ _ _ _ | .clearChannel actor _ _ _ | .clearAll actor _ _
  | .switch actor _ _ _ => some actor
  | .openSession _ | .begin _ _ | .remove _ _ | .ask _ _ _ | .seed _ _ _ _ => none

/-- What a locked writer of an actor reads: its row, or the copy when there is none. -/
def Action.reads (world : World) (action : Action) (id : Id) : Option Actor :=
  (world.actors id).or ((action.copy world).filter fun actor => actor.id = id)

/-- A row after an update of an actor is the old one, or the updated one of that actor. -/
theorem updateActor_row {world : World} {id other : Id} {key : String}
    {update : Option Json → Actor → Option Json} {fallback : Option Actor} {saves : Bool}
    {after : Actor}
    (h : (world.updateActor id key update fallback saves).actors other = some after) :
    world.actors other = some after ∨
      (other = id ∧ saves = true ∧ ∃ live, (world.actors id).or fallback = some live ∧
        after = { live with
          metadata := withMetadataEntry live.metadata key (update (live.metadata.get key) live) }) := by
  unfold World.updateActor updateActorEntry at h
  cases hlive : (world.actors id).or fallback with
  | none =>
    rw [hlive] at h
    exact Or.inl h
  | some live =>
    rw [hlive] at h
    simp only [Option.map_some] at h
    split at h
    · rename_i hsaves
      by_cases heq : other = id
      · rw [heq] at h
        simp only [Function.update_self, Option.some.injEq] at h
        exact Or.inr ⟨heq, hsaves, live, rfl, h.symm⟩
      · simp only [Function.update_of_ne heq] at h
        exact Or.inl h
    · exact Or.inl h

theorem withMetadataEntry_get_other {metadata : Metadata} {key other : String}
    (next : Option Json) (h : other ≠ key) :
    (withMetadataEntry metadata key next).get other = metadata.get other := by
  cases next with
  | none => simp [withMetadataEntry, PlainObject.get_delete, h]
  | some value => simp [withMetadataEntry, PlainObject.get_set, h]

theorem reads_of_row {world : World} {action : Action} {id : Id} {before after : Actor}
    (hread : action.reads world id = some before) (hrow : world.actors id = some after) :
    after = before := by
  unfold Action.reads at hread
  rw [hrow] at hread
  exact Option.some.inj hread

theorem reads_of_copy {world : World} {action : Action} {actor before live : Actor}
    (hcopy : action.copy world = some actor)
    (hread : action.reads world actor.id = some before)
    (hlive : (world.actors actor.id).or (some actor) = some live) : live = before := by
  unfold Action.reads at hread
  rw [hcopy] at hread
  simp only [Option.filter_some, decide_true, if_true] at hread
  rw [hlive] at hread
  exact Option.some.inj hread

/-- A writer that takes groups away grants nothing. -/
theorem write_grants_nothing {world : World} {action : Action} {actor : Actor} {saves : Bool}
    {change : SurfaceGrantRecord → SurfaceGrantRecord} {id : Id} {before after : Actor}
    {key : String} {group : SurfaceGroupId}
    (hcopy : action.copy world = some actor)
    (hchange : ∀ record key group entry, (change record).grant key group = some entry →
      record.grant key group = some entry)
    (hread : action.reads world id = some before)
    (hafter : (world.write host actor saves fun record _ => change record).actors id = some after)
    (hgrant : ((grantsOf host after).grant key group).isSome = true) :
    ((grantsOf host before).grant key group).isSome = true := by
  cases updateActor_row hafter with
  | inl hsame => rwa [reads_of_row hread hsame] at hgrant
  | inr hrow =>
    obtain ⟨rfl, -, live, hlive, rfl⟩ := hrow
    rw [reads_of_copy hcopy hread hlive] at hgrant
    obtain ⟨entry, hentry⟩ := Option.isSome_iff_exists.mp hgrant
    simp only [grantsOf, withMetadataEntry_get, readStored, Option.map_some, Option.getD_some]
      at hentry
    have hstored := hchange _ key group entry (readSurfaceGrants_grant host hentry)
    exact Option.isSome_iff_exists.mpr ⟨entry, hstored⟩

theorem revoked_grant (record : SurfaceGrantRecord) (key other : String)
    (groups : List SurfaceGroupId) (now : String) (group : SurfaceGroupId)
    (entry : SurfaceGrantEntry)
    (h : (withSurfaceGroupsRevoked host record key groups now).1.grant other group = some entry) :
    record.grant other group = some entry := by
  rw [withSurfaceGroupsRevoked_grant] at h
  split at h
  · cases h
  · exact h

theorem cleared_grant (record : SurfaceGrantRecord) (now : String) (key : String)
    (group : SurfaceGroupId) :
    (withAllSurfaceGrantsCleared host record now).1.grant key group = none := by
  have hchannels : ∀ (keys : List String) (next : SurfaceGrantRecord),
      (keys.foldl (fun next key => withRevokedNote host next key (grantedSurfaceGroups record key)
        .add now) next).channels = next.channels := by
    intro keys
    induction keys with
    | nil => exact fun _ => rfl
    | cons first rest ih =>
      intro next
      rw [List.foldl_cons, ih, withRevokedNote_channels]
  simp [SurfaceGrantRecord.grant, groupsOf, withAllSurfaceGrantsCleared, hchannels]

theorem grant_log {world : World} {number : ℕ} {turn : Turn} {question : SurfaceGrantPending}
    {changed : List SurfaceGroupId}
    (hreply : (grantChange host turn question (grantsOf host (world.live turn.actor))
      (world.live turn.actor)).2 = .granted changed) :
    (world.grant host number turn question true).log =
      .granted number question changed :: world.log := by
  simp only [World.grant]
  rw [hreply]

/-- What the change under the actor lock grants is what its reply says. -/
theorem grantChange_grant {turn : Turn} {question : SurfaceGrantPending}
    {record : SurfaceGrantRecord} {live : Actor} {key : String} {group : SurfaceGroupId}
    {entry : SurfaceGrantEntry}
    (h : (grantChange host turn question record live).1.grant key group = some entry) :
    record.grant key group = some entry ∨
      ∃ changed, (grantChange host turn question record live).2 = .granted changed ∧
        key = surfaceChannelKey turn.context ∧ group ∈ changed := by
  unfold grantChange at h ⊢
  split at h
  · exact Or.inl h
  · rename_i hbasis
    rw [if_neg hbasis]
    cases hgranted : withSurfaceGroupsGranted host record (surfaceChannelKey turn.context)
      question.groups .owner turn.now with
    | channelLimit =>
      rw [hgranted] at h
      exact Or.inl h
    | ok next changed =>
      rw [hgranted] at h
      simp only at h ⊢
      rw [withSurfaceGroupsGranted_grant host hgranted, Option.or_eq_some_iff] at h
      cases h with
      | inl hold => exact Or.inl hold
      | inr hnew =>
        split at hnew
        · rename_i hmem
          have hne : changed ≠ [] := List.ne_nil_of_mem hmem.2
          exact Or.inr ⟨changed, if_neg hne, hmem⟩
        · cases hnew.2

/-- A group that an actor's row grants after a step and that was not granted in what the step read
comes from a seed, or from the grant of a turn on its question. -/
theorem step_grants {world next : World} {action : Action}
    (hstep : step host config toISOString world action = some next) {id : Id}
    {before after : Actor} (hread : action.reads world id = some before)
    (hafter : next.actors id = some after) {key : String} {group : SurfaceGroupId}
    (hgrant : ((grantsOf host after).grant key group).isSome = true) :
    ((grantsOf host before).grant key group).isSome = true ∨
    (∃ channels now saves, action = .seed id channels now saves) ∨
    ∃ number turn question changed, world.turns number = some (turn, .granting question) ∧
      turn.actor.id = id ∧ key = surfaceChannelKey turn.context ∧ group ∈ changed ∧
      next.log = .granted number question changed :: world.log := by
  have hrow : next.actors = world.actors →
      ((grantsOf host before).grant key group).isSome = true := by
    intro hsame
    rw [hsame] at hafter
    rwa [reads_of_row hread hafter] at hgrant
  cases action with
  | openSession session =>
    simp only [step, Option.ite_none_right_eq_some, Option.some.injEq] at hstep
    obtain ⟨-, rfl⟩ := hstep
    exact Or.inl (hrow rfl)
  | begin number turn =>
    simp only [step, Option.ite_none_right_eq_some, Option.some.injEq] at hstep
    obtain ⟨-, rfl⟩ := hstep
    exact Or.inl (hrow rfl)
  | remove number saves =>
    simp only [step] at hstep
    split at hstep
    · rename_i turn seen hturn
      cases hstep
      apply Or.inl
      apply hrow
      cases remove_cases host config world number turn seen saves with
      | inl hfailed => rw [hfailed]
      | inr htaken =>
        obtain ⟨live, -, hnext⟩ := htaken
        rw [hnext]
    · cases hstep
  | ask ask asked saves =>
    simp only [step, Option.ite_none_right_eq_some] at hstep
    obtain ⟨-, hstep⟩ := hstep
    apply Or.inl
    apply hrow
    split at hstep
    · cases hstep
      unfold World.ask
      split
      · split <;> rfl
      · rfl
    · cases hstep
      rfl
  | grant number saves =>
    simp only [step] at hstep
    split at hstep
    · rename_i turn question hturn
      cases hstep
      have hactors : (world.grant host number turn question saves).actors =
          (world.write host turn.actor saves fun record live =>
            (grantChange host turn question record live).1).actors := rfl
      rw [hactors] at hafter
      cases updateActor_row hafter with
      | inl hsame => exact Or.inl (by rwa [reads_of_row hread hsame] at hgrant)
      | inr hwritten =>
        obtain ⟨rfl, rfl, live, hlive, rfl⟩ := hwritten
        have hcopy : (Action.grant number true).copy world = some turn.actor := by
          simp [Action.copy, hturn]
        have hbefore := reads_of_copy hcopy hread hlive
        have hworld : world.live turn.actor = live := by
          cases hrow : world.actors turn.actor.id with
          | none => simpa [World.live, hrow] using hlive
          | some row => simpa [World.live, hrow] using hlive
        obtain ⟨entry, hentry⟩ := Option.isSome_iff_exists.mp hgrant
        simp only [grantsOf, withMetadataEntry_get, readStored, Option.map_some,
          Option.getD_some] at hentry
        cases grantChange_grant (readSurfaceGrants_grant host hentry) with
        | inl hold =>
          rw [← hbefore]
          exact Or.inl (Option.isSome_iff_exists.mpr ⟨entry, hold⟩)
        | inr hnew =>
          obtain ⟨changed, hreply, hkey, hgroup⟩ := hnew
          refine Or.inr (Or.inr ⟨number, turn, question, changed, hturn, rfl, hkey, hgroup, ?_⟩)
          apply grant_log
          rw [hworld]
          exact hreply
    · cases hstep
  | revoke actor other groups now saves =>
    cases hstep
    exact Or.inl (write_grants_nothing rfl
      (fun record k g entry => revoked_grant record other k groups now g entry) hread hafter hgrant)
  | clearChannel actor other now saves =>
    cases hstep
    exact Or.inl (write_grants_nothing rfl
      (fun record k g entry => revoked_grant record other k _ now g entry) hread hafter hgrant)
  | clearAll actor now saves =>
    cases hstep
    refine Or.inl (write_grants_nothing rfl (fun record k g entry h => ?_) hread hafter hgrant)
    rw [cleared_grant] at h
    cases h
  | seed actor channels now saves =>
    cases hstep
    cases updateActor_row hafter with
    | inl hsame => exact Or.inl (by rwa [reads_of_row hread hsame] at hgrant)
    | inr hseeded =>
      obtain ⟨rfl, -⟩ := hseeded
      exact Or.inr (Or.inl ⟨channels, now, saves, rfl⟩)
  | switch actor state now saves =>
    cases hstep
    apply Or.inl
    cases updateActor_row hafter with
    | inl hsame => rwa [reads_of_row hread hsame] at hgrant
    | inr hswitched =>
      obtain ⟨rfl, -, live, hlive, rfl⟩ := hswitched
      have hkey : SURFACE_GRANTS_METADATA_KEY ≠ ACTION_SWITCH_METADATA_KEY := by decide
      simp only [grantsOf, withMetadataEntry_get_other _ hkey] at hgrant
      rwa [reads_of_copy rfl hread hlive] at hgrant

theorem updateActor_log (world : World) (id : Id) (key : String)
    (update : Option Json → Actor → Option Json) (fallback : Option Actor) (saves : Bool) :
    (world.updateActor id key update fallback saves).log = world.log := by
  unfold World.updateActor
  split
  · split <;> rfl
  · rfl

/-- Only the grant of a turn logs a grant. -/
theorem step_granted {world next : World} {action : Action}
    (hstep : step host config toISOString world action = some next) {number : ℕ}
    {question : SurfaceGrantPending} {changed : List SurfaceGroupId}
    (hlog : next.log = .granted number question changed :: world.log) :
    ∃ turn, world.turns number = some (turn, .granting question) ∧
      (grantChange host turn question (grantsOf host (world.live turn.actor))
        (world.live turn.actor)).2 = .granted changed := by
  have hsame : next.log ≠ world.log := by
    rw [hlog]
    exact List.cons_ne_self _ _
  have hactor : ∀ id key update fallback saves,
      next ≠ world.updateActor id key update fallback saves := by
    rintro id key update fallback saves rfl
    exact hsame (updateActor_log world id key update fallback saves)
  cases action with
  | openSession session =>
    simp only [step, Option.ite_none_right_eq_some, Option.some.injEq] at hstep
    obtain ⟨-, rfl⟩ := hstep
    exact absurd rfl hsame
  | begin other turn =>
    simp only [step, Option.ite_none_right_eq_some, Option.some.injEq] at hstep
    obtain ⟨-, rfl⟩ := hstep
    cases hlog
  | remove other saves =>
    simp only [step] at hstep
    split at hstep
    · rename_i turn seen hturn
      cases hstep
      cases remove_cases host config world other turn seen saves with
      | inl hfailed =>
        rw [hfailed] at hlog
        cases hlog
      | inr htaken =>
        obtain ⟨live, -, hnext⟩ := htaken
        simp only at hnext
        rw [hnext] at hlog hsame
        simp only at hlog hsame
        generalize (takePending host ((readSurfaceGrantPending host seen).map
          SurfaceGrantPending.id) (live.metadata.get SURFACE_GRANT_PENDING_METADATA_KEY)).2.1 =
            taken at hlog hsame
        cases taken with
        | none => exact absurd rfl hsame
        | some question => cases hlog
    · cases hstep
  | ask ask asked saves =>
    simp only [step, Option.ite_none_right_eq_some] at hstep
    obtain ⟨-, hstep⟩ := hstep
    split at hstep
    · cases hstep
      unfold World.ask at hlog hsame
      split at hlog
      · split at hlog
        · cases hlog
        · exact absurd hlog.symm (List.cons_ne_self _ _)
      · exact absurd hlog.symm (List.cons_ne_self _ _)
    · cases hstep
      exact absurd rfl hsame
  | grant other saves =>
    simp only [step] at hstep
    split at hstep
    · rename_i turn asked hturn
      cases hstep
      cases (grant_cases host world other turn asked saves).2 with
      | inl hkept => exact absurd hkept hsame
      | inr hgranted =>
        obtain ⟨groups, -, hreply, hnew⟩ := hgranted
        rw [hnew] at hlog
        cases hlog
        exact ⟨turn, hturn, hreply⟩
    · cases hstep
  | revoke actor key groups now saves => exact absurd (Option.some.inj hstep).symm (hactor _ _ _ _ _)
  | clearChannel actor key now saves => exact absurd (Option.some.inj hstep).symm (hactor _ _ _ _ _)
  | clearAll actor now saves => exact absurd (Option.some.inj hstep).symm (hactor _ _ _ _ _)
  | seed actor channels now saves => exact absurd (Option.some.inj hstep).symm (hactor _ _ _ _ _)
  | switch actor state now saves => exact absurd (Option.some.inj hstep).symm (hactor _ _ _ _ _)

/-- The removal of a turn that ends a question is on the record. -/
theorem step_removes {world next : World} {number : ℕ} {saves : Bool}
    (hstep : step host config toISOString world (.remove number saves) = some next) {session : Id}
    {question : SurfaceGrantPending}
    (hbefore : (world.pending session).bind (readSurfaceGrantPending host) = some question)
    (hafter : (next.pending session).bind (readSurfaceGrantPending host) ≠ some question) :
    next.log = .removed number question :: world.log := by
  simp only [step] at hstep
  split at hstep
  · rename_i turn seen hturn
    cases hstep
    cases remove_cases host config world number turn seen saves with
    | inl hfailed =>
      rw [hfailed] at hafter
      exact absurd hbefore hafter
    | inr htaken =>
      obtain ⟨live, hlive, hnext⟩ := htaken
      have hpending : world.pending turn.session =
          live.metadata.get SURFACE_GRANT_PENDING_METADATA_KEY := by
        simp [World.pending, liveSession_eq_some hlive]
      simp only at hnext
      rw [← hpending] at hnext
      rw [hnext] at hafter ⊢
      rw [pending_update rfl] at hafter
      by_cases heq : session = turn.session
      · subst heq
        rw [Function.update_self] at hafter
        cases takePending_cases host ((readSurfaceGrantPending host seen).map SurfaceGrantPending.id)
          (world.pending turn.session) with
        | inl hkept =>
          rw [hkept] at hafter
          exact absurd hbefore hafter
        | inr htook =>
          rw [htook.2, hbefore]
          rfl
      · rw [Function.update_of_ne heq] at hafter
        exact absurd hbefore hafter
  · cases hstep

theorem reached_safe {initial world : World} (hinitial : initial.Initial host)
    (h : Machine.Reaches (step host config toISOString) initial world) :
    world.Safe host config toISOString :=
  h.invariant (fun _ _ _ hsafe hstep => step_safe hsafe hstep) hinitial.safe

theorem Confirms.time {turn : Turn} {question : SurfaceGrantPending}
    (h : Confirms host config turn question) (hnow : knownTime host turn.now = true)
    (hexpires : (host.parseDate question.expiresAt).isSome = true) :
    ∃ now expiry, host.parseDate turn.now = some now ∧
      host.parseDate question.expiresAt = some expiry ∧ now ≤ expiry := by
  obtain ⟨now, hnow⟩ := Option.isSome_iff_exists.mp hnow
  obtain ⟨expiry, hexpiry⟩ := Option.isSome_iff_exists.mp hexpires
  refine ⟨now, expiry, hnow, hexpiry, ?_⟩
  have hlt := h.inTime
  simpa [Date.lt, hnow, hexpiry] using hlt

/-! ## The result -/

/-- In every reachable world a question has led to one grant at most. A grant was made by an owner
turn with the confirmation phrase, in the channel and by the user of the question, in time, after
that turn's removal of the question was saved, and for groups of the question; the turn had begun
after the question was asked. A turn whose removal failed granted nothing. And of the next step: it
grants on a question only while the live digests are those of the question, it grants nothing
else but a seed, and a turn's removal ends no other question than the one it is recorded for. -/
theorem confirmation_is_safe {initial world : World} (hinitial : initial.Initial host)
    (h : Machine.Reaches (step host config toISOString) initial world) :
    (world.log.filterMap Event.grantId).Nodup ∧
    (∀ number question changed, .granted number question changed ∈ world.log →
      ∃ turn ask, (∃ result, world.turns number = some (turn, .finished result)) ∧
        turn.owner config = true ∧ turn.confirms = true ∧
        surfaceChannelKey turn.context = question.key ∧ turn.context.userId = question.userId ∧
        (∃ now expiry, host.parseDate turn.now = some now ∧
          host.parseDate question.expiresAt = some expiry ∧ now ≤ expiry) ∧
        askToConfirm host toISOString ask question.id = some question ∧
        ask.context.userId = question.userId ∧ surfaceChannelKey ask.context = question.key ∧
        Precedes world.log (.asked ask question) (.began number) ∧
        Precedes world.log (.began number) (.removed number question) ∧
        Precedes world.log (.removed number question) (.granted number question changed) ∧
        ∀ id ∈ changed, id ∈ question.groups) ∧
    (∀ number question, .removed number question ∈ world.log →
      ∃ ask, Precedes world.log (.asked ask question) (.began number)) ∧
    (∀ number, .removalFailed number ∈ world.log →
      ∀ question changed, .granted number question changed ∉ world.log) ∧
    ∀ action next, step host config toISOString world action = some next →
      (∀ number question changed, next.log = .granted number question changed :: world.log →
        ∃ turn, world.turns number = some (turn, .granting question) ∧
          surfaceGrantsDigest host (grantsOf host (world.live turn.actor)) =
            question.grantsDigest ∧
          surfaceSwitchDigest host (world.live turn.actor).metadata = question.switchDigest) ∧
      (∀ id before after, action.reads world id = some before → next.actors id = some after →
        ∀ key group, ((grantsOf host after).grant key group).isSome = true →
          ((grantsOf host before).grant key group).isSome = true ∨
          (∃ channels now saves, action = .seed id channels now saves) ∨
          ∃ number turn question changed, world.turns number = some (turn, .granting question) ∧
            turn.actor.id = id ∧ key = surfaceChannelKey turn.context ∧ group ∈ changed ∧
            next.log = .granted number question changed :: world.log) ∧
      ∀ number saves session question, action = .remove number saves →
        (world.pending session).bind (readSurfaceGrantPending host) = some question →
        (next.pending session).bind (readSurfaceGrantPending host) ≠ some question →
        next.log = .removed number question :: world.log := by
  have hsafe := reached_safe hinitial h
  refine ⟨hsafe.grantedOnce, ?_, ?_, ?_, ?_⟩
  · intro number question changed hgranted
    obtain ⟨⟨turn, result, hturn, hconfirms⟩, hremoved, hgroups⟩ :=
      hsafe.granted number question changed hgranted
    obtain ⟨⟨ask, hask⟩, hbegan, hdated⟩ := hsafe.removed number question hremoved.mem_first
    have hquestion := (hsafe.asked ask question hask.mem_first).2
    obtain ⟨-, hkey, huser, -⟩ := askToConfirm_spec host toISOString hquestion
    have hknown := hsafe.known number
    rw [hturn] at hknown
    exact ⟨turn, ask, ⟨result, hturn⟩, hconfirms.owner, hconfirms.confirm, hconfirms.key.symm,
      hconfirms.user.symm, hconfirms.time hknown.1 hdated, hquestion, huser.symm, hkey.symm, hask,
      hbegan, hremoved, hgroups⟩
  · intro number question hremoved
    exact (hsafe.removed number question hremoved).1
  · intro number hfailed
    exact (hsafe.failed number hfailed).2
  · intro action next hstep
    refine ⟨?_, ?_, ?_⟩
    · intro number question changed hlog
      obtain ⟨turn, hturn, hreply⟩ := step_granted hstep hlog
      obtain ⟨hgrants, hswitch, -⟩ := grantChange_granted hreply
      exact ⟨turn, hturn, hgrants, hswitch⟩
    · intro id before after hread hafter key group hgrant
      exact step_grants hstep hread hafter hgrant
    · rintro number saves session question rfl hbefore hafter
      exact step_removes hstep hbefore hafter

end

/-! ## One question asked and confirmed -/

/-- A host that knows three times and two digests: of an empty record, and of no kill switch. -/
def oneQuestionHost : Host where
  parseDate text :=
    if text = "2026-06-28T10:00:00.000Z" then some 1782640800000
    else if text = "2026-06-28T10:01:00.000Z" then some 1782640860000
    else if text = "2026-06-28T10:02:00.000Z" then some 1782640920000
    else none
  sha256Canonical domain _ :=
    if domain = "quoky.surfaceGrants.basis.v1" then
      "ff895f0c54f2492e75216dc9dcbe8f2121db1e73832ea229a39f32c139f3ac8a"
    else "175970bd092d11ff3d9d5bfe0b4fb83f2b300565c83afd387dfa298bfcbc1a18"

def oneQuestionISO (ms : ℤ) : Option String :=
  if ms = 1782640920000 then some "2026-06-28T10:02:00.000Z" else none

def oneOwner : OwnerConfig := ⟨["u1"], []⟩

def ownerActor : Actor := ⟨"a1", [⟨"discord", "u1"⟩], .empty⟩

def ownerChannel : ConversationContext := ⟨"discord", none, "c1", "u1", false⟩

def ownerWorld : World :=
  ⟨fun _ => none, fun id => if id = "a1" then some ownerActor else none, fun _ => none, []⟩

/-- The owner asks for a group in a channel and confirms a minute later. -/
def oneQuestionRun : List Action :=
  [.openSession "s1",
    .ask ⟨"s1", ownerActor, ownerChannel, [.github], "2026-06-28T10:00:00.000Z"⟩ "q1" true,
    .begin 1 ⟨"s1", ownerActor, ownerChannel, true, false, "2026-06-28T10:01:00.000Z"⟩,
    .remove 1 true, .grant 1 true]

theorem confirmation_is_safe_one_question :
    (Machine.run (step oneQuestionHost oneOwner oneQuestionISO) ownerWorld oneQuestionRun).map
      (fun world => world.log.filterMap Event.grantId) = some ["q1"] ∧
    ∀ world, Machine.run (step oneQuestionHost oneOwner oneQuestionISO) ownerWorld oneQuestionRun =
      some world → (world.log.filterMap Event.grantId).Nodup :=
  have hinitial : ownerWorld.Initial oneQuestionHost := ⟨fun _ => rfl, fun _ => rfl, rfl⟩
  ⟨by decide +kernel, fun _ hrun => (confirmation_is_safe hinitial ⟨_, hrun⟩).1⟩

end QuokyPlatform.SurfaceGrants
