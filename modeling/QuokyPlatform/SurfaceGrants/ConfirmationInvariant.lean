import QuokyPlatform.SurfaceGrants.Confirmation
import QuokyPlatform.SurfaceGrants.RecordRoundTrip

/-!
# What the steps of the confirmation keep

A question waits in one session only, a turn removes only what was asked before it began, and it
grants only what it removed.
-/

namespace QuokyPlatform.SurfaceGrants
set_option autoImplicit false
set_option maxHeartbeats 250000

/-! ## The order of events -/

/-- In a log kept newest first, the first event happened before the second one. -/
def Precedes (log : List Event) (first second : Event) : Prop :=
  ∃ later earlier, log = later ++ second :: earlier ∧ first ∈ earlier

theorem Precedes.cons {log : List Event} {first second : Event} (h : Precedes log first second)
    (event : Event) : Precedes (event :: log) first second := by
  obtain ⟨later, earlier, rfl, hmem⟩ := h
  exact ⟨event :: later, earlier, rfl, hmem⟩

theorem Precedes.append {log : List Event} {first second : Event} (h : Precedes log first second)
    (newer : List Event) : Precedes (newer ++ log) first second := by
  induction newer with
  | nil => exact h
  | cons event rest ih => exact ih.cons event

theorem precedes_newest {log : List Event} {first : Event} (h : first ∈ log) (event : Event) :
    Precedes (event :: log) first event :=
  ⟨[], log, rfl, h⟩

theorem Precedes.mem_first {log : List Event} {first second : Event}
    (h : Precedes log first second) : first ∈ log := by
  obtain ⟨later, earlier, rfl, hmem⟩ := h
  exact List.mem_append_right _ (List.mem_cons_of_mem _ hmem)

theorem Precedes.mem_second {log : List Event} {first second : Event}
    (h : Precedes log first second) : second ∈ log := by
  obtain ⟨later, earlier, rfl, -⟩ := h
  exact List.mem_append_right _ List.mem_cons_self

/-- The turn an event belongs to; a question is asked by no turn of this kind. -/
def Event.turn : Event → Option ℕ
  | .asked _ _ => none
  | .began number | .removed number _ | .removalFailed number | .granted number _ _ => some number

/-- The question of a grant. -/
def Event.grantId : Event → Option String
  | .granted _ question _ => some question.id
  | _ => none

section
variable (host : Host) (config : OwnerConfig) (toISOString : ℤ → Option String)

/-! ## One removal -/

theorem withMetadataEntry_get (metadata : Metadata) (key : String) (next : Option Json) :
    (withMetadataEntry metadata key next).get key = next := by
  cases next with
  | none => simp [withMetadataEntry, PlainObject.get_delete]
  | some value => simp [withMetadataEntry, PlainObject.get_set]

theorem liveSession_eq_some {sessions : Id → Option Session} {id : Id} {live : Session}
    (h : liveSession sessions id = some live) : sessions id = some live :=
  (Option.filter_eq_some_iff.mp h).1

/-- After the update of a session entry the entry holds what the update returned; the entries of
the other sessions are as before. -/
theorem pending_update {world next : World} {id : Id} {live : Session} {value : Option Json}
    (h : next.sessions = Function.update world.sessions id (some { live with
      metadata := withMetadataEntry live.metadata SURFACE_GRANT_PENDING_METADATA_KEY value })) :
    next.pending = Function.update world.pending id value := by
  funext session
  unfold World.pending
  rw [h]
  by_cases heq : session = id
  · subst heq
    simp [withMetadataEntry_get]
  · simp [heq]

/-- What the update under the session lock does: a question that is not the expected one stays. -/
theorem takePending_cases (expectedId : Option String) (current : Option Json) :
    takePending host expectedId current = (current, none, false) ∨
    ((current.bind (readSurfaceGrantPending host)).map SurfaceGrantPending.id = expectedId ∧
      takePending host expectedId current =
        (none, current.bind (readSurfaceGrantPending host), true)) := by
  by_cases h : (current.bind (readSurfaceGrantPending host)).map SurfaceGrantPending.id = expectedId
  · exact Or.inr ⟨h, if_neg (not_not.mpr h)⟩
  · exact Or.inl (if_pos h)

/-- What a turn that goes on to grant has checked. -/
structure Confirms (turn : Turn) (question : SurfaceGrantPending) : Prop where
  confirm : turn.confirms = true
  owner : turn.owner config = true
  key : question.key = surfaceChannelKey turn.context
  user : question.userId = turn.context.userId
  inTime : Date.lt (host.parseDate question.expiresAt) (host.parseDate turn.now) = false

theorem begin_cases (turn : Turn) (seen : Option Json) :
    (∃ result, turn.begin config seen = .finished result) ∨
      ∃ raw, seen = some raw ∧ turn.begin config seen = .met raw := by
  unfold Turn.begin
  cases seen with
  | some raw => exact Or.inr ⟨raw, rfl, rfl⟩
  | none =>
    left
    simp only
    split
    · exact ⟨_, rfl⟩
    · exact ⟨_, rfl⟩

theorem afterRemoval_granting {turn : Turn} {committed removed : Bool}
    {consumed : Option SurfaceGrantPending} {question : SurfaceGrantPending}
    (h : turn.afterRemoval host config committed removed consumed = .granting question) :
    committed = true ∧ consumed = some question ∧ Confirms host config turn question := by
  unfold Turn.afterRemoval at h
  split at h
  · cases h
  · rename_i hturn
    split at h
    · cases h
    · rename_i hcommitted
      cases consumed with
      | none => cases h
      | some pending =>
        simp only at h
        split at h
        · cases h
        · rename_i hsame
          split at h
          · cases h
          · rename_i htime
            cases h
            simp at hturn hcommitted hsame htime
            exact ⟨hcommitted, rfl, hturn.1, hturn.2, hsame.1, hsame.2, htime⟩

/-- After the removal a turn is over, or it goes on to grant what was taken. -/
theorem afterRemoval_cases (turn : Turn) (committed removed : Bool)
    (consumed : Option SurfaceGrantPending) :
    (∃ result, turn.afterRemoval host config committed removed consumed = .finished result) ∨
      ∃ question, turn.afterRemoval host config committed removed consumed = .granting question := by
  unfold Turn.afterRemoval
  split
  · exact Or.inl ⟨_, rfl⟩
  · split
    · exact Or.inl ⟨_, rfl⟩
    · cases consumed with
      | none => exact Or.inl ⟨_, rfl⟩
      | some pending =>
        simp only
        split
        · exact Or.inl ⟨_, rfl⟩
        · split
          · exact Or.inl ⟨_, rfl⟩
          · exact Or.inr ⟨_, rfl⟩

theorem afterRemoval_finished (turn : Turn) (committed removed : Bool)
    (consumed : Option SurfaceGrantPending) (h : committed = false ∨ consumed = none) :
    ∃ result, turn.afterRemoval host config committed removed consumed = .finished result := by
  cases afterRemoval_cases host config turn committed removed consumed with
  | inl hover => exact hover
  | inr hgranting =>
    obtain ⟨question, hquestion⟩ := hgranting
    obtain ⟨hcommitted, hconsumed, -⟩ := afterRemoval_granting host config hquestion
    simp [hcommitted, hconsumed] at h

/-- A removal fails and leaves the rows as they are, or it takes what the update decided. -/
theorem remove_cases (world : World) (number : ℕ) (turn : Turn) (seen : Json) (saves : Bool) :
    world.remove host config number turn seen saves = { world with
      turns := Function.update world.turns number
        (some (turn, turn.afterRemoval host config false false none))
      log := .removalFailed number :: world.log } ∨
    ∃ live, liveSession world.sessions turn.session = some live ∧
      let taken := takePending host ((readSurfaceGrantPending host seen).map SurfaceGrantPending.id)
        (live.metadata.get SURFACE_GRANT_PENDING_METADATA_KEY)
      world.remove host config number turn seen saves = { world with
        sessions := Function.update world.sessions turn.session (some { live with
          metadata := withMetadataEntry live.metadata SURFACE_GRANT_PENDING_METADATA_KEY taken.1 })
        turns := Function.update world.turns number
          (some (turn, turn.afterRemoval host config true taken.2.2 taken.2.1))
        log := (taken.2.1.map fun question => .removed number question).toList ++ world.log } := by
  unfold World.remove updateSessionEntry
  cases hlive : liveSession world.sessions turn.session with
  | none => exact Or.inl rfl
  | some live =>
    cases saves with
    | false => exact Or.inl rfl
    | true => exact Or.inr ⟨live, rfl, rfl⟩

/-! ## One question -/

theorem readSurfaceGrantPending_spec {raw : Json} {question : SurfaceGrantPending}
    (h : readSurfaceGrantPending host raw = some question) :
    (host.parseDate question.expiresAt).isSome = true ∧
    ∀ id ∈ question.groups, isGrantableSurfaceGroup id = true := by
  unfold readSurfaceGrantPending at h
  split at h
  · split at h
    · rename_i hshape
      cases h
      simp only [Bool.and_eq_true] at hshape
      refine ⟨by tauto, ?_⟩
      intro id hid
      simp only [listedGroups, List.mem_filter, Bool.and_eq_true] at hid
      exact hid.2.1
    · cases h
  · cases h

theorem askToConfirm_spec {ask : Ask} {id : String} {question : SurfaceGrantPending}
    (h : askToConfirm host toISOString ask id = some question) :
    question.id = id ∧ question.key = surfaceChannelKey ask.context ∧
    question.userId = ask.context.userId ∧ (∀ group ∈ question.groups, group ∈ ask.groups) ∧
    SURFACE_GROUP_IDS.filter (fun group => group ∈ question.groups) = question.groups ∧
    question.grantsDigest = surfaceGrantsDigest host (grantsOf host ask.actor) ∧
    question.switchDigest = surfaceSwitchDigest host ask.actor.metadata := by
  unfold askToConfirm at h
  simp only at h
  split at h
  · cases h
  · split at h
    · cases h
    · obtain ⟨expiresAt, -, rfl⟩ := Option.map_eq_some_iff.mp h
      refine ⟨rfl, rfl, rfl, ?_, ?_, rfl, rfl⟩
      · intro group hgroup
        rw [mem_filter_SURFACE_GROUP_IDS, decide_eq_true_eq] at hgroup
        exact (List.mem_filter.mp hgroup).1
      · dsimp only
        exact filter_mem_filter_SURFACE_GROUP_IDS _

/-- A question that is read back is the one that was stored. -/
theorem readSurfaceGrantPending_json {question read : SurfaceGrantPending}
    (hordered : SURFACE_GROUP_IDS.filter (fun id => id ∈ question.groups) = question.groups)
    (h : readSurfaceGrantPending host question.json = some read) : read = question := by
  have hgroups : listsOnlyGrantable (question.groups.map fun id => .str id.text) = true →
      listedGroups (question.groups.map fun id => .str id.text) = question.groups := by
    intro hall
    refine (listedGroups_texts ?_).trans hordered
    intro id hid
    have hid' := List.all_eq_true.mp hall (.str id.text) (List.mem_map.mpr ⟨id, hid, rfl⟩)
    simpa [Json.text, surfaceGroupOf_text] using hid'
  simp only [readSurfaceGrantPending, SurfaceGrantPending.json, Json.field] at h
  simp at h
  rw [← h.2, hgroups]
  exact h.1.1.1.1.2

/-! ## The invariant -/

/-- What is known of a turn by the point it has reached. -/
def TurnKnown (log : List Event) (number : ℕ) : Option (Turn × Phase) → Prop
  | none => ∀ event ∈ log, event.turn ≠ some number
  | some (turn, phase) => knownTime host turn.now = true ∧
    match phase with
    | .met seen =>
      (∀ event ∈ log, event.turn = some number → event = .began number) ∧
      ∀ question, readSurfaceGrantPending host seen = some question →
        ∃ ask, Precedes log (.asked ask question) (.began number)
    | .granting question =>
      Confirms host config turn question ∧ .removed number question ∈ log ∧
      ∀ event ∈ log, event.turn = some number →
        event = .began number ∨ event = .removed number question
    | .finished _ => True

/-- What holds of the stored questions, the turns and the log of every reachable world. -/
structure Safe (pending : Id → Option Json) (turns : ℕ → Option (Turn × Phase)) (log : List Event) :
    Prop where
  /-- A waiting question was asked in its session and is removed by nobody yet. -/
  waiting : ∀ session question,
    (pending session).bind (readSurfaceGrantPending host) = some question →
      (∃ ask, .asked ask question ∈ log ∧ ask.session = session) ∧
      ∀ number, .removed number question ∉ log
  asked : ∀ ask question, .asked ask question ∈ log →
    ask.accepted config = true ∧ askToConfirm host toISOString ask question.id = some question
  /-- An id is asked under once. -/
  unique : ∀ ask other question question', .asked ask question ∈ log →
    .asked other question' ∈ log → question.id = question'.id → ask = other ∧ question = question'
  known : ∀ number, TurnKnown host config log number (turns number)
  /-- A turn removes a question that was asked before the turn began. -/
  removed : ∀ number question, .removed number question ∈ log →
    (∃ ask, Precedes log (.asked ask question) (.began number)) ∧
      Precedes log (.began number) (.removed number question) ∧
      (host.parseDate question.expiresAt).isSome = true
  /-- A question is removed by one turn. -/
  removedOnce : ∀ number other question, .removed number question ∈ log →
    .removed other question ∈ log → number = other
  /-- A turn that failed to remove is over and granted nothing. -/
  failed : ∀ number, .removalFailed number ∈ log →
    (∃ turn result, turns number = some (turn, .finished result)) ∧
      ∀ question changed, .granted number question changed ∉ log
  granted : ∀ number question changed, .granted number question changed ∈ log →
    (∃ turn result, turns number = some (turn, .finished result) ∧
      Confirms host config turn question) ∧
    Precedes log (.removed number question) (.granted number question changed) ∧
    ∀ id ∈ changed, id ∈ question.groups
  grantedOnce : (log.filterMap Event.grantId).Nodup

variable {host config toISOString}

theorem World.Initial.safe {world : World} (h : world.Initial host) :
    Safe host config toISOString world.pending world.turns world.log := by
  rw [h.log]
  refine ⟨?_, nofun, nofun, ?_, nofun, nofun, nofun, nofun, List.nodup_nil⟩
  · intro session question hpending
    rw [h.pending] at hpending
    cases hpending
  · intro number
    rw [h.turns]
    exact nofun

/-- An event of another turn, or of none, changes nothing that is known of a turn. -/
theorem TurnKnown.cons {log : List Event} {number : ℕ} {state : Option (Turn × Phase)}
    (h : TurnKnown host config log number state) {event : Event}
    (hother : event.turn ≠ some number) : TurnKnown host config (event :: log) number state := by
  have hmem : ∀ other ∈ event :: log, other.turn = some number → other ∈ log := by
    intro other hother' hturn
    cases List.mem_cons.mp hother' with
    | inl heq => exact absurd (heq ▸ hturn) hother
    | inr hold => exact hold
  cases state with
  | none =>
    intro other hother' hturn
    exact h other (hmem other hother' hturn) hturn
  | some state =>
    obtain ⟨turn, phase⟩ := state
    refine ⟨h.1, ?_⟩
    cases phase with
    | met seen =>
      obtain ⟨-, hevents, hseen⟩ := h
      refine ⟨fun other hother' hturn => hevents other (hmem other hother' hturn) hturn, ?_⟩
      intro question hquestion
      obtain ⟨ask, hask⟩ := hseen question hquestion
      exact ⟨ask, hask.cons event⟩
    | granting question =>
      obtain ⟨-, hconfirms, hremoved, hevents⟩ := h
      exact ⟨hconfirms, List.mem_cons_of_mem _ hremoved,
        fun other hother' hturn => hevents other (hmem other hother' hturn) hturn⟩
    | finished result => trivial

theorem not_asked_of_freshId {log : List Event} {id : String} (h : freshId log id = true)
    {ask : Ask} {question : SurfaceGrantPending} (hid : question.id = id) :
    .asked ask question ∉ log := by
  intro hmem
  have hfresh := List.all_eq_true.mp h _ hmem
  simp [hid] at hfresh

/-! ## The steps keep it -/

section
variable {pending : Id → Option Json} {turns : ℕ → Option (Turn × Phase)} {log : List Event}

/-- A turn that is over stays so when another turn moves. -/
theorem update_finished {number other : ℕ} {state : Turn × Phase} {turn done : Turn} {phase : Phase}
    {result : SurfaceGrantPendingResult} (hstate : turns number = some (turn, phase))
    (hphase : ∀ result, phase ≠ .finished result) (hdone : turns other = some (done, .finished result)) :
    Function.update turns number (some state) other = some (done, .finished result) := by
  by_cases heq : other = number
  · rw [heq, hstate] at hdone
    cases hdone
    exact absurd rfl (hphase result)
  · rw [Function.update_of_ne heq, hdone]

theorem Safe.begin (h : Safe host config toISOString pending turns log) {number : ℕ} {turn : Turn}
    (hnone : turns number = none) (hnow : knownTime host turn.now = true) :
    Safe host config toISOString pending (Function.update turns number
      (some (turn, turn.begin config (pending turn.session)))) (.began number :: log) := by
  have hbefore : ∀ event ∈ log, event.turn ≠ some number := by
    have hknown := h.known number
    rwa [hnone] at hknown
  have hkept : ∀ other state, turns other = some state → Function.update turns number
      (some (turn, turn.begin config (pending turn.session))) other = some state := by
    intro other state hother
    rw [Function.update_of_ne, hother]
    intro heq
    rw [heq, hnone] at hother
    cases hother
  refine ⟨?_, ?_, ?_, ?_, ?_, ?_, ?_, ?_, h.grantedOnce⟩
  · intro session question hpending
    obtain ⟨⟨ask, hask, hsession⟩, hremoved⟩ := h.waiting session question hpending
    refine ⟨⟨ask, List.mem_cons_of_mem _ hask, hsession⟩, ?_⟩
    intro other
    simpa using hremoved other
  · intro ask question hask
    exact h.asked ask question (by simpa using hask)
  · intro ask other question question' hask hother
    exact h.unique ask other question question' (by simpa using hask) (by simpa using hother)
  · intro other
    by_cases heq : other = number
    · subst heq
      rw [Function.update_self]
      refine ⟨hnow, ?_⟩
      cases begin_cases config turn (pending turn.session) with
      | inl hover =>
        obtain ⟨result, hbegin⟩ := hover
        rw [hbegin]
        trivial
      | inr hmet =>
        obtain ⟨raw, hseen, hbegin⟩ := hmet
        rw [hbegin]
        constructor
        · intro event hevent hturn
          cases List.mem_cons.mp hevent with
          | inl heq => exact heq
          | inr hold => exact absurd hturn (hbefore event hold)
        · intro question hquestion
          have hwaiting : (pending turn.session).bind (readSurfaceGrantPending host) =
              some question := by
            rw [hseen]
            exact hquestion
          obtain ⟨⟨ask, hask, -⟩, -⟩ := h.waiting turn.session question hwaiting
          exact ⟨ask, precedes_newest hask _⟩
    · rw [Function.update_of_ne heq]
      apply (h.known other).cons
      simpa [Event.turn] using fun h => heq h.symm
  · intro other question hremoved
    obtain ⟨⟨ask, hask⟩, hbegan, hdated⟩ := h.removed other question (by simpa using hremoved)
    exact ⟨⟨ask, hask.cons _⟩, hbegan.cons _, hdated⟩
  · intro one other question hone hother
    exact h.removedOnce one other question (by simpa using hone) (by simpa using hother)
  · intro other hfailed
    obtain ⟨⟨done, result, hdone⟩, hgranted⟩ := h.failed other (by simpa using hfailed)
    exact ⟨⟨done, result, hkept other _ hdone⟩, fun question changed => by
      simpa using hgranted question changed⟩
  · intro other question changed hgranted
    obtain ⟨⟨done, result, hdone, hconfirms⟩, hremoved, hgroups⟩ :=
      h.granted other question changed (by simpa using hgranted)
    exact ⟨⟨done, result, hkept other _ hdone, hconfirms⟩, hremoved.cons _, hgroups⟩

theorem Safe.ask (h : Safe host config toISOString pending turns log) {ask : Ask} {id : String}
    {question : SurfaceGrantPending} (haccepted : ask.accepted config = true)
    (hfresh : freshId log id = true)
    (hquestion : askToConfirm host toISOString ask id = some question) :
    Safe host config toISOString (Function.update pending ask.session (some question.json)) turns
      (.asked ask question :: log) := by
  obtain ⟨hid, -, -, -, hordered, -, -⟩ := askToConfirm_spec host toISOString hquestion
  have hnew : ∀ other, .asked other question ∉ log :=
    fun other => not_asked_of_freshId hfresh hid
  refine ⟨?_, ?_, ?_, ?_, ?_, ?_, ?_, ?_, h.grantedOnce⟩
  · intro session waiting hpending
    by_cases heq : session = ask.session
    · rw [heq, Function.update_self] at hpending
      have hsame := readSurfaceGrantPending_json host hordered hpending
      rw [hsame]
      refine ⟨⟨ask, List.mem_cons_self, heq.symm⟩, ?_⟩
      intro number hremoved
      obtain ⟨⟨other, hother⟩, -⟩ := h.removed number question (by simpa using hremoved)
      exact hnew other hother.mem_first
    · rw [Function.update_of_ne heq] at hpending
      obtain ⟨⟨other, hother, hsession⟩, hremoved⟩ := h.waiting session waiting hpending
      refine ⟨⟨other, List.mem_cons_of_mem _ hother, hsession⟩, ?_⟩
      intro number
      simpa using hremoved number
  · intro other asked hasked
    cases List.mem_cons.mp hasked with
    | inl heq =>
      cases heq
      exact ⟨haccepted, hid ▸ hquestion⟩
    | inr hold => exact h.asked other asked hold
  · intro one other asked asked' hone hother hsame
    cases List.mem_cons.mp hone with
    | inl heq =>
      cases heq
      cases List.mem_cons.mp hother with
      | inl heq' =>
        cases heq'
        exact ⟨rfl, rfl⟩
      | inr hold => exact absurd hold (not_asked_of_freshId hfresh (hsame ▸ hid))
    | inr hold =>
      cases List.mem_cons.mp hother with
      | inl heq' =>
        cases heq'
        exact absurd hold (not_asked_of_freshId hfresh (hsame.trans hid))
      | inr hold' => exact h.unique one other asked asked' hold hold' hsame
  · intro number
    exact (h.known number).cons (by simp [Event.turn])
  · intro number removed hremoved
    obtain ⟨⟨other, hother⟩, hbegan, hdated⟩ := h.removed number removed (by simpa using hremoved)
    exact ⟨⟨other, hother.cons _⟩, hbegan.cons _, hdated⟩
  · intro one other removed hone hother
    exact h.removedOnce one other removed (by simpa using hone) (by simpa using hother)
  · intro number hfailed
    obtain ⟨hdone, hgranted⟩ := h.failed number (by simpa using hfailed)
    exact ⟨hdone, fun granted changed => by simpa using hgranted granted changed⟩
  · intro number granted changed hgranted
    obtain ⟨hdone, hremoved, hgroups⟩ := h.granted number granted changed (by simpa using hgranted)
    exact ⟨hdone, hremoved.cons _, hgroups⟩

theorem not_finished_met (seen : Json) (result : SurfaceGrantPendingResult) :
    Phase.met seen ≠ .finished result := nofun

theorem not_finished_granting (question : SurfaceGrantPending) (result : SurfaceGrantPendingResult) :
    Phase.granting question ≠ .finished result := nofun

/-- A turn ends without an event, and the questions that wait are among those that waited. -/
theorem Safe.settle (h : Safe host config toISOString pending turns log)
    {pending' : Id → Option Json} {number : ℕ} {turn : Turn} {phase : Phase}
    {result : SurfaceGrantPendingResult}
    (hpending : ∀ session question,
      (pending' session).bind (readSurfaceGrantPending host) = some question →
        (pending session).bind (readSurfaceGrantPending host) = some question)
    (hturn : turns number = some (turn, phase)) (hphase : ∀ result, phase ≠ .finished result) :
    Safe host config toISOString pending'
      (Function.update turns number (some (turn, .finished result))) log := by
  have hover : ∀ other done result', turns other = some (done, .finished result') →
      Function.update turns number (some (turn, .finished result)) other =
        some (done, .finished result') := fun other done result' => update_finished hturn hphase
  refine ⟨fun session question hq => h.waiting session question (hpending session question hq),
    h.asked, h.unique, ?_, h.removed, h.removedOnce, ?_, ?_, h.grantedOnce⟩
  · intro other
    by_cases heq : other = number
    · have hknown := h.known number
      rw [hturn] at hknown
      rw [heq, Function.update_self]
      exact ⟨hknown.1, trivial⟩
    · rw [Function.update_of_ne heq]
      exact h.known other
  · intro other hfailed
    obtain ⟨⟨done, result', hdone⟩, hgranted⟩ := h.failed other hfailed
    exact ⟨⟨done, result', hover other done result' hdone⟩, hgranted⟩
  · intro other question changed hgranted
    obtain ⟨⟨done, result', hdone, hconfirms⟩, hremoved, hgroups⟩ :=
      h.granted other question changed hgranted
    exact ⟨⟨done, result', hover other done result' hdone, hconfirms⟩, hremoved, hgroups⟩

/-- The removal of a turn fails. -/
theorem Safe.fail (h : Safe host config toISOString pending turns log) {number : ℕ} {turn : Turn}
    {seen : Json} {result : SurfaceGrantPendingResult} (hturn : turns number = some (turn, .met seen)) :
    Safe host config toISOString pending
      (Function.update turns number (some (turn, .finished result))) (.removalFailed number :: log) := by
  have hknown := h.known number
  rw [hturn] at hknown
  obtain ⟨hnow, hevents, -⟩ := hknown
  have hover : ∀ other done result', turns other = some (done, .finished result') →
      Function.update turns number (some (turn, .finished result)) other =
        some (done, .finished result') := fun other done result' => update_finished hturn (not_finished_met seen)
  refine ⟨?_, ?_, ?_, ?_, ?_, ?_, ?_, ?_, h.grantedOnce⟩
  · intro session question hpending
    obtain ⟨⟨ask, hask, hsession⟩, hremoved⟩ := h.waiting session question hpending
    exact ⟨⟨ask, List.mem_cons_of_mem _ hask, hsession⟩, fun other => by
      simpa using hremoved other⟩
  · intro ask question hask
    exact h.asked ask question (by simpa using hask)
  · intro ask other question question' hask hother
    exact h.unique ask other question question' (by simpa using hask) (by simpa using hother)
  · intro other
    by_cases heq : other = number
    · rw [heq, Function.update_self]
      exact ⟨hnow, trivial⟩
    · rw [Function.update_of_ne heq]
      apply (h.known other).cons
      simpa [Event.turn] using fun h => heq h.symm
  · intro other question hremoved
    obtain ⟨⟨ask, hask⟩, hbegan, hdated⟩ := h.removed other question (by simpa using hremoved)
    exact ⟨⟨ask, hask.cons _⟩, hbegan.cons _, hdated⟩
  · intro one other question hone hother
    exact h.removedOnce one other question (by simpa using hone) (by simpa using hother)
  · intro other hfailed
    cases List.mem_cons.mp hfailed with
    | inl heq =>
      cases heq
      refine ⟨⟨turn, result, Function.update_self ..⟩, ?_⟩
      intro question changed hgranted
      have hbegan := hevents _ (by simpa using hgranted) rfl
      cases hbegan
    | inr hold =>
      obtain ⟨⟨done, result', hdone⟩, hgranted⟩ := h.failed other hold
      exact ⟨⟨done, result', hover other done result' hdone⟩, fun question changed => by
        simpa using hgranted question changed⟩
  · intro other question changed hgranted
    obtain ⟨⟨done, result', hdone, hconfirms⟩, hremoved, hgroups⟩ :=
      h.granted other question changed (by simpa using hgranted)
    exact ⟨⟨done, result', hover other done result' hdone, hconfirms⟩, hremoved.cons _, hgroups⟩

/-- The removal of a turn takes the question that waits. -/
theorem Safe.remove (h : Safe host config toISOString pending turns log) {number : ℕ} {turn : Turn}
    {seen : Json} {question : SurfaceGrantPending} (hturn : turns number = some (turn, .met seen))
    (hwaits : (pending turn.session).bind (readSurfaceGrantPending host) = some question)
    (hexpected : some question.id =
      (readSurfaceGrantPending host seen).map SurfaceGrantPending.id) :
    Safe host config toISOString (Function.update pending turn.session none)
      (Function.update turns number
        (some (turn, turn.afterRemoval host config true true (some question))))
      (.removed number question :: log) := by
  have hknown := h.known number
  rw [hturn] at hknown
  obtain ⟨hnow, hevents, hseen⟩ := hknown
  obtain ⟨⟨asked, hasked, hsession⟩, hunremoved⟩ := h.waiting turn.session question hwaits
  have hdated : (host.parseDate question.expiresAt).isSome = true := by
    obtain ⟨raw, -, hraw⟩ := Option.bind_eq_some_iff.mp hwaits
    exact (readSurfaceGrantPending_spec host hraw).1
  -- the question that waits is the one the turn saw when it began
  have hbefore : ∃ ask, Precedes log (.asked ask question) (.began number) := by
    obtain ⟨first, hfirst, hid⟩ := Option.map_eq_some_iff.mp hexpected.symm
    obtain ⟨ask, hask⟩ := hseen first hfirst
    obtain ⟨-, hsame⟩ := h.unique ask asked first question hask.mem_first hasked hid
    exact ⟨ask, hsame ▸ hask⟩
  have hover : ∀ other done result', turns other = some (done, .finished result') →
      Function.update turns number
        (some (turn, turn.afterRemoval host config true true (some question))) other =
        some (done, .finished result') := fun other done result' => update_finished hturn (not_finished_met seen)
  refine ⟨?_, ?_, ?_, ?_, ?_, ?_, ?_, ?_, h.grantedOnce⟩
  · intro session waiting hpending
    by_cases heq : session = turn.session
    · rw [heq, Function.update_self] at hpending
      cases hpending
    · rw [Function.update_of_ne heq] at hpending
      obtain ⟨⟨ask, hask, hsession'⟩, hremoved⟩ := h.waiting session waiting hpending
      refine ⟨⟨ask, List.mem_cons_of_mem _ hask, hsession'⟩, ?_⟩
      intro other hmem
      cases List.mem_cons.mp hmem with
      | inl hnew =>
        cases hnew
        obtain ⟨hsame, -⟩ := h.unique ask asked question question hask hasked rfl
        exact heq (by rw [← hsession', ← hsession, hsame])
      | inr hold => exact hremoved other hold
  · intro ask other hask
    exact h.asked ask other (by simpa using hask)
  · intro ask other one two hask hother
    exact h.unique ask other one two (by simpa using hask) (by simpa using hother)
  · intro other
    by_cases heq : other = number
    · rw [heq, Function.update_self]
      refine ⟨hnow, ?_⟩
      cases afterRemoval_cases host config turn true true (some question) with
      | inl hresult =>
        obtain ⟨result, hresult⟩ := hresult
        rw [hresult]
        trivial
      | inr hgranting =>
        obtain ⟨taken, htaken⟩ := hgranting
        obtain ⟨-, hsome, hconfirms⟩ := afterRemoval_granting host config htaken
        cases hsome
        rw [htaken]
        refine ⟨hconfirms, List.mem_cons_self, ?_⟩
        intro event hevent hnumber
        cases List.mem_cons.mp hevent with
        | inl hnew => exact Or.inr hnew
        | inr hold => exact Or.inl (hevents event hold hnumber)
    · rw [Function.update_of_ne heq]
      apply (h.known other).cons
      simpa [Event.turn] using fun h => heq h.symm
  · intro other removed hremoved
    cases List.mem_cons.mp hremoved with
    | inl hnew =>
      cases hnew
      obtain ⟨ask, hask⟩ := hbefore
      exact ⟨⟨ask, hask.cons _⟩, precedes_newest hask.mem_second _, hdated⟩
    | inr hold =>
      obtain ⟨⟨ask, hask⟩, hbegan, hdated⟩ := h.removed other removed hold
      exact ⟨⟨ask, hask.cons _⟩, hbegan.cons _, hdated⟩
  · intro one other removed hone hother
    cases List.mem_cons.mp hone with
    | inl hnew =>
      cases hnew
      cases List.mem_cons.mp hother with
      | inl hnew' =>
        cases hnew'
        rfl
      | inr hold => exact absurd hold (hunremoved other)
    | inr hold =>
      cases List.mem_cons.mp hother with
      | inl hnew' =>
        cases hnew'
        exact absurd hold (hunremoved one)
      | inr hold' => exact h.removedOnce one other removed hold hold'
  · intro other hfailed
    obtain ⟨⟨done, result', hdone⟩, hgranted⟩ := h.failed other (by simpa using hfailed)
    exact ⟨⟨done, result', hover other done result' hdone⟩, fun granted changed => by
      simpa using hgranted granted changed⟩
  · intro other granted changed hgranted
    obtain ⟨⟨done, result', hdone, hconfirms⟩, hremoved, hgroups⟩ :=
      h.granted other granted changed (by simpa using hgranted)
    exact ⟨⟨done, result', hover other done result' hdone, hconfirms⟩, hremoved.cons _, hgroups⟩

/-- The grant of a turn is saved. -/
theorem Safe.grant (h : Safe host config toISOString pending turns log) {number : ℕ} {turn : Turn}
    {question : SurfaceGrantPending} {changed : List SurfaceGroupId}
    {result : SurfaceGrantPendingResult}
    (hturn : turns number = some (turn, .granting question))
    (hgroups : ∀ id ∈ changed, id ∈ question.groups) :
    Safe host config toISOString pending
      (Function.update turns number (some (turn, .finished result)))
      (.granted number question changed :: log) := by
  have hknown := h.known number
  rw [hturn] at hknown
  obtain ⟨hnow, hconfirms, hremoved, hevents⟩ := hknown
  have hover : ∀ other done result', turns other = some (done, .finished result') →
      Function.update turns number (some (turn, .finished result)) other =
        some (done, .finished result') :=
    fun other done result' => update_finished hturn (not_finished_granting question)
  refine ⟨?_, ?_, ?_, ?_, ?_, ?_, ?_, ?_, ?_⟩
  · intro session waiting hpending
    obtain ⟨⟨ask, hask, hsession⟩, hunremoved⟩ := h.waiting session waiting hpending
    exact ⟨⟨ask, List.mem_cons_of_mem _ hask, hsession⟩, fun other => by
      simpa using hunremoved other⟩
  · intro ask other hask
    exact h.asked ask other (by simpa using hask)
  · intro ask other one two hask hother
    exact h.unique ask other one two (by simpa using hask) (by simpa using hother)
  · intro other
    by_cases heq : other = number
    · rw [heq, Function.update_self]
      exact ⟨hnow, trivial⟩
    · rw [Function.update_of_ne heq]
      apply (h.known other).cons
      simpa [Event.turn] using fun h => heq h.symm
  · intro other removed hmem
    obtain ⟨⟨ask, hask⟩, hbegan, hdated⟩ := h.removed other removed (by simpa using hmem)
    exact ⟨⟨ask, hask.cons _⟩, hbegan.cons _, hdated⟩
  · intro one other removed hone hother
    exact h.removedOnce one other removed (by simpa using hone) (by simpa using hother)
  · intro other hfailed
    have hold : .removalFailed other ∈ log := by simpa using hfailed
    obtain ⟨⟨done, result', hdone⟩, hgranted⟩ := h.failed other hold
    refine ⟨⟨done, result', hover other done result' hdone⟩, ?_⟩
    intro granted groups hmem
    cases List.mem_cons.mp hmem with
    | inl hnew =>
      cases hnew
      rw [hturn] at hdone
      cases hdone
    | inr hearlier => exact hgranted granted groups hearlier
  · intro other granted groups hmem
    cases List.mem_cons.mp hmem with
    | inl hnew =>
      cases hnew
      exact ⟨⟨turn, result, Function.update_self .., hconfirms⟩, precedes_newest hremoved _,
        hgroups⟩
    | inr hold =>
      obtain ⟨⟨done, result', hdone, hconfirms'⟩, hprecedes, hgroups'⟩ :=
        h.granted other granted groups hold
      exact ⟨⟨done, result', hover other done result' hdone, hconfirms'⟩, hprecedes.cons _,
        hgroups'⟩
  · simp only [List.filterMap_cons, Event.grantId, List.nodup_cons]
    refine ⟨?_, h.grantedOnce⟩
    -- another grant on the question came from the turn that removed it, which is this one
    intro hmem
    obtain ⟨event, hevent, hid⟩ := List.mem_filterMap.mp hmem
    cases event with
    | granted other granted groups =>
      obtain ⟨-, hprecedes, -⟩ := h.granted other granted groups hevent
      obtain ⟨⟨ask, hask⟩, -⟩ := h.removed other granted hprecedes.mem_first
      obtain ⟨⟨ask', hask'⟩, -⟩ := h.removed number question hremoved
      have hsame : granted.id = question.id := Option.some.inj hid
      obtain ⟨-, hquestion⟩ := h.unique ask ask' granted question hask.mem_first hask'.mem_first hsame
      subst hquestion
      have hnumber := h.removedOnce other number granted hprecedes.mem_first hremoved
      subst hnumber
      cases hevents _ hevent rfl with
      | inl hbegan => cases hbegan
      | inr hremoved' => cases hremoved'
    | _ => cases hid

end

/-- The invariant of a world. -/
def World.Safe (host : Host) (config : OwnerConfig) (toISOString : ℤ → Option String)
    (world : World) : Prop :=
  SurfaceGrants.Safe host config toISOString world.pending world.turns world.log

theorem World.Safe.remove {world : World} (h : world.Safe host config toISOString) {number : ℕ}
    {turn : Turn} {seen : Json} (saves : Bool) (hturn : world.turns number = some (turn, .met seen)) :
    (world.remove host config number turn seen saves).Safe host config toISOString := by
  cases remove_cases host config world number turn seen saves with
  | inl hfailed =>
    obtain ⟨result, hresult⟩ := afterRemoval_finished host config turn false false none (Or.inl rfl)
    rw [hfailed, hresult]
    exact SurfaceGrants.Safe.fail h hturn
  | inr htaken =>
    obtain ⟨live, hlive, hnext⟩ := htaken
    have hpending : world.pending turn.session =
        live.metadata.get SURFACE_GRANT_PENDING_METADATA_KEY := by
      simp [World.pending, liveSession_eq_some hlive]
    simp only at hnext
    rw [hnext]
    unfold World.Safe
    rw [pending_update rfl]
    simp only
    rw [← hpending]
    cases takePending_cases host ((readSurfaceGrantPending host seen).map SurfaceGrantPending.id)
      (world.pending turn.session) with
    | inl hkept =>
      obtain ⟨result, hresult⟩ := afterRemoval_finished host config turn true false none (Or.inr rfl)
      rw [hkept]
      simp only [Option.map_none, Option.toList_none, List.nil_append, hresult,
        Function.update_eq_self]
      exact SurfaceGrants.Safe.settle h (fun _ _ hq => hq) hturn (not_finished_met seen)
    | inr htook =>
      obtain ⟨hexpected, htook⟩ := htook
      rw [htook]
      cases hwaits : (world.pending turn.session).bind (readSurfaceGrantPending host) with
      | none =>
        obtain ⟨result, hresult⟩ := afterRemoval_finished host config turn true true none (Or.inr rfl)
        simp only [Option.map_none, Option.toList_none, List.nil_append, hresult]
        refine SurfaceGrants.Safe.settle h ?_ hturn (not_finished_met seen)
        intro session question hq
        by_cases heq : session = turn.session
        · rw [heq, Function.update_self] at hq
          cases hq
        · rwa [Function.update_of_ne heq] at hq
      | some question =>
        rw [hwaits] at hexpected
        exact SurfaceGrants.Safe.remove h hturn hwaits hexpected

/-! ## One grant -/

theorem grantChange_granted {turn : Turn} {question : SurfaceGrantPending}
    {record : SurfaceGrantRecord} {live : Actor} {changed : List SurfaceGroupId}
    (h : (grantChange host turn question record live).2 = .granted changed) :
    surfaceGrantsDigest host record = question.grantsDigest ∧
    surfaceSwitchDigest host live.metadata = question.switchDigest ∧
    withSurfaceGroupsGranted host record (surfaceChannelKey turn.context) question.groups .owner
      turn.now = .ok (grantChange host turn question record live).1 changed := by
  unfold grantChange at h ⊢
  split at h
  · cases h
  · rename_i hbasis
    rw [if_neg hbasis]
    simp only [Bool.or_eq_true, decide_eq_true_eq, not_or, not_not] at hbasis
    refine ⟨hbasis.1, hbasis.2, ?_⟩
    cases hgranted : withSurfaceGroupsGranted host record (surfaceChannelKey turn.context)
      question.groups .owner turn.now with
    | channelLimit =>
      rw [hgranted] at h
      cases h
    | ok next groups =>
      rw [hgranted] at h
      simp only at h
      split at h
      · cases h
      · cases h
        rfl

theorem updateActor_sessions (world : World) (id : Id) (key : String)
    (update : Option Json → Actor → Option Json) (fallback : Option Actor) (saves : Bool) :
    (world.updateActor id key update fallback saves).sessions = world.sessions := by
  unfold World.updateActor
  split
  · split <;> rfl
  · rfl

variable (host) in
/-- A grant step ends the turn; it logs a grant when groups were added and saved. -/
theorem grant_cases (world : World) (number : ℕ) (turn : Turn) (question : SurfaceGrantPending)
    (saves : Bool) :
    (∃ result, (world.grant host number turn question saves).turns =
      Function.update world.turns number (some (turn, .finished result))) ∧
    ((world.grant host number turn question saves).log = world.log ∨
      ∃ changed, saves = true ∧
        (grantChange host turn question (grantsOf host (world.live turn.actor))
          (world.live turn.actor)).2 = .granted changed ∧
        (world.grant host number turn question saves).log =
          .granted number question changed :: world.log) := by
  refine ⟨⟨_, rfl⟩, ?_⟩
  simp only [World.grant]
  generalize grantChange host turn question (grantsOf host (world.live turn.actor))
    (world.live turn.actor) = outcome
  cases saves with
  | false => exact Or.inl rfl
  | true =>
    cases hreply : outcome.2 with
    | granted changed => exact Or.inr ⟨changed, rfl, rfl, rfl⟩
    | _ => exact Or.inl rfl

theorem World.Safe.grant {world : World} (h : world.Safe host config toISOString) {number : ℕ}
    {turn : Turn} {question : SurfaceGrantPending} (saves : Bool)
    (hturn : world.turns number = some (turn, .granting question)) :
    (world.grant host number turn question saves).Safe host config toISOString := by
  have hsessions : (world.grant host number turn question saves).sessions = world.sessions :=
    updateActor_sessions world _ _ _ _ _
  have hpending : (world.grant host number turn question saves).pending = world.pending := by
    unfold World.pending
    rw [hsessions]
  obtain ⟨⟨result, hturns⟩, hlog⟩ := grant_cases host world number turn question saves
  unfold World.Safe
  rw [hpending, hturns]
  cases hlog with
  | inl hsame =>
    rw [hsame]
    exact SurfaceGrants.Safe.settle h (fun _ _ hq => hq) hturn (not_finished_granting question)
  | inr hnew =>
    obtain ⟨changed, -, hreply, hnew⟩ := hnew
    obtain ⟨-, -, hgranted⟩ := grantChange_granted hreply
    have hchanged := (withSurfaceGroupsGranted_ok host hgranted).1
    rw [hnew]
    exact SurfaceGrants.Safe.grant h hturn fun id hid => ((hchanged id).mp hid).1.1

theorem World.Safe.updateActor {world : World} (h : world.Safe host config toISOString) (id : Id)
    (key : String) (update : Option Json → Actor → Option Json) (fallback : Option Actor)
    (saves : Bool) :
    (world.updateActor id key update fallback saves).Safe host config toISOString := by
  unfold World.updateActor
  split
  · split
    · exact h
    · exact h
  · exact h

theorem World.Safe.ask {world : World} (h : world.Safe host config toISOString) {ask : Ask}
    {id : String} {question : SurfaceGrantPending} (saves : Bool)
    (haccepted : ask.accepted config = true) (hfresh : freshId world.log id = true)
    (hquestion : askToConfirm host toISOString ask id = some question) :
    (world.ask ask question saves).Safe host config toISOString := by
  unfold World.ask updateSessionEntry
  cases hlive : liveSession world.sessions ask.session with
  | none => exact h
  | some live =>
    cases saves with
    | false => exact h
    | true =>
      simp only [Option.map_some, if_true]
      unfold World.Safe
      rw [pending_update rfl]
      exact SurfaceGrants.Safe.ask h haccepted hfresh hquestion

/-- Every step keeps the invariant. -/
theorem step_safe {world next : World} {action : Action}
    (h : world.Safe host config toISOString)
    (hstep : step host config toISOString world action = some next) :
    next.Safe host config toISOString := by
  cases action with
  | openSession session =>
    simp only [step, Option.ite_none_right_eq_some, Option.some.injEq] at hstep
    obtain ⟨hnone, rfl⟩ := hstep
    have hpending : World.pending { world with
        sessions := Function.update world.sessions session (some ⟨session, .ACTIVE, .empty⟩) } =
        world.pending := by
      funext other
      unfold World.pending
      by_cases heq : other = session
      · have hsession : world.sessions session = none := Option.isNone_iff_eq_none.mp hnone
        simp [heq, hsession]
      · simp [heq]
    unfold World.Safe
    rw [hpending]
    exact h
  | begin number turn =>
    simp only [step, Option.ite_none_right_eq_some, Option.some.injEq, Bool.and_eq_true] at hstep
    obtain ⟨⟨hnone, hnow⟩, rfl⟩ := hstep
    exact SurfaceGrants.Safe.begin h (Option.isNone_iff_eq_none.mp hnone) hnow
  | remove number saves =>
    simp only [step] at hstep
    split at hstep
    · rename_i turn seen hturn
      cases hstep
      exact h.remove saves hturn
    · cases hstep
  | grant number saves =>
    simp only [step] at hstep
    split at hstep
    · rename_i turn question hturn
      cases hstep
      exact h.grant saves hturn
    · cases hstep
  | ask ask id saves =>
    simp only [step, Option.ite_none_right_eq_some, Bool.and_eq_true] at hstep
    obtain ⟨⟨haccepted, hfresh⟩, hstep⟩ := hstep
    cases hquestion : askToConfirm host toISOString ask id with
    | none =>
      rw [hquestion] at hstep
      cases hstep
      exact h
    | some question =>
      rw [hquestion] at hstep
      cases hstep
      exact h.ask saves haccepted hfresh hquestion
  | revoke actor key groups now saves =>
    cases hstep
    exact h.updateActor _ _ _ _ _
  | clearChannel actor key now saves =>
    cases hstep
    exact h.updateActor _ _ _ _ _
  | clearAll actor now saves =>
    cases hstep
    exact h.updateActor _ _ _ _ _
  | seed actor channels now saves =>
    cases hstep
    exact h.updateActor _ _ _ _ _
  | switch actor state now saves =>
    cases hstep
    exact h.updateActor _ _ _ _ _

end

end QuokyPlatform.SurfaceGrants
