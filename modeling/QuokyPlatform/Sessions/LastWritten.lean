import QuokyPlatform.Foundations.LastWriter
import QuokyPlatform.Sessions.Store

/-!
# The row holds what was written last

What an operation means is a write: the fields and metadata entries it names, with a value for
each. A run of the locked operations, in any interleaving and from copies of any age, leaves the
row that the writes of its log leave one after another.
-/

namespace QuokyPlatform.Sessions
set_option autoImplicit false
set_option maxHeartbeats 250000

open LastWriter

/-! ## Cells -/

/-- A field of the row, or one entry of its metadata. -/
inductive SessionCell where
  | actorId
  | context
  | status
  | projectId
  | activeProjectId
  | activeTaskId
  | createdAt
  | lastActivityAt
  | entry (key : String)
  deriving DecidableEq, Repr

abbrev SessionCell.Value : SessionCell → Type
  | .actorId => Id
  | .context => ConversationContext
  | .status => SessionStatus
  | .projectId => Option Id
  | .activeProjectId => Option Id
  | .activeTaskId => Option Id
  | .createdAt => IsoTimestamp
  | .lastActivityAt => IsoTimestamp
  | .entry _ => Option Json

abbrev SessionContents := Contents SessionCell.Value
abbrev SessionWrite := Write SessionCell.Value

def Session.entry (session : Session) (key : String) : Option Json :=
  session.metadata.bind fun metadata => metadata.get key

def Session.contents (session : Session) : SessionContents
  | .actorId => session.actorId
  | .context => session.context
  | .status => session.status
  | .projectId => session.projectId
  | .activeProjectId => session.activeProjectId
  | .activeTaskId => session.activeTaskId
  | .createdAt => session.createdAt
  | .lastActivityAt => session.lastActivityAt
  | .entry key => session.entry key

/-- Metadata as a whole names every entry. -/
def SessionFields.write (fields : SessionFields) : SessionWrite
  | .actorId => fields.actorId
  | .context => fields.context
  | .status => fields.status
  | .projectId => fields.projectId
  | .activeProjectId => fields.activeProjectId
  | .activeTaskId => fields.activeTaskId
  | .createdAt => fields.createdAt
  | .lastActivityAt => fields.lastActivityAt
  | .entry key => fields.metadata.map fun metadata => metadata.bind fun found => found.get key

/-- The write of one entry; an assignment that makes none writes nothing. -/
def entryWrite (found : SessionContents) (key : String) (next : Option Json) : SessionWrite
  | .entry other =>
    if other = key ∧ (next = none ∨ assignable key (found (.entry key))) then some next else none
  | _ => none

/-! ## What an operation writes -/

/-- The fields named by a save on a row; a save that would reopen a closed row writes nothing. -/
def fieldsWrite (found : SessionContents) (fields : SessionFields) : SessionWrite :=
  if (found .status : SessionStatus) = .CLOSED ∧ fields.status.any (· ≠ .CLOSED) then nothing
  else fields.write

/-- What the operation writes on the row it meets. -/
def Commit.write {id : Id} (found : SessionContents) (commit : Commit id) : SessionWrite :=
  match commit.op with
  | .saveFields _ fields => fieldsWrite found fields
  | .releasePointer _ taskId fields =>
    if (found .activeTaskId : Option Id) = some taskId then
      fieldsWrite found { fields with activeTaskId := some none }
    else nothing
  | .touch _ now => fieldsWrite found { lastActivityAt := now }
  | .setActiveProject _ projectId now =>
    fieldsWrite found { activeProjectId := some projectId, lastActivityAt := now }
  | .updateMetadataEntry key update _ =>
    if (found .status : SessionStatus) = .ACTIVE then
      match update (readEntry key (found (.entry key))) with
      | .ok next => entryWrite found key next
      | .error _ => nothing
    else nothing
  | .close session =>
    whole { session.val with status := .CLOSED, lastActivityAt := commit.now : Session }.contents

/-- The row after the operations of the log. -/
def replayed {id : Id} (stored : Session) (log : List (Commit id)) : SessionContents :=
  replay Commit.write stored.contents log

theorem contents_onto (fields : SessionFields) (live : Session) :
    (fields.onto live).contents = overlay live.contents fields.write := by
  funext cell
  cases cell with
  | entry key =>
    show (fields.metadata.getD live.metadata).bind _ = (fields.metadata.map _).getD _
    cases fields.metadata <;> rfl
  | _ => rfl

/-- A save of fields reopens a closed row exactly when they name another status. -/
theorem reopens_iff (fields : SessionFields) (live : Session) :
    live.status = .CLOSED ∧ (fields.onto live).status ≠ .CLOSED ↔
      live.status = .CLOSED ∧ fields.status.any (· ≠ .CLOSED) := by
  refine and_congr_right fun hlive => ?_
  have hstatus : (fields.onto live).status = fields.status.getD live.status := rfl
  rw [hstatus, hlive]
  cases fields.status <;> simp

theorem contents_upserted_fields (fields : SessionFields) (live : Session) :
    (SessionTable.upserted (some live) (fields.onto live)).contents =
      overlay live.contents (fieldsWrite live.contents fields) := by
  have hfound : (live.contents .status : SessionStatus) = live.status := rfl
  simp only [SessionTable.upserted, fieldsWrite, hfound, reopens_iff]
  split
  · rw [overlay_nothing]
  · exact contents_onto fields live

theorem get_setEntry (metadata : Metadata) (key other : String) (next : Option Json) :
    (setEntry metadata key next).get other =
      if other = key ∧ (next = none ∨ assignable key (metadata.get key)) then next
      else metadata.get other := by
  cases next with
  | none => simp [setEntry, PlainObject.get_delete]
  | some value =>
    by_cases h : assignable key (metadata.get key) = true
    · simp [setEntry, h, PlainObject.get_set]
    · simp [setEntry, h]

theorem entry_getD (live : Session) (key : String) :
    (live.metadata.getD .empty).get key = live.entry key := by
  cases h : live.metadata <;> simp [Session.entry, h]

theorem entry_withEntry (live : Session) (key other : String) (next : Option Json) :
    (SessionManager.withEntry live key next).entry other =
      (setEntry (live.metadata.getD .empty) key next).get other := by
  simp only [SessionManager.withEntry, Session.entry]
  split
  · rfl
  · rename_i hsize
    have hempty := PlainObject.size_eq_zero.mp (Nat.eq_zero_of_not_pos hsize)
    simp [hempty]

theorem contents_withEntry (live : Session) (key : String) (next : Option Json) :
    (SessionManager.withEntry live key next).contents =
      overlay live.contents (entryWrite live.contents key next) := by
  funext cell
  cases cell with
  | entry other =>
    show (SessionManager.withEntry live key next).entry other = _
    rw [entry_withEntry, get_setEntry, entry_getD, entry_getD]
    by_cases h : other = key ∧ (next = none ∨ assignable key (live.entry key))
    · have hnamed : entryWrite live.contents key next (.entry other) = some next := if_pos h
      rw [if_pos h]
      exact (overlay_of_named live.contents hnamed).symm
    · have hunnamed : entryWrite live.contents key next (.entry other) = none := if_neg h
      rw [if_neg h]
      exact (overlay_of_unnamed live.contents hunnamed).symm
  | _ => rfl

/-! ## The slice of a session -/

/-- All the world holds of one session. -/
@[ext] structure Slice (id : Id) where
  row : Option Session
  log : List (Commit id)
  returned : List (SessionOp id)

def World.slice (w : World) (id : Id) : Slice id := ⟨w.table.rows id, w.log id, w.returned id⟩

/-- The row is what the log makes of the one the session started with, and every call that
returned is in the log. -/
structure Slice.Kept {id : Id} (first : Option Session) (slice : Slice id) : Prop where
  row : ∀ stored, first = some stored →
    ∃ row, slice.row = some row ∧ row.contents = replayed stored slice.log
  keyed : ∀ row, slice.row = some row → row.id = id
  returned : slice.returned.Sublist (slice.log.map Commit.op)

/-- The operation is on the row: it means this write, whatever the time. -/
def Means {id : Id} (op : SessionOp id) (row : Option Session)
    (session : IsoTimestamp → Session) : Prop :=
  ∀ now, (session now).id = id ∧ ∀ live, row = some live →
    (SessionTable.upserted (some live) (session now)).contents =
      overlay live.contents (Commit.write live.contents ⟨op, now⟩)

/-- What a call did to the log when it is over: it is listed there if it did not throw. -/
def Logged {id : Id} (op : SessionOp id) (found : Slice id) {α : Type} (result : Except Failure α)
    (next : Slice id) : Prop :=
  next.returned = found.returned ∧ ∃ extra, next.log = found.log ++ extra ∧
    (result.isOk → op ∈ extra.map Commit.op)

section operations

variable {id : Id} {first : Id → Option Session} {found : Slice id}

/-- What the log of a slice means, with one more operation in it. -/
theorem Slice.Kept.commit {row : Option Session} {commit : Commit id}
    (h : found.Kept (first id)) (hid : ∀ live, row = some live → live.id = id)
    (hrow : ∀ live, found.row = some live → ∃ saved, row = some saved ∧
      saved.contents = overlay live.contents (Commit.write live.contents commit)) :
    Slice.Kept (first id) (⟨row, found.log ++ [commit], found.returned⟩ : Slice id) where
  row stored hstored := by
    obtain ⟨live, hlive, hcontents⟩ := h.row stored hstored
    obtain ⟨saved, hsaved, hwrite⟩ := hrow live hlive
    refine ⟨saved, hsaved, ?_⟩
    rw [hwrite, hcontents, replayed, replayed, replay_concat]
  keyed := hid
  returned := by
    rw [List.map_append]
    exact h.returned.trans (List.sublist_append_left _ _)

/-- What a work of the session does to its slice. -/
abbrev RunsOn (first : Id → Option Session) (id : Id) {α : Type} (p : Work α) (found : Slice id)
    (Q : Except Failure α → Slice id → Prop) : Prop :=
  KeyedMutex.Runs World.slice (fun key slice => slice.Kept (first key)) id p found Q

theorem runs_get : RunsOn first id (getSession id) found fun result next =>
    next = found ∧ ∀ row, result = .ok row → row = found.row := by
  refine KeyedMutex.Runs.perform fun w input result v hw hkept hop => ?_
  cases hfailure : input.failure with
  | some e =>
    simp only [hfailure, Option.some.injEq, Prod.mk.injEq] at hop
    obtain ⟨rfl, rfl⟩ := hop
    exact ⟨fun _ _ => rfl, hw ▸ hkept, hw, fun row hrow => by cases hrow⟩
  | none =>
    simp only [hfailure, Option.some.injEq, Prod.mk.injEq] at hop
    obtain ⟨rfl, rfl⟩ := hop
    refine ⟨fun _ _ => rfl, hw ▸ hkept, hw, fun row hrow => ?_⟩
    cases hrow
    exact congrArg Slice.row hw

theorem runs_save {op : SessionOp id} {session : IsoTimestamp → Session}
    (h : Means op found.row session) :
    RunsOn first id (saveSession op session) found (Logged op found) := by
  refine KeyedMutex.Runs.perform fun w input result v hw hkept hop => ?_
  cases hfailure : input.failure with
  | some e =>
    simp only [hfailure, Option.some.injEq, Prod.mk.injEq] at hop
    obtain ⟨rfl, rfl⟩ := hop
    exact ⟨fun _ _ => rfl, hw ▸ hkept, by rw [hw], [], by rw [hw, List.append_nil],
      fun hok => by cases hok⟩
  | none =>
    simp only [hfailure, Option.some.injEq, Prod.mk.injEq] at hop
    obtain ⟨rfl, rfl⟩ := hop
    obtain ⟨hid, hmeans⟩ := h input.now
    have hrow : w.table.rows id = found.row := congrArg Slice.row hw
    have hlog : w.log id = found.log := congrArg Slice.log hw
    have hreturned : w.returned id = found.returned := congrArg Slice.returned hw
    have hslice : World.slice { w with
        table := w.table.save (session input.now)
        log := Function.update w.log id (w.log id ++ [⟨op, input.now⟩]) } id =
        ⟨some (SessionTable.upserted found.row (session input.now)),
          found.log ++ [⟨op, input.now⟩], found.returned⟩ := by
      simp only [World.slice, SessionTable.save, hid, Function.update_self, hrow, hlog, hreturned]
    refine ⟨fun other hne => ?_, ?_, ?_⟩
    · simp only [World.slice, SessionTable.save, hid, Function.update_of_ne hne]
    · rw [hslice]
      refine hkept.commit (fun live hlive => ?_) fun live hlive => ?_
      · cases hlive
        rw [SessionTable.upserted_id fun row hfound => by rw [hkept.keyed row hfound, hid], hid]
      · exact ⟨_, rfl, by rw [hlive]; exact hmeans live hlive⟩
    · rw [hslice]
      exact ⟨rfl, [⟨op, input.now⟩], rfl, fun _ => by simp⟩

theorem runs_leave {op : SessionOp id}
    (h : ∀ now live, found.row = some live → Commit.write live.contents ⟨op, now⟩ = nothing) :
    RunsOn first id (leaveSession op) found (Logged op found) := by
  refine KeyedMutex.Runs.perform fun w input result v hw hkept hop => ?_
  simp only [Option.some.injEq, Prod.mk.injEq] at hop
  obtain ⟨rfl, rfl⟩ := hop
  have hslice : World.slice { w with
      log := Function.update w.log id (w.log id ++ [⟨op, input.now⟩]) } id =
      ⟨found.row, found.log ++ [⟨op, input.now⟩], found.returned⟩ := by
    rw [← hw]
    simp only [World.slice, Function.update_self]
  refine ⟨fun other hne => ?_, ?_, ?_⟩
  · simp only [World.slice, Function.update_of_ne hne]
  · rw [hslice]
    refine hkept.commit hkept.keyed fun live hlive => ⟨live, hlive, ?_⟩
    rw [h input.now live hlive, overlay_nothing]
  · rw [hslice]
    exact ⟨rfl, [⟨op, input.now⟩], rfl, fun _ => by simp⟩

theorem Logged.of_error {op : SessionOp id} {α : Type} {e : Failure} :
    Logged op found (.error e : Except Failure α) found :=
  ⟨rfl, [], (List.append_nil _).symm, fun hok => by cases hok⟩

/-- What an operation still does after its save is to settle. -/
theorem runs_settle {op : SessionOp id} {α β : Type} {p : Work α} {rest : α → Work β}
    (h : RunsOn first id p found (Logged op found))
    (hrest : ∀ a, ∃ result, rest a = .done result) :
    RunsOn first id (p >>= rest) found (Logged op found) := by
  refine KeyedMutex.Runs.bind h (fun a next _ hlogged => ?_) fun e next hlogged => ?_
  · obtain ⟨result, hresult⟩ := hrest a
    obtain ⟨hreturned, extra, hlog, hlisted⟩ := hlogged
    rw [hresult]
    exact KeyedMutex.Runs.done ⟨hreturned, extra, hlog, fun _ => hlisted rfl⟩
  · obtain ⟨hreturned, extra, hlog, -⟩ := hlogged
    exact ⟨hreturned, extra, hlog, fun hok => by cases hok⟩

/-! ## The operations -/

theorem live_id {row : Option Session} (session : SessionCopy id)
    (h : ∀ live, row = some live → live.id = id) : (row.getD session).id = id := by
  cases row with
  | none => exact session.property
  | some live => exact h live rfl

/-- A save of fields on the live row, or on the caller's copy when there is none. -/
theorem means_fields {op : SessionOp id} {fields : SessionFields} (session : SessionCopy id)
    (hkept : found.Kept (first id)) (h : ∀ now live, found.row = some live →
      Commit.write live.contents ⟨op, now⟩ = fieldsWrite live.contents fields) :
    Means op found.row fun _ => fields.onto (found.row.getD session) := by
  refine fun now => ⟨live_id session hkept.keyed, fun live hlive => ?_⟩
  rw [h now live hlive, hlive, Option.getD_some]
  exact contents_upserted_fields fields live

theorem runs_saveFields {op : SessionOp id} {session : SessionCopy id} {fields : SessionFields}
    (h : ∀ now contents, Commit.write contents ⟨op, now⟩ = fieldsWrite contents fields) :
    RunsOn first id (SessionWriteLock.saveFields op session fields) found (Logged op found) := by
  refine KeyedMutex.Runs.bind runs_get ?_ ?_
  · rintro row next hkept ⟨rfl, hrow⟩
    rw [hrow row rfl]
    exact runs_save (means_fields session hkept fun now live _ => h now live.contents)
  · rintro e next ⟨rfl, -⟩
    exact Logged.of_error

theorem runs_releasePointer {session : SessionCopy id} {taskId : Id} {fields : SessionFields} :
    RunsOn first id (SessionWriteLock.releasePointer (.releasePointer session taskId fields) session
      taskId fields) found (Logged (.releasePointer session taskId fields) found) := by
  refine KeyedMutex.Runs.bind runs_get ?_ ?_
  · rintro row next hkept ⟨rfl, hrow⟩
    rw [hrow row rfl]
    dsimp only
    split
    · rename_i hmoved
      refine runs_settle (runs_leave fun now live hlive => ?_) fun _ => ⟨_, rfl⟩
      rw [hlive] at hmoved
      exact if_neg hmoved
    · rename_i hpoints
      refine runs_settle (runs_save (means_fields session hkept fun now live hlive => ?_))
        fun _ => ⟨_, rfl⟩
      rw [hlive] at hpoints
      exact if_pos (not_not.mp hpoints)
  · rintro e next ⟨rfl, -⟩
    exact Logged.of_error

/-- On an active row the save of an entry is not refused. -/
theorem means_entry {key : String} {update : EntryValue → Except Failure (Option Json)}
    {onCommitted : Session → Except Failure Unit} {live : Session} {next : Option Json}
    (hid : live.id = id) (hactive : live.status = .ACTIVE)
    (hnext : update (readEntry key ((live.metadata.getD .empty).get key)) = .ok next) :
    Means (.updateMetadataEntry key update onCommitted : SessionOp id) (some live)
      fun _ => SessionManager.withEntry live key next := by
  refine fun now => ⟨hid, fun row hrow => ?_⟩
  cases hrow
  have hentry : (live.contents (.entry key) : Option Json) = live.entry key := rfl
  have hstatus : (live.contents .status : SessionStatus) = .ACTIVE := hactive
  have hsaved : SessionTable.upserted (some live) (SessionManager.withEntry live key next) =
      SessionManager.withEntry live key next := by
    simp [SessionTable.upserted, hactive]
  rw [entry_getD] at hnext
  rw [hsaved, contents_withEntry]
  simp only [Commit.write, hstatus, if_true, hentry, hnext]

theorem runs_updateMetadataEntry {key : String}
    {update : EntryValue → Except Failure (Option Json)}
    {onCommitted : Session → Except Failure Unit} {op : SessionOp id}
    (hop : op = .updateMetadataEntry key update onCommitted) :
    RunsOn first id (SessionManager.updateMetadataEntry op key update onCommitted) found
      (Logged op found) := by
  subst hop
  refine KeyedMutex.Runs.bind runs_get ?_ ?_
  · rintro row next hkept ⟨rfl, hrow⟩
    have hrow := hrow row rfl
    cases row with
    | none =>
      refine runs_settle (runs_leave fun now live hlive => ?_) fun _ => ⟨_, rfl⟩
      rw [← hrow] at hlive
      cases hlive
    | some live =>
      dsimp only
      split
      · rename_i hidle
        refine runs_settle (runs_leave fun now row hlive => ?_) fun _ => ⟨_, rfl⟩
        rw [← hrow] at hlive
        cases hlive
        exact if_neg hidle
      · rename_i hactive
        cases hupdate : update (readEntry key ((live.metadata.getD .empty).get key)) with
        | error e => exact KeyedMutex.Runs.done Logged.of_error
        | ok value =>
          have hmeans : Means (.updateMetadataEntry key update onCommitted : SessionOp id) next.row
              fun _ => SessionManager.withEntry live key value := by
            rw [← hrow]
            exact means_entry (hkept.keyed live hrow.symm) (not_not.mp hactive) hupdate
          rw [Program.ofExcept_ok_bind]
          refine runs_settle (runs_save hmeans) fun saved => ?_
          cases hcommitted : onCommitted saved with
          | ok _ => exact ⟨_, rfl⟩
          | error e => exact ⟨_, rfl⟩
  · rintro e next ⟨rfl, -⟩
    exact Logged.of_error

theorem runs_close {session : SessionCopy id} :
    RunsOn first id (SessionManager.close (.close session) session) found
      (Logged (.close session) found) := by
  refine runs_save fun now => ⟨session.property, fun live _ => ?_⟩
  have hsaved (closed : Session) (h : closed.status = .CLOSED) :
      SessionTable.upserted (some live) closed = closed := by
    simp [SessionTable.upserted, h]
  rw [hsaved _ rfl]
  rfl

theorem runs_work (op : SessionOp id) : RunsOn first id op.work found (Logged op found) := by
  cases op with
  | saveFields session fields =>
    exact runs_settle (runs_saveFields fun _ _ => rfl) fun _ => ⟨_, rfl⟩
  | releasePointer session taskId fields =>
    exact runs_settle runs_releasePointer fun _ => ⟨_, rfl⟩
  | touch session now =>
    exact runs_settle (runs_saveFields fun _ _ => rfl) fun _ => ⟨_, rfl⟩
  | setActiveProject session projectId now =>
    exact runs_settle (runs_saveFields fun _ _ => rfl) fun _ => ⟨_, rfl⟩
  | updateMetadataEntry key update onCommitted =>
    exact runs_settle (runs_updateMetadataEntry rfl) fun _ => ⟨_, rfl⟩
  | close session => exact runs_settle runs_close fun _ => ⟨_, rfl⟩

end operations

/-! ## Sections and runs -/

section runs

variable {first : Id → Option Session}

theorem runs_noteReturned {id : Id} {found : Slice id} (op : SessionOp id)
    (result : Except Failure Outcome)
    (h : result.isOk → (found.returned ++ [op]).Sublist (found.log.map Commit.op)) :
    RunsOn first id (noteReturned op result) found fun _ _ => True := by
  cases result with
  | error e => exact KeyedMutex.Runs.done trivial
  | ok outcome =>
    refine KeyedMutex.Runs.perform fun w input result v hw hkept hop => ?_
    simp only [Option.some.injEq, Prod.mk.injEq] at hop
    obtain ⟨rfl, rfl⟩ := hop
    have hslice : World.slice { w with
        returned := Function.update w.returned id (w.returned id ++ [op]) } id =
        ⟨found.row, found.log, found.returned ++ [op]⟩ := by
      rw [← hw]
      simp only [World.slice, Function.update_self]
    refine ⟨fun other hne => ?_, ?_, trivial⟩
    · simp only [World.slice, Function.update_of_ne hne]
    · rw [hslice]
      exact ⟨hkept.row, hkept.keyed, h rfl⟩

theorem runs_section {id : Id} (body : LockedSection id) {found : Slice id} :
    RunsOn first id (LockedSection.work id body) found fun _ _ => True := by
  induction body generalizing found with
  | finish => exact KeyedMutex.Runs.done trivial
  | call op next ih =>
    refine KeyedMutex.Runs.of_inv fun hkept => ?_
    rw [LockedSection.work]
    refine KeyedMutex.Runs.andThen (KeyedMutex.Runs.attempt (runs_work op)) ?_
    rintro result after - ⟨inner, rfl, hreturned, extra, hlog, hlisted⟩
    refine KeyedMutex.Runs.andThen (runs_noteReturned op inner fun hok => ?_) fun _ _ _ _ => ih inner
    rw [hreturned, hlog, List.map_append]
    exact hkept.returned.append (List.singleton_sublist.mpr (hlisted hok))

theorem start_ok (table : SessionTable) :
    KeyedMutex.Ok World.slice (fun key slice => slice.Kept (table.rows key)) (start table) :=
  KeyedMutex.Ok.start fun id =>
    ⟨fun stored hstored => ⟨stored, hstored, rfl⟩, table.keyed id, List.Sublist.refl _⟩

/-- In every run each row is what its log makes of the row the session started with. -/
theorem run_kept {table : SessionTable} {actions : List SessionAction} {after : Locks}
    (h : Machine.run step (start table) actions = some after) (id : Id) :
    (after.shared.slice id).Kept (table.rows id) :=
  (KeyedMutex.run_ok (fun _ body _ => runs_section body) (start_ok table) h).inv id

end runs

/-! ## Closed rows -/

theorem fieldsWrite_keeps_closed {contents : SessionContents} (fields : SessionFields)
    (h : (contents .status : SessionStatus) = .CLOSED) :
    (overlay contents (fieldsWrite contents fields) .status : SessionStatus) = .CLOSED := by
  by_cases hnamed : fields.status.any (· ≠ .CLOSED)
  · rw [fieldsWrite, if_pos ⟨h, hnamed⟩, overlay_nothing]
    exact h
  · rw [fieldsWrite, if_neg fun hreopen => hnamed hreopen.2]
    cases hstatus : fields.status with
    | none => exact (overlay_of_unnamed contents hstatus).trans h
    | some status =>
      have hclosed : status = .CLOSED := by simpa [hstatus] using hnamed
      rw [hclosed] at hstatus
      exact overlay_of_named contents hstatus

theorem write_keeps_closed {id : Id} {contents : SessionContents} (commit : Commit id)
    (h : (contents .status : SessionStatus) = .CLOSED) :
    (overlay contents (commit.write contents) .status : SessionStatus) = .CLOSED := by
  obtain ⟨op, now⟩ := commit
  cases op with
  | saveFields session fields => exact fieldsWrite_keeps_closed fields h
  | touch session now => exact fieldsWrite_keeps_closed _ h
  | setActiveProject session projectId now => exact fieldsWrite_keeps_closed _ h
  | close session => rfl
  | releasePointer session taskId fields =>
    simp only [Commit.write]
    split
    · exact fieldsWrite_keeps_closed _ h
    · exact h
  | updateMetadataEntry key update onCommitted =>
    have hidle : ¬ (contents .status : SessionStatus) = .ACTIVE := by
      rw [h]
      decide
    simp only [Commit.write, if_neg hidle]
    exact h

theorem replayed_stays_closed {id : Id} {stored : Session} {before : List (Commit id)}
    (later : List (Commit id)) (h : (replayed stored before .status : SessionStatus) = .CLOSED) :
    (replayed stored (before ++ later) .status : SessionStatus) = .CLOSED := by
  have hstep : ∀ (contents : SessionContents) (commit : Commit id),
      (contents .status : SessionStatus) = .CLOSED →
      (overlay contents (commit.write contents) .status : SessionStatus) = .CLOSED :=
    fun _ commit => write_keeps_closed commit
  rw [replayed, replay_append]
  exact @replay_stays SessionCell SessionCell.Value _ Commit.write .status
    (fun status => status = .CLOSED) hstep _ later h

/-- What a close leaves: its caller's copy, whatever the row held. -/
theorem replayed_close {id : Id} (stored : Session) (before : List (Commit id))
    (session : SessionCopy id) (now : IsoTimestamp) :
    replayed stored (before ++ [⟨.close session, now⟩]) =
      { session.val with status := .CLOSED, lastActivityAt := now : Session }.contents := by
  rw [replayed, replay_concat]
  rfl

/-! ## The row after a run -/

/-- After any run, each field and each entry of a row holds what the last operation that wrote it
wrote. A row once closed is closed. A close writes all of its caller's copy. Every call that
returned is among the operations, in this order. -/
theorem row_is_last_written (table : SessionTable) {actions : List SessionAction} {after : Locks}
    (h : Machine.run step (start table) actions = some after) (id : Id) (stored : Session)
    (hstored : table.rows id = some stored) :
    ∃ row, after.shared.table.rows id = some row ∧
      (∀ cell, LastWritten stored.contents
        (writes Commit.write stored.contents (after.shared.log id)) cell (row.contents cell)) ∧
      (∀ before later, after.shared.log id = before ++ later →
        (replayed stored before .status : SessionStatus) = .CLOSED → row.status = .CLOSED) ∧
      (∀ before session now later, after.shared.log id = before ++ ⟨.close session, now⟩ :: later →
        row.status = .CLOSED ∧ replayed stored (before ++ [⟨.close session, now⟩]) =
          { session.val with status := .CLOSED, lastActivityAt := now : Session }.contents) ∧
      (after.shared.returned id).Sublist ((after.shared.log id).map Commit.op) := by
  have hkept := run_kept h id
  obtain ⟨row, hrow, hcontents⟩ := hkept.row stored hstored
  have hclosed : ∀ before later, after.shared.log id = before ++ later →
      (replayed stored before .status : SessionStatus) = .CLOSED → row.status = .CLOSED := by
    intro before later hlog hbefore
    have hlater := replayed_stays_closed later hbefore
    rw [← hlog] at hlater
    exact (congrFun hcontents .status).trans hlater
  refine ⟨row, hrow, fun cell => ?_, hclosed, fun before session now later hlog => ?_,
    hkept.returned⟩
  · rw [hcontents]
    exact replay_lastWritten Commit.write stored.contents (after.shared.log id) cell
  · have hleft := replayed_close stored before session now
    refine ⟨hclosed (before ++ [⟨.close session, now⟩]) later (by simp [hlog]) ?_, hleft⟩
    rw [hleft]
    rfl

section

/-- A session as a turn reads it at its start. -/
def turnCopy : SessionCopy "s" where
  val := {
    id := "s", actorId := "owner"
    context := ⟨"discord", none, "channel", none, "user", none⟩
    status := .ACTIVE, projectId := none, activeProjectId := some "old project"
    activeTaskId := none, createdAt := "t0", lastActivityAt := "t0"
    metadata := some (PlainObject.empty.set "selection" (.str "old")) }
  property := rfl

def turnTable : SessionTable where
  rows id := if id = "s" then some turnCopy.val else none
  keyed := by
    intro id session h
    split at h
    · rename_i hid
      cases h
      exact hid.symm
    · cases h

/-- The call alone, from its arrival to the next one's turn, each step at this time. -/
def callAlone (op : SessionOp "s") (now : IsoTimestamp) (steps : ℕ) : List SessionAction :=
  .arrive "s" (.once op) :: List.replicate steps (.proceed "s" ⟨now, none⟩)

/-- Newer writes of the project, the task and an entry. -/
def newerWrites : List SessionAction :=
  callAlone (.setActiveProject turnCopy "new project" "t1") "t1" 4 ++
    callAlone (.saveFields turnCopy { activeTaskId := some (some "task") }) "t2" 4 ++
    callAlone (.updateMetadataEntry "selection" (fun _ => .ok (some (.str "new"))) fun _ => .ok ()) "t3" 4

/-- The close of a turn that still holds the copy it started with. -/
def closeOfTurn : List SessionAction := callAlone (.close turnCopy) "t4" 3

def rowAfter (actions : List SessionAction) : Option Session :=
  (Machine.run step (start turnTable) actions).bind fun locks => locks.shared.table.rows "s"

/-- The project, the task and the entry a row holds. -/
def pointers (row : Session) : Option Id × Option Id × Option String :=
  (row.activeProjectId, row.activeTaskId, (row.entry "selection").bind Json.text)

/-- The close puts the older project, task and entry back. -/
theorem close_restores_older :
    (rowAfter newerWrites).map pointers = some (some "new project", some "task", some "new") ∧
    (rowAfter (newerWrites ++ closeOfTurn)).map pointers =
      some (some "old project", none, some "old") := by
  constructor <;> decide +kernel

theorem row_is_last_written_newer_writes : ∃ after row,
    Machine.run step (start turnTable) newerWrites = some after ∧
      after.shared.table.rows "s" = some row ∧ LastWritten turnCopy.val.contents
        (writes Commit.write turnCopy.val.contents (after.shared.log "s")) .activeProjectId
        row.activeProjectId := by
  have hruns : (Machine.run step (start turnTable) newerWrites).isSome := by decide +kernel
  obtain ⟨after, hafter⟩ := Option.isSome_iff_exists.mp hruns
  obtain ⟨row, hrow, hcells, -⟩ := row_is_last_written turnTable hafter "s" turnCopy.val rfl
  exact ⟨after, row, hafter, hrow, hcells .activeProjectId⟩

end

end QuokyPlatform.Sessions
