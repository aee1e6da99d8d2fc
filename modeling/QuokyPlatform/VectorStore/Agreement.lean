import QuokyPlatform.VectorStore.Store

/-! # What is on file, and what is in memory

Between two writes the map in memory is the one a restart would load, and the file holds what the
changes that reached it made of what was there. A number beyond single precision is the exception:
it narrows to an infinity, which is kept in memory and skipped when the file is read. -/

namespace QuokyPlatform.VectorStore

set_option autoImplicit false
set_option maxHeartbeats 250000

/-! ## Records that can be kept -/

/-- Every entry is read back as it is, and the cap is met. -/
structure Kept (limits : Limits) (records : Records) : Prop where
  storable : ∀ entry ∈ records.entries, Storable entry
  size_le : records.size ≤ limits.maxRecords

/-- No number of the change is beyond single precision. -/
def Change.InRange : Change → Prop
  | .upsert records => ∀ record ∈ records, ∀ number ∈ record.vector, isFinite number.narrowed = true
  | .delete _ => True

section kept

variable {limits : Limits}

theorem kept_empty : Kept limits PlainObject.empty where
  storable _ hentry := nomatch hentry
  size_le := Nat.zero_le _

theorem dropOldest_kept {records : Records} (h : ∀ entry ∈ records.entries, Storable entry) :
    Kept limits (dropOldest limits records) where
  storable entry hentry := h entry (List.mem_of_mem_drop hentry)
  size_le := by
    simp only [PlainObject.size, dropOldest, List.length_drop]
    omega

theorem dropOldest_of_le {records : Records} (h : records.size ≤ limits.maxRecords) :
    dropOldest limits records = records := by
  apply ext_entries
  have hzero : records.size - limits.maxRecords = 0 := by omega
  show records.entries.drop (records.size - limits.maxRecords) = records.entries
  rw [hzero, List.drop_zero]

theorem storable_put {records : Records} {entry : String × StoredRecord}
    (h : ∀ other ∈ records.entries, Storable other) (hentry : Storable entry) :
    ∀ other ∈ (put records entry).entries, Storable other := by
  intro other hother
  rw [entries_put, List.mem_append, List.mem_singleton] at hother
  rcases hother with hother | rfl
  · exact h other (List.mem_of_mem_filter hother)
  · exact hentry

theorem storable_foldl_put {entries : List (String × StoredRecord)} {records : Records}
    (h : ∀ other ∈ records.entries, Storable other) (hentries : ∀ entry ∈ entries, Storable entry) :
    ∀ other ∈ (entries.foldl put records).entries, Storable other := by
  induction entries generalizing records with
  | nil => exact h
  | cons entry rest ih =>
    exact ih (storable_put h (hentries entry List.mem_cons_self))
      fun other hother => hentries other (List.mem_cons_of_mem entry hother)

theorem storable_readEntries (entries : List Json) :
    ∀ other ∈ (readEntries entries).entries, Storable other := by
  unfold readEntries
  refine List.foldlRecOn (motive := fun records : Records => ∀ other ∈ records.entries, Storable other)
    entries _ (fun other hother => by cases hother) fun records h entry _ => ?_
  split
  · exact h
  · rename_i record hrecord
    exact storable_put h (storable_of_decodeEntry hrecord)

theorem storable_stored {record : VectorRecord} (haccepted : record.accepted = true)
    (hrange : ∀ number ∈ record.vector, isFinite number.narrowed = true) :
    Storable record.stored := by
  simp only [VectorRecord.accepted, Bool.and_eq_true, decide_eq_true_eq] at haccepted
  obtain ⟨⟨hid, ⟨hmin, hmax⟩, -⟩, hmetadata⟩ := haccepted
  refine ⟨hid, ?_, hmetadata⟩
  simp only [VectorRecord.stored, isEmbeddingVector, List.length_map, List.all_map,
    Bool.and_eq_true, decide_eq_true_eq, List.all_eq_true, Function.comp_apply]
  exact ⟨⟨hmin, hmax⟩, hrange⟩

theorem foldl_delete_sublist : ∀ (ids : List String) (records : Records),
    (ids.foldl PlainObject.delete records).entries.Sublist records.entries
  | [], _ => List.Sublist.refl _
  | id :: rest, records =>
    (foldl_delete_sublist rest (records.delete id)).trans List.filter_sublist

theorem foldl_delete_absent : ∀ {ids : List String} {records : Records},
    (∀ id ∈ ids, id ∉ records.keys) → ids.foldl PlainObject.delete records = records
  | [], _, _ => rfl
  | id :: rest, records, h => by
    rw [List.foldl_cons, PlainObject.delete_of_not_mem (h id List.mem_cons_self)]
    exact foldl_delete_absent fun other hother => h other (List.mem_cons_of_mem id hother)

/-- A change keeps what can be kept. -/
theorem Change.apply_kept {change : Change} {current next : Records} (hcurrent : Kept limits current)
    (haccepted : change.accepted = true) (hrange : change.InRange)
    (h : change.apply limits current = some next) : Kept limits next := by
  cases change with
  | upsert records =>
    simp only [Change.apply] at h
    split at h
    · cases h
    · cases h
      simp only [Change.accepted, Bool.and_eq_true, List.all_eq_true] at haccepted
      apply dropOldest_kept
      apply storable_foldl_put hcurrent.storable
      intro entry hentry
      obtain ⟨record, hrecord, rfl⟩ := List.mem_map.mp hentry
      exact storable_stored (haccepted.2 record hrecord) (hrange record hrecord)
  | delete ids =>
    cases h
    have hsub := foldl_delete_sublist ids current
    exact ⟨fun entry hentry => hcurrent.storable entry (hsub.subset hentry),
      hsub.length_le.trans hcurrent.size_le⟩

/-- A change that writes nothing changes nothing. -/
theorem Change.apply_of_not_writes {change : Change} {current : Records}
    (h : change.writes current = false) : change.apply limits current = some current := by
  cases change with
  | upsert records => cases h
  | delete ids =>
    simp only [Change.writes, List.any_eq_false, decide_eq_true_eq] at h
    rw [Change.apply, foldl_delete_absent h]

theorem loadText_kept {content : FileText} {records : Records}
    (h : loadText limits content = .ready records) : Kept limits records := by
  unfold loadText at h
  split at h
  · cases h
  · rename_i entries _
    simp only at h
    split at h
    · cases h
    · cases h
      exact dropOldest_kept (storable_readEntries entries)

theorem view_kept {target : DiskFile} {records : Records}
    (h : target.view limits = some records) : Kept limits records := by
  cases target with
  | absent =>
    cases h
    exact kept_empty
  | unreadable => cases h
  | text content =>
    simp only [DiskFile.view] at h
    split at h
    · rename_i loaded hloaded
      cases h
      exact loadText_kept hloaded
    · cases h

theorem view_fileOf {records : Records} (h : Kept limits records) :
    (DiskFile.text (fileOf records)).view limits = some records := by
  obtain ⟨entries, hparse, hread⟩ := Option.map_eq_some_iff.mp (readEntries_fileOf h.storable)
  have hnot : ¬ (limits.overflow = .reject ∧ limits.maxRecords < records.size) := by
    intro hover
    have hle := h.size_le
    omega
  have hload : loadText limits (fileOf records) = .ready records := by
    simp only [loadText, hparse, hread]
    rw [if_neg hnot, dropOldest_of_le h.size_le]
  rw [DiskFile.view, hload]

/-- A file with a record of one vector, an entry without a vector and the first record again. -/
def mixedFile : DiskFile :=
  .text (.json (.obj [("version", .num 1), ("records", .arr
    [.obj [("id", .str "a"), ("v", .str "AACAPwAAAEA=")], .obj [("id", .str "b")],
      .obj [("id", .str "a"), ("v", .str "AACAPw=="), ("m", .obj [])]])]))

end kept

/-! ## Agreement -/

/-- The write that replaced the file has not told memory yet. -/
def Store.Installing (s : Store) : Prop :=
  ∃ mutation next, s.active = some (mutation, .installing next)

/-- What is known of the write at the head of the chain. -/
def ActiveOk (limits : Limits) (s : Store) : Mutation × Stage → Prop
  | (mutation, .loading) => mutation.change.accepted = true ∧ mutation.change.InRange
  | (mutation, .writable) => mutation.change.accepted = true ∧ mutation.change.InRange
  | (mutation, .directory next) | (mutation, .temporary next) | (mutation, .replacing next) =>
    s.blocked = false ∧ ∃ current, s.memory = .ready current ∧
      mutation.change.apply limits current = some next ∧ Kept limits next
  | (_, .installing next) => s.blocked = false ∧ (∃ current, s.memory = .ready current) ∧
      s.target.view limits = some next

structure Agrees (limits : Limits) (base : Records) (s : Store) : Prop where
  on_file : ∀ records, s.target.view limits = some records → records = replay limits base s.log
  in_memory : ∀ records, s.memory = .ready records → Kept limits records
  same : ∀ records, s.memory = .ready records → s.blocked = false → ¬ s.Installing →
    s.target.view limits = some records
  blocked : s.blocked = true → s.memory = .ready PlainObject.empty
  active : ∀ current, s.active = some current → ActiveOk limits s current
  waiting : ∀ mutation ∈ s.waiting,
    mutation.change.accepted = true ∧ mutation.change.InRange

section agrees

variable {limits : Limits} {base : Records} {s : Store}

theorem replay_append (log : List LogEntry) (entry : LogEntry) :
    replay limits base (log ++ [entry]) =
      match entry with
      | .committed mutation =>
        (mutation.change.apply limits (replay limits base log)).getD (replay limits base log)
      | .movedAside => PlainObject.empty := by
  rw [replay, List.foldl_append, List.foldl_cons, List.foldl_nil]
  rfl

theorem Agrees.start (target : DiskFile) :
    Agrees limits ((target.view limits).getD PlainObject.empty) (Store.start target) where
  on_file records h := by
    simp only [Store.start] at h ⊢
    rw [h]
    rfl
  in_memory _ h := nomatch h
  same _ h := nomatch h
  blocked h := nomatch h
  active _ h := nomatch h
  waiting _ h := nomatch h

theorem not_installing_of_none (h : s.active = none) : ¬ s.Installing := by
  rintro ⟨mutation, next, hactive⟩
  rw [h] at hactive
  cases hactive

theorem not_installing {mutation : Mutation} {stage : Stage}
    (h : s.active = some (mutation, stage)) (hstage : ∀ next, stage ≠ .installing next) :
    ¬ s.Installing := by
  rintro ⟨other, next, hother⟩
  rw [h] at hother
  cases hother
  exact hstage next rfl

theorem Agrees.crash (h : Agrees limits base s) :
    Agrees limits base
      { s with memory := .unloaded, blocked := false, waiting := [], active := none } where
  on_file := h.on_file
  in_memory _ hready := nomatch hready
  same _ hready := nomatch hready
  blocked hblocked := nomatch hblocked
  active _ hactive := nomatch hactive
  waiting _ hmem := nomatch hmem

/-- A write that ends, with the file as it is. -/
theorem Agrees.fail (h : Agrees limits base s) {mutation : Mutation}
    (hnot : ¬ s.Installing) : Agrees limits base (s.fail mutation) where
  on_file := h.on_file
  in_memory := h.in_memory
  same records hready hblocked _ := h.same records hready hblocked hnot
  blocked := h.blocked
  active _ hactive := nomatch hactive
  waiting := h.waiting

/-- The bad file is moved aside while memory holds nothing, or is about to. -/
theorem Agrees.setAside (h : Agrees limits base s) (hempty : s.memory = .ready PlainObject.empty)
    {active : Option (Mutation × Stage)}
    (hactive : ∀ current, active = some current →
      ActiveOk limits { s.setAside with blocked := false, active := active } current) :
    Agrees limits base { s.setAside with blocked := false, active := active } where
  on_file records hview := by
    cases hview
    exact (replay_append s.log .movedAside).symm
  in_memory := h.in_memory
  same records hready _ _ := by
    have heq := hempty.symm.trans hready
    cases heq
    rfl
  blocked hblocked := nomatch hblocked
  active := hactive
  waiting := h.waiting

/-- A step that leaves the file and the map alone and moves the write on. -/
theorem Agrees.advance (h : Agrees limits base s) {mutation : Mutation} {stage : Stage}
    (hnot : ¬ s.Installing)
    (hok : ActiveOk limits { s with active := some (mutation, stage) } (mutation, stage)) :
    Agrees limits base { s with active := some (mutation, stage) } where
  on_file := h.on_file
  in_memory := h.in_memory
  same records hready hblocked _ := h.same records hready hblocked hnot
  blocked := h.blocked
  active current hcurrent := by
    cases hcurrent
    exact hok
  waiting := h.waiting

theorem Agrees.plan (h : Agrees limits base s) {mutation : Mutation} {current : Records}
    (haccepted : mutation.change.accepted = true) (hrange : mutation.change.InRange)
    (hready : s.memory = .ready current) (hblocked : s.blocked = false) (hnot : ¬ s.Installing) :
    Agrees limits base (s.plan limits mutation current) := by
  unfold Store.plan
  cases happly : mutation.change.apply limits current with
  | none => exact h.fail hnot
  | some next =>
    simp only
    split
    · refine h.advance hnot ?_
      exact ⟨hblocked, current, hready, happly,
        mutation.change.apply_kept (h.in_memory current hready) haccepted hrange happly⟩
    · rename_i hwrites
      have hsame := h.same current hready hblocked hnot
      have hunchanged := @Change.apply_of_not_writes limits _ _ (by simpa using hwrites)
      exact {
        on_file := fun records hview => by
          have hcurrent := h.on_file current hsame
          have heq : records = current := Option.some.inj (hview.symm.trans hsame)
          simp only [Store.acknowledge, replay_append]
          rw [← hcurrent, hunchanged, heq]
          rfl
        in_memory := h.in_memory
        same := fun records hready' hblocked' _ => h.same records hready' hblocked' hnot
        blocked := h.blocked
        active := fun _ hactive => nomatch hactive
        waiting := h.waiting }

/-- The rename over the file: it holds the next map now, and memory the old one. -/
theorem Agrees.replaced (h : Agrees limits base s) {mutation : Mutation} {next : Records}
    (hactive : s.active = some (mutation, .replacing next)) :
    Agrees limits base { s with
      target := .text (fileOf next), log := s.log ++ [.committed mutation],
      active := some (mutation, .installing next) } := by
  obtain ⟨hblocked, current, hready, happly, hkept⟩ := h.active _ hactive
  have hnot := not_installing hactive fun records hstage => nomatch hstage
  have hcurrent := h.on_file current (h.same current hready hblocked hnot)
  have hview := view_fileOf hkept
  exact {
    on_file := fun records hrecords => by
      have heq : records = next := Option.some.inj (hrecords.symm.trans hview)
      rw [replay_append]
      simp only
      rw [← hcurrent, happly, heq]
      rfl
    in_memory := h.in_memory
    same := fun records _ _ hnot' => absurd ⟨mutation, next, rfl⟩ hnot'
    blocked := h.blocked
    active := fun other hother => by
      cases hother
      exact ⟨hblocked, ⟨current, hready⟩, hview⟩
    waiting := h.waiting }

theorem Agrees.installed (h : Agrees limits base s) {mutation : Mutation} {next : Records}
    (hactive : s.active = some (mutation, .installing next)) :
    Agrees limits base (({ s with memory := .ready next } : Store).acknowledge mutation) := by
  obtain ⟨hblocked, -, hview⟩ := h.active _ hactive
  exact {
    on_file := h.on_file
    in_memory := fun records hrecords => by
      cases hrecords
      exact view_kept hview
    same := fun records hrecords _ _ => by
      cases hrecords
      exact hview
    blocked := fun hblocked' => by
      have hfalse : s.blocked = true := hblocked'
      rw [hblocked] at hfalse
      cases hfalse
    active := fun _ hother => nomatch hother
    waiting := h.waiting }

/-- A load that has not ended: the chain can at most wait for it. -/
theorem Agrees.loading (h : Agrees limits base s) (hunready : ∀ records, s.memory ≠ .ready records) :
    s.blocked = false ∧ ¬ s.Installing ∧
      ∀ t current, s.active = some current → ActiveOk limits t current := by
  have hblocked : s.blocked = false := by
    cases hs : s.blocked with
    | false => rfl
    | true => exact absurd (h.blocked hs) (hunready _)
  refine ⟨hblocked, ?_, ?_⟩
  · rintro ⟨mutation, next, hactive⟩
    obtain ⟨-, ⟨current, hready⟩, -⟩ := h.active _ hactive
    exact hunready current hready
  · rintro t ⟨mutation, stage⟩ hactive
    have hok := h.active _ hactive
    cases stage with
    | loading => exact hok
    | writable => exact hok
    | directory next | temporary next | replacing next =>
      obtain ⟨-, current, hready, -⟩ := hok
      exact absurd hready (hunready current)
    | installing next =>
      obtain ⟨-, ⟨current, hready⟩, -⟩ := hok
      exact absurd hready (hunready current)

/-- While a load goes on, memory may be anything that the file bears out. -/
theorem Agrees.setMemory (h : Agrees limits base s) (hunready : ∀ records, s.memory ≠ .ready records)
    {memory : Memory}
    (hview : ∀ records, memory = .ready records → s.target.view limits = some records) :
    Agrees limits base { s with memory := memory } where
  on_file := h.on_file
  in_memory records hready := view_kept (hview records hready)
  same records hready _ _ := hview records hready
  blocked hblocked := by
    have htrue : s.blocked = true := hblocked
    rw [(h.loading hunready).1] at htrue
    cases htrue
  active := (h.loading hunready).2.2 _
  waiting := h.waiting

theorem Agrees.read (h : Agrees limits base s) (hreading : s.memory = .reading) (ok : Bool) :
    Agrees limits base (s.read limits ok) := by
  have hunready : ∀ records, s.memory ≠ .ready records := by
    rw [hreading]
    exact fun records hready => nomatch hready
  have hwaits : Agrees limits base { s with memory := .movingAside } :=
    h.setMemory hunready fun records hready => nomatch hready
  unfold Store.read
  split
  · rename_i htarget
    refine h.setMemory hunready fun records hready => ?_
    cases hready
    rw [htarget]
    rfl
  · rename_i content htarget
    split
    · rename_i loaded hload
      refine h.setMemory hunready fun records hready => ?_
      cases hready
      rw [htarget, DiskFile.view, hload]
    · exact hwaits
    · have hunloaded : Agrees limits base { s with memory := .unloaded } :=
        h.setMemory hunready fun records hready => nomatch hready
      unfold Store.loadFails
      split
      · exact hunloaded.fail (h.loading hunready).2.1
      · exact hunloaded
  · exact hwaits

theorem Agrees.quarantine (h : Agrees limits base s) (hmoving : s.memory = .movingAside) (ok : Bool) :
    Agrees limits base (s.quarantine ok) := by
  have hunready : ∀ records, s.memory ≠ .ready records := by
    rw [hmoving]
    exact fun records hready => nomatch hready
  have hactive := (h.loading hunready).2.2
  unfold Store.quarantine
  split
  · exact {
      on_file := fun records hview => by
        cases hview
        exact (replay_append s.log .movedAside).symm
      in_memory := fun records hrecords => by
        cases hrecords
        exact kept_empty
      same := fun records hrecords _ _ => by
        cases hrecords
        rfl
      blocked := fun _ => rfl
      active := hactive _
      waiting := h.waiting }
  · exact {
      on_file := h.on_file
      in_memory := fun records hrecords => by
        cases hrecords
        exact kept_empty
      same := fun _ _ hblocked' => nomatch hblocked'
      blocked := fun _ => rfl
      active := hactive _
      waiting := h.waiting }

/-- `assertWritable` leaves an unblocked store with the same map, whose file the map agrees with. -/
theorem Agrees.assertWritable (h : Agrees limits base s) {mutation : Mutation} {unblocked : Store}
    {ok : Bool} (hactive : s.active = some (mutation, .writable))
    (hu : s.assertWritable ok = some unblocked) :
    Agrees limits base unblocked ∧ unblocked.blocked = false ∧ unblocked.memory = s.memory ∧
      unblocked.active = s.active := by
  have hok := h.active _ hactive
  have hother : ∀ t : Store, ∀ current, s.active = some current → ActiveOk limits t current := by
    intro t current hcurrent
    rw [hactive] at hcurrent
    cases hcurrent
    exact hok
  unfold Store.assertWritable at hu
  split at hu
  · rename_i hfree
    cases hu
    exact ⟨h, by simpa using hfree, rfl, rfl⟩
  · rename_i hnot
    have hblocked : s.blocked = true := by simpa using hnot
    have hempty := h.blocked hblocked
    split at hu
    · rename_i habsent
      cases hu
      refine ⟨?_, rfl, rfl, rfl⟩
      exact {
        on_file := h.on_file
        in_memory := h.in_memory
        same := fun records hready _ _ => by
          have heq := hempty.symm.trans hready
          cases heq
          cases htarget : s.target with
          | absent => rfl
          | unreadable | text content =>
            rw [htarget] at habsent
            cases habsent
        blocked := fun hblocked' => nomatch hblocked'
        active := hother _
        waiting := h.waiting }
    · split at hu
      · cases hu
        exact ⟨h.setAside hempty (hother _), rfl, rfl, rfl⟩
      · cases hu

/-- The memory of a store that starts to read its file. -/
def Memory.reads : Memory → Memory
  | .unloaded => .reading
  | memory => memory

theorem ready_of_reading {memory : Memory} {records : Records} (h : memory.reads = .ready records) :
    memory = .ready records := by
  cases memory with
  | unloaded => cases h
  | reading => cases h
  | movingAside => cases h
  | ready other => exact h

theorem Agrees.proceed (h : Agrees limits base s) {ok : Bool} {after : Store}
    (hstep : s.proceed limits ok = some after) : Agrees limits base after := by
  unfold Store.proceed at hstep
  split at hstep
  · rename_i hactive
    split at hstep
    · cases hstep
    · rename_i mutation rest hwaiting
      cases hstep
      have hnot := not_installing_of_none hactive
      have hnew : mutation.change.accepted = true ∧ mutation.change.InRange :=
        h.waiting mutation (hwaiting ▸ List.mem_cons_self)
      exact {
        on_file := h.on_file
        in_memory := fun records hready => h.in_memory records (ready_of_reading hready)
        same := fun records hready hblocked _ =>
          h.same records (ready_of_reading hready) hblocked hnot
        blocked := fun hblocked => by
          have hready := h.blocked hblocked
          simp only [hready]
        active := fun current hcurrent => by
          cases hcurrent
          exact hnew
        waiting := fun other hother =>
          h.waiting other (hwaiting ▸ List.mem_cons_of_mem mutation hother) }
  · rename_i mutation hactive
    have hnot := not_installing hactive fun next hstage => by cases hstage
    split at hstep
    · cases hstep
      exact h.advance hnot (h.active _ hactive)
    · cases hstep
  · rename_i mutation hactive
    have hnot := not_installing hactive fun next hstage => by cases hstage
    obtain ⟨haccepted, hrange⟩ := h.active _ hactive
    split at hstep
    · rename_i current hready
      split at hstep
      · cases hstep
        exact h.fail hnot
      · rename_i unblocked hunblocked
        cases hstep
        obtain ⟨hu, hfree, hmemory, hsame⟩ := h.assertWritable hactive hunblocked
        refine hu.plan haccepted hrange (hmemory.trans hready) hfree ?_
        rintro ⟨other, next, hother⟩
        rw [hsame, hactive] at hother
        cases hother
    · cases hstep
  · rename_i mutation next hactive
    have hnot := not_installing hactive fun records hstage => by cases hstage
    split at hstep
    · cases hstep
      exact h.advance hnot (h.active _ hactive)
    · cases hstep
      exact h.fail hnot
  · rename_i mutation next hactive
    have hnot := not_installing hactive fun records hstage => by cases hstage
    split at hstep
    · cases hstep
      exact h.advance hnot (h.active _ hactive)
    · cases hstep
      exact h.fail hnot
  · rename_i mutation next hactive
    split at hstep
    · cases hstep
      exact h.replaced hactive
    · cases hstep
      exact h.fail (not_installing hactive fun records hstage => by cases hstage)
  · rename_i mutation next hactive
    cases hstep
    exact h.installed hactive

/-- The changes of an action are within single precision. -/
def Action.InRange : Action → Prop
  | .mutate change => change.InRange
  | _ => True

theorem Agrees.step (h : Agrees limits base s) {action : Action} {after : Store}
    (hrange : action.InRange) (hstep : step limits s action = some after) :
    Agrees limits base after := by
  cases action with
  | query =>
    cases hstep
    cases hmemory : s.memory with
    | unloaded =>
      have hunready : ∀ records, s.memory ≠ .ready records := by
        rw [hmemory]
        exact fun records hready => nomatch hready
      exact h.setMemory hunready fun records hready => nomatch hready
    | reading | movingAside | ready records =>
      simp only
      rw [← hmemory]
      exact h
  | mutate change =>
    simp only [VectorStore.step] at hstep
    split at hstep
    · rename_i haccepted
      cases hstep
      exact { h with
        waiting := fun mutation hmutation => by
          rcases List.mem_append.mp hmutation with hold | hnew
          · exact h.waiting mutation hold
          · rw [List.mem_singleton] at hnew
            subst hnew
            exact ⟨haccepted, hrange⟩ }
    · cases hstep
  | read ok =>
    simp only [VectorStore.step] at hstep
    split at hstep
    · rename_i hreading
      cases hstep
      exact h.read hreading ok
    · cases hstep
  | moveAside ok =>
    simp only [VectorStore.step] at hstep
    split at hstep
    · rename_i hmoving
      cases hstep
      exact h.quarantine hmoving ok
    · cases hstep
  | proceed ok => exact h.proceed hstep
  | crash =>
    cases hstep
    exact h.crash

end agrees

end QuokyPlatform.VectorStore
