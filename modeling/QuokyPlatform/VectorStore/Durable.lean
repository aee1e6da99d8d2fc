import QuokyPlatform.VectorStore.Agreement

/-! # Writes that last

The changes get to the file in the order of the calls, whatever failed or died in between. One that
was reported is there after any crash; one that failed is not. A file that cannot be used is never
overwritten: it is moved aside before anything is written in its place. -/

namespace QuokyPlatform.VectorStore

set_option autoImplicit false
set_option maxHeartbeats 250000

/-! ## The order of the changes -/

/-- The calls that are still to reach the file, the one at the head first. -/
def Store.pending (s : Store) : List ℕ :=
  (match s.active with
    | none => []
    | some (_, .installing _) => []
    | some (mutation, _) => [mutation.ticket]) ++ s.waiting.map Mutation.ticket

structure Ordered (s : Store) : Prop where
  increasing : (tickets s.log ++ s.pending).Pairwise (· < ·)
  issued : ∀ ticket ∈ tickets s.log ++ s.pending, ticket < s.issued
  failed : ∀ ticket ∈ s.failed, ticket < s.issued ∧ ticket ∉ tickets s.log ++ s.pending
  acknowledged : match s.active with
    | some (mutation, .installing _) =>
      ∃ before, tickets s.log = before ++ [mutation.ticket] ∧ s.acknowledged.Sublist before
    | _ => s.acknowledged.Sublist (tickets s.log)

section ordered

variable {limits : Limits} {s : Store}

theorem tickets_committed (log : List LogEntry) (mutation : Mutation) :
    tickets (log ++ [.committed mutation]) = tickets log ++ [mutation.ticket] := by
  simp [tickets]

theorem tickets_movedAside (log : List LogEntry) : tickets (log ++ [.movedAside]) = tickets log := by
  simp [tickets]

theorem Ordered.sublist (h : Ordered s) : s.acknowledged.Sublist (tickets s.log) := by
  have hack := h.acknowledged
  split at hack
  · obtain ⟨before, htickets, hsub⟩ := hack
    rw [htickets]
    exact hsub.trans (List.sublist_append_left _ _)
  · exact hack

/-- A step after which the same changes are still to come. -/
theorem Ordered.of_pending {t : Store} (h : Ordered s) (hlog : tickets t.log = tickets s.log)
    (hpending : t.pending = s.pending) (hissued : t.issued = s.issued) (hfailed : t.failed = s.failed)
    (hack : match t.active with
      | some (mutation, .installing _) =>
        ∃ before, tickets t.log = before ++ [mutation.ticket] ∧ t.acknowledged.Sublist before
      | _ => t.acknowledged.Sublist (tickets t.log)) : Ordered t := by
  constructor
  · rw [hlog, hpending]
    exact h.increasing
  · rw [hlog, hpending, hissued]
    exact h.issued
  · rw [hlog, hpending, hissued, hfailed]
    exact h.failed
  · exact hack

/-- A step that keeps the chain and the log. -/
theorem Ordered.of_same {t : Store} (h : Ordered s) (hlog : tickets t.log = tickets s.log)
    (hactive : t.active = s.active) (hwaiting : t.waiting = s.waiting) (hissued : t.issued = s.issued)
    (hfailed : t.failed = s.failed) (hack : t.acknowledged = s.acknowledged) : Ordered t := by
  refine h.of_pending hlog ?_ hissued hfailed ?_
  · rw [Store.pending, Store.pending, hactive, hwaiting]
  · rw [hlog, hactive, hack]
    exact h.acknowledged

/-- The write at the head, before its rename. -/
theorem pending_of_active {mutation : Mutation} {stage : Stage}
    (hactive : s.active = some (mutation, stage)) (hstage : ∀ next, stage ≠ .installing next) :
    s.pending = mutation.ticket :: s.waiting.map Mutation.ticket := by
  rw [Store.pending, hactive]
  cases stage with
  | installing next => exact absurd rfl (hstage next)
  | loading | writable | directory next | temporary next | replacing next => rfl

theorem Ordered.advance (h : Ordered s) {mutation : Mutation} {stage next : Stage}
    (hactive : s.active = some (mutation, stage)) (hstage : ∀ records, stage ≠ .installing records)
    (hnext : ∀ records, next ≠ .installing records) :
    Ordered { s with active := some (mutation, next) } := by
  have hpending : ({ s with active := some (mutation, next) } : Store).pending = s.pending := by
    rw [pending_of_active hactive hstage, pending_of_active rfl hnext]
  have hsub := h.sublist
  refine h.of_pending rfl hpending rfl rfl ?_
  cases next with
  | installing records => exact absurd rfl (hnext records)
  | loading | writable | directory records | temporary records | replacing records => exact hsub

theorem Ordered.fail (h : Ordered s) {mutation : Mutation} {stage : Stage}
    (hactive : s.active = some (mutation, stage)) (hstage : ∀ next, stage ≠ .installing next) :
    Ordered (s.fail mutation) := by
  have hpending := pending_of_active hactive hstage
  have hincreasing := h.increasing
  have hissued := h.issued
  have hfailed := h.failed
  rw [hpending] at hincreasing hissued hfailed
  have hsub : (tickets s.log ++ s.waiting.map Mutation.ticket).Sublist
      (tickets s.log ++ mutation.ticket :: s.waiting.map Mutation.ticket) :=
    List.Sublist.append_left (List.sublist_cons_self _ _) _
  have hfresh : mutation.ticket ∉ tickets s.log ++ s.waiting.map Mutation.ticket := by
    obtain ⟨-, hrest, hcross⟩ := List.pairwise_append.mp hincreasing
    intro hmem
    rcases List.mem_append.mp hmem with hlog | hwaiting
    · exact lt_irrefl _ (hcross _ hlog _ List.mem_cons_self)
    · exact lt_irrefl _ ((List.pairwise_cons.mp hrest).1 _ hwaiting)
  constructor
  · exact hincreasing.sublist hsub
  · exact fun ticket hticket => hissued ticket (hsub.subset hticket)
  · intro ticket hticket
    rcases List.mem_append.mp hticket with hold | hnew
    · exact ⟨(hfailed ticket hold).1, fun hmem => (hfailed ticket hold).2 (hsub.subset hmem)⟩
    · rw [List.mem_singleton] at hnew
      subst hnew
      exact ⟨hissued _ (List.mem_append_right _ List.mem_cons_self), hfresh⟩
  · exact h.sublist

/-- A change gets into the log: by its rename, or because it has nothing to write. -/
theorem Ordered.committed (h : Ordered s) {mutation : Mutation} {stage : Stage}
    (hactive : s.active = some (mutation, stage)) (hstage : ∀ next, stage ≠ .installing next) :
    (tickets (s.log ++ [.committed mutation]) ++ s.waiting.map Mutation.ticket).Pairwise (· < ·) ∧
      (∀ ticket ∈ tickets (s.log ++ [.committed mutation]) ++ s.waiting.map Mutation.ticket,
        ticket < s.issued) ∧
      ∀ ticket ∈ s.failed, ticket < s.issued ∧
        ticket ∉ tickets (s.log ++ [.committed mutation]) ++ s.waiting.map Mutation.ticket := by
  have hsame : tickets (s.log ++ [.committed mutation]) ++ s.waiting.map Mutation.ticket =
      tickets s.log ++ s.pending := by
    rw [tickets_committed, pending_of_active hactive hstage, List.append_assoc]
    rfl
  rw [hsame]
  exact ⟨h.increasing, h.issued, h.failed⟩

theorem Ordered.plan (h : Ordered s) {mutation : Mutation} {current : Records}
    (hactive : s.active = some (mutation, .writable)) :
    Ordered (s.plan limits mutation current) := by
  have hstage : ∀ next, Stage.writable ≠ .installing next := fun next hstage => nomatch hstage
  unfold Store.plan
  split
  · exact h.fail hactive hstage
  · rename_i next _
    split
    · exact h.advance hactive hstage fun records hnext => nomatch hnext
    · obtain ⟨hincreasing, hissued, hfailed⟩ := h.committed hactive hstage
      refine ⟨hincreasing, hissued, hfailed, ?_⟩
      simp only [Store.acknowledge, tickets_committed]
      exact h.sublist.append (List.Sublist.refl _)

theorem Ordered.assertWritable (h : Ordered s) {ok : Bool} {unblocked : Store}
    (hu : s.assertWritable ok = some unblocked) :
    Ordered unblocked ∧ unblocked.active = s.active := by
  unfold Store.assertWritable at hu
  split at hu
  · cases hu
    exact ⟨h, rfl⟩
  · split at hu
    · cases hu
      exact ⟨h.of_same rfl rfl rfl rfl rfl rfl, rfl⟩
    · split at hu
      · cases hu
        exact ⟨h.of_same (tickets_movedAside s.log) rfl rfl rfl rfl rfl, rfl⟩
      · cases hu

theorem Ordered.proceed (h : Ordered s) {ok : Bool} {after : Store}
    (hstep : s.proceed limits ok = some after) : Ordered after := by
  unfold Store.proceed at hstep
  split at hstep
  · rename_i hactive
    split at hstep
    · cases hstep
    · rename_i mutation rest hwaiting
      cases hstep
      have hpending : s.pending = mutation.ticket :: rest.map Mutation.ticket := by
        rw [Store.pending, hactive, hwaiting]
        rfl
      exact h.of_pending rfl hpending.symm rfl rfl h.sublist
  · rename_i mutation hactive
    split at hstep
    · cases hstep
      exact h.advance hactive (fun next hstage => nomatch hstage) fun next hstage => nomatch hstage
    · cases hstep
  · rename_i mutation hactive
    split at hstep
    · split at hstep
      · cases hstep
        exact h.fail hactive fun next hstage => nomatch hstage
      · rename_i unblocked hunblocked
        cases hstep
        obtain ⟨hu, hsame⟩ := h.assertWritable hunblocked
        exact hu.plan (hsame.trans hactive)
    · cases hstep
  · rename_i mutation next hactive
    split at hstep
    · cases hstep
      exact h.advance hactive (fun next hstage => nomatch hstage) fun next hstage => nomatch hstage
    · cases hstep
      exact h.fail hactive fun next hstage => nomatch hstage
  · rename_i mutation next hactive
    split at hstep
    · cases hstep
      exact h.advance hactive (fun next hstage => nomatch hstage) fun next hstage => nomatch hstage
    · cases hstep
      exact h.fail hactive fun next hstage => nomatch hstage
  · rename_i mutation next hactive
    split at hstep
    · cases hstep
      obtain ⟨hincreasing, hissued, hfailed⟩ :=
        h.committed hactive fun next hstage => nomatch hstage
      exact ⟨hincreasing, hissued, hfailed,
        tickets s.log, tickets_committed s.log mutation, h.sublist⟩
    · cases hstep
      exact h.fail hactive fun next hstage => nomatch hstage
  · rename_i mutation next hactive
    cases hstep
    have hpending : s.pending = s.waiting.map Mutation.ticket := by
      rw [Store.pending, hactive]
      rfl
    have hack := h.acknowledged
    rw [hactive] at hack
    obtain ⟨before, htickets, hsub⟩ := hack
    refine h.of_pending rfl hpending.symm rfl rfl ?_
    simp only [Store.acknowledge]
    rw [htickets]
    exact hsub.append (List.Sublist.refl _)

theorem Ordered.step (h : Ordered s) {action : Action} {after : Store}
    (hstep : step limits s action = some after) : Ordered after := by
  cases action with
  | query =>
    cases hstep
    exact h.of_same rfl rfl rfl rfl rfl rfl
  | mutate change =>
    simp only [VectorStore.step] at hstep
    split at hstep
    · cases hstep
      have hpending : ({ s with
          waiting := s.waiting ++ [{ ticket := s.issued, change := change }],
          issued := s.issued + 1 } : Store).pending = s.pending ++ [s.issued] := by
        simp [Store.pending]
      refine ⟨?_, ?_, ?_, h.acknowledged⟩
      · rw [hpending, ← List.append_assoc, List.pairwise_append]
        refine ⟨h.increasing, List.pairwise_singleton _ _, fun ticket hticket other hother => ?_⟩
        rw [List.mem_singleton] at hother
        subst hother
        exact h.issued ticket hticket
      · rw [hpending, ← List.append_assoc]
        intro ticket hticket
        rcases List.mem_append.mp hticket with hold | hnew
        · exact (h.issued ticket hold).trans (Nat.lt_succ_self _)
        · rw [List.mem_singleton] at hnew
          subst hnew
          exact Nat.lt_succ_self _
      · rw [hpending, ← List.append_assoc]
        intro ticket hticket
        obtain ⟨hlt, hnot⟩ := h.failed ticket hticket
        refine ⟨hlt.trans (Nat.lt_succ_self _), fun hmem => ?_⟩
        rcases List.mem_append.mp hmem with hold | hnew
        · exact hnot hold
        · rw [List.mem_singleton] at hnew
          omega
    · cases hstep
  | read ok =>
    simp only [VectorStore.step] at hstep
    split at hstep
    · cases hstep
      unfold Store.read
      split
      · exact h.of_same rfl rfl rfl rfl rfl rfl
      · split
        · exact h.of_same rfl rfl rfl rfl rfl rfl
        · exact h.of_same rfl rfl rfl rfl rfl rfl
        · unfold Store.loadFails
          split
          · rename_i mutation hactive
            exact (h.fail hactive fun next hstage => by cases hstage).of_same rfl rfl rfl rfl rfl rfl
          · exact h.of_same rfl rfl rfl rfl rfl rfl
      · exact h.of_same rfl rfl rfl rfl rfl rfl
    · cases hstep
  | moveAside ok =>
    simp only [VectorStore.step] at hstep
    split at hstep
    · cases hstep
      unfold Store.quarantine
      split
      · exact h.of_same (tickets_movedAside s.log) rfl rfl rfl rfl rfl
      · exact h.of_same rfl rfl rfl rfl rfl rfl
    · cases hstep
  | proceed ok => exact h.proceed hstep
  | crash =>
    cases hstep
    have hsub : (tickets s.log ++ ([] : List ℕ)).Sublist (tickets s.log ++ s.pending) :=
      List.Sublist.append_left (List.nil_sublist _) _
    exact ⟨h.increasing.sublist hsub, fun ticket hticket => h.issued ticket (hsub.subset hticket),
      fun ticket hticket => ⟨(h.failed ticket hticket).1,
        fun hmem => (h.failed ticket hticket).2 (hsub.subset hmem)⟩, h.sublist⟩

end ordered

/-! ## Every run -/

theorem Ordered.start (target : DiskFile) : Ordered (Store.start target) where
  increasing := List.Pairwise.nil
  issued _ hticket := nomatch hticket
  failed _ hticket := nomatch hticket
  acknowledged := List.Sublist.refl []

theorem run_agrees {limits : Limits} {base : Records} : ∀ {actions : List Action} {s t : Store},
    Agrees limits base s → (∀ action ∈ actions, action.InRange) →
      Machine.run (step limits) s actions = some t → Agrees limits base t
  | [], s, t, h, _, hrun => by
    cases hrun
    exact h
  | action :: rest, s, t, h, hrange, hrun => by
    obtain ⟨u, hstep, hrest⟩ := Machine.run_cons.mp hrun
    exact run_agrees (h.step (hrange action List.mem_cons_self) hstep)
      (fun other hother => hrange other (List.mem_cons_of_mem action hother)) hrest

/-- A usable file is what a restart loads. -/
theorem restart_loads {limits : Limits} {s : Store} {records : Records}
    (h : s.target.view limits = some records) :
    ∃ t, Machine.run (step limits) s [.crash, .query, .read true] = some t ∧
      t.memory = .ready records := by
  cases htarget : s.target with
  | unreadable =>
    rw [htarget] at h
    cases h
  | absent =>
    rw [htarget] at h
    cases h
    refine ⟨_, rfl, ?_⟩
    simp only [Store.read, htarget]
  | text content =>
    rw [htarget, DiskFile.view] at h
    split at h
    · rename_i loaded hload
      cases h
      refine ⟨_, rfl, ?_⟩
      simp only [Store.read, htarget, hload]
    · cases h

/-- Two writes to a collection of at most two records; the process dies after the second one has
replaced the file and before it is reported. -/
def twoWrites : List Action :=
  let record (id : String) : VectorRecord :=
    { id := id, vector := [⟨true, 1065353216⟩], metadata := none }
  [.query, .read true, .mutate (.upsert [record "a"]), .proceed true, .proceed true, .proceed true,
    .proceed true, .proceed true, .proceed true, .proceed true, .mutate (.upsert [record "b"]),
    .proceed true, .proceed true, .proceed true, .proceed true, .proceed true, .proceed true, .crash]

/-- The file is aside, or still in its place and nothing was loaded from it but a block. -/
def Spared (initial : DiskFile) (s : Store) : Prop :=
  initial ∈ s.aside ∨
    (s.target = initial ∧ (∀ records, s.memory = .ready records → s.blocked = true) ∧
      ∀ mutation stage, s.active = some (mutation, stage) → stage = .loading ∨ stage = .writable)

section spared

variable {limits : Limits} {initial : DiskFile} {s : Store}

theorem Spared.read (hbad : initial.view limits = none) (htarget : s.target = initial)
    (hactive : ∀ mutation stage, s.active = some (mutation, stage) →
      stage = .loading ∨ stage = .writable) (ok : Bool) : Spared initial (s.read limits ok) := by
  subst htarget
  unfold Store.read
  split
  · rename_i habsent
    rw [habsent] at hbad
    cases hbad
  · rename_i content hcontent
    split
    · rename_i records hload
      rw [hcontent, DiskFile.view, hload] at hbad
      cases hbad
    · exact Or.inr ⟨rfl, (fun records hready => by cases hready), hactive⟩
    · unfold Store.loadFails
      split
      · exact Or.inr ⟨rfl, (fun records hready => by cases hready), fun _ _ h => by cases h⟩
      · exact Or.inr ⟨rfl, (fun records hready => by cases hready), hactive⟩
  · exact Or.inr ⟨rfl, (fun records hready => by cases hready), hactive⟩

theorem aside_subset_of_step {action : Action} {after : Store}
    (hstep : step limits s action = some after) : ∀ file ∈ s.aside, file ∈ after.aside := by
  have hplan : ∀ (t : Store) (mutation : Mutation) (current : Records),
      (t.plan limits mutation current).aside = t.aside := by
    intro t mutation current
    unfold Store.plan
    split
    · rfl
    · split <;> rfl
  cases action with
  | query | crash =>
    cases hstep
    exact fun file hfile => hfile
  | mutate change =>
    simp only [step] at hstep
    split at hstep
    · cases hstep
      exact fun file hfile => hfile
    · cases hstep
  | read ok =>
    simp only [step] at hstep
    split at hstep
    · cases hstep
      have hsame : (s.read limits ok).aside = s.aside := by
        unfold Store.read
        split
        · rfl
        · split
          · rfl
          · rfl
          · unfold Store.loadFails
            split <;> rfl
        · rfl
      rw [hsame]
      exact fun file hfile => hfile
    · cases hstep
  | moveAside ok =>
    simp only [step] at hstep
    split at hstep
    · cases hstep
      unfold Store.quarantine
      split
      · exact fun file hfile => List.mem_cons_of_mem _ hfile
      · exact fun file hfile => hfile
    · cases hstep
  | proceed ok =>
    simp only [step, Store.proceed] at hstep
    split at hstep
    · split at hstep
      · cases hstep
      · cases hstep
        exact fun file hfile => hfile
    · split at hstep
      · cases hstep
        exact fun file hfile => hfile
      · cases hstep
    · split at hstep
      · split at hstep
        · cases hstep
          exact fun file hfile => hfile
        · rename_i unblocked hunblocked
          cases hstep
          rw [hplan]
          unfold Store.assertWritable at hunblocked
          split at hunblocked
          · cases hunblocked
            exact fun file hfile => hfile
          · split at hunblocked
            · cases hunblocked
              exact fun file hfile => hfile
            · split at hunblocked
              · cases hunblocked
                exact fun file hfile => List.mem_cons_of_mem _ hfile
              · cases hunblocked
      · cases hstep
    all_goals first
      | (split at hstep <;> cases hstep <;> exact fun file hfile => hfile)
      | (cases hstep; exact fun file hfile => hfile)

theorem Spared.step (hbad : initial.view limits = none) (h : Spared initial s) {action : Action}
    {after : Store} (hstep : step limits s action = some after) : Spared initial after := by
  rcases h with haside | ⟨htarget, hmemory, hactive⟩
  · exact Or.inl (aside_subset_of_step hstep initial haside)
  · cases action with
    | query =>
      cases hstep
      refine Or.inr ⟨htarget, fun records hready => ?_, hactive⟩
      simp only at hready
      split at hready
      · cases hready
      · exact hmemory records hready
    | mutate change =>
      simp only [VectorStore.step] at hstep
      split at hstep
      · cases hstep
        exact Or.inr ⟨htarget, hmemory, hactive⟩
      · cases hstep
    | read ok =>
      simp only [VectorStore.step] at hstep
      split at hstep
      · cases hstep
        exact Spared.read hbad htarget hactive ok
      · cases hstep
    | moveAside ok =>
      simp only [VectorStore.step] at hstep
      split at hstep
      · cases hstep
        unfold Store.quarantine
        split
        · refine Or.inl ?_
          simp only [Store.setAside, htarget, List.mem_cons, true_or]
        · exact Or.inr ⟨htarget, fun _ _ => rfl, hactive⟩
      · cases hstep
    | crash =>
      cases hstep
      exact Or.inr ⟨htarget, (fun records hready => by cases hready), fun _ _ h => by cases h⟩
    | proceed ok =>
      simp only [VectorStore.step, Store.proceed] at hstep
      split at hstep
      · split at hstep
        · cases hstep
        · cases hstep
          refine Or.inr ⟨htarget, fun records hready => ?_, fun mutation stage hcurrent => ?_⟩
          · simp only at hready
            split at hready
            · cases hready
            · exact hmemory records hready
          · cases hcurrent
            exact Or.inl rfl
      · split at hstep
        · cases hstep
          refine Or.inr ⟨htarget, hmemory, fun mutation stage hcurrent => ?_⟩
          cases hcurrent
          exact Or.inr rfl
        · cases hstep
      · rename_i mutation hcurrent
        split at hstep
        · rename_i current hready
          split at hstep
          · cases hstep
            exact Or.inr ⟨htarget, hmemory, fun _ _ h => by cases h⟩
          · rename_i unblocked hunblocked
            cases hstep
            refine Or.inl ?_
            have hblocked := hmemory current hready
            have hpresent : s.target.isAbsent = false := by
              cases hs : s.target with
              | absent =>
                rw [hs] at htarget
                rw [← htarget] at hbad
                cases hbad
              | unreadable | text content => rfl
            simp only [Store.assertWritable, hblocked, hpresent, Bool.not_true, Bool.false_eq_true,
              if_false] at hunblocked
            split at hunblocked
            · cases hunblocked
              have hmem : initial ∈ ({ s.setAside with blocked := false } : Store).aside := by
                simp only [Store.setAside, htarget, List.mem_cons, true_or]
              unfold Store.plan
              split
              · exact hmem
              · split
                · exact hmem
                · exact hmem
            · cases hunblocked
        · cases hstep
      all_goals
        rename_i mutation next hcurrent
        rcases hactive mutation _ hcurrent with hstage | hstage <;> cases hstage

end spared

end QuokyPlatform.VectorStore
