import QuokyPlatform.InstanceLock.Safety

/-! # At most one live process owns the instance lock

Every interleaving of the processes of a host keeps the discipline, so in every run the lock belongs
to one live process at most, its generation stays the highest, and whoever else tries to acquire it
is refused. -/

namespace QuokyPlatform.InstanceLock

set_option autoImplicit false
set_option maxHeartbeats 250000

variable {bootId : ℕ → String} {i : ℕ}

/-! ## Processes are safe -/

/-- The process that the host made, before its acquisition. -/
def starting (own : Self) (record : InstanceLockRecord) : Process :=
  ⟨own.pid, own.bootId, record.token, none, none⟩

/-- What a process knows when it has started. -/
def started (bootId : ℕ → String) (i : ℕ) :
    Except Fault (Self × InstanceLockRecord) → Assertion (discipline bootId) i
  | .ok (own, record) => (Assertion.pure _ i (Records (starting own record) own record)).and
      (live bootId i (starting own record) (fun _ => True) stable_const)
  | .error _ => .pure _ i False

theorem start_triple :
    Program.Triple (.pure (discipline bootId) i True) (start bootId i) (started bootId i) := by
  refine .perform fun t ht _ input result u hop => ?_
  split at hop
  · rename_i pid bootKnown startedAt token
    split at hop
    · rename_i hnew
      obtain ⟨hfresh, hvalid, hpids, htoken⟩ := hnew
      cases hop
      refine ⟨guar_start ht hfresh hpids htoken (fun boot hboot => ?_) rfl rfl, ?_, ?_⟩
      · simp only at hboot
        split at hboot
        · exact (Option.some.inj hboot).symm
        · cases hboot
      · exact ⟨rfl, rfl, ⟨startedAt, rfl⟩, hvalid, rfl⟩
      · intro q hq
        exact ⟨Option.some.inj (hq.symm.trans (AList.lookup_insert _)), trivial⟩
    · cases hop
  · cases hop

theorem ended_triple {p : Process} (result : Except Fault ℕ) :
    Program.Triple (acquired bootId i p result) (ended i result) fun _ =>
      match result with
      | .ok generation => live bootId i (p.afterAcquire result) (Sole i generation)
          (stable_sole generation)
      | .error _ => .pure _ i True := by
  refine .perform fun t ht h input answer u hop => ?_
  cases hq : t.processes.lookup i with
  | none =>
    rw [hq] at hop
    cases hop
  | some q =>
    have hafter : (t.processes.insert i (q.afterAcquire result)).lookup i =
        some (q.afterAcquire result) := AList.lookup_insert _
    cases input with
    | fine =>
      rw [hq] at hop
      cases hop
      cases result with
      | ok generation =>
        obtain ⟨rfl, htop, hown⟩ := h q hq
        have hguar : (discipline bootId).Guar i t { t with
            processes := t.processes.insert i (q.afterAcquire (.ok generation)) } := guar_ended ht hq
          (fun g hg => by cases hg; exact ⟨htop, hown⟩) fun e he => by cases he
        refine ⟨hguar, fun r hr => ⟨Option.some.inj (hr.symm.trans hafter), htop, ?_⟩⟩
        exact (hguar.inv.locks i _ generation hafter rfl).2
      | error e =>
        obtain ⟨rfl, hcode⟩ := h q hq
        exact ⟨guar_ended ht hq (fun g hg => by cases hg) fun e' he => by cases he; exact hcode,
          trivial⟩
    | _ =>
      rw [hq] at hop
      cases hop

theorem running_triple {F : Assertion (discipline bootId) i} :
    Program.Triple F (running i) fun _ => F := by
  refine .perform fun t ht h input result u hop => ?_
  split at hop
  · cases hop
    exact ⟨Discipline.Guar.refl ht, h⟩
  · cases hop

theorem starter_triple :
    Program.Triple (.pure (discipline bootId) i True) (main bootId i .starter) (finished bootId i) := by
  refine start_triple.bind (fun ⟨own, record⟩ => ?_) fun _ _ _ hfalse => hfalse.elim
  refine .of_pure (fun hrecords => ?_) fun _ h => h
  refine (acquireInstanceLock_triple hrecords).attempt fun result => ?_
  refine (ended_triple result).bind (fun _ => ?_) fun _ _ _ _ => trivial
  cases result with
  | error e => exact .pure fun _ _ _ => trivial
  | ok generation =>
    refine running_triple.bind (fun _ => ?_) fun _ _ _ _ => trivial
    exact release_triple hrecords.writes.1.pid rfl

theorem main_safe (activity : Activity) (i : ℕ) (s : Host) :
    (main bootId i activity).Safe (discipline bootId) i ((discipline bootId).Rely i)
      (fun _ _ => True) s := by
  cases activity with
  | starter => exact starter_triple s trivial
  | crash process =>
    refine Program.Safe.perform fun t ht _ input result u hop => ?_
    cases hop
    exact ⟨guar_crash ht process, fun _ _ _ => trivial⟩

theorem processes_sound : Pool.Sound (discipline bootId) (fun activity i => main bootId i activity)
    reboot where
  main activity i s _ := main_safe activity i s
  restart_inv s hs := (inv_fewer hs (fun j q hq => by cases hq) (.inr rfl)).1
  restart_step s hs := (inv_fewer hs (fun j q hq => by cases hq) (.inr rfl)).2

/-! ## Runs -/

/-- A host before any process has started, with whatever the directory holds. -/
structure Fresh (host : Host) : Prop where
  processes : host.processes = ∅
  written : ∀ name contents record, host.files.lookup name = some contents →
    parseLockRecord contents = some record → record.token ∈ host.tokens
  bounded : host.files.top < 10 ^ 14

theorem Fresh.inv {host : Host} (h : Fresh host) : Inv bootId host where
  pids i j p q hp := by
    rw [h.processes] at hp
    cases hp
  tokens i j p q hp := by
    rw [h.processes] at hp
    cases hp
  boots i p hp := by
    rw [h.processes] at hp
    cases hp
  known i p hp := by
    rw [h.processes] at hp
    cases hp
  written := h.written
  bounded := h.bounded
  locks i p generation hp := by
    rw [h.processes] at hp
    cases hp

abbrev Processes := Pool Host Input Fault

/-- One step of the processes of a host, or of the host itself. -/
def stepOf (bootId : ℕ → String) (pool : Processes) (action : PoolAction Activity Input) :
    Option Processes :=
  Pool.step (fun activity i => main bootId i activity) reboot pool action

def runOf (bootId : ℕ → String) (host : Host) (actions : List (PoolAction Activity Input)) :
    Option Processes :=
  Machine.run (stepOf bootId) (Pool.start host) actions

/-- A live process was given a lock, and no marker of its has been made. -/
def Holds (host : Host) (i generation : ℕ) : Prop :=
  ∃ process, host.processes.lookup i = some process ∧ process.lock = some generation

/-- The acquisition of a process ends in the step, with a result. -/
def Ends (s t : Host) (j : ℕ) (result : Except Fault ℕ) : Prop :=
  (∃ q, t.processes.lookup j = some q ∧ q.outcome = some result) ∧
    ∀ q, s.processes.lookup j = some q → q.outcome = none

/-- One live process at most holds the lock; its generation is the highest, whose file no step removes
or rewrites; and every other acquisition that ends in the meantime ends with an error of the lock. -/
theorem one_owner (bootId : ℕ → String) {host : Host} (hfresh : Fresh host)
    {actions : List (PoolAction Activity Input)} {pool : Processes}
    (h : runOf bootId host actions = some pool) :
    (∀ i j g g', Holds pool.shared i g → Holds pool.shared j g' → i = j ∧ g = g') ∧
    (∀ i g, Holds pool.shared i g → pool.shared.files.top = g) ∧
    ∀ action next, stepOf bootId pool action = some next →
      (∀ contents, pool.shared.files.top ≠ 0 →
        pool.shared.files.lookup (generationPath pool.shared.files.top) = some contents →
        next.shared.files.lookup (generationPath pool.shared.files.top) = some contents) ∧
      ∀ i g j result, Holds pool.shared i g → j ≠ i →
        Ends pool.shared next.shared j result →
        result = .error (.lock .instanceAlreadyRunning) ∨
          result = .error (.lock .instanceLockUnavailable) := by
  have hsound : Pool.Sound (discipline bootId) _ reboot := processes_sound
  have hok := Pool.run_ok hsound (Pool.Ok.start hfresh.inv) h
  have hinv : Inv bootId pool.shared := hok.inv
  refine ⟨?_, ?_, fun action next hnext => ?_⟩
  · rintro i j g g' ⟨p, hp, hg⟩ ⟨q, hq, hg'⟩
    obtain ⟨htop, howned⟩ := hinv.locks i p g hp hg
    obtain ⟨htop', howned'⟩ := hinv.locks j q g' hq hg'
    exact ⟨hinv.owner howned howned', htop.symm.trans htop'⟩
  · rintro i g ⟨p, hp, hg⟩
    exact (hinv.locks i p g hp hg).1
  · have hstep : Step pool.shared next.shared :=
      (Pool.step_ok processes_sound pool action next hok hnext).2
    refine ⟨hstep.highest, ?_⟩
    rintro i g j result ⟨p, hp, hg⟩ hj ⟨⟨q, hq, hresult⟩, hnone⟩
    obtain ⟨code, rfl⟩ := hstep.refused i p g hp hg j q result hj hq hresult hnone
    cases code with
    | instanceAlreadyRunning => exact .inl rfl
    | instanceLockUnavailable => exact .inr rfl

/-! ## A run of two processes -/

def emptyHost : Host := { files := ∅, processes := ∅, tokens := [], boot := 0 }

/-- The first process acquires the lock; the second finds it held. -/
def twoStarters : List (PoolAction Activity Input) :=
  [.spawn 0 .starter, .step 0 (.started 10 true "2026-01-01T00:00:00.000Z" "first")] ++
  List.replicate 8 (.step 0 .fine) ++
  [.spawn 1 .starter, .step 1 (.started 11 true "2026-01-01T00:00:01.000Z" "second")] ++
  List.replicate 3 (.step 1 .fine) ++ [.step 1 (.inUse false)]

theorem emptyHost_fresh : Fresh emptyHost where
  processes := rfl
  written name contents record h := by cases h
  bounded := by decide

/-- The first process holds the first generation, which is the highest. -/
theorem one_owner_two_starters :
    ∃ pool, runOf (fun _ => "boot") emptyHost twoStarters = some pool ∧ Holds pool.shared 0 1 ∧
      pool.shared.files.top = 1 := by
  have hlock : (runOf (fun _ => "boot") emptyHost twoStarters).map (fun pool =>
      (pool.shared.processes.lookup 0).bind (·.lock)) = some (some 1) := by decide +kernel
  obtain ⟨pool, hpool, hlock⟩ := Option.map_eq_some_iff.mp hlock
  obtain ⟨process, hprocess, hheld⟩ := Option.bind_eq_some_iff.mp hlock
  have hholds : Holds pool.shared 0 1 := ⟨process, hprocess, hheld⟩
  exact ⟨pool, hpool, hholds, (one_owner _ emptyHost_fresh hpool).2.1 0 1 hholds⟩

end QuokyPlatform.InstanceLock
