import QuokyPlatform.Foundations.Discipline
import QuokyPlatform.InstanceLock.Protocol

/-! # Who owns the lock

A live process owns the lock when the highest generation is held by it. Ownership is never taken over
from a live process: who makes a new highest generation has judged the one before it free, and a
generation that nobody else owned then is owned by nobody else for as long as it stays the highest. -/

namespace QuokyPlatform.InstanceLock

set_option autoImplicit false
set_option maxHeartbeats 250000

/-! ## The invariant -/

/-- The highest generation is held by the process. -/
structure Owned (host : Host) (i : ℕ) : Prop where
  top : 0 < host.files.top
  held : ∃ process contents startedAt, host.processes.lookup i = some process ∧
    host.files.lookup (generationPath host.files.top) = some contents ∧
    parseLockRecord contents =
      some (.held process.pid startedAt process.bootId process.token)

structure Inv (bootId : ℕ → String) (host : Host) : Prop where
  pids : ∀ i j p q, host.processes.lookup i = some p → host.processes.lookup j = some q →
    p.pid = q.pid → i = j
  tokens : ∀ i j p q, host.processes.lookup i = some p → host.processes.lookup j = some q →
    p.token = q.token → i = j
  boots : ∀ i p, host.processes.lookup i = some p → ∀ boot, p.bootId = some boot →
    boot = bootId host.boot
  known : ∀ i p, host.processes.lookup i = some p → p.token ∈ host.tokens
  written : ∀ name contents record, host.files.lookup name = some contents →
    parseLockRecord contents = some record → record.token ∈ host.tokens
  bounded : host.files.top < 10 ^ 14
  locks : ∀ i p generation, host.processes.lookup i = some p → p.lock = some generation →
    host.files.top = generation ∧ Owned host i

/-- What the others leave alone while process `i` is at work. -/
structure Rely (i : ℕ) (s t : Host) : Prop where
  mono : s.files.top ≤ t.files.top
  top : s.files.top = t.files.top → t.files.lookup (generationPath t.files.top) =
    s.files.lookup (generationPath s.files.top)
  owns : s.files.top = t.files.top → ∀ j, Owned t j → Owned s j
  self : ∀ p, t.processes.lookup i = some p → s.processes.lookup i = some p
  kept : i ∈ t.processes → Owned s i → t.files.top = s.files.top
  temps : ∀ p, t.processes.lookup i = some p → ∀ record generation, record.token = p.token →
    t.files.lookup (tempPath record generation) = s.files.lookup (tempPath record generation)

/-- What one step does: the highest generation stays as it is, and an acquisition that ends while
another process has the lock ends with an error of the lock. -/
structure Step (s t : Host) : Prop where
  highest : ∀ contents, s.files.top ≠ 0 →
    s.files.lookup (generationPath s.files.top) = some contents →
    t.files.lookup (generationPath s.files.top) = some contents
  refused : ∀ i p generation, s.processes.lookup i = some p → p.lock = some generation →
    ∀ j q result, j ≠ i → t.processes.lookup j = some q → q.outcome = some result →
      (∀ q', s.processes.lookup j = some q' → q'.outcome = none) →
      ∃ code, result = .error (.lock code)

theorem lookup_of_mem {s : Host} {i : ℕ} (h : i ∈ s.processes) :
    ∃ p, s.processes.lookup i = some p :=
  Option.isSome_iff_exists.mp (AList.lookup_isSome.mpr h)

theorem mem_of_lookup {s : Host} {i : ℕ} {p : Process} (h : s.processes.lookup i = some p) :
    i ∈ s.processes :=
  AList.lookup_isSome.mp (by rw [h]; rfl)

theorem Rely.refl (i : ℕ) (s : Host) : Rely i s s :=
  ⟨le_rfl, fun _ => rfl, fun _ _ h => h, fun _ h => h, fun _ _ => rfl, fun _ _ _ _ _ => rfl⟩

theorem Rely.mem {i : ℕ} {s t : Host} (h : Rely i s t) (hi : i ∈ t.processes) :
    i ∈ s.processes := by
  obtain ⟨p, hp⟩ := lookup_of_mem hi
  exact mem_of_lookup (h.self p hp)

/-- What a live process owns, it goes on owning. -/
theorem Rely.owned {i : ℕ} {s t : Host} (h : Rely i s t) (hi : i ∈ t.processes)
    (howned : Owned s i) : t.files.top = s.files.top ∧ Owned t i := by
  have htop := h.kept hi howned
  obtain ⟨hpos, p, contents, startedAt, hp, hfile, hparse⟩ := howned
  obtain ⟨q, hq⟩ := lookup_of_mem hi
  have hsame : q = p := Option.some.inj ((h.self q hq).symm.trans hp)
  refine ⟨htop, by omega, p, contents, startedAt, hsame ▸ hq, ?_, hparse⟩
  rw [h.top htop.symm, hfile]

theorem Rely.trans {i : ℕ} {s t u : Host} (h : Rely i s t) (h' : Rely i t u) : Rely i s u where
  mono := h.mono.trans h'.mono
  top heq := by
    have hst : s.files.top = t.files.top := le_antisymm h.mono (heq ▸ h'.mono)
    rw [h'.top (hst.symm.trans heq), h.top hst]
  owns heq j hj := by
    have hst : s.files.top = t.files.top := le_antisymm h.mono (heq ▸ h'.mono)
    exact h.owns hst j (h'.owns (hst.symm.trans heq) j hj)
  self p hp := h.self p (h'.self p hp)
  kept hi hs := by
    obtain ⟨htop, ht⟩ := h.owned (h'.mem hi) hs
    rw [h'.kept hi ht, htop]
  temps p hp record generation htoken := by
    rw [h'.temps p hp record generation htoken, h.temps p (h'.self p hp) record generation htoken]

theorem Step.refl (s : Host) : Step s s where
  highest _ _ h := h
  refused i p generation _ _ j q result _ hq hresult hnone := by
    have habsurd := hnone q hq
    rw [hresult] at habsurd
    cases habsurd

def discipline (bootId : ℕ → String) : Discipline Host where
  Inv := Inv bootId
  Step := Step
  Rely := Rely
  step_refl := Step.refl
  rely_refl := Rely.refl
  rely_trans := Rely.trans

variable {bootId : ℕ → String}

/-- One process at most owns the lock. -/
theorem Inv.owner {s : Host} (hs : Inv bootId s) {i j : ℕ} (hi : Owned s i) (hj : Owned s j) :
    i = j := by
  obtain ⟨-, p, contents, startedAt, hp, hfile, hparse⟩ := hi
  obtain ⟨-, q, contents', startedAt', hq, hfile', hparse'⟩ := hj
  obtain rfl := Option.some.inj (hfile.symm.trans hfile')
  have hrecord := Option.some.inj (hparse.symm.trans hparse')
  simp only [InstanceLockRecord.held.injEq] at hrecord
  exact hs.tokens i j p q hp hq hrecord.2.2.2

/-! ## Steps that keep the discipline -/

theorem generationPath_ne_tempPath (generation : ℕ) (record : InstanceLockRecord) (n : ℕ) :
    generationPath generation ≠ tempPath record n := by
  intro h
  have hchars := congrArg String.toList h
  simp [toList_generationPath, tempPath] at hchars

theorem owned_files {s : Host} {files : Directory} (htop : files.top = s.files.top)
    (hsame : files.lookup (generationPath s.files.top) = s.files.lookup (generationPath s.files.top))
    (j : ℕ) : Owned { s with files := files } j ↔ Owned s j := by
  constructor
  · rintro ⟨hpos, p, contents, startedAt, hp, hfile, hparse⟩
    have hold : files.lookup (generationPath files.top) = some contents := hfile
    rw [htop, hsame] at hold
    exact ⟨lt_of_lt_of_eq hpos htop, p, contents, startedAt, hp, hold, hparse⟩
  · rintro ⟨hpos, p, contents, startedAt, hp, hfile, hparse⟩
    refine ⟨lt_of_lt_of_eq hpos htop.symm, p, contents, startedAt, hp, ?_, hparse⟩
    show files.lookup (generationPath files.top) = some contents
    rw [htop, hsame, hfile]

/-- The processes of before, where the lock of process `i` may be released. -/
structure Unlocked (i : ℕ) (s : Host) (processes : AList fun _ : ℕ => Process) : Prop where
  before : ∀ j q, processes.lookup j = some q → ∃ q', s.processes.lookup j = some q' ∧
    q.pid = q'.pid ∧ q.bootId = q'.bootId ∧ q.token = q'.token ∧ q.outcome = q'.outcome ∧
    (q = q' ∨ (j = i ∧ q.lock = none))

theorem Unlocked.refl (i : ℕ) (s : Host) : Unlocked i s s.processes :=
  ⟨fun _ q hq => ⟨q, hq, rfl, rfl, rfl, rfl, .inl rfl⟩⟩

section

variable {i : ℕ} {s : Host} {processes : AList fun _ : ℕ => Process}

theorem Unlocked.self (h : Unlocked i s processes) {j : ℕ} (hj : j ≠ i) {q : Process}
    (hq : processes.lookup j = some q) : s.processes.lookup j = some q := by
  obtain ⟨q', hq', -, -, -, -, hsame⟩ := h.before j q hq
  rcases hsame with rfl | ⟨heq, -⟩
  · exact hq'
  · exact absurd heq hj

theorem Unlocked.locked (h : Unlocked i s processes) {j generation : ℕ} {q : Process}
    (hq : processes.lookup j = some q) (hlock : q.lock = some generation) :
    s.processes.lookup j = some q := by
  obtain ⟨q', hq', -, -, -, -, hsame⟩ := h.before j q hq
  rcases hsame with rfl | ⟨-, hnone⟩
  · exact hq'
  · rw [hnone] at hlock
    cases hlock

/-- The processes keep their identities, and none of them ends its acquisition. -/
theorem Unlocked.inv (h : Unlocked i s processes) (hs : Inv bootId s) {files : Directory}
    (hwritten : ∀ name contents record, files.lookup name = some contents →
      parseLockRecord contents = some record → record.token ∈ s.tokens)
    (hbounded : files.top < 10 ^ 14)
    (hlocks : ∀ j q generation, processes.lookup j = some q → q.lock = some generation →
      files.top = generation ∧ Owned { s with files := files, processes := processes } j) :
    Inv bootId { s with files := files, processes := processes } where
  pids j k q r hq hr heq := by
    obtain ⟨q', hq', hpid, -⟩ := h.before j q hq
    obtain ⟨r', hr', hpid', -⟩ := h.before k r hr
    exact hs.pids j k q' r' hq' hr' (by rw [← hpid, ← hpid', heq])
  tokens j k q r hq hr heq := by
    obtain ⟨q', hq', -, -, htoken, -⟩ := h.before j q hq
    obtain ⟨r', hr', -, -, htoken', -⟩ := h.before k r hr
    exact hs.tokens j k q' r' hq' hr' (by rw [← htoken, ← htoken', heq])
  boots j q hq boot hboot := by
    obtain ⟨q', hq', -, hid, -⟩ := h.before j q hq
    exact hs.boots j q' hq' boot (hid ▸ hboot)
  known j q hq := by
    obtain ⟨q', hq', -, -, htoken, -⟩ := h.before j q hq
    rw [htoken]
    exact hs.known j q' hq'
  written := hwritten
  bounded := hbounded
  locks := hlocks

theorem Unlocked.step (h : Unlocked i s processes) {files : Directory}
    (hhighest : ∀ contents, s.files.top ≠ 0 →
      s.files.lookup (generationPath s.files.top) = some contents →
      files.lookup (generationPath s.files.top) = some contents) :
    Step s { s with files := files, processes := processes } where
  highest := hhighest
  refused k r generation _ _ j q result _ hq hresult hnone := by
    obtain ⟨q', hq', -, -, -, houtcome, -⟩ := h.before j q hq
    have habsurd := hnone q' hq'
    rw [← houtcome, hresult] at habsurd
    cases habsurd

/-- The files of a process, and generations below the highest, may come and go. -/
theorem guar_files (hs : Inv bootId s) (h : Unlocked i s processes) {files : Directory}
    (htop : files.top = s.files.top)
    (hsame : files.lookup (generationPath s.files.top) = s.files.lookup (generationPath s.files.top))
    (hwritten : ∀ name contents record, files.lookup name = some contents →
      parseLockRecord contents = some record → record.token ∈ s.tokens)
    (htemps : ∀ j, j ≠ i → ∀ q, s.processes.lookup j = some q → ∀ record n, record.token = q.token →
      files.lookup (tempPath record n) = s.files.lookup (tempPath record n)) :
    (discipline bootId).Guar i s { s with files := files, processes := processes } := by
  have hfile : files.lookup (generationPath files.top) =
      s.files.lookup (generationPath s.files.top) := by rw [htop, hsame]
  refine ⟨h.inv hs hwritten (htop.trans_lt hs.bounded) fun j q generation hq hlock => ?_,
    h.step fun contents _ hold => hsame.trans hold, fun j hj => ?_⟩
  · obtain ⟨heq, hpos, r, contents, startedAt, hr, hheld, hparse⟩ :=
      hs.locks j q generation (h.locked hq hlock) hlock
    obtain rfl := Option.some.inj ((h.locked hq hlock).symm.trans hr)
    exact ⟨htop.trans heq, lt_of_lt_of_eq hpos htop.symm, q, contents, startedAt, hq,
      hfile.trans hheld, hparse⟩
  · refine ⟨htop.ge, fun _ => hfile, ?_, fun _ hq => h.self hj hq, fun _ _ => htop, ?_⟩
    · rintro - k ⟨hpos, q, contents, startedAt, hq, hheld, hparse⟩
      obtain ⟨q', hq', hpid, hboot, htoken, -⟩ := h.before k q hq
      exact ⟨lt_of_lt_of_eq hpos htop, q', contents, startedAt, hq', hfile.symm.trans hheld,
        by rw [hparse, hpid, hboot, htoken]⟩
    · exact fun q hq record n htoken => htemps j hj q (h.self hj hq) record n htoken

/-- A new highest generation is made by a process when no other owns the one before. -/
theorem guar_supersede (hs : Inv bootId s) (h : Unlocked i s processes) {contents : Contents}
    {generation : ℕ} (hlock : ∀ q, processes.lookup i = some q → q.lock = none)
    (hgeneration : s.files.top < generation) (hbound : generation < 10 ^ 14)
    (hwritten : ∀ record, parseLockRecord contents = some record → record.token ∈ s.tokens)
    (hfree : ∀ j, j ≠ i → ¬ Owned s j) :
    (discipline bootId).Guar i s { s with
      files := s.files.insert (generationPath generation) contents, processes := processes } := by
  have htop : Directory.top (s.files.insert (generationPath generation) contents) = generation := by
    rw [Directory.top_insert (by omega) (by omega), max_eq_right hgeneration.le]
  refine ⟨h.inv hs ?_ (htop.trans_lt hbound) fun j q held hq hheld => ?_,
    h.step fun c _ hfile => ?_, fun j hj => ?_⟩
  · intro name c record hfile hparse
    by_cases hname : name = generationPath generation
    · subst hname
      rw [AList.lookup_insert] at hfile
      obtain rfl := Option.some.inj hfile
      exact hwritten record hparse
    · rw [AList.lookup_insert_ne hname] at hfile
      exact hs.written name c record hfile hparse
  · by_cases hj : j = i
    · subst hj
      rw [hlock q hq] at hheld
      cases hheld
    · exact absurd (hs.locks j q held (h.self hj hq) hheld).2 (hfree j hj)
  · rw [AList.lookup_insert_ne fun heq => hgeneration.ne (generationPath_injective heq)]
    exact hfile
  · have hne : ∀ {P : Prop}, s.files.top =
        Directory.top (s.files.insert (generationPath generation) contents) → P :=
      fun heq => absurd (heq.trans htop) hgeneration.ne
    exact {
      mono := hgeneration.le.trans htop.ge
      top := hne
      owns := hne
      self := fun q hq => h.self hj hq
      kept := fun _ hown => absurd hown (hfree j hj)
      temps := fun q _ record n _ =>
        AList.lookup_insert_ne (generationPath_ne_tempPath generation record n).symm }

end

theorem guar_erase {i : ℕ} {s : Host} (hs : Inv bootId s) {name : String}
    (hname : name ≠ generationPath s.files.top)
    (htemps : ∀ j, j ≠ i → ∀ q, s.processes.lookup j = some q → ∀ record n, record.token = q.token →
      tempPath record n ≠ name) :
    (discipline bootId).Guar i s { s with files := s.files.erase name } := by
  refine guar_files hs (.refl i s) (Directory.top_erase hname) (AList.lookup_erase_ne hname.symm) ?_ ?_
  · intro other contents record hfile hparse
    by_cases hother : other = name
    · subst hother
      rw [AList.lookup_erase] at hfile
      cases hfile
    · rw [AList.lookup_erase_ne hother] at hfile
      exact hs.written other contents record hfile hparse
  · exact fun j hj q hq record n htoken =>
      AList.lookup_erase_ne (htemps j hj q hq record n htoken)

/-- A generation below the highest is garbage. -/
theorem guar_erase_generation {i : ℕ} {s : Host} (hs : Inv bootId s) {generation : ℕ}
    (hbelow : generation < s.files.top) :
    (discipline bootId).Guar i s { s with files := s.files.erase (generationPath generation) } :=
  guar_erase hs (fun heq => hbelow.ne (generationPath_injective heq)) fun _ _ _ _ record n _ =>
    (generationPath_ne_tempPath generation record n).symm

/-- A process removes its own temporary file. -/
theorem guar_erase_temp {i : ℕ} {s : Host} (hs : Inv bootId s) {p : Process}
    (hp : s.processes.lookup i = some p) {record : InstanceLockRecord}
    (hrecord : record.token = p.token) (generation : ℕ) :
    (discipline bootId).Guar i s { s with files := s.files.erase (tempPath record generation) } := by
  refine guar_erase hs (generationPath_ne_tempPath _ record generation).symm ?_
  intro j hj q hq other n htoken heq
  refine hj (hs.tokens j i q p hq hp ?_)
  rw [← htoken, tempPath_token heq, hrecord]

/-- A file that is not the highest generation is written. -/
theorem guar_insert {i : ℕ} {s : Host} (hs : Inv bootId s)
    {processes : AList fun _ : ℕ => Process} (h : Unlocked i s processes) {name : String} {contents : Contents}
    (htop : Directory.top (s.files.insert name contents) = s.files.top)
    (hname : name ≠ generationPath s.files.top)
    (hcontents : ∀ record, parseLockRecord contents = some record → record.token ∈ s.tokens)
    (htemps : ∀ j, j ≠ i → ∀ q, s.processes.lookup j = some q → ∀ record n, record.token = q.token →
      tempPath record n ≠ name) :
    (discipline bootId).Guar i s
      { s with files := s.files.insert name contents, processes := processes } := by
  refine guar_files hs h htop (AList.lookup_insert_ne hname.symm) ?_ ?_
  · intro other c record hfile hparse
    by_cases hother : other = name
    · subst hother
      rw [AList.lookup_insert] at hfile
      obtain rfl := Option.some.inj hfile
      exact hcontents record hparse
    · rw [AList.lookup_insert_ne hother] at hfile
      exact hs.written other c record hfile hparse
  · exact fun j hj q hq record n htoken =>
      AList.lookup_insert_ne (htemps j hj q hq record n htoken)

/-- What others rely on is kept when the processes change and the files do not. -/
theorem rely_processes {s : Host} {processes : AList fun _ : ℕ => Process} {tokens : List String}
    {j : ℕ} (hself : ∀ p, processes.lookup j = some p → s.processes.lookup j = some p)
    (howns : ∀ k, Owned { s with processes := processes, tokens := tokens } k → Owned s k) :
    Rely j s { s with processes := processes, tokens := tokens } :=
  ⟨le_rfl, fun _ => rfl, fun _ => howns, hself, fun _ _ => rfl, fun _ _ _ _ _ => rfl⟩

/-- A process that ends its acquisition owns what it reports, or reports an error of the lock. -/
theorem guar_ended {i : ℕ} {s : Host} (hs : Inv bootId s) {p : Process}
    (hp : s.processes.lookup i = some p) {result : Except Fault ℕ}
    (hok : ∀ generation, result = .ok generation → s.files.top = generation ∧ Owned s i)
    (herror : ∀ e, result = .error e → ∃ code, e = .lock code) :
    (discipline bootId).Guar i s { s with
      processes := s.processes.insert i (p.afterAcquire result) } := by
  have hlookup : ∀ j q, (s.processes.insert i (p.afterAcquire result)).lookup j = some q →
      (j = i ∧ q = p.afterAcquire result) ∨
        (j ≠ i ∧ s.processes.lookup j = some q) := by
    intro j q hq
    by_cases hj : j = i
    · subst hj
      rw [AList.lookup_insert] at hq
      exact .inl ⟨rfl, (Option.some.inj hq).symm⟩
    · rw [AList.lookup_insert_ne hj] at hq
      exact .inr ⟨hj, hq⟩
  have hbefore : ∀ j q, (s.processes.insert i (p.afterAcquire result)).lookup j = some q →
      ∃ q', s.processes.lookup j = some q' ∧ q'.pid = q.pid ∧ q'.bootId = q.bootId ∧
        q'.token = q.token := by
    intro j q hq
    rcases hlookup j q hq with ⟨rfl, rfl⟩ | ⟨-, hq⟩
    · exact ⟨p, hp, rfl, rfl, rfl⟩
    · exact ⟨q, hq, rfl, rfl, rfl⟩
  have howns : ∀ k, Owned { s with processes := s.processes.insert i (p.afterAcquire result) } k → Owned s k := by
    rintro k ⟨hpos, q, contents, startedAt, hq, hfile, hparse⟩
    obtain ⟨q', hq', hpid, hboot, htoken⟩ := hbefore k q hq
    exact ⟨hpos, q', contents, startedAt, hq', hfile, by rw [hparse, hpid, hboot, htoken]⟩
  have howned : ∀ k, Owned s k → Owned { s with processes := s.processes.insert i (p.afterAcquire result) } k := by
    rintro k ⟨hpos, q, contents, startedAt, hq, hfile, hparse⟩
    by_cases hk : k = i
    · subst hk
      obtain rfl := Option.some.inj (hp.symm.trans hq)
      exact ⟨hpos, _, contents, startedAt, AList.lookup_insert _, hfile, hparse⟩
    · exact ⟨hpos, q, contents, startedAt, (AList.lookup_insert_ne hk).trans hq, hfile, hparse⟩
  refine ⟨?_, ?_, fun j hj => rely_processes (fun q hq => ?_) howns⟩
  · exact {
      pids := fun j k q r hq hr heq => by
        obtain ⟨q', hq', hpid, -⟩ := hbefore j q hq
        obtain ⟨r', hr', hpid', -⟩ := hbefore k r hr
        exact hs.pids j k q' r' hq' hr' (by rw [hpid, hpid', heq])
      tokens := fun j k q r hq hr heq => by
        obtain ⟨q', hq', -, -, htoken⟩ := hbefore j q hq
        obtain ⟨r', hr', -, -, htoken'⟩ := hbefore k r hr
        exact hs.tokens j k q' r' hq' hr' (by rw [htoken, htoken', heq])
      boots := fun j q hq boot hboot => by
        obtain ⟨q', hq', -, hid, -⟩ := hbefore j q hq
        exact hs.boots j q' hq' boot (hid ▸ hboot)
      known := fun j q hq => by
        obtain ⟨q', hq', -, -, htoken⟩ := hbefore j q hq
        exact htoken ▸ hs.known j q' hq'
      written := hs.written
      bounded := hs.bounded
      locks := fun j q generation hq hlock => by
        rcases hlookup j q hq with ⟨rfl, rfl⟩ | ⟨-, hq⟩
        · cases result with
          | error e => cases hlock
          | ok held =>
            obtain rfl := Option.some.inj hlock
            obtain ⟨htop, hown⟩ := hok held rfl
            exact ⟨htop, howned j hown⟩
        · obtain ⟨htop, hown⟩ := hs.locks j q generation hq hlock
          exact ⟨htop, howned j hown⟩ }
  · refine ⟨fun _ _ hfile => hfile, fun k r generation hr hlock j q res hj hq hres hnone => ?_⟩
    rcases hlookup j q hq with ⟨rfl, rfl⟩ | ⟨-, hq⟩
    · obtain rfl := Option.some.inj hres
      cases result with
      | error e =>
        obtain ⟨code, rfl⟩ := herror e rfl
        exact ⟨code, rfl⟩
      | ok held =>
        exact absurd (hs.owner (hok held rfl).2 (hs.locks k r generation hr hlock).2) hj
    · have habsurd := hnone q hq
      rw [hres] at habsurd
      cases habsurd
  · rcases hlookup j q hq with ⟨rfl, -⟩ | ⟨-, hq⟩
    · exact absurd rfl hj
    · exact hq

/-- A process that starts owns nothing yet. -/
theorem guar_start {i : ℕ} {s : Host} (hs : Inv bootId s) {p : Process}
    (hnew : i ∉ s.processes) (hpid : ∀ entry ∈ s.processes.entries, entry.2.pid ≠ p.pid)
    (htoken : p.token ∉ s.tokens) (hboot : ∀ boot, p.bootId = some boot → boot = bootId s.boot)
    (hlock : p.lock = none) (houtcome : p.outcome = none) :
    (discipline bootId).Guar i s { s with
      processes := s.processes.insert i p, tokens := p.token :: s.tokens } := by
  have hlookup : ∀ j q, (s.processes.insert i p).lookup j = some q →
      (j = i ∧ q = p) ∨ (j ≠ i ∧ s.processes.lookup j = some q ∧ q.pid ≠ p.pid ∧
        q.token ≠ p.token) := by
    intro j q hq
    by_cases hj : j = i
    · subst hj
      rw [AList.lookup_insert] at hq
      exact .inl ⟨rfl, (Option.some.inj hq).symm⟩
    · rw [AList.lookup_insert_ne hj] at hq
      refine .inr ⟨hj, hq, hpid ⟨j, q⟩ (AList.mem_lookup_iff.mp hq), fun heq => ?_⟩
      exact htoken (heq ▸ hs.known j q hq)
  have howns : ∀ k, Owned { s with
      processes := s.processes.insert i p, tokens := p.token :: s.tokens } k → Owned s k := by
    rintro k ⟨hpos, q, contents, startedAt, hq, hfile, hparse⟩
    rcases hlookup k q hq with ⟨rfl, rfl⟩ | ⟨-, hq, -⟩
    · exact absurd (hs.written _ contents _ hfile hparse) htoken
    · exact ⟨hpos, q, contents, startedAt, hq, hfile, hparse⟩
  refine ⟨?_, ?_, fun j hj => rely_processes (fun q hq => ?_) howns⟩
  · exact {
      pids := fun j k q r hq hr heq => by
        rcases hlookup j q hq with ⟨rfl, rfl⟩ | ⟨-, hq, hne, -⟩ <;>
          rcases hlookup k r hr with ⟨rfl, rfl⟩ | ⟨-, hr, hne', -⟩
        · rfl
        · exact absurd heq.symm hne'
        · exact absurd heq hne
        · exact hs.pids j k q r hq hr heq
      tokens := fun j k q r hq hr heq => by
        rcases hlookup j q hq with ⟨rfl, rfl⟩ | ⟨-, hq, -, hne⟩ <;>
          rcases hlookup k r hr with ⟨rfl, rfl⟩ | ⟨-, hr, -, hne'⟩
        · rfl
        · exact absurd heq.symm hne'
        · exact absurd heq hne
        · exact hs.tokens j k q r hq hr heq
      boots := fun j q hq boot h => by
        rcases hlookup j q hq with ⟨rfl, rfl⟩ | ⟨-, hq, -⟩
        · exact hboot boot h
        · exact hs.boots j q hq boot h
      known := fun j q hq => by
        rcases hlookup j q hq with ⟨rfl, rfl⟩ | ⟨-, hq, -⟩
        · exact List.mem_cons_self
        · exact List.mem_cons_of_mem _ (hs.known j q hq)
      written := fun name contents record hfile hparse =>
        List.mem_cons_of_mem _ (hs.written name contents record hfile hparse)
      bounded := hs.bounded
      locks := fun j q generation hq h => by
        rcases hlookup j q hq with ⟨rfl, rfl⟩ | ⟨hj, hq, -⟩
        · rw [hlock] at h
          cases h
        · obtain ⟨htop, hpos, r, contents, startedAt, hr, hfile, hparse⟩ :=
            hs.locks j q generation hq h
          exact ⟨htop, hpos, r, contents, startedAt, (AList.lookup_insert_ne hj).trans hr, hfile,
            hparse⟩ }
  · refine ⟨fun _ _ hfile => hfile, fun k r generation hr _ j q result hj hq hresult hnone => ?_⟩
    rcases hlookup j q hq with ⟨rfl, rfl⟩ | ⟨-, hq, -⟩
    · rw [houtcome] at hresult
      cases hresult
    · have habsurd := hnone q hq
      rw [hresult] at habsurd
      cases habsurd
  · rcases hlookup j q hq with ⟨rfl, -⟩ | ⟨-, hq, -⟩
    · exact absurd rfl hj
    · exact hq

/-- Processes may go. -/
theorem inv_fewer {s : Host} (hs : Inv bootId s) {processes : AList fun _ : ℕ => Process}
    {boot : ℕ} (hfewer : ∀ j q, processes.lookup j = some q → s.processes.lookup j = some q)
    (hboot : boot = s.boot ∨ processes = ∅) :
    Inv bootId { s with processes := processes, boot := boot } ∧
      Step s { s with processes := processes, boot := boot } := by
  constructor
  · exact {
      pids := fun j k q r hq hr => hs.pids j k q r (hfewer j q hq) (hfewer k r hr)
      tokens := fun j k q r hq hr => hs.tokens j k q r (hfewer j q hq) (hfewer k r hr)
      boots := fun j q hq id hid => by
        rcases hboot with rfl | rfl
        · exact hs.boots j q (hfewer j q hq) id hid
        · cases hq
      known := fun j q hq => hs.known j q (hfewer j q hq)
      written := hs.written
      bounded := hs.bounded
      locks := fun j q generation hq hlock => by
        obtain ⟨htop, hpos, r, contents, startedAt, hr, hfile, hparse⟩ :=
          hs.locks j q generation (hfewer j q hq) hlock
        obtain rfl := Option.some.inj ((hfewer j q hq).symm.trans hr)
        exact ⟨htop, hpos, q, contents, startedAt, hq, hfile, hparse⟩ }
  · refine ⟨fun _ _ hfile => hfile, fun k r generation hr _ j q result hj hq hresult hnone => ?_⟩
    have habsurd := hnone q (hfewer j q hq)
    rw [hresult] at habsurd
    cases habsurd

theorem lookup_erase_some {processes : AList fun _ : ℕ => Process} {process j : ℕ} {q : Process}
    (h : (processes.erase process).lookup j = some q) : processes.lookup j = some q := by
  by_cases hj : j = process
  · subst hj
    rw [AList.lookup_erase] at h
    cases h
  · rwa [AList.lookup_erase_ne hj] at h

theorem guar_crash {i : ℕ} {s : Host} (hs : Inv bootId s) (process : ℕ) :
    (discipline bootId).Guar i s { s with processes := s.processes.erase process } := by
  have hfewer : ∀ j q, (s.processes.erase process).lookup j = some q →
      s.processes.lookup j = some q := fun j q => lookup_erase_some
  obtain ⟨hinv, hstep⟩ := inv_fewer hs hfewer (.inl rfl)
  refine ⟨hinv, hstep, fun j _ => rely_processes (fun q => lookup_erase_some) ?_⟩
  rintro k ⟨hpos, q, contents, startedAt, hq, hfile, hparse⟩
  exact ⟨hpos, q, contents, startedAt, lookup_erase_some hq, hfile, hparse⟩

end QuokyPlatform.InstanceLock
