import QuokyPlatform.Foundations.Triple
import QuokyPlatform.InstanceLock.Ownership

/-! # The protocol keeps the discipline

What a process knows at each point of `acquireInstanceLock` and `release`, as long as it is alive:
that a generation has been seen, that nobody else owns the one it judged free, that its temporary file
is there, that it made the highest generation or a higher one exists, and at last that it owns the
lock. -/

namespace QuokyPlatform.InstanceLock

set_option autoImplicit false
set_option maxHeartbeats 250000

variable {bootId : ℕ → String} {i : ℕ}

/-! ## What a live process knows -/

/-- A property of the host that the others do not touch while process `i` lives as `p`. -/
def Stable (i : ℕ) (p : Process) (F : Host → Prop) : Prop :=
  ∀ s t, Rely i s t → s.processes.lookup i = some p → t.processes.lookup i = some p → F s → F t

/-- If the process is alive, it is `p` and `F` holds. -/
def live (bootId : ℕ → String) (i : ℕ) (p : Process) (F : Host → Prop) (hF : Stable i p F) :
    Assertion (discipline bootId) i where
  holds s := ∀ q, s.processes.lookup i = some q → q = p ∧ F s
  stable s t hR hs q hq := by
    have hbefore := Rely.self hR q hq
    obtain ⟨rfl, hF'⟩ := hs q hbefore
    exact ⟨rfl, hF s t hR hbefore hq hF'⟩

/-- The highest generation is at least this one. -/
def Seen (top : ℕ) (s : Host) : Prop := top ≤ s.files.top

/-- While `top` is the highest generation, its file says this. -/
def Says (top : ℕ) (contents : Contents) (s : Host) : Prop :=
  top ≤ s.files.top ∧
    (s.files.top = top → s.files.lookup (generationPath top) = some contents)

/-- While `top` is the highest generation, no other process owns it. -/
def Free (i top : ℕ) (s : Host) : Prop :=
  top ≤ s.files.top ∧ (s.files.top = top → ∀ j, j ≠ i → ¬ Owned s j)

/-- The temporary file of a record is there. -/
def Drafted (record : InstanceLockRecord) (generation : ℕ) (s : Host) : Prop :=
  s.files.lookup (tempPath record generation) = some (some record.toJson)

/-- The process owns the lock with this generation. -/
def Sole (i generation : ℕ) (s : Host) : Prop := s.files.top = generation ∧ Owned s i

/-- It owns the lock with this generation, or a higher one exists. -/
def Made (i generation : ℕ) (s : Host) : Prop := Sole i generation s ∨ generation < s.files.top

variable {p : Process}

theorem mem_of_live {s : Host} (h : s.processes.lookup i = some p) : i ∈ s.processes :=
  mem_of_lookup h

theorem stable_const {P : Prop} : Stable i p fun _ => P := fun _ _ _ _ _ h => h

theorem stable_and {F G : Host → Prop} (hF : Stable i p F) (hG : Stable i p G) :
    Stable i p fun s => F s ∧ G s :=
  fun s t hR hs ht h => ⟨hF s t hR hs ht h.1, hG s t hR hs ht h.2⟩

theorem stable_seen (top : ℕ) : Stable i p (Seen top) :=
  fun _ _ hR _ _ h => le_trans h hR.mono

theorem stable_told (top : ℕ) (contents : Contents) : Stable i p (Says top contents) := by
  intro s t hR _ _ ⟨hle, hsays⟩
  refine ⟨hle.trans hR.mono, fun htop => ?_⟩
  have hbefore : s.files.top = top := le_antisymm (htop ▸ hR.mono) hle
  rw [← htop, hR.top (hbefore.trans htop.symm), hbefore]
  exact hsays hbefore

theorem stable_free (top : ℕ) : Stable i p (Free i top) := by
  intro s t hR _ _ ⟨hle, hfree⟩
  refine ⟨hle.trans hR.mono, fun htop j hj hown => ?_⟩
  have hbefore : s.files.top = top := le_antisymm (htop ▸ hR.mono) hle
  exact hfree hbefore j hj (hR.owns (hbefore.trans htop.symm) j hown)

theorem stable_drafted {record : InstanceLockRecord} (hrecord : record.token = p.token)
    (generation : ℕ) : Stable i p (Drafted record generation) := by
  intro s t hR _ ht h
  show t.files.lookup _ = _
  rw [hR.temps p ht record generation hrecord]
  exact h

theorem stable_sole (generation : ℕ) : Stable i p (Sole i generation) := by
  rintro s t hR _ ht ⟨rfl, hown⟩
  exact hR.owned (mem_of_live ht) hown

theorem stable_made (generation : ℕ) : Stable i p (Made i generation) := by
  intro s t hR hs ht h
  rcases h with h | h
  · exact .inl (stable_sole generation s t hR hs ht h)
  · exact .inr (lt_of_lt_of_le h hR.mono)

/-! ## Operations -/

section

variable {F : Assertion (discipline bootId) i}

/-- A file operation that succeeds or fails. -/
theorem file_triple {α : Type} {op : Host → Except Fault α × Host}
    {G : Except Fault α → Assertion (discipline bootId) i}
    (h : ∀ t q, Inv bootId t → F.holds t → t.processes.lookup i = some q →
      (discipline bootId).Guar i t (op t).2 ∧ (G (op t).1).holds (op t).2)
    (hfault : ∀ t, Inv bootId t → F.holds t → (G (.error .failed)).holds t) :
    Program.Triple F (file i op) G := by
  refine .perform fun t ht hF input result u hop => ?_
  split at hop
  · rename_i hi
    obtain ⟨q, hq⟩ := lookup_of_mem hi
    split at hop
    · obtain ⟨hguar, hG⟩ := h t q ht hF hq
      rw [Option.some.inj hop] at hguar hG
      exact ⟨hguar, hG⟩
    · cases hop
      exact ⟨Discipline.Guar.refl ht, hfault _ ht hF⟩
    · cases hop
  · cases hop

def unavailable {α : Type} : Except Fault α → Except Fault α
  | .ok a => .ok a
  | .error _ => .error (.lock .instanceLockUnavailable)

theorem orUnavailable_triple {α : Type} {call : Call α}
    {G : Except Fault α → Assertion (discipline bootId) i}
    (h : Program.Triple F call fun result => G (unavailable result)) :
    Program.Triple F (orUnavailable call) G := by
  refine h.attempt fun result => ?_
  cases result with
  | ok a => exact .pure fun t _ hG => hG
  | error e => exact .raise fun t _ hG => hG

theorem listed_triple {G : Except Fault (List ℕ) → Assertion (discipline bootId) i}
    (hok : ∀ t, Inv bootId t → F.holds t → (G (.ok (listGenerations t.files.keys))).holds t)
    (herror : ∀ t, Inv bootId t → F.holds t →
      (G (.error (.lock .instanceLockUnavailable))).holds t) :
    Program.Triple F (listed i) G := by
  have hread : Program.Triple F (readdir i) fun result =>
      G ((unavailable result).map listGenerations) :=
    file_triple (fun t _ ht hF _ => ⟨Discipline.Guar.refl ht, hok t ht hF⟩) herror
  exact (orUnavailable_triple (G := fun result => G (result.map listGenerations)) hread).map

theorem highestGeneration_triple {G : Except Fault ℕ → Assertion (discipline bootId) i}
    (hok : ∀ t, Inv bootId t → F.holds t → (G (.ok t.files.top)).holds t)
    (herror : ∀ t, Inv bootId t → F.holds t →
      (G (.error (.lock .instanceLockUnavailable))).holds t) :
    Program.Triple F (highestGeneration i) G :=
  (listed_triple (G := fun result => G (result.map highest)) hok herror).map

theorem readOrUndefined_triple {name : String}
    {G : Except Fault (Option Contents) → Assertion (discipline bootId) i}
    (hread : ∀ t contents, Inv bootId t → F.holds t → t.files.lookup name = some contents →
      (G (.ok (some contents))).holds t)
    (hnone : ∀ t, Inv bootId t → F.holds t → (G (.ok none)).holds t) :
    Program.Triple F (readOrUndefined i name) G := by
  let M : Except Fault Contents → Assertion (discipline bootId) i := fun result =>
    G (.ok result.toOption)
  have hfile : Program.Triple F (readFile i name) M := by
    refine file_triple (fun t q ht hF _ => ?_) hnone
    cases hlookup : t.files.lookup name with
    | none => exact ⟨Discipline.Guar.refl ht, hnone t ht hF⟩
    | some contents => exact ⟨Discipline.Guar.refl ht, hread t contents ht hF hlookup⟩
  refine hfile.attempt fun result => ?_
  cases result with
  | ok contents => exact .pure fun t _ hG => hG
  | error e => exact .pure fun t _ hG => hG

theorem removeQuietly_triple {name : String} {G : Except Fault Unit → Assertion (discipline bootId) i}
    (herase : ∀ t q, Inv bootId t → F.holds t → t.processes.lookup i = some q →
      (discipline bootId).Guar i t { t with files := t.files.erase name } ∧
        (G (.ok ())).holds { t with files := t.files.erase name })
    (hnone : ∀ t, Inv bootId t → F.holds t → (G (.ok ())).holds t) :
    Program.Triple F (removeQuietly i name) G := by
  have hunlink : Program.Triple F (unlink i name) fun _ => G (.ok ()) := by
    refine file_triple (fun t q ht hF hq => ?_) hnone
    by_cases hname : name ∈ t.files
    · rw [if_pos hname]
      exact herase t q ht hF hq
    · rw [if_neg hname]
      exact ⟨Discipline.Guar.refl ht, hnone t ht hF⟩
  exact hunlink.attempt fun result => .pure fun t _ hG => hG

end

/-- What a process knows, and does not forget when garbage is removed: a generation below the highest,
or a temporary file. -/
structure Kept (F : Host → Prop) (generation : ℕ) : Prop where
  seen : ∀ t, F t → generation ≤ t.files.top
  erase : ∀ t name, name ≠ generationPath t.files.top → F t →
    F { t with files := t.files.erase name }

theorem ne_top {t : Host} {g : ℕ} (h : g < t.files.top) :
    generationPath g ≠ generationPath t.files.top :=
  fun heq => h.ne (generationPath_injective heq)

theorem owned_erase {t : Host} {name : String} (hname : name ≠ generationPath t.files.top) (j : ℕ) :
    Owned { t with files := t.files.erase name } j ↔ Owned t j :=
  owned_files (Directory.top_erase hname) (AList.lookup_erase_ne hname.symm) j

theorem kept_seen (generation : ℕ) : Kept (Seen generation) generation where
  seen _ h := h
  erase t name hname h := by
    show generation ≤ Directory.top (t.files.erase name)
    rw [Directory.top_erase hname]
    exact h

theorem kept_sole (generation : ℕ) : Kept (Sole i generation) generation where
  seen _ h := h.1.ge
  erase _ _ hname h :=
    ⟨(Directory.top_erase hname).trans h.1, (owned_erase hname i).mpr h.2⟩

theorem kept_made (generation : ℕ) : Kept (Made i generation) generation where
  seen t h := by
    rcases h with h | h
    · exact h.1.ge
    · exact h.le
  erase t name hname h := by
    rcases h with h | h
    · exact .inl ((kept_sole generation).erase t name hname h)
    · refine .inr ?_
      show generation < Directory.top (t.files.erase name)
      rw [Directory.top_erase hname]
      exact h

/-- The call ends here, and does not throw. -/
def quietly (A : Assertion (discipline bootId) i) : Except Fault Unit → Assertion (discipline bootId) i
  | .ok _ => A
  | .error _ => .pure _ i False

theorem removeEach_triple {F : Host → Prop} {hF : Stable i p F} {generation : ℕ}
    (hkept : Kept F generation) (generations : List ℕ) (hbelow : ∀ g ∈ generations, g < generation) :
    Program.Triple (live bootId i p F hF) (removeEach i generations)
      (quietly (live bootId i p F hF)) := by
  induction generations with
  | nil => exact .pure fun _ _ h => h
  | cons g rest ih =>
    refine Program.Triple.bind (M := quietly (live bootId i p F hF)) ?_
      (fun _ => ih fun g hg => hbelow g (List.mem_cons_of_mem _ hg)) fun _ _ _ h => h
    refine removeQuietly_triple (fun t q ht h hq => ?_) fun _ _ h => h
    have hg : g < t.files.top :=
      lt_of_lt_of_le (hbelow g List.mem_cons_self) (hkept.seen t (h q hq).2)
    exact ⟨guar_erase_generation ht hg, fun r hr => ⟨(h r hr).1, hkept.erase t _ (ne_top hg) (h r hr).2⟩⟩

theorem removeGenerationsBelow_triple {F : Host → Prop} {hF : Stable i p F} {generation : ℕ}
    (hkept : Kept F generation) :
    Program.Triple (live bootId i p F hF) (removeGenerationsBelow i generation)
      (quietly (live bootId i p F hF)) := by
  have hlisted : Program.Triple (live bootId i p F hF) (listed i) fun _ => live bootId i p F hF :=
    listed_triple (fun _ _ h => h) fun _ _ h => h
  refine hlisted.attempt fun result => ?_
  cases result with
  | ok generations =>
    refine removeEach_triple hkept _ fun g hg => ?_
    simpa using (List.mem_filter.mp hg).2
  | error e => exact .pure fun _ _ h => h

/-! ## A new generation -/

theorem top_insert_temp {t : Host} {record : InstanceLockRecord} {n : ℕ} {contents : Contents} :
    Directory.top (t.files.insert (tempPath record n) contents) = t.files.top :=
  Directory.top_insert_other (generationOf_tempPath record n)

theorem free_insert_temp {t : Host} {record : InstanceLockRecord} {n top : ℕ} {contents : Contents}
    (h : Free i top t) :
    Free i top { t with files := t.files.insert (tempPath record n) contents } := by
  have htop := @top_insert_temp t record n contents
  have hsame : (t.files.insert (tempPath record n) contents).lookup (generationPath t.files.top) =
      t.files.lookup (generationPath t.files.top) :=
    AList.lookup_insert_ne (generationPath_ne_tempPath _ record n)
  refine ⟨h.1.trans htop.ge, fun heq j hj hown => ?_⟩
  exact h.2 (htop.symm.trans heq) j hj ((owned_files htop hsame j).mp hown)

/-- A record of its own, in the process. -/
structure Writes (p : Process) (record : InstanceLockRecord) : Prop where
  token : record.token = p.token
  pid : isProcessId record.pid = true
  unlocks : (p.afterLink record).lock = none

theorem afterLink_same (p : Process) (record : InstanceLockRecord) :
    (p.afterLink record).pid = p.pid ∧ (p.afterLink record).bootId = p.bootId ∧
      (p.afterLink record).token = p.token ∧ (p.afterLink record).outcome = p.outcome := by
  cases record <;> exact ⟨rfl, rfl, rfl, rfl⟩

theorem writes_known {t : Host} (ht : Inv bootId t) (hp : t.processes.lookup i = some p)
    {record : InstanceLockRecord} (hwrites : Writes p record) (read : InstanceLockRecord)
    (h : parseLockRecord (some record.toJson) = some read) : read.token ∈ t.tokens := by
  rw [parseLockRecord_toJson hwrites.pid] at h
  obtain rfl := Option.some.inj h
  rw [hwrites.token]
  exact ht.known i p hp

theorem draft_triple {record : InstanceLockRecord} (hwrites : Writes p record) (top n : ℕ) :
    Program.Triple (live bootId i p (Free i top) (stable_free top))
      (orUnavailable (writeNew i (tempPath record n) (some record.toJson))) fun result =>
        match result with
        | .ok _ => live bootId i p (fun s => Free i top s ∧ Drafted record n s)
          (stable_and (stable_free top) (stable_drafted hwrites.token n))
        | .error e => live bootId i p (fun _ => ∃ code, e = .lock code) stable_const := by
  refine orUnavailable_triple (file_triple (fun t q ht h hq => ?_) fun t _ h q hq => ?_)
  · by_cases hname : tempPath record n ∈ t.files
    · rw [if_pos hname]
      exact ⟨Discipline.Guar.refl ht, fun r hr => ⟨(h r hr).1, _, rfl⟩⟩
    · rw [if_neg hname]
      obtain ⟨rfl, hfree⟩ := h q hq
      constructor
      · refine guar_insert ht (.refl i t) top_insert_temp (generationPath_ne_tempPath _ record n).symm
          (writes_known ht hq hwrites) ?_
        intro j hj r hr other m htoken heq
        refine hj (ht.tokens j i r q hr hq ?_)
        rw [← htoken, tempPath_token heq, hwrites.token]
      · exact fun r hr => ⟨(h r hr).1, free_insert_temp hfree, AList.lookup_insert _⟩
  · exact ⟨(h q hq).1, _, rfl⟩

theorem link_triple {record : InstanceLockRecord} (hwrites : Writes p record) {top : ℕ}
    {H : Host → Prop} (hH : Stable i (p.afterLink record) H)
    (hmade : ∀ s, s.files.top = top + 1 → s.processes.lookup i = some (p.afterLink record) →
      s.files.lookup (generationPath (top + 1)) = some (some record.toJson) → H s)
    (hlate : ∀ s, top + 1 < s.files.top → H s) :
    Program.Triple (live bootId i p (fun s => Free i top s ∧ Drafted record (top + 1) s)
        (stable_and (stable_free top) (stable_drafted hwrites.token _)))
      (link i record (top + 1)) fun result =>
        match result with
        | .ok _ => live bootId i (p.afterLink record) H hH
        | .error _ => live bootId i p (fun _ => True) stable_const := by
  refine .perform fun t ht h input result u hop => ?_
  cases hq : t.processes.lookup i with
  | none =>
    rw [hq] at hop
    cases hop
  | some q =>
    obtain ⟨rfl, ⟨hseen, hfree⟩, hdraft⟩ := h q hq
    have hunlocked : Unlocked i t (t.processes.insert i (q.afterLink record)) := by
      refine ⟨fun j r hr => ?_⟩
      by_cases hj : j = i
      · subst hj
        rw [AList.lookup_insert] at hr
        obtain rfl := Option.some.inj hr
        obtain ⟨hpid, hboot, htoken, houtcome⟩ := afterLink_same q record
        exact ⟨q, hq, hpid, hboot, htoken, houtcome, .inr ⟨rfl, hwrites.unlocks⟩⟩
      · rw [AList.lookup_insert_ne hj] at hr
        exact ⟨r, hr, rfl, rfl, rfl, rfl, .inl rfl⟩
    cases input with
    | fault =>
      rw [hq] at hop
      cases hop
      exact ⟨Discipline.Guar.refl ht, fun r hr => ⟨(h r hr).1, trivial⟩⟩
    | fine =>
      simp only [hq] at hop
      rw [show t.files.lookup (tempPath record (top + 1)) = _ from hdraft] at hop
      simp only at hop
      split at hop
      · cases hop
        exact ⟨Discipline.Guar.refl ht, fun r hr => ⟨(h r hr).1, trivial⟩⟩
      · rename_i hnew
        split at hop
        · rename_i hbound
          cases hop
          have hafter : (t.processes.insert i (q.afterLink record)).lookup i =
              some (q.afterLink record) := AList.lookup_insert _
          have hwritten := writes_known ht hq hwrites
          by_cases htop : t.files.top = top
          · have htop' : Directory.top (t.files.insert (generationPath (top + 1))
                (some record.toJson)) = top + 1 := by
              rw [Directory.top_insert (by omega) (by omega), htop, max_eq_right (by omega)]
            refine ⟨guar_supersede ht hunlocked (fun r hr => ?_) (by omega) hbound hwritten
              (hfree htop), fun r hr => ⟨Option.some.inj (hr.symm.trans hafter), ?_⟩⟩
            · rw [Option.some.inj (hr.symm.trans hafter)]
              exact hwrites.unlocks
            · exact hmade _ htop' hafter (AList.lookup_insert _)
          · -- the name was removed before: a higher generation exists
            have hne : t.files.top ≠ top + 1 := by
              intro heq
              have hmem : generationPath t.files.top ∈ t.files := Directory.top_mem (by omega)
              rw [heq] at hmem
              exact hnew hmem
            have hlt : top + 1 < t.files.top := by omega
            have htop' : Directory.top (t.files.insert (generationPath (top + 1))
                (some record.toJson)) = t.files.top := by
              rw [Directory.top_insert (by omega) (by omega), max_eq_left hlt.le]
            refine ⟨guar_insert ht hunlocked htop' (ne_top hlt) hwritten fun _ _ _ _ other n _ =>
              (generationPath_ne_tempPath _ other n).symm,
              fun r hr => ⟨Option.some.inj (hr.symm.trans hafter), hlate _ ?_⟩⟩
            exact hlt.trans_eq htop'.symm
        · cases hop
    | _ =>
      rw [hq] at hop
      cases hop

theorem removeTemp_triple {record : InstanceLockRecord} (hrecord : record.token = p.token) {n : ℕ}
    {F : Host → Prop} {hF : Stable i p F} (hkept : ∀ t name, name ≠ generationPath t.files.top →
      F t → F { t with files := t.files.erase name }) :
    Program.Triple (live bootId i p F hF) (removeQuietly i (tempPath record n))
      (quietly (live bootId i p F hF)) := by
  refine removeQuietly_triple (fun t q ht h hq => ?_) fun _ _ h => h
  have htoken : record.token = q.token := by rw [hrecord, (h q hq).1]
  refine ⟨guar_erase_temp ht hq htoken n, fun r hr => ⟨(h r hr).1, ?_⟩⟩
  exact hkept t _ (generationPath_ne_tempPath _ record n).symm (h r hr).2

theorem createGeneration_triple {record : InstanceLockRecord} (hwrites : Writes p record) {top : ℕ}
    {H : Host → Prop} (hH : Stable i (p.afterLink record) H) (hkept : Kept H (top + 1))
    (hmade : ∀ s, s.files.top = top + 1 → s.processes.lookup i = some (p.afterLink record) →
      s.files.lookup (generationPath (top + 1)) = some (some record.toJson) → H s)
    (hlate : ∀ s, top + 1 < s.files.top → H s) :
    Program.Triple (live bootId i p (Free i top) (stable_free top))
      (createGeneration i (top + 1) record) fun result =>
        match result with
        | .ok true => live bootId i (p.afterLink record) H hH
        | .ok false => live bootId i p (fun _ => True) stable_const
        | .error e => live bootId i p (fun _ => ∃ code, e = .lock code) stable_const := by
  refine (draft_triple hwrites top (top + 1)).bind (fun _ => ?_) fun e t _ h => h
  refine (link_triple hwrites hH hmade hlate).attempt fun linked => ?_
  cases linked with
  | ok _ =>
    have htoken : record.token = (p.afterLink record).token := by
      rw [hwrites.token, (afterLink_same p record).2.2.1]
    exact (removeTemp_triple htoken hkept.erase).bind (fun _ => .pure fun _ _ h => h)
      fun _ _ _ hfalse => hfalse.elim
  | error e =>
    refine (removeTemp_triple hwrites.token fun _ _ _ h => h).bind (fun _ => ?_)
      fun _ _ _ hfalse => hfalse.elim
    cases e with
    | alreadyExists => exact .pure fun _ _ h => h
    | _ => exact .raise fun t _ h q hq => ⟨(h q hq).1, _, rfl⟩

/-! ## Acquisition -/

/-- What a process is in its own record. -/
structure Records (p : Process) (own : Self) (record : InstanceLockRecord) : Prop where
  pid : own.pid = p.pid
  bootId : own.bootId = p.bootId
  held : ∃ startedAt, record = .held p.pid startedAt p.bootId p.token
  valid : isProcessId p.pid = true
  unlocked : p.lock = none

variable {own : Self} {record : InstanceLockRecord}

theorem Records.writes (h : Records p own record) : Writes p record ∧ p.afterLink record = p := by
  obtain ⟨startedAt, rfl⟩ := h.held
  exact ⟨⟨rfl, h.valid, h.unlocked⟩, rfl⟩

theorem owned_told {top : ℕ} {text : Contents} {t : Host} (h : Says top text t)
    (htop : t.files.top = top) {j : ℕ} (hown : Owned t j) :
    ∃ q startedAt, t.processes.lookup j = some q ∧
      parseLockRecord text = some (.held q.pid startedAt q.bootId q.token) := by
  obtain ⟨-, q, contents, startedAt, hq, hfile, hparse⟩ := hown
  rw [htop, h.2 htop] at hfile
  rw [← Option.some.inj hfile] at hparse
  exact ⟨q, startedAt, hq, hparse⟩

/-- Two live processes are of the same boot. -/
theorem not_rebooted {t : Host} (ht : Inv bootId t) {j k : ℕ} {q r : Process}
    (hq : t.processes.lookup j = some q) (hr : t.processes.lookup k = some r) :
    rebooted q.bootId r.bootId = false := by
  cases hboot : q.bootId with
  | none => rfl
  | some boot =>
    cases hboot' : r.bootId with
    | none => rfl
    | some boot' =>
      simp [rebooted, ht.boots j q hq boot hboot, ht.boots k r hr boot' hboot']

/-- A generation that is judged free is owned by no other live process. -/
theorem isFree_triple (hrecords : Records p own record) {top : ℕ} {text : Contents} :
    Program.Triple (live bootId i p (Says top text) (stable_told top text))
      (isFree i (parseLockRecord text) own) fun result =>
        match result with
        | .ok true => live bootId i p (Free i top) (stable_free top)
        | .ok false => live bootId i p (fun _ => True) stable_const
        | .error e => live bootId i p (fun _ => ∃ code, e = .lock code) stable_const := by
  -- free because of what it says: nobody who says otherwise owns it
  have hfree : ∀ t, (live bootId i p (Says top text) (stable_told top text)).holds t →
      (t.processes.lookup i = some p → ∀ j q startedAt, j ≠ i → t.processes.lookup j = some q →
        parseLockRecord text ≠ some (.held q.pid startedAt q.bootId q.token)) →
      (live bootId i p (Free i top) (stable_free top)).holds t := by
    intro t h hnobody q hq
    obtain ⟨rfl, hsays⟩ := h q hq
    refine ⟨rfl, hsays.1, fun htop j hj hown => ?_⟩
    obtain ⟨r, startedAt, hr, hparse⟩ := owned_told hsays htop hown
    exact hnobody hq j r startedAt hj hr hparse
  cases hparse : parseLockRecord text with
  | none =>
    refine .pure fun t _ h => hfree t h fun _ j q startedAt _ _ heq => ?_
    rw [hparse] at heq
    cases heq
  | some existing =>
    cases existing with
    | released pid releasedAt token =>
      refine .pure fun t _ h => hfree t h fun _ j q startedAt _ _ heq => ?_
      rw [hparse] at heq
      cases heq
    | held pid startedAt boot token =>
      simp only [isFree]
      split
      · -- our own pid, and we hold no lock yet
        rename_i hpid
        refine .pure fun t ht h => hfree t h fun hp j q started hj hq heq => ?_
        rw [hparse] at heq
        simp only [Option.some.injEq, InstanceLockRecord.held.injEq] at heq
        exact hj (ht.pids j i q p hq hp (by rw [← heq.1, hpid, hrecords.pid]))
      · let M : Except Fault Bool → Assertion (discipline bootId) i := fun alive =>
          match alive with
          | .ok alive => if (!alive || rebooted boot own.bootId) = true then
              live bootId i p (Free i top) (stable_free top)
            else live bootId i p (fun _ => True) stable_const
          | .error _ => .pure _ i False
        have halive : Program.Triple (live bootId i p (Says top text) (stable_told top text))
            (isProcessAlive i pid) M := by
          refine .perform fun t ht h input result u hop => ?_
          split at hop
          · split at hop
            · rename_i used
              cases hop
              refine ⟨Discipline.Guar.refl ht, ?_⟩
              simp only [M]
              split
              · rename_i hjudged
                refine hfree t h fun hp j q started _ hq heq => ?_
                rw [hparse] at heq
                simp only [Option.some.injEq, InstanceLockRecord.held.injEq] at heq
                obtain ⟨hpid, -, hboot, -⟩ := heq
                have halive : t.processes.entries.any (fun entry => entry.2.pid = pid) = true :=
                  List.any_eq_true.mpr ⟨⟨j, q⟩, AList.mem_lookup_iff.mp hq, by simp [hpid]⟩
                rw [halive, hboot, hrecords.bootId, not_rebooted ht hq hp] at hjudged
                simp at hjudged
              · exact fun q hq => ⟨(h q hq).1, trivial⟩
            · cases hop
          · cases hop
        refine halive.bind (fun alive => ?_) fun _ _ _ hfalse => hfalse.elim
        refine .pure fun t _ h => ?_
        cases hjudged : !alive || rebooted boot own.bootId with
        | true => simpa only [M, hjudged, if_true] using h
        | false => simpa only [M, hjudged, Bool.false_eq_true, if_false] using h

/-- What a process knows after a round. -/
def taken (bootId : ℕ → String) (i : ℕ) (p : Process) :
    Except Fault (Option ℕ) → Assertion (discipline bootId) i
  | .ok none => live bootId i p (fun _ => True) stable_const
  | .ok (some mine) => live bootId i p (Sole i mine) (stable_sole mine)
  | .error e => live bootId i p (fun _ => ∃ code, e = .lock code) stable_const

/-- What a process knows after its acquisition. -/
def acquired (bootId : ℕ → String) (i : ℕ) (p : Process) :
    Except Fault ℕ → Assertion (discipline bootId) i
  | .ok mine => live bootId i p (Sole i mine) (stable_sole mine)
  | .error e => live bootId i p (fun _ => ∃ code, e = .lock code) stable_const

theorem create_triple (hrecords : Records p own record) (top : ℕ) :
    Program.Triple (live bootId i p (Free i top) (stable_free top))
      (createGeneration i (top + 1) record) fun result =>
        match result with
        | .ok true => live bootId i p (Made i (top + 1)) (stable_made (top + 1))
        | .ok false => live bootId i p (fun _ => True) stable_const
        | .error e => live bootId i p (fun _ => ∃ code, e = .lock code) stable_const := by
  obtain ⟨hwrites, hsame⟩ := hrecords.writes
  have hmade : ∀ s, s.files.top = top + 1 → s.processes.lookup i = some (p.afterLink record) →
      s.files.lookup (generationPath (top + 1)) = some (some record.toJson) →
      Made i (top + 1) s := by
    intro s htop hp hfile
    obtain ⟨startedAt, hheld⟩ := hrecords.held
    refine .inl ⟨htop, by omega, p, some record.toJson, startedAt, hsame ▸ hp, htop ▸ hfile, ?_⟩
    rw [parseLockRecord_toJson hwrites.pid, hheld]
  refine (createGeneration_triple hwrites (stable_made (top + 1)) (kept_made (top + 1)) hmade
    fun s hs => .inr hs).weaken fun result t _ h => ?_
  cases result with
  | error e => exact h
  | ok created =>
    cases created with
    | false => exact h
    | true =>
      intro q hq
      rw [← hsame]
      exact h q hq

theorem takeOver_triple (hrecords : Records p own record) (top : ℕ) :
    Program.Triple (live bootId i p (Free i top) (stable_free top)) (takeOver i record top)
      (taken bootId i p) := by
  refine (create_triple hrecords top).bind (fun created => ?_) fun _ _ _ h => h
  cases created with
  | false => exact .pure fun _ _ h => h
  | true =>
    -- the verification sees a higher generation, or the process owns the lock
    let M : Except Fault ℕ → Assertion (discipline bootId) i := fun seen =>
      match seen with
      | .ok seen => if seen > top + 1 then live bootId i p (fun s => top + 1 < s.files.top)
          fun _ _ hR _ _ h => lt_of_lt_of_le h hR.mono
        else live bootId i p (Sole i (top + 1)) (stable_sole (top + 1))
      | .error e => live bootId i p (fun _ => ∃ code, e = .lock code) stable_const
    have hverify : Program.Triple (live bootId i p (Made i (top + 1)) (stable_made (top + 1)))
        (highestGeneration i) M := by
      refine highestGeneration_triple (fun t _ h => ?_) fun t _ h q hq => ⟨(h q hq).1, _, rfl⟩
      simp only [M]
      split
      · rename_i hlater
        exact fun q hq => ⟨(h q hq).1, hlater⟩
      · rename_i hnone
        refine fun q hq => ⟨(h q hq).1, (h q hq).2.resolve_right hnone⟩
    refine hverify.bind (fun seen => ?_) fun _ _ _ h => h
    simp only [M]
    split
    · refine Program.Triple.bind (M := quietly (live bootId i p (fun _ => True) stable_const))
        (removeQuietly_triple (fun t q ht h hq => ?_) fun _ _ h q hq => ⟨(h q hq).1, trivial⟩)
        (fun _ => .pure fun _ _ h => h) fun _ _ _ hfalse => hfalse.elim
      exact ⟨guar_erase_generation ht (h q hq).2, fun r hr => ⟨(h r hr).1, trivial⟩⟩
    · exact (removeGenerationsBelow_triple (kept_sole (top + 1))).bind
        (fun _ => .pure fun _ _ h => h) fun _ _ _ hfalse => hfalse.elim

theorem round_triple (hrecords : Records p own record) :
    Program.Triple (live bootId i p (fun _ => True) stable_const) (round i own record)
      (taken bootId i p) := by
  let M : Except Fault ℕ → Assertion (discipline bootId) i := fun top =>
    match top with
    | .ok top => live bootId i p (Seen top) (stable_seen top)
    | .error e => live bootId i p (fun _ => ∃ code, e = .lock code) stable_const
  have hlist : Program.Triple (live bootId i p (fun _ => True) stable_const) (highestGeneration i) M :=
    highestGeneration_triple (fun t _ h q hq => ⟨(h q hq).1, le_refl t.files.top⟩)
      fun t _ h q hq => ⟨(h q hq).1, _, rfl⟩
  refine hlist.bind (fun top => ?_) fun _ _ _ h => h
  simp only [M]
  split
  · let N : Except Fault (Option Contents) → Assertion (discipline bootId) i := fun text =>
      match text with
      | .ok none => live bootId i p (fun _ => True) stable_const
      | .ok (some text) => live bootId i p (Says top text) (stable_told top text)
      | .error _ => .pure _ i False
    have hread : Program.Triple (live bootId i p (Seen top) (stable_seen top))
        (readOrUndefined i (generationPath top)) N :=
      readOrUndefined_triple
        (fun t text _ h hfile q hq => ⟨(h q hq).1, (h q hq).2, fun _ => hfile⟩)
        fun t _ h q hq => ⟨(h q hq).1, trivial⟩
    refine hread.bind (fun text => ?_) fun _ _ _ hfalse => hfalse.elim
    cases text with
    | none => exact .pure fun _ _ h => h
    | some text =>
      refine (isFree_triple hrecords).bind (fun free => ?_) fun _ _ _ h => h
      cases free with
      | true => exact takeOver_triple hrecords top
      | false => exact .raise fun t _ h q hq => ⟨(h q hq).1, _, rfl⟩
  · -- an empty directory is owned by nobody
    rename_i hzero
    refine (takeOver_triple hrecords top).strengthen fun t _ h q hq => ?_
    refine ⟨(h q hq).1, (h q hq).2, fun htop j _ hown => ?_⟩
    have hpos := hown.top
    omega

theorem rounds_triple (hrecords : Records p own record) (more : ℕ) :
    Program.Triple (live bootId i p (fun _ => True) stable_const) (rounds i own record more)
      (acquired bootId i p) := by
  induction more with
  | zero => exact .raise fun t _ h q hq => ⟨(h q hq).1, _, rfl⟩
  | succ more ih =>
    refine (round_triple hrecords).bind (fun mine => ?_) fun _ _ _ h => h
    cases mine with
    | none => exact ih
    | some mine => exact .pure fun _ _ h => h

/-- An acquisition ends with the lock, or with an error of the lock. -/
theorem acquireInstanceLock_triple (hrecords : Records p own record) :
    Program.Triple (live bootId i p (fun _ => True) stable_const)
      (acquireInstanceLock i own record) (acquired bootId i p) := by
  let M : Except Fault Unit → Assertion (discipline bootId) i := fun made =>
    match made with
    | .ok _ => live bootId i p (fun _ => True) stable_const
    | .error e => live bootId i p (fun _ => ∃ code, e = .lock code) stable_const
  have hmkdir : Program.Triple (live bootId i p (fun _ => True) stable_const)
      (orUnavailable (mkdir i)) M :=
    orUnavailable_triple (file_triple (fun t q ht h _ => ⟨Discipline.Guar.refl ht, h⟩)
      fun t _ h q hq => ⟨(h q hq).1, _, rfl⟩)
  exact hmkdir.bind (fun _ => rounds_triple hrecords MAX_ROUNDS) fun _ _ _ h => h

/-! ## Release -/

/-- The post of a call after which nothing is needed. -/
def finished (bootId : ℕ → String) (i : ℕ) {α : Type} :
    Except Fault α → Assertion (discipline bootId) i :=
  fun _ => .pure _ i True

/-- The lock is still owned after a call that did not throw. -/
def owning (bootId : ℕ → String) (i : ℕ) (p : Process) (generation : ℕ) {α : Type} :
    Except Fault α → Assertion (discipline bootId) i
  | .ok _ => live bootId i p (Sole i generation) (stable_sole generation)
  | .error _ => .pure _ i True

/-- As long as a live process owns the lock, nobody else does. -/
theorem free_of_sole {generation : ℕ} {t : Host} (ht : Inv bootId t) (h : Sole i generation t) :
    Free i generation t :=
  ⟨h.1.ge, fun _ _ hj hown => hj (ht.owner hown h.2)⟩

theorem marker_triple {generation : ℕ} {releasedAt : String} (hvalid : isProcessId record.pid = true)
    (htoken : record.token = p.token) :
    Program.Triple (live bootId i p (Sole i generation) (stable_sole generation))
      (createGeneration i (generation + 1) (.released record.pid releasedAt record.token))
      fun result =>
        match result with
        | .ok true =>
          live bootId i (p.afterLink (.released record.pid releasedAt record.token))
            (Seen (generation + 1)) (stable_seen (generation + 1))
        | _ => .pure _ i True := by
  have hwrites : Writes p (.released record.pid releasedAt record.token) := ⟨htoken, hvalid, rfl⟩
  have hcreate : Program.Triple (live bootId i p (Free i generation) (stable_free generation))
      _ _ := createGeneration_triple hwrites (stable_seen (generation + 1)) (kept_seen (generation + 1)) (fun s htop _ _ => htop.ge)
    fun s hs => hs.le
  refine (hcreate.weaken fun result t _ h => ?_).strengthen fun t ht h q hq =>
    ⟨(h q hq).1, free_of_sole ht (h q hq).2⟩
  match result with
  | .ok true => exact h
  | .ok false => trivial
  | .error e => trivial

/-- The owner marks the lock as released, or leaves it. -/
theorem release_triple {generation : ℕ} (hvalid : isProcessId record.pid = true)
    (htoken : record.token = p.token) :
    Program.Triple (live bootId i p (Sole i generation) (stable_sole generation))
      (release i record generation) (finished bootId i) := by
  refine Program.Triple.attempt (M := finished bootId i) ?_ fun _ => .pure fun _ _ _ => trivial
  refine Program.Triple.bind (M := owning bootId i p generation)
    (highestGeneration_triple (fun _ _ h => h) fun _ _ _ => trivial) (fun seen => ?_)
    fun _ _ _ _ => trivial
  split
  · exact .pure fun _ _ _ => trivial
  refine Program.Triple.bind (M := owning bootId i p generation)
    (readOrUndefined_triple (fun _ _ _ h _ => h) fun _ _ h => h) (fun text => ?_)
    fun _ _ _ _ => trivial
  cases text with
  | none => exact .pure fun _ _ _ => trivial
  | some current =>
    simp only
    split
    · exact .pure fun _ _ _ => trivial
    refine Program.Triple.bind (M := owning bootId i p generation) ?_ (fun releasedAt => ?_)
      fun _ _ _ _ => trivial
    · refine .perform fun t ht h input result u hop => ?_
      split at hop
      · split at hop
        · cases hop
          exact ⟨Discipline.Guar.refl ht, h⟩
        · cases hop
      · cases hop
    · refine (marker_triple hvalid htoken).bind (fun created => ?_) fun _ _ _ _ => trivial
      cases created with
      | false => exact .pure fun _ _ _ => trivial
      | true =>
        exact (removeGenerationsBelow_triple (kept_seen (generation + 1))).weaken
          fun _ _ _ _ => trivial

end QuokyPlatform.InstanceLock
