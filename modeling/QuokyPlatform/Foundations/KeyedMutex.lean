import QuokyPlatform.Foundations.Discipline

/-! # Keyed critical sections

Work on one key runs strictly one at a time, in arrival order; works on different keys interleave.
A work is a program; the first one of a key's queue is inside its section, and it leaves the queue
when it is over, whatever its result. A crash ends all works, wherever they are.

When the shared state has a slice for each key, and a work changes the slice of its own key only,
the works of a key find the slice as they left it: an invariant of the slices is then proved of one
work alone. -/

namespace QuokyPlatform

set_option autoImplicit false
set_option maxHeartbeats 250000

/-- The shared state, and the works of each key in arrival order. -/
structure KeyedMutex (κ σ ι ε : Type) where
  shared : σ
  queues : κ → List (Program σ ι ε Unit)

inductive MutexAction {κ : Type} (τ : κ → Type) (ι : Type)
  | arrive (key : κ) (work : τ key)
  | proceed (key : κ) (input : ι)
  | crash

namespace KeyedMutex

variable {κ σ ι ε : Type} {τ : κ → Type}

def start (s : σ) : KeyedMutex κ σ ι ε := { shared := s, queues := fun _ => [] }

/-- One action; the works here open no section of their own. -/
def step [DecidableEq κ] (body : (key : κ) → τ key → Program σ ι ε Unit) (mutex : KeyedMutex κ σ ι ε) :
    MutexAction τ ι → Option (KeyedMutex κ σ ι ε)
  | .arrive key work => some { mutex with
      queues := Function.update mutex.queues key (mutex.queues key ++ [body key work]) }
  | .proceed key input =>
    match mutex.queues key with
    | [] => none
    | .done _ :: waiting => some { mutex with queues := Function.update mutex.queues key waiting }
    | .atomic op next :: waiting => (op mutex.shared input).map fun (result, s) =>
      { shared := s, queues := Function.update mutex.queues key (next result :: waiting) }
    | .exclusive _ _ :: _ => none
  | .crash => some (start mutex.shared)

/-! ## Slices -/

section slices

variable {β : κ → Type} (slice : σ → (key : κ) → β key) (I : (key : κ) → β key → Prop)

/-- What the works of a key have to respect. -/
def within (key : κ) : Discipline σ where
  Inv s := ∀ k, I k (slice s k)
  Step s t := ∀ k, k ≠ key → slice t k = slice s k
  Rely _ _ _ := True
  step_refl _ _ _ := rfl
  rely_refl _ _ := trivial
  rely_trans _ _ := trivial

/-- What a work of a key may rely on while it is in its section. -/
def Untouched (key : κ) (s t : σ) : Prop := slice t key = slice s key

instance (key : κ) : Std.Refl (Untouched slice key) := ⟨fun _ => rfl⟩
instance (key : κ) : IsTrans σ (Untouched slice key) := ⟨fun _ _ _ h₁ h₂ => h₂.trans h₁⟩

variable {slice I}

/-- A work of the key, run from the slice, keeps the invariant and ends with this result on this
slice. -/
def Runs {α : Type} (slice : σ → (key : κ) → β key) (I : (key : κ) → β key → Prop) (key : κ)
    (p : Program σ ι ε α) (found : β key) (Q : Except ε α → β key → Prop) : Prop :=
  ∀ s, (∀ k, I k (slice s k)) → slice s key = found →
    p.Safe (within slice I key) 0 (Untouched slice key) (fun result t => Q result (slice t key)) s

/-- The slice a work starts from may be taken to satisfy the invariant. -/
theorem Runs.of_inv {α : Type} {key : κ} {p : Program σ ι ε α} {found : β key}
    {Q : Except ε α → β key → Prop} (h : I key found → Runs slice I key p found Q) :
    Runs slice I key p found Q :=
  fun s hs hfound => h (hfound ▸ hs key) s hs hfound

theorem Runs.done {α : Type} {key : κ} {result : Except ε α} {found : β key}
    {Q : Except ε α → β key → Prop} (h : Q result found) :
    Runs slice I key (.done result : Program σ ι ε α) found Q := by
  rintro s - rfl t - hst
  rw [hst]
  exact h

theorem Runs.perform {α : Type} {key : κ} {op : σ → ι → Option (Except ε α × σ)} {found : β key}
    {Q : Except ε α → β key → Prop}
    (h : ∀ s input result t, slice s key = found → I key found → op s input = some (result, t) →
      (∀ k, k ≠ key → slice t k = slice s k) ∧ I key (slice t key) ∧ Q result (slice t key)) :
    Runs slice I key (Program.perform op) found Q := by
  rintro s hs rfl
  refine Program.Safe.perform fun t ht hst input result u hop => ?_
  obtain ⟨hother, hkey, hQ⟩ := h t input result u hst (hs key) hop
  have hinv : ∀ k, I k (slice u k) := fun k => by
    by_cases hk : k = key
    · subst hk
      exact hkey
    · rw [hother k hk]
      exact ht k
  refine ⟨⟨hinv, hother, fun _ _ => trivial⟩, fun v _ huv => ?_⟩
  rw [huv]
  exact hQ

theorem Runs.andThen {α α' : Type} {key : κ} {p : Program σ ι ε α}
    {rest : Except ε α → Program σ ι ε α'} {found : β key} {M : Except ε α → β key → Prop}
    {Q : Except ε α' → β key → Prop} (h : Runs slice I key p found M)
    (hrest : ∀ result next, I key next → M result next → Runs slice I key (rest result) next Q) :
    Runs slice I key (p.andThen rest) found Q :=
  fun s hs hfound => (h s hs hfound).andThen fun result t ht hM =>
    hrest result (slice t key) (ht key) hM t ht rfl

theorem Runs.bind {α α' : Type} {key : κ} {p : Program σ ι ε α} {rest : α → Program σ ι ε α'}
    {found : β key} {M : Except ε α → β key → Prop} {Q : Except ε α' → β key → Prop}
    (h : Runs slice I key p found M)
    (hok : ∀ a next, I key next → M (.ok a) next → Runs slice I key (rest a) next Q)
    (herror : ∀ e next, M (.error e) next → Q (.error e) next) :
    Runs slice I key (p >>= rest) found Q := by
  refine Runs.andThen h fun result next hnext hM => ?_
  cases result with
  | ok a => exact hok a next hnext hM
  | error e => exact Runs.done (herror e next hM)

theorem Runs.attempt {α : Type} {key : κ} {p : Program σ ι ε α} {found : β key}
    {M : Except ε α → β key → Prop} (h : Runs slice I key p found M) :
    Runs slice I key (Program.attempt p) found fun result next =>
      ∃ inner, result = .ok inner ∧ M inner next :=
  Runs.andThen h fun result _ _ hM => Runs.done ⟨result, rfl, hM⟩

theorem Runs.weaken {α : Type} {key : κ} {p : Program σ ι ε α} {found : β key}
    {Q Q' : Except ε α → β key → Prop} (h : Runs slice I key p found Q)
    (hQ : ∀ result next, Q result next → Q' result next) : Runs slice I key p found Q' :=
  fun s hs hfound => (h s hs hfound).weaken fun result t _ => hQ result (slice t key)

/-! ## Queues -/

/-- A work that is safe wherever it starts. -/
def Fresh (slice : σ → (key : κ) → β key) (I : (key : κ) → β key → Prop) (key : κ)
    (p : Program σ ι ε Unit) : Prop :=
  ∀ s, (∀ k, I k (slice s k)) →
    p.Safe (within slice I key) 0 (Untouched slice key) (fun _ _ => True) s

/-- The first work of the queue is safe from here on, and each of the others from anywhere. -/
def InOrder (slice : σ → (key : κ) → β key) (I : (key : κ) → β key → Prop) (key : κ) (s : σ) :
    List (Program σ ι ε Unit) → Prop
  | [] => True
  | p :: waiting => p.Safe (within slice I key) 0 (Untouched slice key) (fun _ _ => True) s ∧
    ∀ q ∈ waiting, Fresh slice I key q

section

variable {key : κ} {s t : σ} {p : Program σ ι ε Unit} {queue : List (Program σ ι ε Unit)}

theorem InOrder.stable (h : InOrder slice I key s queue) (hst : Untouched slice key s t) :
    InOrder slice I key t queue := by
  cases queue with
  | nil => trivial
  | cons p waiting => exact ⟨h.1.stable hst, h.2⟩

theorem InOrder.arrive (h : InOrder slice I key s queue) (hs : ∀ k, I k (slice s k))
    (hp : Fresh slice I key p) : InOrder slice I key s (queue ++ [p]) := by
  cases queue with
  | nil => exact ⟨hp s hs, by simp⟩
  | cons first waiting =>
    refine ⟨h.1, fun q hq => ?_⟩
    rcases List.mem_append.mp hq with hold | hnew
    · exact h.2 q hold
    · rw [List.mem_singleton.mp hnew]
      exact hp

theorem InOrder.leave (h : InOrder slice I key s (p :: queue)) (hs : ∀ k, I k (slice s k)) :
    InOrder slice I key s queue := by
  cases queue with
  | nil => trivial
  | cons next waiting =>
    have hwaiting := List.forall_mem_cons.mp h.2
    exact ⟨hwaiting.1 s hs, hwaiting.2⟩

end

/-! ## Runs of the mutex -/

structure Ok (slice : σ → (key : κ) → β key) (I : (key : κ) → β key → Prop)
    (mutex : KeyedMutex κ σ ι ε) : Prop where
  inv : ∀ k, I k (slice mutex.shared k)
  queues : ∀ key, InOrder slice I key mutex.shared (mutex.queues key)

theorem Ok.start {s : σ} (hs : ∀ k, I k (slice s k)) :
    Ok slice I (start s : KeyedMutex κ σ ι ε) where
  inv := hs
  queues _ := trivial

variable [DecidableEq κ] {body : (key : κ) → τ key → Program σ ι ε Unit}

/-- A queue in order takes the place of the key's own. -/
theorem InOrder.update {queues : κ → List (Program σ ι ε Unit)} {key : κ} {s : σ}
    {queue : List (Program σ ι ε Unit)} (h : InOrder slice I key s queue)
    (hothers : ∀ k, k ≠ key → InOrder slice I k s (queues k)) (k : κ) :
    InOrder slice I k s (Function.update queues key queue k) := by
  by_cases hk : k = key
  · subst hk
    rw [Function.update_self]
    exact h
  · rw [Function.update_of_ne hk]
    exact hothers k hk

theorem step_ok (hbody : ∀ key work found, Runs slice I key (body key work) found fun _ _ => True)
    (mutex : KeyedMutex κ σ ι ε) (action : MutexAction τ ι) (after : KeyedMutex κ σ ι ε)
    (hok : Ok slice I mutex) (h : step body mutex action = some after) : Ok slice I after := by
  cases action with
  | crash =>
    cases h
    exact Ok.start hok.inv
  | arrive key work =>
    cases h
    have hfresh : Fresh slice I key (body key work) := fun s hs => hbody key work _ s hs rfl
    exact ⟨hok.inv, ((hok.queues key).arrive hok.inv hfresh).update fun k _ => hok.queues k⟩
  | proceed key input =>
    have hqueue := hok.queues key
    simp only [step] at h
    split at h
    · cases h
    · -- the work is over: the next one enters its section
      rename_i waiting heq
      cases h
      rw [heq] at hqueue
      exact ⟨hok.inv, (hqueue.leave hok.inv).update fun k _ => hok.queues k⟩
    · rename_i op next waiting heq
      obtain ⟨⟨result, t⟩, hop, hafter⟩ := Option.map_eq_some_iff.mp h
      cases hafter
      rw [heq] at hqueue
      obtain ⟨hguar, hsafe⟩ := hqueue.1 mutex.shared hok.inv rfl input result t hop
      have hnext : InOrder slice I key t (next result :: waiting) := ⟨hsafe, hqueue.2⟩
      exact ⟨hguar.inv, hnext.update fun k hk => (hok.queues k).stable (hguar.step k hk)⟩
    · cases h

/-- In every run the invariant holds of every slice. -/
theorem run_ok (hbody : ∀ key work found, Runs slice I key (body key work) found fun _ _ => True)
    {mutex after : KeyedMutex κ σ ι ε} {actions : List (MutexAction τ ι)}
    (hok : Ok slice I mutex) (h : Machine.run (step body) mutex actions = some after) :
    Ok slice I after :=
  Machine.run_invariant (step_ok hbody) hok h

end slices

end KeyedMutex

end QuokyPlatform
