import Mathlib.Order.Defs.Unbundled
import QuokyPlatform.Foundations.Program

/-! # Rely and guarantee

How a property of a pool is proved one program at a time. A discipline says what always holds of
the shared state, what any operation does to it, and what each call may rely on: how the others
may change the state between two of its own operations. A program is `Safe` when each of its
operations keeps the discipline, whatever the others did before it. The rules below follow the
shape of a program; `Pool.run_ok` and `Pool.run_related` say what safe programs do in a pool. -/

namespace QuokyPlatform

set_option autoImplicit false
set_option maxHeartbeats 250000

structure Discipline (σ : Type) where
  /-- What holds of every state. -/
  Inv : σ → Prop
  /-- What one operation does. -/
  Step : σ → σ → Prop
  /-- What a call may assume of the operations of the others. -/
  Rely : ℕ → σ → σ → Prop
  step_refl : ∀ s, Step s s
  rely_refl : ∀ i s, Rely i s s
  rely_trans : ∀ {i s t u}, Rely i s t → Rely i t u → Rely i s u

namespace Discipline

variable {σ : Type}

/-- What one operation of a call has to respect. -/
structure Guar (d : Discipline σ) (i : ℕ) (s t : σ) : Prop where
  inv : d.Inv t
  step : d.Step s t
  others : ∀ j, j ≠ i → d.Rely j s t

theorem Guar.refl {d : Discipline σ} {i : ℕ} {s : σ} (hs : d.Inv s) : d.Guar i s s :=
  ⟨hs, d.step_refl s, fun j _ => d.rely_refl j s⟩

instance (d : Discipline σ) (i : ℕ) : Std.Refl (d.Rely i) := ⟨d.rely_refl i⟩
instance (d : Discipline σ) (i : ℕ) : IsTrans σ (d.Rely i) := ⟨fun _ _ _ => d.rely_trans⟩

end Discipline

namespace Program

variable {σ ι ε α β : Type} {d : Discipline σ} {i : ℕ}

/-- Every operation of the call `i` keeps the discipline when the others do `R` in between, and the
result satisfies `Q` when the call is over. Nothing happens in between inside a section. -/
def Safe (d : Discipline σ) (i : ℕ) : {α : Type} → Program σ ι ε α → (σ → σ → Prop) →
    (Except ε α → σ → Prop) → σ → Prop
  | _, .done result, R, Q, s => ∀ t, d.Inv t → R s t → Q result t
  | _, .atomic op next, R, Q, s => ∀ t, d.Inv t → R s t → ∀ input result u,
      op t input = some (result, u) → d.Guar i t u ∧ (next result).Safe d i R Q u
  | _, .exclusive body next, R, Q, s => ∀ t, d.Inv t → R s t →
      body.Safe d i Eq (fun result u => (next result).Safe d i R Q u) t

section rules

variable {R : σ → σ → Prop} {Q Q' : Except ε α → σ → Prop} {s t : σ}

theorem Safe.stable [IsTrans σ R] {p : Program σ ι ε α} (h : p.Safe d i R Q s) (hR : R s t) :
    p.Safe d i R Q t := by
  cases p with
  | done result => exact fun u hu htu => h u hu (IsTrans.trans s t u hR htu)
  | atomic op next => exact fun u hu htu => h u hu (IsTrans.trans s t u hR htu)
  | exclusive body next => exact fun u hu htu => h u hu (IsTrans.trans s t u hR htu)

/-- It is enough to show a call safe from each state in which it may really start. -/
theorem Safe.of_forall [Std.Refl R] {p : Program σ ι ε α}
    (h : ∀ t, d.Inv t → R s t → p.Safe d i R Q t) : p.Safe d i R Q s := by
  cases p with
  | done result => exact fun t ht hst => h t ht hst t ht (Std.Refl.refl t)
  | atomic op next => exact fun t ht hst => h t ht hst t ht (Std.Refl.refl t)
  | exclusive body next => exact fun t ht hst => h t ht hst t ht (Std.Refl.refl t)

theorem Safe.mono : {α : Type} → {p : Program σ ι ε α} → {R R' : σ → σ → Prop} →
    {Q Q' : Except ε α → σ → Prop} → {s : σ} → (∀ s t, R' s t → R s t) →
    (∀ result t, d.Inv t → Q result t → Q' result t) → p.Safe d i R Q s → p.Safe d i R' Q' s
  | _, .done result, _, _, _, _, _, hR, hQ, h => fun t ht hst =>
    hQ result t ht (h t ht (hR _ _ hst))
  | _, .atomic _ next, _, _, _, _, _, hR, hQ, h => fun t ht hst input result u hop =>
    have hnext := h t ht (hR _ _ hst) input result u hop
    ⟨hnext.1, Safe.mono (p := next result) hR hQ hnext.2⟩
  | _, .exclusive body next, _, _, _, _, _, hR, hQ, h => fun t ht hst =>
    Safe.mono (p := body) (fun _ _ h => h)
      (fun result _ _ hu => Safe.mono (p := next result) hR hQ hu) (h t ht (hR _ _ hst))

theorem Safe.weaken {p : Program σ ι ε α} (h : p.Safe d i R Q s)
    (hQ : ∀ result t, d.Inv t → Q result t → Q' result t) : p.Safe d i R Q' s :=
  h.mono (fun _ _ hR => hR) hQ

/-- A call that is safe among others is safe inside a section. -/
theorem Safe.inside [Std.Refl R] {p : Program σ ι ε α} (h : p.Safe d i R Q s) :
    p.Safe d i Eq Q s :=
  h.mono (fun s _ heq => heq ▸ Std.Refl.refl s) fun _ _ _ hQ => hQ

theorem Safe.andThen [Std.Refl R] : {α : Type} → {p : Program σ ι ε α} →
    {rest : Except ε α → Program σ ι ε β} → {M : Except ε α → σ → Prop} →
    {Q : Except ε β → σ → Prop} → {s : σ} → p.Safe d i R M s →
    (∀ result t, d.Inv t → M result t → (rest result).Safe d i R Q t) →
    (p.andThen rest).Safe d i R Q s
  | _, .done result, _, _, _, _, h, hrest =>
    Safe.of_forall fun t ht hst => hrest result t ht (h t ht hst)
  | _, .atomic _ next, _, _, _, _, h, hrest => fun t ht hst input result u hop =>
    have hnext := h t ht hst input result u hop
    ⟨hnext.1, Safe.andThen (p := next result) hnext.2 hrest⟩
  | _, .exclusive _ next, _, _, _, _, h, hrest => fun t ht hst =>
    (h t ht hst).weaken fun result _ _ hu => Safe.andThen (p := next result) hu hrest

theorem Safe.bind [Std.Refl R] {p : Program σ ι ε α} {rest : α → Program σ ι ε β}
    {M : Except ε α → σ → Prop} {Q : Except ε β → σ → Prop} (h : p.Safe d i R M s)
    (hok : ∀ a t, d.Inv t → M (.ok a) t → (rest a).Safe d i R Q t)
    (herror : ∀ e t, d.Inv t → M (.error e) t → ∀ u, d.Inv u → R t u → Q (.error e) u) :
    (p >>= rest).Safe d i R Q s := by
  rw [bind_def]
  refine Safe.andThen h fun result t ht hM => ?_
  cases result with
  | ok a => exact hok a t ht hM
  | error e => exact herror e t ht hM

theorem Safe.perform {op : σ → ι → Option (Except ε α × σ)}
    (h : ∀ t, d.Inv t → R s t → ∀ input result u, op t input = some (result, u) →
      d.Guar i t u ∧ ∀ v, d.Inv v → R u v → Q result v) :
    (perform op).Safe d i R Q s :=
  h

theorem Safe.attempt [Std.Refl R] {p : Program σ ι ε α} {M : Except ε α → σ → Prop}
    {Q : Except ε (Except ε α) → σ → Prop} (h : p.Safe d i R M s)
    (hQ : ∀ result t, d.Inv t → M result t → ∀ u, d.Inv u → R t u → Q (.ok result) u) :
    (attempt p).Safe d i R Q s :=
  Safe.andThen h hQ

theorem Safe.exclusively {p : Program σ ι ε α}
    (h : ∀ t, d.Inv t → R s t →
      p.Safe d i Eq (fun result u => ∀ v, d.Inv v → R u v → Q result v) t)
    [Std.Refl R] : (exclusively p).Safe d i R Q s := by
  cases p with
  | done result => exact fun t ht hst => h t ht hst t ht rfl t ht (Std.Refl.refl t)
  | atomic op next => exact h
  | exclusive body next => exact h

end rules

/-! ## Steps of a program -/

/-- As `Safe`, for a program that may be inside its section already. -/
def SafeInside (d : Discipline σ) (i : ℕ) (R : σ → σ → Prop) (Q : Except ε α → σ → Prop) :
    Program σ ι ε α → σ → Prop
  | .exclusive body next, s => body.Safe d i Eq (fun result u => (next result).Safe d i R Q u) s
  | p, s => p.Safe d i R Q s

theorem Safe.toInside {R : σ → σ → Prop} [Std.Refl R] {Q : Except ε α → σ → Prop} {s : σ}
    {p : Program σ ι ε α} (hs : d.Inv s) (h : p.Safe d i R Q s) : p.SafeInside d i R Q s := by
  cases p with
  | done result => exact h
  | atomic op next => exact h
  | exclusive body next => exact h s hs (Std.Refl.refl s)

/-- Inside a section nothing intervenes, so there the two notions agree. -/
theorem SafeInside.toSafe {Q : Except ε α → σ → Prop} {s : σ} {p : Program σ ι ε α}
    (h : p.SafeInside d i Eq Q s) : p.Safe d i Eq Q s := by
  cases p with
  | done result => exact h
  | atomic op next => exact h
  | exclusive body next =>
    rintro t - rfl
    exact h

theorem Safe.enter {R : σ → σ → Prop} {Q : Except ε α → σ → Prop} {s : σ}
    {body : Program σ ι ε β} {next : Except ε β → Program σ ι ε α}
    (hs : d.Inv s)
    (h : body.Safe d i Eq (fun result u => (next result).Safe d i R Q u) s) :
    if (body.enter next).2 then (body.enter next).1.SafeInside d i R Q s
    else (body.enter next).1.Safe d i R Q s := by
  cases body with
  | done result => exact h s hs rfl
  | atomic op after => exact h
  | exclusive inner after => exact h

theorem SafeInside.step {input : ι} {t : σ} {inside : Bool} :
    {α : Type} → {p rest : Program σ ι ε α} → {R : σ → σ → Prop} → [Std.Refl R] →
    {Q : Except ε α → σ → Prop} → {s : σ} → d.Inv s → p.SafeInside d i R Q s →
    p.step s input = some (rest, t, inside) →
    d.Guar i s t ∧ if inside then rest.SafeInside d i R Q t else rest.Safe d i R Q t
  | _, .done _, _, _, _, _, _, _, _, hstep => by cases hstep
  | _, .atomic op next, _, R, _, Q, s, hs, h, hstep => by
    obtain ⟨⟨result, u⟩, hop, heq⟩ := Option.map_eq_some_iff.mp hstep
    cases heq
    exact h s hs (Std.Refl.refl s) input result t hop
  | _, .exclusive body next, _, R, _, Q, s, hs, h, hstep => by
    obtain ⟨⟨after, u, within⟩, hbody, heq⟩ := Option.map_eq_some_iff.mp hstep
    cases heq
    have hinside := Safe.toInside hs h
    obtain ⟨hguar, hafter⟩ := SafeInside.step hs hinside hbody
    refine ⟨hguar, Safe.enter hguar.inv ?_⟩
    cases within with
    | true => exact SafeInside.toSafe hafter
    | false => exact hafter

end Program

/-! ## Pools of safe programs -/

namespace Pool

open Program

variable {σ ι ε κ : Type} {d : Discipline σ}

/-- Every call in the pool is safe from here on. -/
structure Ok (d : Discipline σ) (pool : Pool σ ι ε) : Prop where
  inv : d.Inv pool.shared
  threads : ∀ i p, pool.threads.lookup i = some p →
    if pool.focus = some i then p.SafeInside d i (d.Rely i) (fun _ _ => True) pool.shared
    else p.Safe d i (d.Rely i) (fun _ _ => True) pool.shared

/-- The calls a pool makes keep the discipline, and so does its restart. -/
structure Sound (d : Discipline σ) (main : κ → ℕ → Program σ ι ε Unit) (restart : σ → σ) :
    Prop where
  main : ∀ call i s, d.Inv s → (main call i).Safe d i (d.Rely i) (fun _ _ => True) s
  restart_inv : ∀ s, d.Inv s → d.Inv (restart s)
  restart_step : ∀ s, d.Inv s → d.Step s (restart s)

variable {main : κ → ℕ → Program σ ι ε Unit} {restart : σ → σ}

theorem Ok.start {s : σ} (hs : d.Inv s) : Ok d (start s : Pool σ ι ε) where
  inv := hs
  threads i p hp := by cases hp

theorem step_ok (hd : Sound d main restart) (pool : Pool σ ι ε) (action : PoolAction κ ι)
    (after : Pool σ ι ε) (hpool : Ok d pool)
    (h : step main restart pool action = some after) :
    Ok d after ∧ d.Step pool.shared after.shared := by
  cases action with
  | spawn thread call =>
    simp only [step] at h
    split at h
    · cases h
    · rename_i hnew
      cases h
      refine ⟨⟨hpool.inv, fun i p hp => ?_⟩, d.step_refl _⟩
      by_cases hi : i = thread
      · subst hi
        rw [AList.lookup_insert] at hp
        cases hp
        have hsafe := hd.main call i pool.shared hpool.inv
        split
        · exact Safe.toInside hpool.inv hsafe
        · exact hsafe
      · rw [AList.lookup_insert_ne hi] at hp
        exact hpool.threads i p hp
  | step thread input =>
    simp only [step] at h
    split at h
    · rename_i hfocus
      simp only [Option.bind_eq_bind, Option.bind_eq_some_iff, Option.pure_def] at h
      obtain ⟨p, hp, ⟨rest, s, inside⟩, hstep, h⟩ := h
      cases h
      have hinside : p.SafeInside d thread (d.Rely thread) (fun _ _ => True) pool.shared := by
        have hsafe := hpool.threads thread p hp
        split at hsafe
        · exact hsafe
        · exact Safe.toInside hpool.inv hsafe
      obtain ⟨hguar, hrest⟩ := SafeInside.step hpool.inv hinside hstep
      refine ⟨⟨hguar.inv, fun j q hq => ?_⟩, hguar.step⟩
      by_cases hj : j = thread
      · subst hj
        rw [AList.lookup_insert] at hq
        cases hq
        cases inside with
        | true => simpa using hrest
        | false => simpa using hrest
      · -- another call: it is not in a section, and may rely on what happened
        rw [AList.lookup_insert_ne hj] at hq
        have hsafe := hpool.threads j q hq
        rw [if_neg (by rcases hfocus with hf | hf <;> rw [hf] <;> simp [Ne.symm hj])] at hsafe
        rw [if_neg (by cases inside <;> simp [Ne.symm hj])]
        exact hsafe.stable (hguar.others j hj)
    · cases h
  | crash =>
    cases h
    exact ⟨⟨hd.restart_inv _ hpool.inv, fun i p hp => by cases hp⟩, hd.restart_step _ hpool.inv⟩

/-- In every run of a pool of safe programs the invariant holds. -/
theorem run_ok (hd : Sound d main restart) {pool after : Pool σ ι ε}
    {actions : List (PoolAction κ ι)} (hpool : Ok d pool)
    (h : Machine.run (step main restart) pool actions = some after) : Ok d after :=
  Machine.run_invariant (fun p a q hp hq => (step_ok hd p a q hp hq).1) hpool h

/-- What every operation does to the state, a run does. -/
theorem run_related {S : σ → σ → Prop} [Std.Refl S] [IsTrans σ S] (hd : Sound d main restart)
    (hS : ∀ s t, d.Inv s → d.Step s t → S s t) {pool after : Pool σ ι ε}
    {actions : List (PoolAction κ ι)} (hpool : Ok d pool)
    (h : Machine.run (step main restart) pool actions = some after) :
    S pool.shared after.shared := by
  induction actions generalizing pool with
  | nil =>
    cases h
    exact Std.Refl.refl _
  | cons action actions ih =>
    obtain ⟨next, hnext, hrest⟩ := Machine.run_cons.mp h
    obtain ⟨hok, hstep⟩ := step_ok hd pool action next hpool hnext
    exact IsTrans.trans _ _ _ (hS _ _ hpool.inv hstep) (ih hok hrest)

/-- A property of the state that a run brings about was brought about by one operation. -/
theorem run_crossing {P : σ → Prop} (hd : Sound d main restart) {pool after : Pool σ ι ε}
    {actions : List (PoolAction κ ι)} (hpool : Ok d pool) (hbefore : ¬ P pool.shared)
    (hafter : P after.shared) (h : Machine.run (step main restart) pool actions = some after) :
    ∃ first rest, ∃ u v : Pool σ ι ε, actions = first ++ rest ∧
      Machine.run (step main restart) pool first = some v ∧
      Ok d u ∧ ¬ P u.shared ∧ d.Step u.shared v.shared ∧ P v.shared := by
  obtain ⟨before, action, rest, u, v, rfl, hu, hnot, hv, hP⟩ :=
    Machine.run_crossing (P := fun p : Pool σ ι ε => P p.shared) hbefore hafter h
  have hok := run_ok hd hpool hu
  refine ⟨before ++ [action], rest, u, v, by simp, ?_, hok, hnot, (step_ok hd u action v hok hv).2, hP⟩
  exact Machine.run_append.mpr ⟨u, hu, Machine.run_cons.mpr ⟨v, hv, rfl⟩⟩

end Pool

end QuokyPlatform
