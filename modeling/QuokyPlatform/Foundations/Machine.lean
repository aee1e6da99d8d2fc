import Mathlib.Order.Defs.Unbundled

/-! # Labelled machines

A machine is a partial step function on states and actions. `step s a = none` says that the
machine does not take `a` in `s`: the call throws, or the transaction is rolled back, and no state
follows. A run feeds a list of actions to the machine. An invariant is proved for one step and
carried along the run by the rules below, once for all machines. -/

namespace QuokyPlatform.Machine

set_option autoImplicit false
set_option maxHeartbeats 250000

variable {σ α : Type*}

/-- The state after the actions, when every one of them is taken. -/
def run (step : σ → α → Option σ) : σ → List α → Option σ
  | s, [] => some s
  | s, a :: as => (step s a).bind fun t => run step t as

/-- Some run leads from the first state to the second. -/
def Reaches (step : σ → α → Option σ) (s t : σ) : Prop :=
  ∃ as, run step s as = some t

section rules

variable {step : σ → α → Option σ}

@[simp] theorem run_nil (s : σ) : run step s [] = some s := rfl

theorem run_cons {s u : σ} {a : α} {as : List α} :
    run step s (a :: as) = some u ↔ ∃ t, step s a = some t ∧ run step t as = some u := by
  simp [run, Option.bind_eq_some_iff]

theorem run_append {s u : σ} {as bs : List α} :
    run step s (as ++ bs) = some u ↔ ∃ t, run step s as = some t ∧ run step t bs = some u := by
  induction as generalizing s with
  | nil => simp
  | cons a as ih =>
    rw [List.cons_append, run_cons]
    constructor
    · rintro ⟨t, ht, hu⟩
      obtain ⟨v, hv, hvu⟩ := ih.mp hu
      exact ⟨v, run_cons.mpr ⟨t, ht, hv⟩, hvu⟩
    · rintro ⟨v, hv, hvu⟩
      obtain ⟨t, ht, htv⟩ := run_cons.mp hv
      exact ⟨t, ht, ih.mpr ⟨v, htv, hvu⟩⟩

theorem Reaches.refl (s : σ) : Reaches step s s := ⟨[], rfl⟩

theorem Reaches.of_step {s t : σ} {a : α} (h : step s a = some t) : Reaches step s t :=
  ⟨[a], run_cons.mpr ⟨t, h, rfl⟩⟩

theorem Reaches.trans {s t u : σ} (h₁ : Reaches step s t) (h₂ : Reaches step t u) :
    Reaches step s u := by
  obtain ⟨as, has⟩ := h₁
  obtain ⟨bs, hbs⟩ := h₂
  exact ⟨as ++ bs, run_append.mpr ⟨t, has, hbs⟩⟩

/-- The invariant rule: what every step keeps, every run keeps. -/
theorem run_invariant {I : σ → Prop} (hstep : ∀ s a t, I s → step s a = some t → I t) :
    ∀ {as : List α} {s t : σ}, I s → run step s as = some t → I t
  | [], s, t, hs, h => by
    cases h
    exact hs
  | a :: as, s, t, hs, h => by
    obtain ⟨u, hu, hrest⟩ := run_cons.mp h
    exact run_invariant hstep (hstep s a u hs hu) hrest

theorem Reaches.invariant {I : σ → Prop} (hstep : ∀ s a t, I s → step s a = some t → I t)
    {s t : σ} (hs : I s) (h : Reaches step s t) : I t := by
  obtain ⟨as, has⟩ := h
  exact run_invariant hstep hs has

/-- The two-state rule: a reflexive and transitive relation that every step from a state of the
invariant respects relates the two ends of a run. -/
theorem run_relation {I : σ → Prop} {R : σ → σ → Prop} [Std.Refl R] [IsTrans σ R]
    (hI : ∀ s a t, I s → step s a = some t → I t)
    (hR : ∀ s a t, I s → step s a = some t → R s t) :
    ∀ {as : List α} {s t : σ}, I s → run step s as = some t → R s t
  | [], s, t, _, h => by
    cases h
    exact Std.Refl.refl s
  | a :: as, s, t, hs, h => by
    obtain ⟨u, hu, hrest⟩ := run_cons.mp h
    exact IsTrans.trans s u t (hR s a u hs hu) (run_relation hI hR (hI s a u hs hu) hrest)

/-- A property that the run brings about was brought about by one of its steps. -/
theorem run_crossing {P : σ → Prop} {s t : σ} {as : List α} (hs : ¬ P s) (ht : P t)
    (h : run step s as = some t) : ∃ before a after u v, as = before ++ a :: after ∧
      run step s before = some u ∧ ¬ P u ∧ step u a = some v ∧ P v := by
  induction as generalizing s with
  | nil =>
    cases h
    exact absurd ht hs
  | cons a as ih =>
    obtain ⟨u, hu, hrest⟩ := run_cons.mp h
    by_cases hP : P u
    · exact ⟨[], a, as, s, u, rfl, rfl, hs, hu, hP⟩
    · obtain ⟨before, b, after, v, w, rfl, hv, hnv, hw, hPw⟩ := ih hP hrest
      exact ⟨a :: before, b, after, v, w, rfl, run_cons.mpr ⟨u, hu, hv⟩, hnv, hw, hPw⟩

end rules

end QuokyPlatform.Machine
