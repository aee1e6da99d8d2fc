import Mathlib.Tactic.Common

/-! # Scripts that throw and keep their state

A script changes a state, and what it throws does not undo the changes. `Lands` says where a script
that starts in a state ends: what holds of its result, returned or thrown, and of the state it
leaves. The rules follow the shape of the script. -/

namespace QuokyPlatform

set_option autoImplicit false
set_option maxHeartbeats 250000

abbrev Script (σ ε α : Type) := ExceptT ε (StateM σ) α

namespace Script

variable {σ ε α β : Type}

/-- What a script does in a state. -/
def runFrom (x : Script σ ε α) (s : σ) : Except ε α × σ := x.run.run s

/-- From `s` the script ends where `Q` holds of its result and of the state. -/
def Lands (x : Script σ ε α) (s : σ) (Q : Except ε α → σ → Prop) : Prop :=
  Q (x.runFrom s).1 (x.runFrom s).2

/-- The postcondition of a script that is to return. -/
def returns (Q : α → σ → Prop) : Except ε α → σ → Prop
  | .ok a, t => Q a t
  | .error _, _ => False

/-- What follows a result in a script: nothing, when it was thrown. -/
def andThen (f : α → Script σ ε β) (Q : Except ε β → σ → Prop) : Except ε α → σ → Prop
  | .ok a, t => (f a).Lands t Q
  | .error e, t => Q (.error e) t

/-- What becomes of a result under a handler. -/
def orElse (handler : ε → Script σ ε α) (Q : Except ε α → σ → Prop) : Except ε α → σ → Prop
  | .ok a, t => Q (.ok a) t
  | .error e, t => (handler e).Lands t Q

@[simp]
theorem andThen_ok {f : α → Script σ ε β} {Q : Except ε β → σ → Prop} {a : α} {t : σ} :
    andThen f Q (.ok a) t = (f a).Lands t Q := rfl

@[simp]
theorem andThen_error {f : α → Script σ ε β} {Q : Except ε β → σ → Prop} {e : ε} {t : σ} :
    andThen f Q (.error e) t = Q (.error e) t := rfl

@[simp]
theorem orElse_ok {handler : ε → Script σ ε α} {Q : Except ε α → σ → Prop} {a : α} {t : σ} :
    orElse handler Q (.ok a) t = Q (.ok a) t := rfl

@[simp]
theorem orElse_error {handler : ε → Script σ ε α} {Q : Except ε α → σ → Prop} {e : ε} {t : σ} :
    orElse handler Q (.error e) t = (handler e).Lands t Q := rfl

variable {x : Script σ ε α} {s : σ} {Q R : Except ε α → σ → Prop}

theorem Lands.mono (h : x.Lands s Q) (hR : ∀ r t, Q r t → R r t) : x.Lands s R := hR _ _ h

theorem lands_pure {a : α} : Lands (pure a : Script σ ε α) s Q ↔ Q (.ok a) s := Iff.rfl

theorem lands_throw {e : ε} : Lands (throw e : Script σ ε α) s Q ↔ Q (.error e) s := Iff.rfl

theorem lands_bind {f : α → Script σ ε β} {Q : Except ε β → σ → Prop} :
    (x >>= f).Lands s Q ↔ x.Lands s (andThen f Q) := by
  have hrun : (x >>= f).runFrom s = match x.runFrom s with
      | (.ok a, t) => (f a).runFrom t
      | (.error e, t) => (.error e, t) := by
    show Id.run ((ExceptT.run (x >>= f)).run s) = _
    simp only [ExceptT.run_bind, StateT.run_bind, Id.run_bind]
    show _ = match Id.run ((ExceptT.run x).run s) with
      | (.ok a, t) => (f a).runFrom t
      | (.error e, t) => (.error e, t)
    rcases Id.run ((ExceptT.run x).run s) with ⟨result, t⟩
    cases result <;> rfl
  unfold Lands
  rw [hrun]
  rcases x.runFrom s with ⟨result, t⟩
  cases result <;> rfl

theorem lands_map {f : α → β} {Q : Except ε β → σ → Prop} :
    (f <$> x).Lands s Q ↔ x.Lands s (andThen (fun a => pure (f a)) Q) := by
  rw [map_eq_pure_bind]
  exact lands_bind

theorem lands_tryCatch {handler : ε → Script σ ε α} :
    Lands (tryCatch x handler) s Q ↔ x.Lands s (orElse handler Q) := by
  have hrun : Script.runFrom (tryCatch x handler) s = match x.runFrom s with
      | (.ok a, t) => (.ok a, t)
      | (.error e, t) => (handler e).runFrom t := by
    show Id.run ((ExceptT.run (tryCatch x handler)).run s) = _
    simp only [tryCatch, tryCatchThe, MonadExceptOf.tryCatch, ExceptT.tryCatch, ExceptT.run_mk,
      StateT.run_bind, Id.run_bind]
    show _ = match (StateT.run x s).run with
      | (.ok a, t) => (Except.ok a, t)
      | (.error e, t) => (handler e).runFrom t
    rcases (StateT.run x s).run with ⟨result, t⟩
    cases result <;> rfl
  unfold Lands
  rw [hrun]
  rcases x.runFrom s with ⟨result, t⟩
  cases result <;> rfl

theorem lands_get {Q : Except ε σ → σ → Prop} : Lands (get : Script σ ε σ) s Q ↔ Q (.ok s) s :=
  Iff.rfl

theorem lands_modify {f : σ → σ} {Q : Except ε PUnit → σ → Prop} :
    Lands (modify f : Script σ ε PUnit) s Q ↔ Q (.ok ⟨⟩) (f s) :=
  Iff.rfl

end Script

end QuokyPlatform
