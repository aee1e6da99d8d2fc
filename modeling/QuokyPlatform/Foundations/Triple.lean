import QuokyPlatform.Foundations.Discipline

/-! # Triples among other calls

An assertion of a call is a property of the shared state that survives whatever the others do. A
triple says that a call, started where its precondition holds, is safe and ends where the
postcondition of its result holds; the rules follow the shape of the call. -/

namespace QuokyPlatform

set_option autoImplicit false
set_option maxHeartbeats 250000

variable {σ ι ε : Type} {α β : Type}

/-- A property that call `i` may keep in mind between two of its operations. -/
structure Assertion (d : Discipline σ) (i : ℕ) where
  holds : σ → Prop
  stable : ∀ s t, d.Rely i s t → holds s → holds t

namespace Assertion

variable {d : Discipline σ} {i : ℕ}

/-- Something that does not depend on the state. -/
def pure (d : Discipline σ) (i : ℕ) (p : Prop) : Assertion d i := ⟨fun _ => p, fun _ _ _ h => h⟩

def and (F G : Assertion d i) : Assertion d i :=
  ⟨fun s => F.holds s ∧ G.holds s, fun s t hR h => ⟨F.stable s t hR h.1, G.stable s t hR h.2⟩⟩

end Assertion

namespace Program

/-- From `F` the call is safe and ends in `G` of its result. -/
def Triple {d : Discipline σ} {i : ℕ} (F : Assertion d i) (p : Program σ ι ε α)
    (G : Except ε α → Assertion d i) : Prop :=
  ∀ s, F.holds s → p.Safe d i (d.Rely i) (fun result t => (G result).holds t) s

namespace Triple

variable {d : Discipline σ} {i : ℕ} {F F' : Assertion d i} {p : Program σ ι ε α}
  {G G' : Except ε α → Assertion d i}

theorem done {result : Except ε α} (h : ∀ t, d.Inv t → F.holds t → (G result).holds t) :
    Triple F (.done result : Program σ ι ε α) G :=
  fun s hs t ht hst => h t ht (F.stable s t hst hs)

theorem pure {a : α} (h : ∀ t, d.Inv t → F.holds t → (G (.ok a)).holds t) :
    Triple F (Pure.pure a : Program σ ι ε α) G :=
  done h

theorem raise {e : ε} (h : ∀ t, d.Inv t → F.holds t → (G (.error e)).holds t) :
    Triple F (raise e : Program σ ι ε α) G :=
  done h

theorem perform {op : σ → ι → Option (Except ε α × σ)}
    (h : ∀ t, d.Inv t → F.holds t → ∀ input result u, op t input = some (result, u) →
      d.Guar i t u ∧ (G result).holds u) :
    Triple F (Program.perform op) G := by
  intro s hs
  refine Safe.perform fun t ht hst input result u hop => ?_
  obtain ⟨hguar, hG⟩ := h t ht (F.stable s t hst hs) input result u hop
  exact ⟨hguar, fun v _ huv => (G result).stable u v huv hG⟩

/-- What holds when a call starts may be used to show that it is safe. -/
theorem strengthen (h : Triple F' p G) (hF : ∀ s, d.Inv s → F.holds s → F'.holds s) :
    Triple F p G := by
  intro s hs
  have : Std.Refl (d.Rely i) := ⟨d.rely_refl i⟩
  exact Safe.of_forall fun t ht hst => h t (hF t ht (F.stable s t hst hs))

theorem weaken (h : Triple F p G)
    (hG : ∀ result t, d.Inv t → (G result).holds t → (G' result).holds t) : Triple F p G' :=
  fun s hs => (h s hs).weaken hG

theorem bind {M : Except ε α → Assertion d i} {rest : α → Program σ ι ε β}
    {Q : Except ε β → Assertion d i} (h : Triple F p M) (hok : ∀ a, Triple (M (.ok a)) (rest a) Q)
    (herror : ∀ e t, d.Inv t → (M (.error e)).holds t → (Q (.error e)).holds t) :
    Triple F (p >>= rest) Q := by
  intro s hs
  have : Std.Refl (d.Rely i) := ⟨d.rely_refl i⟩
  refine Safe.bind (h s hs) (fun a t _ ha => hok a t ha) fun e t ht he u _ htu => ?_
  exact (Q (.error e)).stable t u htu (herror e t ht he)

/-- The result is passed through a function. -/
theorem map {f : α → β} {Q : Except ε β → Assertion d i}
    (h : Triple F p fun result => Q (result.map f)) :
    Triple F (p >>= fun a => Pure.pure (f a)) Q :=
  h.bind (fun _ => pure fun _ _ hQ => hQ) fun _ _ _ hQ => hQ

/-- `try`: what follows sees the result as a value. -/
theorem attempt {M : Except ε α → Assertion d i} {rest : Except ε α → Program σ ι ε β}
    {Q : Except ε β → Assertion d i} (h : Triple F p M)
    (hrest : ∀ result, Triple (M result) (rest result) Q) :
    Triple F (Program.attempt p >>= rest) Q := by
  intro s hs
  have : Std.Refl (d.Rely i) := ⟨d.rely_refl i⟩
  refine Safe.bind (M := fun attempted t => match attempted with
    | .ok result => (M result).holds t
    | .error _ => False) (Safe.attempt (h s hs) fun result t _ hM u _ htu => ?_) ?_ ?_
  · exact (M result).stable t u htu hM
  · exact fun result t _ hM => hrest result t hM
  · exact fun _ _ _ hfalse => hfalse.elim

/-- A call whose precondition does not hold may do anything. -/
theorem of_pure {q : Prop} (h : q → Triple F p G)
    (hF : ∀ s, F'.holds s → q ∧ F.holds s) : Triple F' p G :=
  fun s hs => h (hF s hs).1 s (hF s hs).2

end Triple

end Program

end QuokyPlatform
