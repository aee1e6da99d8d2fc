import Mathlib.Data.List.Nodup

/-! # Steps in another order

A program is a list of steps. Each names others by their positions, and is run on a state and on
what the steps it names have given. Steps that neither read nor change the state may be moved, as
long as the others keep their order and every step still comes after those it names. -/

namespace QuokyPlatform.Reordering

set_option autoImplicit false
set_option maxHeartbeats 250000

variable {α β σ : Type*}

/-! ## Execution -/

section execution

variable (names : α → List ℕ) (act : σ → α → List (Option β) → σ × β)

/-- The state after the steps, and what each of them gave. -/
def execute : List α → σ → List β → σ × List β
  | [], s, done => (s, done)
  | a :: rest, s, done =>
    execute rest (act s a ((names a).map fun k => done[k]?)).1
      (done ++ [(act s a ((names a).map fun k => done[k]?)).2])

variable {names act}

theorem execute_append (p q : List α) (s : σ) (done : List β) :
    execute names act (p ++ q) s done =
      execute names act q (execute names act p s done).1 (execute names act p s done).2 := by
  induction p generalizing s done with
  | nil => rfl
  | cons a p ih =>
    rw [List.cons_append, execute, ih]
    rfl

theorem length_execute (p : List α) (s : σ) (done : List β) :
    (execute names act p s done).2.length = done.length + p.length := by
  induction p generalizing s done with
  | nil => rfl
  | cons a p ih =>
    rw [execute, ih, List.length_append]
    simp only [List.length_cons, List.length_nil]
    omega

theorem prefix_execute (p : List α) (s : σ) (done : List β) :
    done <+: (execute names act p s done).2 := by
  induction p generalizing s done with
  | nil => exact List.prefix_refl done
  | cons a p ih => exact (List.prefix_append _ _).trans (ih _ _)

variable (names act) in
theorem execute_take_succ {p : List α} {i : ℕ} {a : α} (h : p[i]? = some a) (s : σ) :
    execute names act (p.take (i + 1)) s [] =
      ((act (execute names act (p.take i) s []).1 a
          ((names a).map fun k => (execute names act (p.take i) s []).2[k]?)).1,
        (execute names act (p.take i) s []).2 ++
          [(act (execute names act (p.take i) s []).1 a
            ((names a).map fun k => (execute names act (p.take i) s []).2[k]?)).2]) := by
  rw [List.take_add_one, h, execute_append]
  rfl

/-- What a step gave stays. -/
theorem getElem?_execute_take (p : List α) (s : σ) {i k : ℕ} (h : k < i) :
    (execute names act (p.take i) s []).2[k]? = (execute names act p s []).2[k]? := by
  have hlength := @length_execute _ _ _ names act (p.take i) s []
  have hall := @length_execute _ _ _ names act p s []
  simp only [List.length_nil, Nat.zero_add, List.length_take] at hlength hall
  by_cases hk : k < p.length
  · have hprefix := @prefix_execute _ _ _ names act (p.drop i)
      (execute names act (p.take i) s []).1 (execute names act (p.take i) s []).2
    rw [← execute_append, List.take_append_drop] at hprefix
    obtain ⟨rest, hrest⟩ := hprefix
    rw [← hrest, List.getElem?_append_left (by omega)]
  · rw [List.getElem?_eq_none (by omega), List.getElem?_eq_none (by omega)]

end execution

/-! ## Reordering -/

section reordering

/-- The steps at the positions of `order`, each naming its steps by their new positions. -/
def reorder (relabel : (ℕ → ℕ) → α → α) (order : List ℕ) (p : List α) : List α :=
  order.filterMap fun k => (p[k]?).map (relabel fun n => order.idxOf n)

/-- An order in which the steps that act on the state keep theirs, and every step comes after those
it names. -/
structure Legal (names : α → List ℕ) (acting : α → Bool) (order : List ℕ) (p : List α) : Prop where
  perm : order.Perm (List.range p.length)
  acting_order : order.filter (fun k => (p[k]?).any acting) =
    (List.range p.length).filter fun k => (p[k]?).any acting
  backward : ∀ k a, p[k]? = some a → ∀ n ∈ names a, n < k
  still_backward : ∀ k a, p[k]? = some a → ∀ n ∈ names a, order.idxOf n < order.idxOf k

/-- What a program has to offer for its steps to be moved: a quiet step gives the same in every
state and leaves it, and no step looks at the numbers themselves. -/
structure Movable (names : α → List ℕ) (act : σ → α → List (Option β) → σ × β)
    (acting : α → Bool) (relabel : (ℕ → ℕ) → α → α) : Prop where
  quiet : ∀ a, acting a = false → ∀ s t vs, act s a vs = (s, (act t a vs).2)
  names_relabel : ∀ f a, names (relabel f a) = (names a).map f
  act_relabel : ∀ f s a vs, act s (relabel f a) vs = act s a vs

variable {names : α → List ℕ} {act : σ → α → List (Option β) → σ × β} {acting : α → Bool}
  {relabel : (ℕ → ℕ) → α → α} {order : List ℕ} {p : List α}

theorem Legal.lt_length (h : Legal names acting order p) {k : ℕ} (hk : k ∈ order) :
    k < p.length :=
  List.mem_range.mp (h.perm.mem_iff.mp hk)

theorem Legal.nodup (h : Legal names acting order p) : order.Nodup :=
  h.perm.nodup_iff.mpr List.nodup_range

theorem getElem?_filterMap_some {γ δ : Type*} (f : γ → Option δ) (g : γ → δ) (xs : List γ)
    (h : ∀ x ∈ xs, f x = some (g x)) (i : ℕ) : (xs.filterMap f)[i]? = (xs[i]?).map g := by
  rw [List.filterMap_congr h, List.filterMap_eq_map', List.getElem?_map]

theorem Legal.getElem?_reorder (h : Legal names acting order p) (j : ℕ) :
    (reorder relabel order p)[j]? =
      (order[j]?).bind fun k => (p[k]?).map (relabel fun n => order.idxOf n) := by
  cases hp : p with
  | nil =>
    have horder : order = [] := by
      have := h.perm.length_eq
      rw [hp] at this
      exact List.length_eq_zero_iff.mp this
    rw [horder]
    rfl
  | cons first rest =>
    rw [← hp]
    have hall : ∀ k ∈ order, (p[k]?).map (relabel fun n => order.idxOf n) =
        some (relabel (fun n => order.idxOf n) (p.getD k first)) := by
      intro k hk
      rw [List.getD_eq_getElem?_getD, List.getElem?_eq_getElem (h.lt_length hk)]
      rfl
    rw [reorder, getElem?_filterMap_some _ _ _ hall]
    cases hj : order[j]? with
    | none => rfl
    | some k => exact (hall k (List.mem_of_getElem? hj)).symm

/-- Between two steps of the program none of which acts, the state is the same. -/
theorem state_of_quiet (hmove : Movable names act acting relabel) (s : σ) {i k : ℕ} (hik : i ≤ k)
    (hquiet : ∀ m, i ≤ m → m < k → (p[m]?).any acting = false) :
    (execute names act (p.take k) s []).1 = (execute names act (p.take i) s []).1 := by
  induction hik with
  | refl => rfl
  | @step k hik ih =>
    rw [← ih fun m him hmk => hquiet m him (by omega)]
    cases hp : p[k]? with
    | none => rw [List.take_add_one, hp, Option.toList_none, List.append_nil]
    | some a =>
      have hnot := hquiet k hik (by omega)
      rw [hp, Option.any_some] at hnot
      rw [execute_take_succ names act hp, hmove.quiet a hnot _ s]

/-- The execution of the first `j` steps in the new order follows the program: its state is that
before some step `m`, and each step has given what it gives there. -/
structure Follows (names : α → List ℕ) (act : σ → α → List (Option β) → σ × β)
    (acting : α → Bool) (order : List ℕ) (p : List α) (s : σ) (j m : ℕ)
    (result : σ × List β) : Prop where
  bound : m ≤ p.length
  acted : (order.take j).filter (fun k => (p[k]?).any acting) =
    (List.range m).filter fun k => (p[k]?).any acting
  state : result.1 = (execute names act (p.take m) s []).1
  count : result.2.length = j
  value : ∀ i k, i < j → order[i]? = some k →
    result.2[i]? = (execute names act p s []).2[k]?

/-- The next acting step is the first one of the program that has not been taken. -/
theorem Legal.next_acting (h : Legal names acting order p) {j k m : ℕ} (hj : order[j]? = some k)
    (hm : m ≤ p.length) (hact : (p[k]?).any acting = true)
    (hacted : (order.take j).filter (fun k => (p[k]?).any acting) =
      (List.range m).filter fun k => (p[k]?).any acting) :
    m ≤ k ∧ ∀ i, m ≤ i → i < k → (p[i]?).any acting = false := by
  have hsplit : order = order.take j ++ k :: order.drop (j + 1) := by
    have hlt : j < order.length := (List.getElem?_eq_some_iff.mp hj).1
    have hk : order[j] = k := (List.getElem?_eq_some_iff.mp hj).2
    rw [← hk, List.getElem_cons_drop, List.take_append_drop]
  have hall := h.acting_order
  rw [hsplit, List.filter_append, List.filter_cons, if_pos hact, hacted] at hall
  obtain ⟨d, hd⟩ := Nat.exists_eq_add_of_le hm
  rw [hd, List.range_add, List.filter_append, List.append_cancel_left_eq] at hall
  have hmem : ∀ i, i ∈ ((List.range d).map (m + ·)).filter (fun i => (p[i]?).any acting) ↔
      (m ≤ i ∧ i < m + d) ∧ (p[i]?).any acting = true := by
    intro i
    rw [List.mem_filter, List.mem_map]
    constructor
    · rintro ⟨⟨e, he, rfl⟩, hi⟩
      exact ⟨⟨by omega, by have := List.mem_range.mp he; omega⟩, hi⟩
    · rintro ⟨⟨hle, hlt⟩, hi⟩
      exact ⟨⟨i - m, List.mem_range.mpr (by omega), by omega⟩, hi⟩
  have hsorted : (((List.range d).map (m + ·)).filter
      fun i => (p[i]?).any acting).Pairwise (· < ·) :=
    (List.Pairwise.map _ (fun _ _ hlt => by omega) List.pairwise_lt_range).filter _
  have hk := (hmem k).mp (by rw [← hall]; exact List.mem_cons_self)
  refine ⟨hk.1.1, fun i hmi hik => ?_⟩
  by_contra hi
  have hin := (hmem i).mpr ⟨⟨hmi, by omega⟩, by simpa using hi⟩
  rw [← hall] at hin hsorted
  rcases List.mem_cons.mp hin with rfl | htail
  · omega
  · have := (List.pairwise_cons.mp hsorted).1 i htail
    omega

theorem Legal.follows_succ (h : Legal names acting order p)
    (hmove : Movable names act acting relabel) {s : σ} {j k m : ℕ} (hj : order[j]? = some k)
    (hfollows : Follows names act acting order p s j m
      (execute names act ((reorder relabel order p).take j) s [])) :
    ∃ m', Follows names act acting order p s (j + 1) m'
      (execute names act ((reorder relabel order p).take (j + 1)) s []) := by
  have hk : k < p.length := h.lt_length (List.mem_of_getElem? hj)
  obtain ⟨a, ha⟩ : ∃ a, p[k]? = some a := ⟨_, List.getElem?_eq_getElem hk⟩
  have hnew : (reorder relabel order p)[j]? = some (relabel (fun n => order.idxOf n) a) := by
    rw [h.getElem?_reorder, hj, Option.bind_some, ha, Option.map_some]
  have hindex : order.idxOf k = j := by
    have hlt : j < order.length := (List.getElem?_eq_some_iff.mp hj).1
    rw [← (List.getElem?_eq_some_iff.mp hj).2]
    exact List.Nodup.idxOf_getElem h.nodup j hlt
  generalize hresult : execute names act ((reorder relabel order p).take j) s [] = result
    at hfollows
  -- The steps it names gave the same at their new positions.
  have hvalues : ((names (relabel (fun n => order.idxOf n) a)).map fun n => result.2[n]?) =
      (names a).map fun n => (execute names act (p.take k) s []).2[n]? := by
    rw [hmove.names_relabel, List.map_map]
    refine List.map_congr_left fun n hn => ?_
    have hlt := h.still_backward k a ha n hn
    have hnk := h.backward k a ha n hn
    rw [hindex] at hlt
    have hmem : n ∈ order := h.perm.mem_iff.mpr (List.mem_range.mpr (by omega))
    have hat : order[order.idxOf n]? = some n := by
      rw [List.getElem?_eq_getElem (List.idxOf_lt_length_of_mem hmem), List.getElem_idxOf]
    show result.2[order.idxOf n]? = _
    rw [hfollows.value _ n hlt hat, getElem?_execute_take p s hnk]
  have htake : ∀ q : ℕ → Bool, (order.take (j + 1)).filter q =
      (order.take j).filter q ++ [k].filter q := by
    intro q
    rw [List.take_add_one, hj, Option.toList_some, List.filter_append]
  have hstep := execute_take_succ names act hnew s
  rw [hresult, hvalues, hmove.act_relabel] at hstep
  have hwhole := execute_take_succ names act ha s
  have hvalue : (execute names act p s []).2[k]? = some (act (execute names act (p.take k) s []).1 a
      ((names a).map fun n => (execute names act (p.take k) s []).2[n]?)).2 := by
    rw [← getElem?_execute_take p s (Nat.lt_succ_self k), hwhole]
    have hlength := @length_execute _ _ _ names act (p.take k) s []
    rw [List.length_take, List.length_nil] at hlength
    rw [List.getElem?_append_right (by omega)]
    have hzero : k - (execute names act (p.take k) s []).2.length = 0 := by omega
    rw [hzero]
    rfl
  -- What the step itself gives, once its state is known up to what it reads.
  have hvalues_of : ∀ value, value = (act (execute names act (p.take k) s []).1 a
      ((names a).map fun n => (execute names act (p.take k) s []).2[n]?)).2 →
      ∀ i k', i < j + 1 → order[i]? = some k' →
        (result.2 ++ [value])[i]? = (execute names act p s []).2[k']? := by
    intro value hvaluek i k' hi hik'
    rcases Nat.lt_succ_iff_lt_or_eq.mp hi with hlt | rfl
    · rw [List.getElem?_append_left (by rw [hfollows.count]; exact hlt)]
      exact hfollows.value i k' hlt hik'
    · rw [hj] at hik'
      cases hik'
      rw [List.getElem?_append_right (Nat.le_of_eq hfollows.count), hfollows.count, Nat.sub_self,
        hvalue, hvaluek]
      rfl
  cases hact : acting a with
  | true =>
    have hany : (p[k]?).any acting = true := by rw [ha, Option.any_some, hact]
    obtain ⟨hmk, hquiet⟩ := h.next_acting hj hfollows.bound hany hfollows.acted
    have hstate : result.1 = (execute names act (p.take k) s []).1 :=
      hfollows.state.trans (state_of_quiet hmove s hmk hquiet).symm
    refine ⟨k + 1, hk, ?_, ?_, ?_, ?_⟩
    · obtain ⟨d, rfl⟩ := Nat.exists_eq_add_of_le hmk
      rw [htake, hfollows.acted, List.range_succ, List.filter_append, List.range_add,
        List.filter_append]
      have hnone : ((List.range d).map (m + ·)).filter (fun i => (p[i]?).any acting) = [] := by
        rw [List.filter_eq_nil_iff]
        intro i hi
        obtain ⟨e, he, rfl⟩ := List.mem_map.mp hi
        rw [hquiet (m + e) (by omega) (by have := List.mem_range.mp he; omega)]
        exact Bool.false_ne_true
      rw [hnone, List.append_nil]
    · rw [hstep, hwhole, hstate]
    · rw [hstep, List.length_append, hfollows.count]
      rfl
    · rw [hstep]
      exact hvalues_of _ (by rw [hstate])
  | false =>
    refine ⟨m, hfollows.bound, ?_, ?_, ?_, ?_⟩
    · have hany : (p[k]?).any acting = false := by rw [ha, Option.any_some, hact]
      rw [htake, hfollows.acted, List.filter_cons, if_neg (by rw [hany]; exact Bool.false_ne_true),
        List.filter_nil, List.append_nil]
    · rw [hstep, hmove.quiet a hact _ s]
      exact hfollows.state
    · rw [hstep, List.length_append, hfollows.count]
      rfl
    · rw [hstep]
      exact hvalues_of _ (by
        rw [hmove.quiet a hact _ s, hmove.quiet a hact (execute names act (p.take k) s []).1 s])

/-- In a legal order the program leaves the same state, and every step gives what it gave. -/
theorem execute_reorder (h : Legal names acting order p)
    (hmove : Movable names act acting relabel) (s : σ) :
    (execute names act (reorder relabel order p) s []).1 = (execute names act p s []).1 ∧
      ∀ j k : ℕ, order[j]? = some k →
        (execute names act (reorder relabel order p) s []).2[j]? =
          (execute names act p s []).2[k]? := by
  have hfollows : ∀ j, j ≤ order.length → ∃ m, Follows names act acting order p s j m
      (execute names act ((reorder relabel order p).take j) s []) := by
    intro j
    induction j with
    | zero => exact fun _ => ⟨0, Nat.zero_le _, rfl, rfl, rfl, fun i k hi => absurd hi (by omega)⟩
    | succ j ih =>
      intro hj
      obtain ⟨m, hm⟩ := ih (by omega)
      have hat : order[j]? = some order[j] := List.getElem?_eq_getElem (by omega)
      exact h.follows_succ hmove hat hm
  obtain ⟨m, hm⟩ := hfollows order.length (Nat.le_refl _)
  have hlength : (reorder relabel order p).length ≤ order.length := List.length_filterMap_le _ _
  rw [List.take_of_length_le hlength] at hm
  have hvalue : ∀ j k : ℕ, order[j]? = some k →
      (execute names act (reorder relabel order p) s []).2[j]? =
        (execute names act p s []).2[k]? := by
    intro j k hj
    exact hm.value j k (List.getElem?_eq_some_iff.mp hj).1 hj
  refine ⟨?_, hvalue⟩
  rw [hm.state]
  have hacted := hm.acted
  rw [List.take_length, h.acting_order] at hacted
  have hquiet : ∀ i, m ≤ i → i < p.length → (p[i]?).any acting = false := by
    intro i hmi hi
    by_contra hact
    have hin : i ∈ (List.range p.length).filter fun k => (p[k]?).any acting :=
      List.mem_filter.mpr ⟨List.mem_range.mpr hi, by simpa using hact⟩
    rw [hacted] at hin
    have := List.mem_range.mp (List.mem_filter.mp hin).1
    omega
  have hsame := state_of_quiet hmove s hm.bound hquiet
  rw [List.take_length] at hsame
  exact hsame.symm

end reordering

end QuokyPlatform.Reordering
