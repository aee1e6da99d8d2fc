import Mathlib.Data.List.Basic
import Mathlib.Data.List.Pairwise

/-! # Relational tables

A table is a list of rows in insertion order whose uniqueness constraints hold. The constraints are
one relation: two rows clash when they may not stand in the table together (the same primary key,
or the same value of a unique column). A statement that would break a constraint fails as a whole,
so `insert` and `update` answer `none` and a table with clashing rows cannot be built. -/

namespace QuokyPlatform

set_option autoImplicit false
set_option maxHeartbeats 250000

structure Table (ρ : Type*) (Clash : ρ → ρ → Prop) where
  rows : List ρ
  distinct : rows.Pairwise fun r s => ¬ Clash r s

namespace Table

variable {ρ : Type*} {Clash : ρ → ρ → Prop}

def empty : Table ρ Clash := ⟨[], List.Pairwise.nil⟩

/-- `SELECT … WHERE p`, the first row in insertion order. -/
def find (t : Table ρ Clash) (p : ρ → Bool) : Option ρ := t.rows.find? p

/-- `SELECT … WHERE p`. -/
def select (t : Table ρ Clash) (p : ρ → Bool) : List ρ := t.rows.filter p

/-- `SELECT COUNT(*) … WHERE p`; for an update it is the number of changed rows. -/
def count (t : Table ρ Clash) (p : ρ → Bool) : ℕ := t.rows.countP p

/-- The rows after `UPDATE … SET f WHERE p`, before the constraints are checked. -/
def updateRows (rows : List ρ) (p : ρ → Bool) (f : ρ → ρ) : List ρ :=
  rows.map fun r => bif p r then f r else r

section statements

variable [DecidableRel Clash]

/-- `INSERT`. It fails on a constraint violation. -/
def insert (t : Table ρ Clash) (r : ρ) : Option (Table ρ Clash) :=
  if h : ∀ s ∈ t.rows, ¬ Clash s r then
    some ⟨t.rows ++ [r], List.pairwise_append.mpr
      ⟨t.distinct, List.pairwise_singleton _ _, fun s hs u hu => by
        rw [List.mem_singleton.mp hu]
        exact h s hs⟩⟩
  else none

/-- `UPDATE … SET f WHERE p`. It fails on a constraint violation. -/
def update (t : Table ρ Clash) (p : ρ → Bool) (f : ρ → ρ) : Option (Table ρ Clash) :=
  if h : (updateRows t.rows p f).Pairwise fun r s => ¬ Clash r s then
    some ⟨updateRows t.rows p f, h⟩
  else none

/-- `DELETE … WHERE p`. -/
def delete (t : Table ρ Clash) (p : ρ → Bool) : Table ρ Clash :=
  ⟨t.rows.filter fun r => !p r, t.distinct.filter _⟩

theorem insert_eq_some {t u : Table ρ Clash} {r : ρ} (h : t.insert r = some u) :
    (∀ s ∈ t.rows, ¬ Clash s r) ∧ u.rows = t.rows ++ [r] := by
  unfold insert at h
  split at h
  · rename_i hfree
    cases h
    exact ⟨hfree, rfl⟩
  · cases h

theorem update_rows {t u : Table ρ Clash} {p : ρ → Bool} {f : ρ → ρ} (h : t.update p f = some u) :
    u.rows = updateRows t.rows p f := by
  unfold update at h
  split at h
  · cases h
    rfl
  · cases h

/-- An update that keeps distinct rows apart succeeds. -/
theorem update_eq_some {t : Table ρ Clash} {p : ρ → Bool} {f : ρ → ρ}
    (h : ∀ r ∈ t.rows, ∀ s ∈ t.rows, ¬ Clash r s →
      ¬ Clash (bif p r then f r else r) (bif p s then f s else s)) :
    ∃ u, t.update p f = some u := by
  have hdistinct : (updateRows t.rows p f).Pairwise fun r s => ¬ Clash r s := by
    rw [updateRows, List.pairwise_map]
    exact t.distinct.imp_of_mem fun hr hs hclash => h _ hr _ hs hclash
  exact ⟨⟨_, hdistinct⟩, dif_pos hdistinct⟩

end statements

theorem mem_delete {t : Table ρ Clash} {p : ρ → Bool} {r : ρ} :
    r ∈ (t.delete p).rows ↔ r ∈ t.rows ∧ p r = false := by
  simp [delete]

theorem find_some {t : Table ρ Clash} {p : ρ → Bool} {r : ρ} (h : t.find p = some r) :
    r ∈ t.rows ∧ p r = true :=
  ⟨List.mem_of_find?_eq_some h, List.find?_some h⟩

theorem mem_updateRows {rows : List ρ} {p : ρ → Bool} {f : ρ → ρ} {u : ρ} :
    u ∈ updateRows rows p f ↔ ∃ r ∈ rows, u = bif p r then f r else r := by
  simp [updateRows, eq_comm]

/-- Two rows of a table that clash are the same row. -/
theorem eq_of_clash [Std.Symm Clash] (t : Table ρ Clash) {r s : ρ}
    (hr : r ∈ t.rows) (hs : s ∈ t.rows) (hclash : Clash r s) : r = s := by
  have hsymm : Std.Symm fun r s => ¬ Clash r s := ⟨fun a b h h' => h (Std.Symm.symm b a h')⟩
  by_contra hne
  exact t.distinct.forall hr hs hne hclash

theorem find_eq_some_of_mem [Std.Symm Clash] (t : Table ρ Clash) {p : ρ → Bool} {r : ρ}
    (hr : r ∈ t.rows) (hp : p r = true) (hkey : ∀ s ∈ t.rows, p s = true → Clash s r) :
    t.find p = some r := by
  cases hf : t.find p with
  | none => exact absurd hp (by simpa [find] using List.find?_eq_none.mp hf r hr)
  | some s =>
    obtain ⟨hs, hps⟩ := find_some hf
    rw [t.eq_of_clash hs hr (hkey s hs hps)]

/-! ## Counting -/

/-- An update whose changed rows counted before they are counted after does not raise a count. -/
theorem countP_updateRows_le {rows : List ρ} {p q : ρ → Bool} {f : ρ → ρ}
    (h : ∀ r ∈ rows, p r = true → q (f r) = true → q r = true) :
    (updateRows rows p f).countP q ≤ rows.countP q := by
  rw [updateRows, List.countP_map]
  refine List.countP_mono_left fun r hr hq => ?_
  cases hp : p r with
  | true =>
    rw [Function.comp_apply, hp, cond_true] at hq
    exact h r hr hp hq
  | false => rwa [Function.comp_apply, hp, cond_false] at hq

/-- An update raises a count by at most the number of rows it changes. -/
theorem countP_updateRows_le_add (rows : List ρ) (p q : ρ → Bool) (f : ρ → ρ) :
    (updateRows rows p f).countP q ≤ rows.countP q + rows.countP p := by
  induction rows with
  | nil => simp [updateRows]
  | cons r rows ih =>
    rw [updateRows, List.map_cons, List.countP_cons, List.countP_cons, List.countP_cons]
    rw [updateRows] at ih
    cases hp : p r with
    | true =>
      simp only [if_true]
      split <;> omega
    | false =>
      simp only [cond_false]
      omega

/-- A predicate whose rows all clash holds of one row at most. -/
theorem countP_le_one {p : ρ → Bool} (hkey : ∀ r s, p r = true → p s = true → Clash r s) :
    ∀ {rows : List ρ}, (rows.Pairwise fun r s => ¬ Clash r s) → rows.countP p ≤ 1
  | [], _ => by simp
  | r :: rows, h => by
    rw [List.pairwise_cons] at h
    rw [List.countP_cons]
    split
    · rename_i hr
      have hnone : rows.countP p = 0 :=
        List.countP_eq_zero.mpr fun s hs hps => h.1 s hs (hkey r s hr hps)
      omega
    · exact countP_le_one hkey h.2

end Table

end QuokyPlatform
