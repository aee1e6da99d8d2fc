import Mathlib.Data.List.Basic
import Mathlib.Order.Nat
import Mathlib.Tactic.Common

/-!
# Tilings of an interval of offsets

A list of half-open ranges tiles `[a, b)` when the first starts at `a`, every one starts where
the one before it stops, none is empty and the last stops at `b`. The positions a range may stop
at are given by a predicate, so that a tiling can record that a text is only cut between two code
points.
-/

namespace QuokyPlatform
set_option autoImplicit false
set_option maxHeartbeats 250000

/-- A half-open range `[start, stop)` of offsets. -/
structure Range where
  start : ℕ
  stop : ℕ
  deriving Repr, DecidableEq

namespace Range

/-- The elements of `xs` at the offsets of the range. -/
def slice {α : Type*} (r : Range) (xs : List α) : List α := (xs.drop r.start).take (r.stop - r.start)

/-- The range from the start of the first to the stop of the last of some consecutive ranges. -/
def hull (first last : Range) : Range := ⟨first.start, last.stop⟩

end Range

/-- Each position up to the next one, the last up to `stop`. -/
def rangesBetween (stop : ℕ) : List ℕ → List Range
  | [] => []
  | [last] => [⟨last, stop⟩]
  | first :: next :: rest => ⟨first, next⟩ :: rangesBetween stop (next :: rest)

/-- `rs` partitions `[a, b)` into non-empty ranges that stop at positions where `cut` holds. -/
inductive Tiles (cut : ℕ → Prop) : ℕ → ℕ → List Range → Prop
  | nil (a : ℕ) : Tiles cut a a []
  | cons {a b : ℕ} {r : Range} {rs : List Range} (hstart : r.start = a) (hlt : a < r.stop)
      (hcut : cut r.stop) (hrest : Tiles cut r.stop b rs) : Tiles cut a b (r :: rs)

namespace Tiles
variable {cut : ℕ → Prop} {a b c : ℕ} {r : Range} {rs ss : List Range}

@[simp] theorem nil_iff : Tiles cut a b [] ↔ a = b := by
  constructor
  · intro h
    cases h
    rfl
  · rintro rfl
    exact .nil a

@[simp] theorem cons_iff :
    Tiles cut a b (r :: rs) ↔ r.start = a ∧ a < r.stop ∧ cut r.stop ∧ Tiles cut r.stop b rs := by
  constructor
  · intro h
    cases h with
    | cons hstart hlt hcut hrest => exact ⟨hstart, hlt, hcut, hrest⟩
  · rintro ⟨hstart, hlt, hcut, hrest⟩
    exact .cons hstart hlt hcut hrest

theorem single (hlt : a < b) (hcut : cut b) : Tiles cut a b [⟨a, b⟩] := by
  simp [hlt, hcut]

theorem le (h : Tiles cut a b rs) : a ≤ b := by
  induction h with
  | nil => exact le_refl _
  | cons _ hlt _ _ ih => exact (le_of_lt hlt).trans ih

theorem cut_stop (h : Tiles cut a b rs) (ha : cut a) : cut b := by
  induction h with
  | nil => exact ha
  | cons _ _ hcut _ ih => exact ih hcut

theorem append_iff :
    Tiles cut a b (rs ++ ss) ↔ ∃ m, Tiles cut a m rs ∧ Tiles cut m b ss := by
  induction rs generalizing a with
  | nil => simp
  | cons r rs ih =>
    simp only [List.cons_append, cons_iff, ih]
    constructor
    · rintro ⟨hstart, hlt, hcut, m, hleft, hright⟩
      exact ⟨m, ⟨hstart, hlt, hcut, hleft⟩, hright⟩
    · rintro ⟨m, ⟨hstart, hlt, hcut, hleft⟩, hright⟩
      exact ⟨hstart, hlt, hcut, m, hleft, hright⟩

theorem append (hleft : Tiles cut a b rs) (hright : Tiles cut b c ss) :
    Tiles cut a c (rs ++ ss) := append_iff.mpr ⟨b, hleft, hright⟩

/-- A further range at the end. -/
theorem concat (h : Tiles cut a b rs) (hstart : r.start = b) (hlt : b < r.stop)
    (hcut : cut r.stop) : Tiles cut a r.stop (rs ++ [r]) := by
  apply h.append
  simp [hstart, hlt, hcut]

/-- The last range may be moved to a later stop. -/
theorem extend_last (h : Tiles cut a b (rs ++ [r])) (hle : b ≤ c) (hcut : cut c) :
    Tiles cut a c (rs ++ [⟨r.start, c⟩]) := by
  obtain ⟨m, hleft, hright⟩ := append_iff.mp h
  simp only [cons_iff, nil_iff] at hright
  obtain ⟨hstart, hlt, -, hstop⟩ := hright
  have hlt' : m < c := by omega
  exact hleft.append (.cons hstart hlt' hcut (.nil c))

/-- A range of a tiling is non-empty, lies inside it, and starts and stops at cuts. -/
theorem mem (h : Tiles cut a b rs) (ha : cut a) (hr : r ∈ rs) :
    a ≤ r.start ∧ r.start < r.stop ∧ r.stop ≤ b ∧ cut r.start ∧ cut r.stop := by
  induction h with
  | nil => simp at hr
  | @cons a b first rest hstart hlt hcut hrest ih =>
    cases List.mem_cons.mp hr with
    | inl heq =>
      subst heq
      exact ⟨hstart.ge, hstart ▸ hlt, hrest.le, hstart ▸ ha, hcut⟩
    | inr hmem =>
      obtain ⟨hle, hbody⟩ := ih hcut hmem
      exact ⟨(le_of_lt hlt).trans hle, hbody⟩

/-- Every part of a tiling may be replaced by a tiling of itself. -/
theorem flatMap {α : Type*} {xs : List α} {range : α → Range} {f : α → List Range}
    (h : Tiles cut a b (xs.map range)) (ha : cut a)
    (hf : ∀ x, (range x).start < (range x).stop → cut (range x).start → cut (range x).stop →
      Tiles cut (range x).start (range x).stop (f x)) :
    Tiles cut a b (xs.flatMap f) := by
  induction xs generalizing a with
  | nil => simpa using h
  | cons x xs ih =>
    rw [List.map_cons, cons_iff] at h
    obtain ⟨hstart, hlt, hcut, hrest⟩ := h
    rw [List.flatMap_cons]
    apply Tiles.append
    · rw [← hstart]
      exact hf x (hstart ▸ hlt) (hstart ▸ ha) hcut
    · exact ih hrest hcut

/-- Every range of a tiling may be replaced by a tiling of itself. -/
theorem refine {f : Range → List Range} (h : Tiles cut a b rs) (ha : cut a)
    (hf : ∀ r, r.start < r.stop → cut r.start → cut r.stop → Tiles cut r.start r.stop (f r)) :
    Tiles cut a b (rs.flatMap f) := by
  rw [← List.map_id rs] at h
  exact h.flatMap ha hf

theorem head_start (h : Tiles cut a b (r :: rs)) : r.start = a := (cons_iff.mp h).1

theorem lt_of_cons (h : Tiles cut a b (r :: rs)) : a < b := by
  obtain ⟨_, hlt, -, hrest⟩ := cons_iff.mp h
  exact hlt.trans_le hrest.le

theorem last_stop (h : Tiles cut a b rs) (hlast : rs.getLast? = some r) : r.stop = b := by
  obtain ⟨init, rfl⟩ := List.getLast?_eq_some_iff.mp hlast
  obtain ⟨m, -, hright⟩ := append_iff.mp h
  simp only [cons_iff, nil_iff] at hright
  exact hright.2.2.2

/-- The cuts may be weakened. -/
theorem mono {cut' : ℕ → Prop} (h : Tiles cut a b rs) (hcut : ∀ x, cut x → cut' x) :
    Tiles cut' a b rs := by
  induction h with
  | nil a => exact .nil a
  | cons hstart hlt hc _ ih => exact .cons hstart hlt (hcut _ hc) ih

/-- A map that is strictly increasing on the cuts carries a tiling to a tiling by other cuts. -/
theorem map {cut' : ℕ → Prop} {f : ℕ → ℕ} (h : Tiles cut a b rs) (ha : cut a)
    (hlt : ∀ x y, cut x → cut y → x < y → f x < f y) (hcut : ∀ x, cut x → cut' (f x)) :
    Tiles cut' (f a) (f b) (rs.map fun r => ⟨f r.start, f r.stop⟩) := by
  induction h with
  | nil a => exact .nil _
  | @cons a b first rest hstart hstep hstop hrest ih =>
    exact .cons (congrArg f hstart) (hlt _ _ ha hstop hstep) (hcut _ hstop) (ih hstop)

/-- A map that is strictly increasing on the cuts. -/
theorem map_increasing {f : ℕ → ℕ} (h : Tiles cut a b rs) (ha : cut a)
    (hlt : ∀ x y, cut x → cut y → x < y → f x < f y) :
    Tiles (fun _ => True) (f a) (f b) (rs.map fun r => ⟨f r.start, f r.stop⟩) :=
  h.map ha hlt fun _ _ => trivial

/-- The ranges of a tiling start one after the other. -/
theorem starts_sorted (h : Tiles cut a b rs) (ha : cut a) :
    (rs.map Range.start).Pairwise (· < ·) := by
  induction h with
  | nil => simp
  | @cons a b first rest hstart hlt hcut hrest ih =>
    rw [List.map_cons, List.pairwise_cons]
    refine ⟨fun start hmem => ?_, ih hcut⟩
    obtain ⟨r, hr, rfl⟩ := List.mem_map.mp hmem
    have hle := (hrest.mem hcut hr).1
    omega

/-- The ranges of a tiling stand apart, one after the other. -/
theorem pairwise (h : Tiles cut a b rs) (ha : cut a) :
    rs.Pairwise fun first second => first.stop ≤ second.start := by
  induction h with
  | nil => exact .nil
  | @cons a b first rest hstart hlt hcut hrest ih =>
    exact List.pairwise_cons.mpr ⟨fun r hr => (hrest.mem hcut hr).1, ih hcut⟩

/-- Increasing positions, each up to the next one, tile the interval they start. -/
theorem between {starts : List ℕ} (hsorted : (a :: starts).Pairwise (· < ·))
    (hbound : ∀ start ∈ a :: starts, start < b) (hcut : ∀ start ∈ starts, cut start)
    (hb : cut b) : Tiles cut a b (rangesBetween b (a :: starts)) := by
  induction starts generalizing a with
  | nil => exact .single (hbound a (by simp)) hb
  | cons next starts ih =>
    obtain ⟨hfirst, hrest⟩ := List.pairwise_cons.mp hsorted
    have hlt : a < next := hfirst next (by simp)
    refine .cons rfl hlt (hcut next (by simp)) (ih hrest ?_ ?_)
    · exact fun start hmem => hbound start (List.mem_cons_of_mem _ hmem)
    · exact fun start hmem => hcut start (List.mem_cons_of_mem _ hmem)

/-- Consecutive non-empty groups of a tiling, each taken as one range, tile the same interval. -/
theorem hulls {α β : Type*} {range : α → Range} {xs : List β} {group : β → List α}
    {whole : β → Range} (h : Tiles cut a b ((xs.flatMap group).map range))
    (hwhole : ∀ x, ∃ first last, (group x).head? = some first ∧
      (group x).getLast? = some last ∧ whole x = .hull (range first) (range last)) :
    Tiles cut a b (xs.map whole) := by
  induction xs generalizing a with
  | nil => simpa using h
  | cons x xs ih =>
    rw [List.flatMap_cons, List.map_append] at h
    obtain ⟨m, hgroup, hrest⟩ := append_iff.mp h
    obtain ⟨first, last, hhead, hlast, heq⟩ := hwhole x
    have hstop : (range last).stop = m := by
      apply hgroup.last_stop
      rw [List.getLast?_map, hlast]
      rfl
    have hcut : cut m := by
      obtain ⟨init, hinit⟩ := List.getLast?_eq_some_iff.mp hlast
      rw [hinit, List.map_append] at hgroup
      obtain ⟨_, -, hright⟩ := append_iff.mp hgroup
      simp only [List.map_cons, List.map_nil, cons_iff] at hright
      exact hstop ▸ hright.2.2.1
    obtain ⟨rest, hcons⟩ := List.head?_eq_some_iff.mp hhead
    rw [hcons, List.map_cons] at hgroup
    have hstart : (range first).start = a := hgroup.head_start
    have hlt : a < m := hgroup.lt_of_cons
    rw [List.map_cons, heq, Range.hull, hstop]
    exact .cons hstart hlt hcut (ih hrest)

/-- The slices of a tiling, in order, are the slice of the whole. -/
theorem flatten_slices {α : Type*} {xs : List α} (h : Tiles cut a b rs) :
    (rs.map fun r => r.slice xs).flatten = Range.slice ⟨a, b⟩ xs := by
  induction h with
  | nil a => simp [Range.slice]
  | @cons a b first rest hstart hlt hcut hrest ih =>
    have hle : first.stop ≤ b := hrest.le
    rw [List.map_cons, List.flatten_cons, ih]
    simp only [Range.slice, hstart]
    rw [show b - a = (first.stop - a) + (b - first.stop) by omega, List.take_add, List.drop_drop,
      show a + (first.stop - a) = first.stop by omega]

end Tiles

end QuokyPlatform
