import Mathlib.Logic.Function.Basic
import Mathlib.Logic.Relation
import Mathlib.Tactic.Common

/-!
# A pointer and the records that displace it

A pointer is lent to records. A new record takes the pointer and remembers what it displaced; when
the pointer is already at a record, it remembers what that one remembers. A record that ends hands
the pointer back, if it still has it. Records may end in any order, and be kept open or reopened
after they lost the pointer.
-/

namespace QuokyPlatform.Displacement
set_option autoImplicit false
set_option maxHeartbeats 250000

variable {K : Type*}

structure Record (K : Type*) where
  previous : Option K
  closed : Bool

@[ext]
structure Desk (K : Type*) where
  pointer : Option K
  records : K → Option (Record K)

variable [DecidableEq K]

namespace Desk

/-- What a record made now remembers. -/
def displaced (desk : Desk K) : Option K :=
  desk.pointer.bind fun key =>
    match desk.records key with
    | some record => record.previous
    | none => some key

def put (desk : Desk K) (key : K) (record : Record K) : Desk K :=
  { desk with records := Function.update desk.records key (some record) }

@[simp] theorem put_pointer (desk : Desk K) (key : K) (record : Record K) :
    (desk.put key record).pointer = desk.pointer := rfl

@[simp] theorem put_self (desk : Desk K) (key : K) (record : Record K) :
    (desk.put key record).records key = some record := Function.update_self ..

theorem put_of_ne {desk : Desk K} {key other : K} (record : Record K) (h : other ≠ key) :
    (desk.put key record).records other = desk.records other := Function.update_of_ne h ..

/-- The pointer moves from the record to `target`; it stays if it is elsewhere. -/
def hand (desk : Desk K) (key : K) (target : Option K) : Desk K :=
  { desk with pointer := if desk.pointer = some key then target else desk.pointer }

@[simp] theorem hand_records (desk : Desk K) (key : K) (target : Option K) :
    (desk.hand key target).records = desk.records := rfl

theorem hand_of_eq {desk : Desk K} {key : K} (target : Option K) (h : desk.pointer = some key) :
    desk.hand key target = { desk with pointer := target } := by
  unfold hand
  rw [if_pos h]

theorem hand_of_ne {desk : Desk K} {key : K} (target : Option K) (h : desk.pointer ≠ some key) :
    desk.hand key target = desk := by
  unfold hand
  rw [if_neg h]

end Desk

/-- A step of the pointer and its records; no record has the key of the base. -/
inductive Step (base : Option K) : Desk K → Desk K → Prop
  /-- A new record takes the pointer. -/
  | displace {desk : Desk K} {key : K} (hnew : desk.records key = none) (hbase : some key ≠ base) :
      Step base desk { desk.put key ⟨desk.displaced, false⟩ with pointer := some key }
  /-- A new record takes the pointer from a record that this ends. -/
  | supersede {desk : Desk K} {key old : K} {record : Record K} (hnew : desk.records key = none)
      (hbase : some key ≠ base) (hpointer : desk.pointer = some old)
      (hold : desk.records old = some record) :
      Step base desk { (desk.put old { record with closed := true }).put key
        ⟨record.previous, false⟩ with pointer := some key }
  /-- A record is open, or open again. -/
  | keep {desk : Desk K} {key : K} {record : Record K} (h : desk.records key = some record) :
      Step base desk (desk.put key { record with closed := false })
  /-- A record is done and hands the pointer back, but not to nothing. -/
  | settle {desk : Desk K} {key target : K} {record : Record K} (h : desk.records key = some record)
      (htarget : record.previous = some target) :
      Step base desk ((desk.put key { record with closed := false }).hand key (some target))
  /-- A record ends and hands the pointer back. -/
  | close {desk : Desk K} {key : K} {record : Record K} (h : desk.records key = some record) :
      Step base desk ((desk.put key { record with closed := true }).hand key record.previous)

abbrev Run (base : Option K) : Desk K → Desk K → Prop := Relation.ReflTransGen (Step base)

/-! ## Collapsed chains -/

/-- Every record remembers the base, and the pointer is at the base or at an open record. -/
structure Collapsed (base : Option K) (desk : Desk K) : Prop where
  previous : ∀ key record, desk.records key = some record → record.previous = base
  apart : ∀ key record, desk.records key = some record → some key ≠ base
  pointer : desk.pointer = base ∨
    ∃ key record, desk.pointer = some key ∧ desk.records key = some record ∧ record.closed = false

variable {base : Option K} {desk desk' : Desk K}

omit [DecidableEq K] in
theorem collapsed_initial : Collapsed base (⟨base, fun _ => none⟩ : Desk K) where
  previous _ _ h := by cases h
  apart _ _ h := by cases h
  pointer := .inl rfl

namespace Collapsed

omit [DecidableEq K] in
/-- A base has no record. -/
theorem base_free (h : Collapsed base desk) {key : K} (hkey : base = some key) :
    desk.records key = none := by
  cases hrecord : desk.records key with
  | none => rfl
  | some record => exact absurd hkey.symm (h.apart key record hrecord)

omit [DecidableEq K] in
theorem displaced_eq (h : Collapsed base desk) : desk.displaced = base := by
  rcases h.pointer with hbase | ⟨key, record, hkey, hrecord, -⟩
  · cases hb : base with
    | none => rw [Desk.displaced, hbase, hb]; rfl
    | some key => rw [Desk.displaced, hbase, hb]; simp [h.base_free hb]
  · rw [Desk.displaced, hkey]
    simp [hrecord, h.previous key record hrecord]

/-- Putting a record that remembers the base keeps the chain collapsed, when the pointer is not left
at an ended record. -/
theorem put (h : Collapsed base desk) {key : K} {record : Record K} (hprev : record.previous = base)
    (hbase : some key ≠ base) (hopen : record.closed = false ∨ desk.pointer ≠ some key) :
    Collapsed base (desk.put key record) where
  previous other found hfound := by
    by_cases heq : other = key
    · subst heq
      rw [Desk.put_self, Option.some.injEq] at hfound
      exact hfound ▸ hprev
    · rw [Desk.put_of_ne record heq] at hfound
      exact h.previous other found hfound
  apart other found hfound := by
    by_cases heq : other = key
    · exact heq ▸ hbase
    · rw [Desk.put_of_ne record heq] at hfound
      exact h.apart other found hfound
  pointer := by
    rcases h.pointer with hb | ⟨other, found, hother, hfound, hclosed⟩
    · exact .inl hb
    · refine .inr ?_
      by_cases heq : other = key
      · subst heq
        exact ⟨other, record, hother, Desk.put_self .., hopen.resolve_right (absurd hother)⟩
      · exact ⟨other, found, hother, (Desk.put_of_ne record heq).trans hfound, hclosed⟩

omit [DecidableEq K] in
theorem point (h : Collapsed base desk) {pointer : Option K}
    (hpointer : pointer = base ∨ ∃ key record, pointer = some key ∧
      desk.records key = some record ∧ record.closed = false) :
    Collapsed base { desk with pointer := pointer } := ⟨h.previous, h.apart, hpointer⟩

/-- A record that ends: whether it had the pointer or not, the chain stays collapsed. -/
theorem close (h : Collapsed base desk) {key : K} {record : Record K}
    (hrecord : desk.records key = some record) :
    Collapsed base ((desk.put key { record with closed := true }).hand key record.previous) := by
  have hprev := h.previous key record hrecord
  have hbase := h.apart key record hrecord
  subst hprev
  by_cases hat : desk.pointer = some key
  · have hgiven : (desk.put key { record with closed := true }).pointer = some key := hat
    have hback : Collapsed record.previous { desk with pointer := record.previous } :=
      h.point (.inl rfl)
    rw [Desk.hand_of_eq _ hgiven]
    exact hback.put rfl hbase (.inr hbase.symm)
  · have hput : (desk.put key { record with closed := true }).pointer ≠ some key := hat
    rw [Desk.hand_of_ne _ hput]
    exact h.put rfl hbase (.inr hat)

theorem step (h : Collapsed base desk) (hstep : Step base desk desk') : Collapsed base desk' := by
  cases hstep with
  | displace hnew hbase =>
    exact (h.put h.displaced_eq hbase (.inl rfl)).point
      (.inr ⟨_, _, rfl, Desk.put_self .., rfl⟩)
  | @supersede key old record hnew hbase hpointer hold =>
    have hprev := h.previous old record hold
    have htaken : (⟨record.previous, false⟩ : Record K).previous = base := hprev
    have hput := (h.close hold).put htaken hbase (.inl rfl)
    exact ⟨hput.previous, hput.apart, .inr ⟨_, _, rfl, Desk.put_self .., rfl⟩⟩
  | keep hrecord =>
    have hprev := h.previous _ _ hrecord
    exact h.put hprev (h.apart _ _ hrecord) (.inl rfl)
  | @settle key target record hrecord htarget =>
    have hprev := h.previous _ _ hrecord
    have hkept : Collapsed base (desk.put key { record with closed := false }) :=
      h.put hprev (h.apart _ _ hrecord) (.inl rfl)
    refine hkept.point ?_
    by_cases hat : desk.pointer = some key
    · rw [Desk.put_pointer, if_pos hat]
      exact .inl (htarget.symm.trans hprev)
    · rw [Desk.put_pointer, if_neg hat]
      exact hkept.pointer
  | close hrecord => exact h.close hrecord

theorem run (h : Collapsed base desk) (hrun : Run base desk desk') : Collapsed base desk' := by
  induction hrun with
  | refl => exact h
  | tail _ hstep ih => exact ih.step hstep

omit [DecidableEq K] in
/-- When every record has ended, the pointer is at the base. -/
theorem pointer_of_closed (h : Collapsed base desk)
    (hclosed : ∀ key record, desk.records key = some record → record.closed = true) :
    desk.pointer = base := by
  rcases h.pointer with hbase | ⟨key, record, -, hrecord, hopen⟩
  · exact hbase
  · rw [hclosed key record hrecord] at hopen
    cases hopen

end Collapsed

/-! ## What moves the pointer -/

/-- A record stays a record. -/
theorem Step.records_persist (hstep : Step base desk desk') {key : K}
    (h : desk'.records key = none) : desk.records key = none := by
  have hput : ∀ {d : Desk K} {other : K} {record : Record K},
      (d.put other record).records key = none → d.records key = none := by
    intro d other record hnone
    by_cases heq : key = other
    · subst heq
      rw [Desk.put_self] at hnone
      cases hnone
    · rwa [Desk.put_of_ne record heq] at hnone
  cases hstep with
  | displace => exact hput h
  | supersede => exact hput (hput h)
  | keep => exact hput h
  | settle => exact hput h
  | close => exact hput h

/-- The pointer stays, goes back to the base, or goes to a record that was not there. -/
theorem Step.pointer_moves (hcollapsed : Collapsed base desk) (hstep : Step base desk desk') :
    desk'.pointer = desk.pointer ∨ desk'.pointer = base ∨
      ∃ key, desk'.pointer = some key ∧ desk.records key = none := by
  cases hstep with
  | displace hnew => exact .inr (.inr ⟨_, rfl, hnew⟩)
  | supersede hnew => exact .inr (.inr ⟨_, rfl, hnew⟩)
  | keep => exact .inl rfl
  | @settle key target record hrecord htarget =>
    by_cases hat : desk.pointer = some key
    · have hprev := hcollapsed.previous _ _ hrecord
      exact .inr (.inl (by simp [Desk.hand, hat, ← htarget, hprev]))
    · exact .inl (by simp [Desk.hand, hat])
  | @close key record hrecord =>
    by_cases hat : desk.pointer = some key
    · have hprev := hcollapsed.previous _ _ hrecord
      exact .inr (.inl (by simp [Desk.hand, hat, hprev]))
    · exact .inl (by simp [Desk.hand, hat])

theorem run_records_persist (hrun : Run base desk desk') {key : K} (h : desk'.records key = none) :
    desk.records key = none := by
  induction hrun with
  | refl => exact h
  | tail _ hstep ih => exact ih (hstep.records_persist h)

theorem run_pointer_moves (hcollapsed : Collapsed base desk) (hrun : Run base desk desk') :
    desk'.pointer = desk.pointer ∨ desk'.pointer = base ∨
      ∃ key, desk'.pointer = some key ∧ desk.records key = none := by
  induction hrun with
  | refl => exact .inl rfl
  | tail hbefore hstep ih =>
    rcases hstep.pointer_moves (hcollapsed.run hbefore) with hsame | hbase | ⟨key, hkey, hnew⟩
    · rw [hsame]
      exact ih
    · exact .inr (.inl hbase)
    · exact .inr (.inr ⟨key, hkey, run_records_persist hbefore hnew⟩)

end QuokyPlatform.Displacement
