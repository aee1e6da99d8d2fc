import Mathlib.Data.List.Basic
import Mathlib.Tactic.Common

/-!
# Last writers

Contents give each cell a value of the cell's own type. A write names some cells and gives each of
them a value. A log is replayed on some contents: what an entry writes may depend on the contents
it meets. Each cell of the result holds what the last write that names it wrote.
-/

namespace QuokyPlatform.LastWriter
set_option autoImplicit false
set_option maxHeartbeats 250000

abbrev Contents {C : Type*} (V : C → Type*) := (cell : C) → V cell

abbrev Write {C : Type*} (V : C → Type*) := (cell : C) → Option (V cell)

variable {C : Type*} {V : C → Type*} {α : Type*}

/-- The write that names no cell. -/
def nothing : Write V := fun _ => none

/-- The write that names every cell. -/
def whole (contents : Contents V) : Write V := fun cell => some (contents cell)

def overlay (contents : Contents V) (write : Write V) : Contents V :=
  fun cell => (write cell).getD (contents cell)

@[simp] theorem overlay_nothing (contents : Contents V) :
    overlay contents nothing = contents := rfl

@[simp] theorem overlay_whole (contents next : Contents V) :
    overlay contents (whole next) = next := rfl

theorem overlay_of_named (contents : Contents V) {write : Write V} {cell : C} {value : V cell}
    (h : write cell = some value) : overlay contents write cell = value := by
  simp [overlay, h]

theorem overlay_of_unnamed (contents : Contents V) {write : Write V} {cell : C}
    (h : write cell = none) : overlay contents write cell = contents cell := by
  simp [overlay, h]

/-! ## Logs -/

section log

variable (write : Contents V → α → Write V)

def replay (contents : Contents V) (log : List α) : Contents V :=
  log.foldl (fun found entry => overlay found (write found entry)) contents

/-- The writes of the entries, each on the contents that its entry meets. -/
def writes (contents : Contents V) : List α → List (Write V)
  | [] => []
  | entry :: log =>
    write contents entry :: writes (overlay contents (write contents entry)) log

@[simp] theorem replay_nil (contents : Contents V) : replay write contents [] = contents := rfl

@[simp] theorem replay_cons (contents : Contents V) (entry : α) (log : List α) :
    replay write contents (entry :: log) =
      replay write (overlay contents (write contents entry)) log := rfl

theorem replay_append (contents : Contents V) (log more : List α) :
    replay write contents (log ++ more) = replay write (replay write contents log) more :=
  List.foldl_append

theorem replay_concat (contents : Contents V) (log : List α) (entry : α) :
    replay write contents (log ++ [entry]) =
      overlay (replay write contents log) (write (replay write contents log) entry) :=
  replay_append write contents log [entry]

end log

/-- The value is what the last of the writes that names the cell gives it, and the initial value
of the cell when none does. -/
def LastWritten (contents : Contents V) (log : List (Write V)) (cell : C) (value : V cell) : Prop :=
  (∃ before last later, log = before ++ last :: later ∧ last cell = some value ∧
    ∀ w ∈ later, w cell = none) ∨
  (∀ w ∈ log, w cell = none) ∧ value = contents cell

theorem LastWritten.cons {contents : Contents V} {write : Write V} {log : List (Write V)} {cell : C}
    {value : V cell} (h : LastWritten (overlay contents write) log cell value) :
    LastWritten contents (write :: log) cell value := by
  obtain ⟨before, last, later, rfl, hlast, hlater⟩ | ⟨hnone, rfl⟩ := h
  · exact .inl ⟨write :: before, last, later, rfl, hlast, hlater⟩
  · cases hwrite : write cell with
    | some value =>
      rw [overlay_of_named _ hwrite]
      exact .inl ⟨[], write, log, rfl, hwrite, hnone⟩
    | none =>
      rw [overlay_of_unnamed _ hwrite]
      exact .inr ⟨List.forall_mem_cons.mpr ⟨hwrite, hnone⟩, rfl⟩

theorem replay_lastWritten (write : Contents V → α → Write V) (contents : Contents V)
    (log : List α) (cell : C) :
    LastWritten contents (writes write contents log) cell (replay write contents log cell) := by
  induction log generalizing contents with
  | nil => exact .inr ⟨by simp [writes], rfl⟩
  | cons entry log ih => exact (ih (overlay contents (write contents entry))).cons

/-- A property of one cell that every entry keeps when it meets it stays. -/
theorem replay_stays {write : Contents V → α → Write V} (cell : C) (P : V cell → Prop)
    (hwrite : ∀ (contents : Contents V) (entry : α), P (contents cell) →
      P (overlay contents (write contents entry) cell))
    {contents : Contents V} (log : List α) (h : P (contents cell)) :
    P (replay write contents log cell) := by
  induction log generalizing contents with
  | nil => exact h
  | cons entry log ih => exact ih (hwrite contents entry h)

end QuokyPlatform.LastWriter
