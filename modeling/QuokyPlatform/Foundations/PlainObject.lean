import Mathlib.Data.Finset.Card
import Mathlib.Data.Int.Notation
import Mathlib.Data.List.Nodup
import Mathlib.Tactic.Common

/-!
# Plain objects and JSON values

The properties of a plain object in insertion order, each key once. Setting a present key keeps
its place, setting an absent one appends it. A JSON value is data: writing it and parsing it back
gives the same value.
-/

namespace QuokyPlatform
set_option autoImplicit false
set_option maxHeartbeats 250000

structure PlainObject (K V : Type*) where
  entries : List (K × V)
  distinct : (entries.map Prod.fst).Nodup

namespace PlainObject

variable {K V : Type*} [DecidableEq K]

def empty : PlainObject K V := ⟨[], List.nodup_nil⟩

def keys (object : PlainObject K V) : List K := object.entries.map Prod.fst

def size (object : PlainObject K V) : ℕ := object.entries.length

def get (object : PlainObject K V) (key : K) : Option V :=
  (object.entries.find? fun entry => entry.1 = key).map Prod.snd

def delete (object : PlainObject K V) (key : K) : PlainObject K V where
  entries := object.entries.filter fun entry => entry.1 ≠ key
  distinct := object.distinct.sublist (List.filter_sublist.map _)

/-- Every value replaced by its image. -/
def map {W : Type*} (f : V → W) (object : PlainObject K V) : PlainObject K W where
  entries := object.entries.map fun entry => (entry.1, f entry.2)
  distinct := by
    rw [List.map_map]
    exact object.distinct

theorem keys_replace (entries : List (K × V)) (key : K) (value : V) :
    (entries.map fun entry => if entry.1 = key then (key, value) else entry).map Prod.fst =
      entries.map Prod.fst := by
  rw [List.map_map]
  apply List.map_congr_left
  intro entry _
  by_cases h : entry.1 = key <;> simp [h]

/-- `object[key] = value` -/
def set (object : PlainObject K V) (key : K) (value : V) : PlainObject K V :=
  if h : key ∈ object.keys then
    { entries := object.entries.map fun entry => if entry.1 = key then (key, value) else entry
      distinct := by
        rw [keys_replace]
        exact object.distinct }
  else
    { entries := object.entries ++ [(key, value)]
      distinct := by
        rw [List.map_append]
        exact object.distinct.append (List.nodup_singleton _) (by simpa [keys] using h) }

/-! ## What a key holds -/

@[simp] theorem get_empty (key : K) : (empty : PlainObject K V).get key = none := rfl

theorem mem_of_get {object : PlainObject K V} {key : K} {value : V}
    (h : object.get key = some value) : (key, value) ∈ object.entries := by
  obtain ⟨entry, hentry, rfl⟩ := Option.map_eq_some_iff.mp h
  have hkey : entry.1 = key := by simpa using List.find?_some hentry
  have hmem := List.mem_of_find?_eq_some hentry
  rwa [← hkey]

/-- A property is found under its key. -/
theorem get_of_mem {object : PlainObject K V} {key : K} {value : V}
    (h : (key, value) ∈ object.entries) : object.get key = some value := by
  cases hfind : object.entries.find? fun entry => entry.1 = key with
  | none =>
    have hnone := List.find?_eq_none.mp hfind (key, value) h
    simp at hnone
  | some entry =>
    have hkey : entry.1 = key := by simpa using List.find?_some hfind
    have hmem := List.mem_of_find?_eq_some hfind
    have hsame : entry = (key, value) :=
      List.inj_on_of_nodup_map object.distinct hmem h hkey
    simp [get, hfind, hsame]

theorem get_eq_some {object : PlainObject K V} {key : K} {value : V} :
    object.get key = some value ↔ (key, value) ∈ object.entries :=
  ⟨mem_of_get, get_of_mem⟩

theorem mem_keys {object : PlainObject K V} {key : K} :
    key ∈ object.keys ↔ ∃ value, object.get key = some value := by
  simp only [keys, List.mem_map, Prod.exists, get_eq_some]
  constructor
  · rintro ⟨k, value, hmem, rfl⟩
    exact ⟨value, hmem⟩
  · rintro ⟨value, hmem⟩
    exact ⟨key, value, hmem, rfl⟩

theorem get_eq_none {object : PlainObject K V} {key : K} :
    object.get key = none ↔ key ∉ object.keys := by
  rw [mem_keys, ← Option.ne_none_iff_exists']
  simp

theorem ext_get {object other : PlainObject K V} {key : K}
    (h : ∀ value, (key, value) ∈ object.entries ↔ (key, value) ∈ other.entries) :
    object.get key = other.get key := by
  apply Option.ext
  intro value
  simp only [get_eq_some, h]

theorem get_set (object : PlainObject K V) (key other : K) (value : V) :
    (object.set key value).get other = if other = key then some value else object.get other := by
  by_cases hmem : key ∈ object.keys
  · by_cases heq : other = key
    · subst heq
      rw [if_pos rfl, get_eq_some, set, dif_pos hmem]
      obtain ⟨old, hold⟩ := mem_keys.mp hmem
      exact List.mem_map.mpr ⟨(other, old), mem_of_get hold, by simp⟩
    · rw [if_neg heq]
      apply ext_get
      intro v
      rw [set, dif_pos hmem]
      simp only [List.mem_map, Prod.exists]
      constructor
      · rintro ⟨k, w, hkw, hentry⟩
        split_ifs at hentry with hk
        · cases hentry
          exact absurd rfl heq
        · cases hentry
          exact hkw
      · intro hv
        exact ⟨other, v, hv, by simp [heq]⟩
  · by_cases heq : other = key
    · subst heq
      rw [if_pos rfl, get_eq_some, set, dif_neg hmem]
      simp
    · rw [if_neg heq]
      apply ext_get
      intro v
      rw [set, dif_neg hmem]
      simp [heq]

theorem get_delete (object : PlainObject K V) (key other : K) :
    (object.delete key).get other = if other = key then none else object.get other := by
  by_cases heq : other = key
  · rw [if_pos heq, get_eq_none]
    simp [keys, delete, heq]
  · rw [if_neg heq]
    apply ext_get
    intro v
    simp [delete, heq]

/-! ## Sizes -/

theorem get_map {W : Type*} (f : V → W) (object : PlainObject K V) (key : K) :
    (object.map f).get key = (object.get key).map f := by
  simp only [get, map, List.find?_map, Option.map_map]
  rfl

theorem size_set (object : PlainObject K V) (key : K) (value : V) :
    (object.set key value).size = if key ∈ object.keys then object.size else object.size + 1 := by
  by_cases hmem : key ∈ object.keys
  · rw [if_pos hmem, set, dif_pos hmem]
    simp [size]
  · rw [if_neg hmem, set, dif_neg hmem]
    simp [size]

theorem size_delete_le (object : PlainObject K V) (key : K) :
    (object.delete key).size ≤ object.size :=
  List.length_filter_le _ _

/-- Deleting a present key removes one property. -/
theorem size_delete_lt {object : PlainObject K V} {key : K} (h : key ∈ object.keys) :
    (object.delete key).size < object.size := by
  obtain ⟨value, hvalue⟩ := mem_keys.mp h
  exact List.length_filter_lt_length_iff_exists.mpr
    ⟨(key, value), mem_of_get hvalue, by simp⟩

theorem size_pos_of_get {object : PlainObject K V} {key : K} {value : V}
    (h : object.get key = some value) : 0 < object.size :=
  List.length_pos_of_mem (mem_of_get h)

/-- Objects with the same keys are of one size. -/
theorem size_eq_of_isSome {W : Type*} {object : PlainObject K V} {other : PlainObject K W}
    (h : ∀ key, (object.get key).isSome = (other.get key).isSome) : object.size = other.size := by
  have hperm : object.keys.Perm other.keys := by
    apply (List.perm_ext_iff_of_nodup object.distinct other.distinct).mpr
    intro key
    show key ∈ object.keys ↔ key ∈ other.keys
    rw [mem_keys, mem_keys, ← Option.isSome_iff_exists, ← Option.isSome_iff_exists, h]
  simpa [keys, size] using hperm.length_eq

/-- An object whose keys are among some keys is no larger than they are many. -/
theorem size_le_card {object : PlainObject K V} {among : Finset K}
    (h : ∀ key, (object.get key).isSome = true → key ∈ among) : object.size ≤ among.card := by
  have hcard : object.keys.toFinset.card = object.keys.length :=
    List.toFinset_card_of_nodup object.distinct
  have hsize : object.size = object.keys.toFinset.card := by
    rw [hcard]
    simp [keys, size]
  rw [hsize]
  apply Finset.card_le_card
  intro key hkey
  apply h
  exact Option.isSome_iff_exists.mpr (mem_keys.mp (List.mem_toFinset.mp hkey))

theorem delete_of_not_mem {object : PlainObject K V} {key : K} (h : key ∉ object.keys) :
    object.delete key = object := by
  have hentries : (object.delete key).entries = object.entries := by
    apply List.filter_eq_self.mpr
    intro entry hentry
    have hne : entry.1 ≠ key := fun heq => h (heq ▸ List.mem_map_of_mem hentry)
    simpa using hne
  cases object
  simpa [delete] using hentries

omit [DecidableEq K] in
theorem size_eq_zero {object : PlainObject K V} : object.size = 0 ↔ object = empty := by
  constructor
  · intro h
    cases object with
    | mk entries distinct =>
      have hnil : entries = [] := List.eq_nil_of_length_eq_zero h
      subst hnil
      rfl
  · rintro rfl
    rfl

/-! ## Filling an object -/

theorem entries_set_of_not_mem {object : PlainObject K V} {key : K} (value : V)
    (h : key ∉ object.keys) : (object.set key value).entries = object.entries ++ [(key, value)] := by
  rw [set, dif_neg h]

/-- A loop that sets one new property a turn, up to a bound, appends them in its order. -/
theorem entries_foldl_set {α : Type*} (step : PlainObject K V → α → PlainObject K V)
    (read : α → K × V) (bound : ℕ) (items : List α) (object : PlainObject K V)
    (hstep : ∀ item ∈ items, ∀ object : PlainObject K V, object.size < bound →
      step object item = object.set (read item).1 (read item).2)
    (hbound : object.size + items.length ≤ bound)
    (hnodup : (object.keys ++ items.map fun item => (read item).1).Nodup) :
    (items.foldl step object).entries = object.entries ++ items.map read := by
  induction items generalizing object with
  | nil => simp
  | cons item rest ih =>
    have hnew : (read item).1 ∉ object.keys := by
      intro hmem
      have hdisjoint := (List.nodup_append.mp hnodup).2.2
      exact hdisjoint _ hmem _ (by simp) rfl
    have hentries := entries_set_of_not_mem (read item).2 hnew
    have hlength : rest.length + 1 = (item :: rest).length := rfl
    rw [List.foldl_cons, hstep item List.mem_cons_self object (by omega), ih, hentries]
    · simp
    · intro next hnext
      exact hstep next (List.mem_cons_of_mem _ hnext)
    · simp only [size, hentries, List.length_append, List.length_singleton]
      simp only [size] at hbound
      omega
    · simpa [keys, hentries] using hnodup

end PlainObject

/-! ## JSON values -/

/-- A value of JSON; the texts of numbers that are no integers are not needed here. -/
inductive Json where
  | null
  | bool (value : Bool)
  | num (value : ℤ)
  | str (value : String)
  | arr (items : List Json)
  | obj (fields : List (String × Json))

namespace Json

/-- A property of a value that is an object; anything else has none. -/
def field : Json → String → Option Json
  | .obj fields, key => (fields.find? fun entry => entry.1 = key).map Prod.snd
  | _, _ => none

def text : Json → Option String
  | .str value => some value
  | _ => none

end Json

end QuokyPlatform
