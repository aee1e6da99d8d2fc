import Mathlib.Data.List.Nodup
import Mathlib.Data.List.Perm.Subperm
import Mathlib.Tactic.Common

/-!
# What leads to a root, found by repeated passes

Items have keys, and some link to a key. A pass over all items takes up those that link to the root
or to an item already taken up, and passes are made until one takes up nothing. Then every item that
leads to the root is there once, after the item it links to.
-/

namespace QuokyPlatform.LinkClosure
set_option autoImplicit false
set_option maxHeartbeats 250000

variable {α K : Type*} [DecidableEq K] (key : α → K) (link : α → Option K) (root : K)

/-- The key is the root's or that of an item taken up. -/
def inChain (found : List α) (k : K) : Bool := decide (k = root ∨ k ∈ found.map key)

/-- One pass. -/
def pass : List α → List α → List α
  | [], found => found
  | item :: rest, found =>
    if inChain key root found (key item) then pass rest found
    else if (link item).any (inChain key root found) then pass rest (found ++ [item])
    else pass rest found

/-- Passes until one takes up nothing. -/
def close (all : List α) : ℕ → List α → List α
  | 0, found => found
  | fuel + 1, found =>
    let grown := pass key link root all found
    if grown.length = found.length then grown else close all fuel grown

/-- The item links to the root, or to an item that leads to it. -/
inductive Leads (all : List α) : α → Prop
  | direct {item : α} (hmem : item ∈ all) (hlink : link item = some root) (hne : key item ≠ root) :
      Leads all item
  | through {item next : α} (hmem : item ∈ all) (hnext : Leads all next)
      (hlink : link item = some (key next)) (hne : key item ≠ root) : Leads all item

variable {key link root} {all found rest : List α} {item : α}

theorem inChain_iff {k : K} : inChain key root found k = true ↔ k = root ∨ k ∈ found.map key := by
  simp [inChain]

omit [DecidableEq K] in
theorem Leads.mem (h : Leads key link root all item) : item ∈ all := by
  cases h with
  | direct hmem => exact hmem
  | through hmem => exact hmem

omit [DecidableEq K] in
theorem Leads.ne_root (h : Leads key link root all item) : key item ≠ root := by
  cases h with
  | direct hmem hlink hne => exact hne
  | through hmem hnext hlink hne => exact hne

omit [DecidableEq K] in
theorem Leads.mono {more : List α} (h : Leads key link root all item) (hsub : all ⊆ more) :
    Leads key link root more item := by
  induction h with
  | direct hmem hlink hne => exact .direct (hsub hmem) hlink hne
  | through hmem hnext hlink hne ih => exact .through (hsub hmem) ih hlink hne

/-! ## What the passes keep -/

/-- Every item found leads to the root, each key is there once and not the root's, and every item
comes after the one it links to. -/
structure Sound (key : α → K) (link : α → Option K) (root : K) (all found : List α) : Prop where
  leads : ∀ item ∈ found, Leads key link root all item
  distinct : (found.map key).Nodup
  ordered : ∀ before item after, found = before ++ item :: after →
    ∃ k, link item = some k ∧ inChain key root before k = true

theorem Sound.nil : Sound key link root all [] where
  leads := fun item h => absurd h List.not_mem_nil
  distinct := List.nodup_nil
  ordered := fun before item after h => absurd h.symm (by simp)

theorem Sound.push (h : Sound key link root all found) (hmem : item ∈ all)
    (hnew : inChain key root found (key item) = false)
    (hlink : (link item).any (inChain key root found) = true) :
    Sound key link root all (found ++ [item]) := by
  obtain ⟨k, hk, hchain⟩ := (Option.any_eq_true _ _).mp hlink
  have hnew' : ¬ (key item = root ∨ key item ∈ found.map key) := by
    rw [← inChain_iff, hnew]
    exact Bool.false_ne_true
  rw [not_or] at hnew'
  refine ⟨fun other hother => ?_, ?_, fun before other after heq => ?_⟩
  · rcases List.mem_append.mp hother with hold | hother
    · exact h.leads other hold
    · rw [List.mem_singleton.mp hother]
      rcases inChain_iff.mp hchain with hroot | hfound
      · exact .direct hmem (hroot ▸ hk) hnew'.1
      · obtain ⟨next, hnext, hkey⟩ := List.mem_map.mp hfound
        exact .through hmem (h.leads next hnext) (hkey ▸ hk) hnew'.1
  · rw [List.map_append, List.nodup_append]
    refine ⟨h.distinct, List.nodup_singleton _, fun a ha b hb => ?_⟩
    rw [List.map_singleton, List.mem_singleton] at hb
    rintro rfl
    exact hnew'.2 (hb ▸ ha)
  · rcases List.eq_nil_or_concat after with rfl | ⟨after, last, rfl⟩
    · obtain ⟨hbefore, hitem⟩ := List.append_inj' heq rfl
      rw [List.cons.injEq] at hitem
      rw [← hitem.1, ← hbefore]
      exact ⟨k, hk, hchain⟩
    · rw [List.concat_eq_append, ← List.cons_append, ← List.append_assoc] at heq
      exact h.ordered before other after (List.append_inj' heq rfl).1

theorem pass_sound (hall : rest ⊆ all) (h : Sound key link root all found) :
    Sound key link root all (pass key link root rest found) := by
  induction rest generalizing found with
  | nil => exact h
  | cons item rest ih =>
    obtain ⟨hmem, hrest⟩ := List.cons_subset.mp hall
    rw [pass]
    split
    · exact ih hrest h
    · rename_i hnew
      split
      · rename_i hlink
        exact ih hrest (h.push hmem (Bool.eq_false_iff.mpr hnew) hlink)
      · exact ih hrest h

variable (key link root) in
theorem pass_prefix (rest found : List α) : found <+: pass key link root rest found := by
  induction rest generalizing found with
  | nil => exact List.prefix_refl found
  | cons item rest ih =>
    rw [pass]
    split
    · exact ih found
    · split
      · exact (List.prefix_append found [item]).trans (ih _)
      · exact ih found

/-- A pass that takes up nothing finds nothing to take up. -/
theorem pass_closed (hsame : pass key link root rest found = found) (hmem : item ∈ rest)
    (hlink : (link item).any (inChain key root found) = true) :
    inChain key root found (key item) = true := by
  induction rest with
  | nil => exact absurd hmem List.not_mem_nil
  | cons first rest ih =>
    rw [pass] at hsame
    split at hsame
    · rename_i hfirst
      rcases List.mem_cons.mp hmem with rfl | hmem
      · exact hfirst
      · exact ih hsame hmem
    · split at hsame
      · have hprefix := pass_prefix key link root rest (found ++ [first])
        rw [hsame] at hprefix
        have hlength := hprefix.length_le
        rw [List.length_append, List.length_singleton] at hlength
        omega
      · rename_i hnone
        rcases List.mem_cons.mp hmem with rfl | hmem
        · exact absurd hlink hnone
        · exact ih hsame hmem

theorem Sound.length_le (h : Sound key link root all found) : found.length ≤ all.length := by
  have hsub : found ⊆ all := fun item hitem => (h.leads item hitem).mem
  exact (List.subperm_of_subset (List.Nodup.of_map key h.distinct) hsub).length_le

/-- With fuel for every item the passes come to their end. -/
theorem close_spec {fuel : ℕ} (h : Sound key link root all found)
    (hfuel : all.length < found.length + fuel) :
    Sound key link root all (close key link root all fuel found) ∧
      pass key link root all (close key link root all fuel found) =
        close key link root all fuel found := by
  induction fuel generalizing found with
  | zero =>
    have hlength := h.length_le
    omega
  | succ fuel ih =>
    have hgrown := pass_sound (List.Subset.refl all) h
    have hprefix := pass_prefix key link root all found
    have hclose : close key link root all (fuel + 1) found =
        if (pass key link root all found).length = found.length then pass key link root all found
        else close key link root all fuel (pass key link root all found) := rfl
    rw [hclose]
    split
    · rename_i hsame
      have heq : found = pass key link root all found := hprefix.eq_of_length hsame.symm
      rw [← heq]
      exact ⟨h, heq.symm⟩
    · rename_i hmore
      have hlength := hprefix.length_le
      exact ih hgrown (by omega)

variable (key link root) in
/-- What the passes find from the start. -/
def earlier (all : List α) : List α := close key link root all (all.length + 1) []

theorem earlier_sound : Sound key link root all (earlier key link root all) :=
  (close_spec .nil (by simp)).1

/-- Everything that leads to the root is found. -/
theorem Leads.mem_earlier (h : Leads key link root all item) :
    key item ∈ (earlier key link root all).map key := by
  have hfuel : all.length < ([] : List α).length + (all.length + 1) := by simp
  have hclosed : pass key link root all (earlier key link root all) = earlier key link root all :=
    (close_spec .nil hfuel).2
  have hstep : ∀ item ∈ all, ∀ k, link item = some k →
      inChain key root (earlier key link root all) k = true → key item ≠ root →
      key item ∈ (earlier key link root all).map key := by
    intro item hmem k hlink hchain hne
    have hany : (link item).any (inChain key root (earlier key link root all)) = true := by
      rw [hlink]
      exact hchain
    exact (inChain_iff.mp (pass_closed hclosed hmem hany)).resolve_left hne
  induction h with
  | direct hmem hlink hne => exact hstep _ hmem _ hlink (inChain_iff.mpr (.inl rfl)) hne
  | through hmem hnext hlink hne ih => exact hstep _ hmem _ hlink (inChain_iff.mpr (.inr ih)) hne

/-- Where keys are those of single items, the items found are those that lead to the root. -/
theorem mem_earlier_iff (hkeys : (all.map key).Nodup) :
    item ∈ earlier key link root all ↔ Leads key link root all item := by
  constructor
  · exact earlier_sound.leads item
  · intro h
    obtain ⟨other, hother, hkey⟩ := List.mem_map.mp h.mem_earlier
    have hsame : other = item :=
      List.inj_on_of_nodup_map hkeys (earlier_sound.leads other hother).mem h.mem hkey
    exact hsame ▸ hother

/-! ## The order of what is found -/

theorem Sound.not_self (h : Sound key link root all found) (hitem : item ∈ found) :
    link item ≠ some (key item) := by
  intro hself
  obtain ⟨before, after, rfl⟩ := List.append_of_mem hitem
  obtain ⟨k, hk, hchain⟩ := h.ordered before item after rfl
  have hkey : k = key item := Option.some.inj (hk.symm.trans hself)
  rw [hkey] at hchain
  have hdistinct := h.distinct
  rw [List.map_append, List.map_cons] at hdistinct
  rcases inChain_iff.mp hchain with hroot | hbefore
  · exact (h.leads item hitem).ne_root hroot
  · exact List.disjoint_of_nodup_append hdistinct hbefore List.mem_cons_self

/-- No item links to one that comes after it. -/
theorem Sound.pairwise (h : Sound key link root all found) :
    found.Pairwise fun a b => link a ≠ some (key b) := by
  have hsplit : ∀ rest before, found = before ++ rest →
      rest.Pairwise fun a b => link a ≠ some (key b) := by
    intro rest
    induction rest with
    | nil => exact fun _ _ => List.Pairwise.nil
    | cons a rest ih =>
      intro before heq
      refine List.pairwise_cons.mpr ⟨fun b hb hlink => ?_, ih (before ++ [a]) (by simpa using heq)⟩
      obtain ⟨k, hk, hchain⟩ := h.ordered before a rest heq
      have hkey : k = key b := Option.some.inj (hk.symm.trans hlink)
      rw [hkey] at hchain
      have hdistinct := h.distinct
      rw [heq, List.map_append, List.map_cons] at hdistinct
      rcases inChain_iff.mp hchain with hroot | hbefore
      · exact (h.leads b (heq ▸ by simp [hb])).ne_root hroot
      · exact List.disjoint_of_nodup_append hdistinct hbefore
          (List.mem_cons_of_mem _ (List.mem_map_of_mem hb))
  exact hsplit found [] rfl

end QuokyPlatform.LinkClosure
