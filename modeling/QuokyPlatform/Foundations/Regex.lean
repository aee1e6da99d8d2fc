import Mathlib.Data.List.Infix
import Mathlib.Tactic.Common

/-! # Regular expressions

Regular expressions with lookaround, groups and back-references, and the backtracking matcher of
the language: the first alternative that leads to a match, quantifiers greedy. The matcher calls
its continuation on the state after a match; `Steps` is what it may consume, without the order in
which it tries. `replaceAll` goes over a text from left to right. -/

namespace QuokyPlatform

set_option autoImplicit false
set_option maxHeartbeats 250000

/-- A pattern; a quantifier without an upper bound has `none` there. -/
inductive Regex (α : Type) where
  | empty
  | char (accepts : α → Bool)
  | seq (first second : Regex α)
  | alt (first second : Regex α)
  | repeated (body : Regex α) (least : ℕ) (most : Option ℕ)
  | ahead (body : Regex α)
  | notAhead (body : Regex α)
  | notBehind (accepts : α → Bool)
  | group (index : ℕ) (body : Regex α)
  | back (index : ℕ)

namespace Regex

variable {α : Type}

/-- Where a match is: the text before it, nearest first, the text after it, and the groups captured
so far, latest first. -/
structure State (α : Type) where
  before : List α
  after : List α
  captures : List (ℕ × List α)

namespace State

def advance (s : State α) (c : α) (rest : List α) : State α :=
  { s with before := c :: s.before, after := rest }

/-- What was consumed between two states of a match. -/
def consumed (s t : State α) : List α := s.after.take (s.after.length - t.after.length)

def capture (s : State α) (index : ℕ) (text : List α) : State α :=
  { s with captures := (index, text) :: s.captures }

def captured (s : State α) (index : ℕ) : Option (List α) :=
  (s.captures.find? fun entry => entry.1 = index).map Prod.snd

def forget (s : State α) (indices : List ℕ) : State α :=
  { s with captures := s.captures.filter fun entry => entry.1 ∉ indices }

end State

/-- The groups of a pattern; each round of a quantifier forgets them. -/
def groups : Regex α → List ℕ
  | .seq first second => first.groups ++ second.groups
  | .alt first second => first.groups ++ second.groups
  | .repeated body _ _ => body.groups
  | .ahead body => body.groups
  | .notAhead body => body.groups
  | .group index body => index :: body.groups
  | _ => []

abbrev Continuation (α : Type) := State α → Option (State α)

/-- At most this many rounds of a quantifier, of which the next `least` are owed; a round that is not
owed and consumes nothing fails. -/
def rounds (body : State α → Continuation α → Option (State α)) (forgotten : List ℕ) :
    ℕ → ℕ → State α → Continuation α → Option (State α)
  | 0, least, s, k => if least = 0 then k s else none
  | most + 1, least, s, k =>
    (body (s.forget forgotten) fun t =>
      if least = 0 ∧ t.after.length = s.after.length then none
      else rounds body forgotten most (least - 1) t k).or (if least = 0 then k s else none)

/-- The text as the back-reference compares it, character by character. -/
def backAt (same : α → α → Bool) : List α → State α → Continuation α → Option (State α)
  | [], s, k => k s
  | c :: text, s, k =>
    match s.after with
    | d :: rest => if same c d then backAt same text (s.advance d rest) k else none
    | [] => none

def matchAt (same : α → α → Bool) : Regex α → State α → Continuation α → Option (State α)
  | .empty, s, k => k s
  | .char accepts, s, k =>
    match s.after with
    | c :: rest => if accepts c then k (s.advance c rest) else none
    | [] => none
  | .seq first second, s, k => first.matchAt same s fun t => second.matchAt same t k
  | .alt first second, s, k => (first.matchAt same s k).or (second.matchAt same s k)
  | .repeated body least most, s, k =>
    rounds (body.matchAt same) body.groups (most.getD (s.after.length + least)) least s k
  | .ahead body, s, k => (body.matchAt same s some).bind fun t => k { s with captures := t.captures }
  | .notAhead body, s, k => if (body.matchAt same s some).isSome then none else k s
  | .notBehind accepts, s, k => if s.before.head?.any accepts then none else k s
  | .group index body, s, k => body.matchAt same s fun t => k (t.capture index (s.consumed t))
  | .back index, s, k => backAt same ((s.captured index).getD []) s k

/-! ## What a match consumes -/

/-- The second state is the first one after it consumed some text. -/
def Consumes (s t : State α) (text : List α) : Prop :=
  s.after = text ++ t.after ∧ t.before = text.reverse ++ s.before

theorem Consumes.refl (s : State α) : Consumes s s [] := ⟨rfl, rfl⟩

theorem Consumes.trans {s t u : State α} {text more : List α} (h : Consumes s t text)
    (h' : Consumes t u more) : Consumes s u (text ++ more) := by
  obtain ⟨hafter, hbefore⟩ := h
  obtain ⟨hafter', hbefore'⟩ := h'
  constructor
  · rw [hafter, hafter', List.append_assoc]
  · rw [hbefore', hbefore, List.reverse_append, List.append_assoc]

theorem Consumes.advance {s : State α} {c : α} {rest : List α} (h : s.after = c :: rest) :
    Consumes s (s.advance c rest) [c] := ⟨h, rfl⟩

theorem Consumes.consumed {s t : State α} {text : List α} (h : Consumes s t text) :
    s.consumed t = text := by
  have hlength : s.after.length - t.after.length = text.length := by
    rw [h.1, List.length_append, Nat.add_sub_cancel]
  rw [State.consumed, hlength, h.1, List.take_left]

/-- A pattern that consumes at least one character of a kind whenever it matches. -/
def Needs (kind : α → Bool) : Regex α → Prop
  | .char accepts => ∀ c, accepts c → kind c
  | .seq first second => first.Needs kind ∨ second.Needs kind
  | .alt first second => first.Needs kind ∧ second.Needs kind
  | .repeated body least _ => 0 < least ∧ body.Needs kind
  | .group _ body => body.Needs kind
  | _ => False

/-- The continuation was called on a state after this consumption, which has what the pattern
needs. -/
structure Led (kind : α → Bool) (needs : Prop) (s : State α) (k : Continuation α)
    (result t : State α) (text : List α) : Prop where
  consumes : Consumes s t text
  needed : needs → ∃ c ∈ text, kind c
  continues : k t = some result

theorem rounds_led {kind : α → Bool} {needs : Prop} {forgotten : List ℕ}
    {body : State α → Continuation α → Option (State α)}
    (hbody : ∀ s k result, body s k = some result → ∃ t text, Led kind needs s k result t text)
    {most least : ℕ} {s result : State α} {k : Continuation α}
    (h : rounds body forgotten most least s k = some result) :
    ∃ t text, Led kind (0 < least ∧ needs) s k result t text := by
  induction most generalizing least s with
  | zero =>
    simp only [rounds] at h
    split at h
    · rename_i hleast
      exact ⟨s, [], Consumes.refl s, fun hn => absurd hleast (Nat.ne_of_gt hn.1), h⟩
    · cases h
  | succ most ih =>
    simp only [rounds, Option.or_eq_some_iff] at h
    obtain hround | ⟨-, hstop⟩ := h
    · obtain ⟨t, text, hconsumes, hneeded, hnext⟩ := hbody _ _ _ hround
      split at hnext
      · cases hnext
      · obtain ⟨u, more, hmore, -, hk⟩ := ih hnext
        refine ⟨u, text ++ more, Consumes.trans hconsumes hmore, fun hn => ?_, hk⟩
        obtain ⟨c, hc, hkind⟩ := hneeded hn.2
        exact ⟨c, List.mem_append_left _ hc, hkind⟩
    · split at hstop
      · rename_i hleast
        exact ⟨s, [], Consumes.refl s, fun hn => absurd hleast (Nat.ne_of_gt hn.1), hstop⟩
      · cases hstop

theorem backAt_led {same : α → α → Bool} {text : List α} {s result : State α} {k : Continuation α}
    (h : backAt same text s k = some result) :
    ∃ t consumed, Consumes s t consumed ∧ k t = some result := by
  induction text generalizing s with
  | nil => exact ⟨s, [], Consumes.refl s, h⟩
  | cons c text ih =>
    simp only [backAt] at h
    split at h
    · rename_i d rest hafter
      split at h
      · obtain ⟨t, more, hmore, hk⟩ := ih h
        exact ⟨t, [d] ++ more, (Consumes.advance hafter).trans hmore, hk⟩
      · cases h
    · cases h

/-- A match leads to its continuation after it consumed some text, and that text has what the
pattern needs. -/
theorem matchAt_led {same : α → α → Bool} (kind : α → Bool) (r : Regex α) {s result : State α}
    {k : Continuation α} (h : r.matchAt same s k = some result) :
    ∃ t text, Led kind (r.Needs kind) s k result t text := by
  induction r generalizing s k result with
  | empty => exact ⟨s, [], Consumes.refl s, False.elim, h⟩
  | char accepts =>
    simp only [matchAt] at h
    split at h
    · rename_i c rest hafter
      split at h
      · rename_i haccepts
        exact ⟨_, [c], Consumes.advance hafter,
          fun hneeds => ⟨c, List.mem_singleton_self c, hneeds c haccepts⟩, h⟩
      · cases h
    · cases h
  | seq first second ihfirst ihsecond =>
    obtain ⟨t, text, hfirst, hneeded, hnext⟩ := ihfirst h
    obtain ⟨u, more, hsecond, hneeded', hk⟩ := ihsecond hnext
    refine ⟨u, text ++ more, hfirst.trans hsecond, fun hneeds => ?_, hk⟩
    obtain hneeds | hneeds := hneeds
    · obtain ⟨c, hc, hkind⟩ := hneeded hneeds
      exact ⟨c, List.mem_append_left _ hc, hkind⟩
    · obtain ⟨c, hc, hkind⟩ := hneeded' hneeds
      exact ⟨c, List.mem_append_right _ hc, hkind⟩
  | alt first second ihfirst ihsecond =>
    simp only [matchAt, Option.or_eq_some_iff] at h
    obtain hfirst | ⟨-, hsecond⟩ := h
    · obtain ⟨t, text, hconsumes, hneeded, hk⟩ := ihfirst hfirst
      exact ⟨t, text, hconsumes, fun hneeds => hneeded hneeds.1, hk⟩
    · obtain ⟨t, text, hconsumes, hneeded, hk⟩ := ihsecond hsecond
      exact ⟨t, text, hconsumes, fun hneeds => hneeded hneeds.2, hk⟩
  | repeated body least most ih => exact rounds_led (fun s k result hbody => ih hbody) h
  | ahead body ih =>
    obtain ⟨t, -, hk⟩ := Option.bind_eq_some_iff.mp h
    exact ⟨{ s with captures := t.captures }, [], ⟨rfl, rfl⟩, False.elim, hk⟩
  | notAhead body ih =>
    simp only [matchAt] at h
    split at h
    · cases h
    · exact ⟨s, [], Consumes.refl s, False.elim, h⟩
  | notBehind accepts =>
    simp only [matchAt] at h
    split at h
    · cases h
    · exact ⟨s, [], Consumes.refl s, False.elim, h⟩
  | group index body ih =>
    obtain ⟨t, text, hconsumes, hneeded, hk⟩ := ih h
    exact ⟨t.capture index (s.consumed t), text, hconsumes, hneeded, hk⟩
  | back index =>
    obtain ⟨t, text, hconsumes, hk⟩ := backAt_led h
    exact ⟨t, text, hconsumes, False.elim, hk⟩

/-! ## Replacing every match -/

/-- A match in a text, and what the groups captured. -/
structure Found (α : Type) where
  before : List α
  matched : List α
  state : State α

def findAt (same : α → α → Bool) (r : Regex α) (before after : List α) : Option (Found α) :=
  (r.matchAt same ⟨before, after, []⟩ some).map fun t =>
    ⟨before, State.consumed ⟨before, after, []⟩ t, t⟩

/-- Whether the pattern matches somewhere in the rest of a text. -/
def testFrom (same : α → α → Bool) (r : Regex α) (before : List α) : List α → Bool
  | [] => (r.findAt same before []).isSome
  | c :: rest => (r.findAt same before (c :: rest)).isSome || testFrom same r (c :: before) rest

/-- `pattern.test(text)` -/
def test (same : α → α → Bool) (r : Regex α) (text : List α) : Bool := r.testFrom same [] text

/-- The rest of a text with its matches replaced; after an empty match the scan moves on by one. -/
def replaceFrom (same : α → α → Bool) (r : Regex α) (replacement : Found α → List α) :
    ℕ → List α → List α → List α
  | 0, _, after => after
  | fuel + 1, before, after =>
    match r.findAt same before after, after with
    | some found, [] => replacement found
    | some found, c :: rest =>
      replacement found ++
        (if found.matched = [] then c :: replaceFrom same r replacement fuel (c :: before) rest
        else replaceFrom same r replacement fuel found.state.before found.state.after)
    | none, [] => []
    | none, c :: rest => c :: replaceFrom same r replacement fuel (c :: before) rest

/-- `text.replace(pattern, replacement)`, for a global pattern. -/
def replaceAll (same : α → α → Bool) (r : Regex α) (replacement : Found α → List α)
    (text : List α) : List α :=
  replaceFrom same r replacement (text.length + 1) [] text

/-- A text with some disjoint parts, each with a character of the kind in it, replaced. -/
inductive Replaced (kind : α → Bool) (placeholder : List α) : List α → List α → Prop
  | nil : Replaced kind placeholder [] []
  | keep (c : α) {text next : List α} (h : Replaced kind placeholder text next) :
    Replaced kind placeholder (c :: text) (c :: next)
  | swap (part : List α) (hkind : ∃ c ∈ part, kind c) {text next : List α}
    (h : Replaced kind placeholder text next) :
    Replaced kind placeholder (part ++ text) (placeholder ++ next)

namespace Replaced

variable {kind : α → Bool} {placeholder : List α}

theorem refl (text : List α) : Replaced kind placeholder text text := by
  induction text with
  | nil => exact .nil
  | cons c text ih => exact .keep c ih

theorem append_keep (part : List α) {text next : List α} (h : Replaced kind placeholder text next) :
    Replaced kind placeholder (part ++ text) (part ++ next) := by
  induction part with
  | nil => exact h
  | cons c part ih => exact .keep c ih

/-- A replacement leaves the text alone or takes characters of the kind out of it. -/
theorem countP_lt (hplaceholder : ∀ c ∈ placeholder, kind c = false) {text next : List α}
    (h : Replaced kind placeholder text next) :
    next = text ∨ next.countP kind < text.countP kind := by
  have hcount : placeholder.countP kind = 0 :=
    List.countP_eq_zero.mpr fun c hc => by simp [hplaceholder c hc]
  induction h with
  | nil => exact .inl rfl
  | keep c h ih =>
    rcases ih with rfl | ih
    · exact .inl rfl
    · refine .inr ?_
      simp only [List.countP_cons]
      omega
  | swap part hkind h ih =>
    refine .inr ?_
    have hpart : 0 < part.countP kind := List.countP_pos_iff.mpr hkind
    have hrest : List.countP kind _ ≤ List.countP kind _ :=
      ih.elim (fun heq => le_of_eq (congrArg _ heq)) le_of_lt
    simp only [List.countP_append, hcount]
    omega

end Replaced

/-- Where each match is replaced by the placeholder or left as it is, `replaceAll` replaces parts
that have what the pattern needs. -/
theorem replaceFrom_replaced {kind : α → Bool} {same : α → α → Bool} {r : Regex α}
    {replacement : Found α → List α} {placeholder : List α} (hneeds : r.Needs kind)
    (hreplacement : ∀ found, replacement found = placeholder ∨ replacement found = found.matched)
    (fuel : ℕ) (before after : List α) :
    Replaced kind placeholder after (replaceFrom same r replacement fuel before after) := by
  induction fuel generalizing before after with
  | zero => exact Replaced.refl after
  | succ fuel ih =>
    simp only [replaceFrom]
    cases hfind : r.findAt same before after with
    | none =>
      cases after with
      | nil => exact .nil
      | cons c rest => exact .keep c (ih _ _)
    | some found =>
      obtain ⟨t, hmatch, rfl⟩ := Option.map_eq_some_iff.mp hfind
      obtain ⟨u, text, hconsumes, hneeded, hk⟩ := matchAt_led kind r hmatch
      cases hk
      obtain ⟨c, hc, hkind⟩ := hneeded hneeds
      have hmatched : State.consumed ⟨before, after, []⟩ t = text := hconsumes.consumed
      have hafter : after = text ++ t.after := hconsumes.1
      have hne : text ≠ [] := List.ne_nil_of_mem hc
      cases after with
      | nil => exact absurd (List.append_eq_nil_iff.mp hafter.symm).1 hne
      | cons d rest =>
        simp only [hmatched, if_neg hne]
        rw [hafter]
        rcases hreplacement ⟨before, text, t⟩ with hput | hput
        · rw [hput]
          exact .swap text ⟨c, hc, hkind⟩ (ih _ _)
        · rw [hput]
          exact Replaced.append_keep text (ih _ _)

theorem replaceAll_replaced {kind : α → Bool} {same : α → α → Bool} {r : Regex α}
    {replacement : Found α → List α} {placeholder : List α} (hneeds : r.Needs kind)
    (hreplacement : ∀ found, replacement found = placeholder ∨ replacement found = found.matched)
    (text : List α) : Replaced kind placeholder text (replaceAll same r replacement text) :=
  replaceFrom_replaced hneeds hreplacement _ [] text

/-! ## Patterns -/

/-- The texts in this order: the first of them that leads to a match. -/
def words (literal : α → Regex α) : List (List α) → Regex α
  | [] => .notAhead .empty
  | [word] => word.foldr (fun c rest => .seq (literal c) rest) .empty
  | word :: more => .alt (word.foldr (fun c rest => .seq (literal c) rest) .empty) (words literal more)

def optional (r : Regex α) : Regex α := .repeated r 0 (some 1)

/-- `^` -/
def atStart : Regex α := .notBehind fun _ => true

/-- `$` -/
def atEnd : Regex α := .notAhead (.char fun _ => true)

end Regex

end QuokyPlatform
