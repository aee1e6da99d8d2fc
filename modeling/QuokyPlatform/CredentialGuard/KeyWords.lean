import QuokyPlatform.Foundations.Regex
import QuokyPlatform.Foundations.Text

/-! # The words of a key

The credential guard takes a key apart at its changes of case. The guard and its baseline use different
patterns for the end of an upper-case run: the baseline takes the whole run and backtracks, the guard
looks ahead at every letter. Both put a space at the same places of every key. -/

namespace QuokyPlatform.CredentialGuard
open Regex

set_option autoImplicit false
set_option maxHeartbeats 250000

/-! ## Patterns -/

def isLowerOrDigit (c : Char) : Bool := isLowerAscii c || isDigitAscii c

/-- The text of a group, or nothing. -/
def group (found : Found Char) (index : ℕ) : List Char := (found.state.captured index).getD []

/-- `key.replace(/([a-z0-9])([A-Z])/gu, '$1 $2')` -/
def splitHumps (key : List Char) : List Char :=
  replaceAll (· == ·) (.seq (.group 1 (.char isLowerOrDigit)) (.group 2 (.char isUpperAscii)))
    (fun found => group found 1 ++ ' ' :: group found 2) key

/-- `/([A-Z]+)([A-Z][a-z])/` -/
def runPattern : Regex Char :=
  .seq (.group 1 (.repeated (.char isUpperAscii) 1 none))
    (.group 2 (.seq (.char isUpperAscii) (.char isLowerAscii)))

/-- `/([A-Z])(?=[A-Z][a-z])/` -/
def letterPattern : Regex Char :=
  .seq (.group 1 (.char isUpperAscii)) (.ahead (.seq (.char isUpperAscii) (.char isLowerAscii)))

/-- `.replace(/([A-Z]+)([A-Z][a-z])/gu, '$1 $2')` -/
def splitRunsBaseline (key : List Char) : List Char :=
  replaceAll (· == ·) runPattern (fun found => group found 1 ++ ' ' :: group found 2) key

/-- `.replace(/([A-Z])(?=[A-Z][a-z])/gu, '$1 ')` -/
def splitRuns (key : List Char) : List Char :=
  replaceAll (· == ·) letterPattern (fun found => group found 1 ++ [' ']) key

/-- `.split(/[^a-z0-9]+/u).filter(Boolean)`: a run of separators leaves empty words, which go. -/
def splitWords (text : List Char) : List (List Char) :=
  (text.splitOnP fun c => !isLowerOrDigit c).filter fun word => word ≠ []

variable (toLowerCase : List Char → List Char)

def keyWordSegments (key : List Char) : List (List Char) :=
  splitWords (toLowerCase (splitRuns (splitHumps key)))

def keyWordSegmentsBaseline (key : List Char) : List (List Char) :=
  splitWords (toLowerCase (splitRunsBaseline (splitHumps key)))

/-! ## Where the spaces go -/

/-- A space between two capitals before a small letter. -/
def spaced : List Char → List Char
  | a :: b :: c :: rest =>
    if isUpperAscii a && isUpperAscii b && isLowerAscii c then a :: ' ' :: spaced (b :: c :: rest)
    else a :: spaced (b :: c :: rest)
  | text => text

/-- The text goes on with a capital and a small letter. -/
def startsWord : List Char → Bool
  | b :: c :: _ => isUpperAscii b && isLowerAscii c
  | _ => false

theorem startsWord_cons (b : Char) (rest : List Char) :
    startsWord (b :: rest) = (isUpperAscii b && rest.head?.any isLowerAscii) := by
  cases rest <;> simp [startsWord]

theorem startsWord_stop {text : List Char} (h : text.head?.any isUpperAscii = false) :
    startsWord text = false := by
  cases text with
  | nil => rfl
  | cons b rest =>
    rw [List.head?_cons, Option.any_some] at h
    rw [startsWord_cons, h, Bool.false_and]

theorem spaced_cons (a : Char) (rest : List Char) :
    spaced (a :: rest) =
      if isUpperAscii a && startsWord rest then a :: ' ' :: spaced rest else a :: spaced rest := by
  rcases rest with - | ⟨b, - | ⟨c, rest⟩⟩
  · simp [spaced, startsWord]
  · simp [spaced, startsWord]
  · rw [spaced, startsWord, Bool.and_assoc]

theorem not_upper_of_lower {c : Char} (h : isLowerAscii c = true) : isUpperAscii c = false := by
  by_contra hupper
  simp only [isLowerAscii, isUpperAscii, Bool.and_eq_true, decide_eq_true_eq, Bool.not_eq_false] at h hupper
  exact absurd (Char.le_trans h.1 hupper.2) (by decide)

theorem not_lower_of_upper {c : Char} (h : isUpperAscii c = true) : isLowerAscii c = false := by
  by_contra hlower
  rw [Bool.not_eq_false] at hlower
  rw [not_upper_of_lower hlower] at h
  cases h

/-! ## Replacing from here on -/

section replacing

variable {r : Regex Char} {replacement : Found Char → List Char} {fuel : ℕ} {before rest : List Char}
  {c : Char}

theorem replaceFrom_none (h : r.findAt (· == ·) before (c :: rest) = none) :
    replaceFrom (· == ·) r replacement (fuel + 1) before (c :: rest) =
      c :: replaceFrom (· == ·) r replacement fuel (c :: before) rest := by
  simp only [replaceFrom, h]

theorem replaceFrom_some {found : Found Char} (h : r.findAt (· == ·) before (c :: rest) = some found)
    (hne : found.matched ≠ []) :
    replaceFrom (· == ·) r replacement (fuel + 1) before (c :: rest) =
      replacement found ++
        replaceFrom (· == ·) r replacement fuel found.state.before found.state.after := by
  simp only [replaceFrom, h, if_neg hne]

end replacing

/-! ## The look ahead -/

theorem findAt_letterPattern (before : List Char) (a : Char) (rest : List Char) :
    letterPattern.findAt (· == ·) before (a :: rest) =
      if isUpperAscii a && startsWord rest then
        some ⟨before, [a], ⟨a :: before, rest, [(1, [a])]⟩⟩ else none := by
  cases ha : isUpperAscii a with
  | false => simp [letterPattern, findAt, matchAt, ha]
  | true =>
    rcases rest with - | ⟨b, - | ⟨c, rest⟩⟩
    · simp [letterPattern, findAt, matchAt, ha, startsWord, State.advance, State.capture]
    · cases hb : isUpperAscii b <;>
        simp [letterPattern, findAt, matchAt, ha, hb, startsWord, State.advance, State.capture]
    · cases hb : isUpperAscii b <;> cases hc : isLowerAscii c <;>
        simp [letterPattern, findAt, matchAt, ha, hb, hc, startsWord, State.advance, State.capture,
          State.consumed]

theorem splitRuns_eq (key : List Char) : splitRuns key = spaced key := by
  have hloop : ∀ (fuel : ℕ) (after before : List Char), after.length < fuel →
      replaceFrom (· == ·) letterPattern (fun found => group found 1 ++ [' ']) fuel before after =
        spaced after := by
    intro fuel
    induction fuel with
    | zero => exact fun after before h => absurd h (Nat.not_lt_zero _)
    | succ fuel ih =>
      intro after before hlength
      cases after with
      | nil => simp [replaceFrom, findAt, letterPattern, matchAt, spaced]
      | cons a rest =>
        have hrest : ∀ before, replaceFrom (· == ·) letterPattern
            (fun found => group found 1 ++ [' ']) fuel before rest = spaced rest :=
          fun before => ih rest before (by simpa using hlength)
        have hfind := findAt_letterPattern before a rest
        rw [spaced_cons]
        by_cases hspace : (isUpperAscii a && startsWord rest) = true
        · rw [if_pos hspace] at hfind ⊢
          rw [replaceFrom_some hfind (List.cons_ne_nil _ _), hrest]
          rfl
        · rw [if_neg hspace] at hfind ⊢
          rw [replaceFrom_none hfind, hrest]
  exact hloop _ key [] (Nat.lt_succ_self _)

/-! ## The whole run -/

/-- What follows the run in the baseline's pattern. -/
def afterRun (start : State Char) (t : State Char) : Option (State Char) :=
  matchAt (· == ·) (.group 2 (.seq (.char isUpperAscii) (.char isLowerAscii)))
    (t.capture 1 (start.consumed t)) some

theorem afterRun_none {start t : State Char} (h : startsWord t.after = false) :
    afterRun start t = none := by
  obtain ⟨before, after, captures⟩ := t
  rcases after with - | ⟨b, - | ⟨c, rest⟩⟩
  · simp [afterRun, matchAt, State.capture]
  · cases hb : isUpperAscii b <;> simp [afterRun, matchAt, State.capture, State.advance, hb]
  · simp only [startsWord, Bool.and_eq_false_iff] at h
    rcases h with hb | hc
    · simp [afterRun, matchAt, State.capture, hb]
    · cases hb : isUpperAscii b <;>
        simp [afterRun, matchAt, State.capture, State.advance, hb, hc]

theorem forget_nil (s : State Char) : s.forget [] = s := by
  simp [State.forget]

/-- The text does not go on with a capital. -/
theorem rounds_stop {k : Continuation Char} {before tail : List Char}
    {captures : List (ℕ × List Char)} {least most : ℕ} (h : tail.head?.any isUpperAscii = false) :
    rounds (matchAt (· == ·) (.char isUpperAscii)) [] most least ⟨before, tail, captures⟩ k =
      if least = 0 then k ⟨before, tail, captures⟩ else none := by
  cases most with
  | zero => rfl
  | succ most =>
    rw [rounds, forget_nil]
    cases tail with
    | nil => simp [matchAt]
    | cons c tail =>
      rw [List.head?_cons, Option.any_some] at h
      simp [matchAt, h]

theorem matchAt_upper {k : Continuation Char} {before rest : List Char} {a : Char}
    {captures : List (ℕ × List Char)} (h : isUpperAscii a = true) :
    matchAt (· == ·) (.char isUpperAscii) ⟨before, a :: rest, captures⟩ k =
      k ⟨a :: before, rest, captures⟩ := by
  simp only [matchAt, h, if_true, State.advance]

/-- The text goes on with a capital. -/
theorem rounds_upper {k : Continuation Char} {before rest : List Char} {a : Char}
    {captures : List (ℕ × List Char)} {least most : ℕ} (h : isUpperAscii a = true) :
    rounds (matchAt (· == ·) (.char isUpperAscii)) [] (most + 1) least ⟨before, a :: rest, captures⟩ k =
      (rounds (matchAt (· == ·) (.char isUpperAscii)) [] most (least - 1)
        ⟨a :: before, rest, captures⟩ k).or
        (if least = 0 then k ⟨before, a :: rest, captures⟩ else none) := by
  have hlength : ¬ (least = 0 ∧ rest.length = (a :: rest).length) := by
    rw [List.length_cons]
    omega
  rw [rounds, forget_nil, matchAt_upper h, if_neg hlength]

/-- Over a run of capitals the quantifier gives back one letter when a small one follows, and nothing
else helps. -/
theorem rounds_run (start : State Char) (last : Char) (tail : List Char)
    (hlast : isUpperAscii last = true) (htail : tail.head?.any isUpperAscii = false) :
    ∀ (front before : List Char) (captures : List (ℕ × List Char)) (least most : ℕ),
      (∀ c ∈ front, isUpperAscii c = true) → front.length < most → least ≤ 1 →
      rounds (matchAt (· == ·) (.char isUpperAscii)) [] most least
          ⟨before, front ++ last :: tail, captures⟩ (afterRun start) =
        if tail.head?.any isLowerAscii = true ∧ least ≤ front.length then
          afterRun start ⟨front.reverse ++ before, last :: tail, captures⟩
        else none := by
  have hstarts : startsWord (last :: tail) = tail.head?.any isLowerAscii := by
    rw [startsWord_cons, hlast, Bool.true_and]
  intro front
  induction front with
  | nil =>
    intro before captures least most _ hmost hleast
    obtain ⟨most, rfl⟩ := Nat.exists_eq_add_one_of_ne_zero (Nat.ne_of_gt hmost)
    rw [List.nil_append, rounds_upper hlast, rounds_stop htail, if_pos (by omega),
      afterRun_none (startsWord_stop htail), Option.none_or]
    cases hlower : tail.head?.any isLowerAscii with
    | true => simp
    | false =>
      rw [afterRun_none (by rw [hstarts, hlower])]
      simp
  | cons a front ih =>
    intro before captures least most hfront hmost hleast
    rw [List.length_cons] at hmost
    obtain ⟨most, rfl⟩ := Nat.exists_eq_add_of_le' (show 1 ≤ most by omega)
    have hnext : startsWord (a :: (front ++ last :: tail)) = false := by
      cases front with
      | nil => simp [startsWord, not_lower_of_upper hlast]
      | cons b front =>
        have hb := hfront b (List.mem_cons_of_mem _ List.mem_cons_self)
        simp [startsWord, not_lower_of_upper hb]
    have hnone : afterRun start ⟨before, a :: (front ++ last :: tail), captures⟩ = none :=
      afterRun_none hnext
    rw [List.cons_append, rounds_upper (hfront a List.mem_cons_self),
      ih (a :: before) captures (least - 1) most
        (fun c hc => hfront c (List.mem_cons_of_mem _ hc)) (by omega) (by omega),
      hnone, ite_self, Option.or_none, List.reverse_cons, List.append_assoc]
    have hbound : (least - 1 ≤ front.length) ↔ (least ≤ (a :: front).length) := by
      rw [List.length_cons]
      omega
    simp only [hbound]
    rfl

/-- Where the baseline finds a run, and what its groups are. -/
theorem findAt_runPattern {front tail : List Char} {last : Char} (before : List Char)
    (hfront : ∀ c ∈ front, isUpperAscii c = true) (hlast : isUpperAscii last = true)
    (htail : tail.head?.any isUpperAscii = false) :
    runPattern.findAt (· == ·) before (front ++ last :: tail) =
      match tail with
      | c :: rest =>
        if isLowerAscii c = true ∧ front ≠ [] then
          some ⟨before, front ++ [last, c], ⟨c :: last :: front.reverse ++ before, rest,
            [(2, [last, c]), (1, front)]⟩⟩
        else none
      | [] => none := by
  have hmatch : runPattern.matchAt (· == ·) ⟨before, front ++ last :: tail, []⟩ some =
      rounds (matchAt (· == ·) (.char isUpperAscii)) []
        ((front ++ last :: tail).length + 1) 1 ⟨before, front ++ last :: tail, []⟩
        (afterRun ⟨before, front ++ last :: tail, []⟩) := rfl
  rw [findAt, hmatch, rounds_run _ last tail hlast htail front before [] 1 _ hfront
    (by rw [List.length_append]; omega) (Nat.le_refl _)]
  cases tail with
  | nil => rfl
  | cons c rest =>
    rw [List.head?_cons, Option.any_some]
    have hone : 1 ≤ front.length ↔ front ≠ [] := by
      rw [Nat.one_le_iff_ne_zero, ne_eq, List.length_eq_zero_iff]
    simp only [hone]
    by_cases hboth : isLowerAscii c = true ∧ front ≠ []
    · rw [if_pos hboth, if_pos hboth]
      have hfirst : front.length + (rest.length + 1 + 1) - rest.length = front.length + 2 := by omega
      have hsecond : rest.length + 1 + 1 - rest.length = 2 := by omega
      simp [afterRun, matchAt, State.capture, State.advance, State.consumed, hlast, hboth.1, hfirst,
        hsecond, List.take_append]
    · rw [if_neg hboth, if_neg hboth]
      rfl

theorem findAt_runPattern_none (before : List Char) {a : Char} {rest : List Char}
    (h : isUpperAscii a = false) : runPattern.findAt (· == ·) before (a :: rest) = none := by
  have hmatch : runPattern.matchAt (· == ·) ⟨before, a :: rest, []⟩ some =
      rounds (matchAt (· == ·) (.char isUpperAscii)) [] ((a :: rest).length + 1) 1
        ⟨before, a :: rest, []⟩ (afterRun ⟨before, a :: rest, []⟩) := rfl
  rw [findAt, hmatch, rounds_stop (by rw [List.head?_cons, Option.any_some, h])]
  rfl

/-- A text that goes on with a capital, cut at the end of its run. -/
theorem exists_run {a : Char} (h : isUpperAscii a = true) : ∀ rest : List Char,
    ∃ front last tail, a :: rest = front ++ last :: tail ∧ (∀ c ∈ front, isUpperAscii c = true) ∧
      isUpperAscii last = true ∧ tail.head?.any isUpperAscii = false := by
  intro rest
  induction rest generalizing a with
  | nil => exact ⟨[], a, [], rfl, by simp, h, rfl⟩
  | cons b rest ih =>
    cases hb : isUpperAscii b with
    | false => exact ⟨[], a, b :: rest, rfl, by simp, h, by rw [List.head?_cons, Option.any_some, hb]⟩
    | true =>
      obtain ⟨front, last, tail, hsplit, hfront, hlast, htail⟩ := ih hb
      refine ⟨a :: front, last, tail, by rw [hsplit]; rfl, fun c hc => ?_, hlast, htail⟩
      rcases List.mem_cons.mp hc with rfl | hc
      · exact h
      · exact hfront c hc

/-- Spaces in a text that starts with a run of capitals. -/
theorem spaced_run {last c : Char} {rest : List Char} (hlast : isUpperAscii last = true)
    (hc : isLowerAscii c = true) : ∀ {front : List Char}, (∀ d ∈ front, isUpperAscii d = true) →
    front ≠ [] → spaced (front ++ last :: c :: rest) = front ++ ' ' :: last :: c :: spaced rest
  | [], _, hne => absurd rfl hne
  | [a], hfront, _ => by
    have hword : startsWord (last :: c :: rest) = true := by simp [startsWord, hlast, hc]
    have hnot : startsWord (c :: rest) = false := by
      cases rest <;> simp [startsWord, not_upper_of_lower hc]
    rw [List.singleton_append, spaced_cons, hword, hfront a List.mem_cons_self, spaced_cons, hnot,
      Bool.and_false, spaced_cons, not_upper_of_lower hc, Bool.false_and]
    rfl
  | a :: b :: front, hfront, _ => by
    have hb := hfront b (List.mem_cons_of_mem _ List.mem_cons_self)
    have hnot : startsWord (b :: front ++ last :: c :: rest) = false := by
      cases front with
      | nil => simp [startsWord, not_lower_of_upper hlast]
      | cons d front =>
        have hd := hfront d (List.mem_cons_of_mem _ (List.mem_cons_of_mem _ List.mem_cons_self))
        simp [startsWord, not_lower_of_upper hd]
    rw [List.cons_append, spaced_cons, hnot, Bool.and_false,
      spaced_run hlast hc (fun d hd => hfront d (List.mem_cons_of_mem _ hd)) (List.cons_ne_nil _ _)]
    rfl

/-- No space belongs at the start of a run, unless it is one capital before the last one and a small
letter. -/
theorem startsWord_false {a last : Char} {rest front tail : List Char}
    (hsplit : a :: rest = front ++ last :: tail) (hfront : ∀ c ∈ front, isUpperAscii c = true)
    (hlast : isUpperAscii last = true) (htail : tail.head?.any isUpperAscii = false)
    (hword : tail.head?.any isLowerAscii = true → front = []) :
    (isUpperAscii a && startsWord rest) = false := by
  have hrest : startsWord rest = false := by
    rcases front with - | ⟨b, - | ⟨d, front⟩⟩
    · obtain ⟨-, rfl⟩ := List.cons.inj hsplit
      exact startsWord_stop htail
    · obtain ⟨-, rfl⟩ := List.cons.inj hsplit
      rw [List.append_eq, List.nil_append, startsWord_cons, hlast, Bool.true_and]
      exact Bool.eq_false_iff.mpr fun hlower => List.cons_ne_nil _ _ (hword hlower)
    · obtain ⟨-, rfl⟩ := List.cons.inj hsplit
      rw [List.append_eq, List.cons_append, startsWord_cons]
      cases front with
      | nil => simp [not_lower_of_upper hlast]
      | cons e front => simp [not_lower_of_upper (hfront e (by simp))]
  rw [hrest, Bool.and_false]

theorem splitRunsBaseline_eq (key : List Char) : splitRunsBaseline key = spaced key := by
  have hloop : ∀ (fuel : ℕ) (after before : List Char), after.length < fuel →
      replaceFrom (· == ·) runPattern (fun found => group found 1 ++ ' ' :: group found 2) fuel before
        after = spaced after := by
    intro fuel
    induction fuel with
    | zero => exact fun after before h => absurd h (Nat.not_lt_zero _)
    | succ fuel ih =>
      intro after before hlength
      cases after with
      | nil => rfl
      | cons a rest =>
        have hrest : ∀ before, replaceFrom (· == ·) runPattern
            (fun found => group found 1 ++ ' ' :: group found 2) fuel before rest = spaced rest :=
          fun before => ih rest before (by simpa using hlength)
        -- Nothing is found and no space belongs here.
        have hskip : runPattern.findAt (· == ·) before (a :: rest) = none →
            (isUpperAscii a && startsWord rest) = false →
            replaceFrom (· == ·) runPattern (fun found => group found 1 ++ ' ' :: group found 2)
              (fuel + 1) before (a :: rest) = spaced (a :: rest) := by
          intro hfind hnot
          rw [replaceFrom_none hfind, hrest, spaced_cons, hnot]
          rfl
        cases ha : isUpperAscii a with
        | false => exact hskip (findAt_runPattern_none before ha) (by rw [ha, Bool.false_and])
        | true =>
          obtain ⟨front, last, tail, hsplit, hfront, hlast, htail⟩ := exists_run ha rest
          have hfind := findAt_runPattern before hfront hlast htail
          rw [← hsplit] at hfind
          rcases tail with - | ⟨c, tail⟩
          · exact hskip hfind (startsWord_false hsplit hfront hlast htail fun hlower => by cases hlower)
          · by_cases hword : isLowerAscii c = true ∧ front ≠ []
            · dsimp only at hfind
              rw [if_pos hword] at hfind
              rw [replaceFrom_some hfind (by simp), hsplit,
                spaced_run hlast hword.1 hfront hword.2]
              have hlater : tail.length < fuel := by
                have hlengths := congrArg List.length hsplit
                simp only [List.length_cons, List.length_append] at hlengths hlength
                omega
              rw [ih tail _ hlater]
              simp [group, State.captured]
            · dsimp only at hfind
              rw [if_neg hword] at hfind
              exact hskip hfind (startsWord_false hsplit hfront hlast htail fun hlower => by
                by_contra hne
                exact hword ⟨hlower, hne⟩)
  exact hloop _ key [] (Nat.lt_succ_self _)

/-- The guard takes every key apart as its baseline does. -/
theorem keyWordSegments_eq_baseline (key : List Char) :
    keyWordSegments toLowerCase key = keyWordSegmentsBaseline toLowerCase key := by
  rw [keyWordSegments, keyWordSegmentsBaseline, splitRuns_eq, splitRunsBaseline_eq]

end QuokyPlatform.CredentialGuard
