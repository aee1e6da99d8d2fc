import Mathlib.Data.List.Sort
import QuokyPlatform.Foundations.Bisection
import QuokyPlatform.Chunking.WindowPacking

/-!
# Stratified selection

`selectStratified` picks evenly spaced passages of an item that is too long to be read whole. How
many it picks is found by bisection. More picks need not take more windows, so bisection may stop
short of the largest selection that fits: the last theorem says exactly when it does not.
-/

namespace QuokyPlatform.Chunking
set_option autoImplicit false
set_option maxHeartbeats 250000

/-! ## Evenly spaced picks -/

/-- `Math.round(n / d)`, for natural numbers. -/
def mathRound (n d : ℕ) : ℕ := (2 * n + d) / (2 * d)

def evenly (count picks : ℕ) : List ℕ :=
  if picks ≥ count then List.range count
  else if picks ≤ 1 then [0]
  else
    (((List.range picks).map fun step =>
      mathRound (step * (count - 1)) (picks - 1)).eraseDups).insertionSort (· ≤ ·)

/-- With no more picks than positions, two picks never round to the same position. -/
theorem mathRound_lt {count picks step : ℕ} (hpicks : 1 < picks) (hcount : picks < count) :
    mathRound (step * (count - 1)) (picks - 1) <
      mathRound ((step + 1) * (count - 1)) (picks - 1) := by
  unfold mathRound
  have hpositive : 0 < 2 * (picks - 1) := by omega
  have hstep : 2 * (step * (count - 1)) + (picks - 1) + 2 * (picks - 1) ≤
      2 * ((step + 1) * (count - 1)) + (picks - 1) := by
    rw [Nat.add_mul, Nat.one_mul]
    omega
  calc (2 * (step * (count - 1)) + (picks - 1)) / (2 * (picks - 1))
      < (2 * (step * (count - 1)) + (picks - 1)) / (2 * (picks - 1)) + 1 := Nat.lt_succ_self _
    _ = (2 * (step * (count - 1)) + (picks - 1) + 2 * (picks - 1)) / (2 * (picks - 1)) :=
        (Nat.add_div_right _ hpositive).symm
    _ ≤ (2 * ((step + 1) * (count - 1)) + (picks - 1)) / (2 * (picks - 1)) :=
        Nat.div_le_div_right hstep

theorem eraseDups_of_nodup {values : List ℕ} (h : values.Nodup) : values.eraseDups = values := by
  induction values with
  | nil => rfl
  | cons value rest ih =>
    obtain ⟨hfresh, hrest⟩ := List.nodup_cons.mp h
    have hkept : (rest.filter fun other => !other == value) = rest := by
      refine List.filter_eq_self.mpr fun other hother => ?_
      have hne : other ≠ value := fun heq => hfresh (heq ▸ hother)
      simpa using hne
    rw [List.eraseDups_cons, hkept, ih hrest]

theorem length_evenly {count picks : ℕ} (hpicks : 1 ≤ picks) (hcount : picks ≤ count) :
    (evenly count picks).length = picks := by
  unfold evenly
  split_ifs with hall hone
  · rw [List.length_range]
    omega
  · rw [List.length_singleton]
    omega
  · have hmono : StrictMono fun step => mathRound (step * (count - 1)) (picks - 1) :=
      strictMono_nat_of_lt_succ fun step => mathRound_lt (by omega) (by omega)
    have hnodup : ((List.range picks).map fun step =>
        mathRound (step * (count - 1)) (picks - 1)).Nodup :=
      List.nodup_range.map hmono.injective
    rw [List.length_insertionSort, eraseDups_of_nodup hnodup, List.length_map, List.length_range]

/-! ## The selection -/

section
variable (W : Type) [WeightNumber W] (runtime : Runtime) (prepared : JsString)
  (passages : List Passage) (maxWindows : ℚ) (budget : WindowBudget)

/-- The picks pack into at most the allowed number of windows. -/
def fits (picks : List ℕ) : Bool :=
  ((packWindows W runtime prepared passages (picks.map fun ordinal : ℕ => (ordinal : ℚ))
    budget).length : ℚ) ≤ maxWindows

/-- The loop that halves the interval of numbers of picks; `fuel` bounds its turns. -/
def stratifiedLoop : ℕ → ℕ → ℕ → List ℕ → List ℕ
  | 0, _, _, best => best
  | fuel + 1, low, high, best =>
    if low ≤ high then
      let middle := (low + high) / 2
      let picks := evenly passages.length middle
      if fits W runtime prepared passages maxWindows budget picks then
        stratifiedLoop fuel (middle + 1) high picks
      else stratifiedLoop fuel low (middle - 1) best
    else best

def selectStratified : List ℕ :=
  let count := passages.length
  if count = 0 ∨ maxWindows < 1 then []
  else
    let everything := evenly count count
    if fits W runtime prepared passages maxWindows budget everything then everything
    else stratifiedLoop W runtime prepared passages maxWindows budget count 1 (count - 1) [0]

/-- So many evenly spaced picks fit. -/
def Fits (picks : ℕ) : Bool :=
  fits W runtime prepared passages maxWindows budget (evenly passages.length picks)

/-- A selection is the largest one that fits, when any fits. -/
def Maximal (selection : List ℕ) : Prop :=
  ∀ picks ≤ passages.length, Fits W runtime prepared passages maxWindows budget picks = true →
    (∀ more ≤ passages.length, picks < more →
      Fits W runtime prepared passages maxWindows budget more = false) →
    selection = evenly passages.length picks

end

section
variable {W : Type} [WeightNumber W] {runtime : Runtime} {prepared : JsString}
  {passages : List Passage} {maxWindows : ℚ} {budget : WindowBudget}

/-- The loop is the bisection over the numbers of picks. -/
theorem stratifiedLoop_eq (fuel low high best : ℕ) :
    stratifiedLoop W runtime prepared passages maxWindows budget fuel low high
        (evenly passages.length best) =
      evenly passages.length (Bisection.search
        (Fits W runtime prepared passages maxWindows budget) fuel low high best) := by
  induction fuel generalizing low high best with
  | zero => rfl
  | succ fuel ih =>
    unfold stratifiedLoop Bisection.search
    by_cases hle : low ≤ high
    · rw [if_pos hle, if_pos hle]
      dsimp only
      rw [show fits W runtime prepared passages maxWindows budget
        (evenly passages.length ((low + high) / 2)) =
          Fits W runtime prepared passages maxWindows budget ((low + high) / 2) from rfl]
      cases Fits W runtime prepared passages maxWindows budget ((low + high) / 2) with
      | true => exact ih _ _ _
      | false => exact ih _ _ _
    · rw [if_neg hle, if_neg hle]

omit [WeightNumber W] in
theorem wantedOrdinals_singleton (ordinal : ℚ) :
    wantedOrdinals passages [ordinal] = [] ∨ ∃ wanted, wantedOrdinals passages [ordinal] = [wanted] := by
  have hlength : (wantedOrdinals passages [ordinal]).length ≤ 1 := by
    unfold wantedOrdinals
    rw [List.length_mergeSort, List.length_map]
    exact List.length_filter_le _ _
  match hwanted : wantedOrdinals passages [ordinal] with
  | [] => exact .inl rfl
  | [wanted] => exact .inr ⟨wanted, rfl⟩
  | first :: second :: rest =>
    rw [hwanted, List.length_cons, List.length_cons] at hlength
    omega

theorem length_close (state : WindowState) :
    (state.close W runtime).windows.length ≤ state.windows.length + 1 := by
  unfold WindowState.close
  split_ifs
  · exact Nat.le_succ _
  · rw [List.length_append, List.length_singleton]

theorem openWith_windows (state : WindowState) (passage : Passage) (ordinal : ℕ) (next : Piece) :
    (state.openWith W runtime budget passage ordinal next).windows = state.windows := by
  unfold WindowState.openWith
  dsimp only
  split_ifs <;> rfl

/-- One passage takes at most one window. -/
theorem length_packWindows_singleton (ordinal : ℚ) :
    (packWindows W runtime prepared passages [ordinal] budget).length ≤ 1 := by
  unfold packWindows
  dsimp only
  have hwanted : wantedOrdinals passages [ordinal] = [] ∨
      ∃ wanted, wantedOrdinals passages [ordinal] = [wanted] := wantedOrdinals_singleton ordinal
  rcases hwanted with hnone | ⟨wanted, hone⟩
  · rw [hnone]
    exact length_close _
  · rw [hone, List.foldl_cons, List.foldl_nil]
    refine (length_close _).trans ?_
    have hwindows : (windowStep W runtime (.of prepared) passages budget ⟨[], [], [], none⟩
        wanted).windows = [] := by
      unfold windowStep
      cases passages[wanted]? with
      | none => rfl
      | some passage => exact openWith_windows _ _ _ _
    rw [hwindows]
    exact Nat.le_refl 1

/-! ## When the selection is maximal -/

theorem evenly_ne_nil {count : ℕ} (hcount : 0 < count) (picks : ℕ) : evenly count picks ≠ [] := by
  intro hnil
  rcases Nat.eq_zero_or_pos picks with rfl | hpicks
  · unfold evenly at hnil
    rw [if_neg (by omega), if_pos (by omega)] at hnil
    cases hnil
  · rcases Nat.le_or_ge picks count with hle | hge
    · have hlength := length_evenly hpicks hle
      rw [hnil, List.length_nil] at hlength
      omega
    · unfold evenly at hnil
      rw [if_pos hge, List.range_eq_nil] at hnil
      omega

theorem evenly_zero {count : ℕ} (hcount : 0 < count) : evenly count 0 = [0] := by
  unfold evenly
  rw [if_neg (by omega), if_pos (by omega)]

theorem evenly_one {count : ℕ} (hcount : 0 < count) : evenly count 1 = [0] := by
  unfold evenly
  split_ifs with hall
  · have heq : count = 1 := by omega
    rw [heq]
    rfl
  · rfl
  · omega

/-- The largest number of picks that fits decides what is maximal. -/
theorem maximal_iff {largest : ℕ} (hle : largest ≤ passages.length)
    (hfits : Fits W runtime prepared passages maxWindows budget largest = true)
    (hlargest : ∀ more, largest < more → more ≤ passages.length →
      Fits W runtime prepared passages maxWindows budget more = false) (selection : List ℕ) :
    Maximal W runtime prepared passages maxWindows budget selection ↔
      selection = evenly passages.length largest := by
  constructor
  · intro h
    exact h largest hle hfits fun more hmore hlt => hlargest more hlt hmore
  · rintro rfl picks hpicks hpicksFits hgreatest
    rcases Nat.lt_trichotomy picks largest with hlt | rfl | hgt
    · rw [hgreatest largest hle hlt] at hfits
      cases hfits
    · rfl
    · rw [hlargest picks hgt hpicks] at hpicksFits
      cases hpicksFits

/-- One pick fits as soon as one window is allowed. -/
theorem fits_one (hne : passages ≠ []) (hwindows : 1 ≤ maxWindows) :
    Fits W runtime prepared passages maxWindows budget 1 = true := by
  unfold Fits fits
  rw [evenly_one (List.length_pos_iff.mpr hne), decide_eq_true_iff]
  have hlength : ((packWindows W runtime prepared passages [((0 : ℕ) : ℚ)] budget).length : ℚ) ≤ 1 := by
    have hsingle : (packWindows W runtime prepared passages [((0 : ℕ) : ℚ)] budget).length ≤ 1 :=
      length_packWindows_singleton _
    exact_mod_cast hsingle
  exact hlength.trans hwindows

/-- The selection is maximal exactly when there is no passage to select, or no window allowed and
nothing that fits none, or everything fits, or every number of picks that the bisection meets on its
way to the largest one that fits, and below it, fits too. -/
theorem selectStratified_maximal_iff (W : Type) [WeightNumber W] (runtime : Runtime)
    (prepared : JsString) (passages : List Passage) (maxWindows : ℚ) (budget : WindowBudget) :
    Maximal W runtime prepared passages maxWindows budget
        (selectStratified W runtime prepared passages maxWindows budget) ↔
      passages = [] ∨
      (maxWindows < 1 ∧ ∀ picks ≤ passages.length,
        Fits W runtime prepared passages maxWindows budget picks = false) ∨
      (1 ≤ maxWindows ∧
        (Fits W runtime prepared passages maxWindows budget passages.length = true ∨
          ∀ picks ∈ Bisection.way passages.length 1 (passages.length - 1)
            (Nat.findGreatest (fun more =>
              Fits W runtime prepared passages maxWindows budget more = true) passages.length),
            Fits W runtime prepared passages maxWindows budget picks = true)) := by
  by_cases hnil : passages = []
  · subst hnil
    simp only [true_or, iff_true]
    intro picks hpicks _ _
    rw [Nat.le_zero.mp hpicks]
    rfl
  have hcount : 0 < passages.length := List.length_pos_iff.mpr hnil
  have hgreatest : ∀ more, Nat.findGreatest (fun more =>
      Fits W runtime prepared passages maxWindows budget more = true) passages.length < more →
      more ≤ passages.length → Fits W runtime prepared passages maxWindows budget more = false :=
    fun more hlt hle => Bool.eq_false_iff.mpr (Nat.findGreatest_is_greatest hlt hle)
  unfold selectStratified
  dsimp only
  by_cases hwindows : maxWindows < 1
  · rw [if_pos (.inr hwindows)]
    simp only [hnil, hwindows, true_and, not_le.mpr hwindows, false_and, or_false, false_or]
    constructor
    · intro h picks hpicks
      by_contra hfits
      have hsome := Nat.findGreatest_spec (P := fun more =>
        Fits W runtime prepared passages maxWindows budget more = true) hpicks
        (Bool.not_eq_false _ |>.mp hfits)
      exact evenly_ne_nil hcount _
        ((maximal_iff (Nat.findGreatest_le _) hsome hgreatest []).mp h).symm
    · intro hnone picks hpicks hfits _
      rw [hnone picks hpicks] at hfits
      cases hfits
  · have hone : Fits W runtime prepared passages maxWindows budget 1 = true :=
      fits_one hnil (not_lt.mp hwindows)
    have hsome := Nat.findGreatest_spec (P := fun more =>
      Fits W runtime prepared passages maxWindows budget more = true) hcount hone
    have hpositive := Nat.le_findGreatest (P := fun more =>
      Fits W runtime prepared passages maxWindows budget more = true) hcount hone
    rw [if_neg (by rintro (hzero | hlt); exacts [hcount.ne' hzero, hwindows hlt]),
      maximal_iff (Nat.findGreatest_le _) hsome hgreatest]
    simp only [hnil, hwindows, false_and, false_or, not_lt.mp hwindows, true_and]
    generalize hK : Nat.findGreatest (fun more =>
      Fits W runtime prepared passages maxWindows budget more = true) passages.length = largest at *
    rw [show fits W runtime prepared passages maxWindows budget
      (evenly passages.length passages.length) =
        Fits W runtime prepared passages maxWindows budget passages.length from rfl]
    cases hall : Fits W runtime prepared passages maxWindows budget passages.length with
    | true =>
      have heq : largest = passages.length := by
        refine le_antisymm (hK ▸ Nat.findGreatest_le _) (hK ▸ ?_)
        exact Nat.le_findGreatest (P := fun more =>
          Fits W runtime prepared passages maxWindows budget more = true) le_rfl hall
      simp only [if_true, heq, true_or]
    | false =>
      have hlt : largest < passages.length := by
        refine lt_of_le_of_ne (hK ▸ Nat.findGreatest_le _) fun heq => ?_
        rw [heq, hall] at hsome
        cases hsome
      rw [← evenly_zero hcount, stratifiedLoop_eq]
      simp only [Bool.false_eq_true, if_false, false_or]
      have hsearch : Bisection.search (Fits W runtime prepared passages maxWindows budget)
          passages.length 1 (passages.length - 1) 0 = largest ↔ _ :=
        Bisection.search_eq_iff Nat.one_pos (by omega) hpositive (by omega) Nat.one_pos hsome
          fun more hmore hle => hgreatest more hmore (by omega)
      rw [← hsearch]
      refine ⟨fun heq => ?_, fun heq => by rw [heq]⟩
      have hlength := congrArg List.length heq
      rw [length_evenly hpositive hlt.le] at hlength
      have hmem : _ ∨ 1 ≤ Bisection.search (Fits W runtime prepared passages maxWindows budget)
          passages.length 1 (passages.length - 1) 0 ∧ _ :=
        Bisection.search_mem passages.length 1 (passages.length - 1) 0
      rcases hmem with hzero | ⟨hlow, hhigh⟩
      · rw [hzero, evenly_zero hcount, List.length_singleton] at hlength
        refine hsearch.mpr fun picks hpicks => ?_
        have hbounds := Bisection.way_mem hpicks
        omega
      · rwa [length_evenly hlow (by omega)] at hlength

theorem fits_eq (picks : List ℕ) :
    fits W runtime prepared passages maxWindows budget picks =
      decide (((((selectedOrdinals passages (picks.map fun ordinal : ℕ => (ordinal : ℚ))).foldl
        (windowStep W runtime (.of prepared) passages budget) ⟨[], [], [], none⟩).close W
          runtime).windows.length : ℚ) ≤ maxWindows) := by
  unfold fits packWindows
  rw [wantedOrdinals_eq]

end

/-- Five messages of which only the middle one is long. -/
def longMiddle : JsString := [0x61, 0x62] ++ List.replicate 14 0x63 ++ [0x64, 0x65]

def message (start stop : ℕ) : ChunkSection := ⟨[], start, stop, .text, none⟩

def longMiddleSections : List ChunkSection :=
  [message 0 1, message 1 2, message 2 16, message 16 17, message 17 18]

/-- Three evenly spaced picks need three windows there, and four need one; two are selected. -/
theorem two_of_five_selected : ∃ passages,
    chunk ℚ wholeRuntime longMiddle (some longMiddleSections) = .ok passages ∧
      ¬ Maximal ℚ wholeRuntime longMiddle passages 1 ⟨15, none⟩
        (selectStratified ℚ wholeRuntime longMiddle passages 1 ⟨15, none⟩) := by
  generalize hpassages : passagesOf (W := ℚ) wholeRuntime longMiddle (.of longMiddle)
    longMiddleSections (allDrafts wholeRuntime longMiddle (.of longMiddle) 0 longMiddleSections) =
      passages
  have hcount : passages.length = 5 := by
    rw [← hpassages]
    decide +kernel
  have hfits : ∀ picks verdict, (picks, verdict) ∈ [([0, 1, 2, 3, 4], false), ([0, 2, 4], false),
      ([0, 4], true), ([0, 1, 3, 4], true)] →
      fits ℚ wholeRuntime longMiddle passages 1 ⟨15, none⟩ picks = verdict := by
    rw [← hpassages]
    intro picks verdict hmem
    rw [fits_eq]
    simp only [List.mem_cons, Prod.mk.injEq, List.not_mem_nil, or_false] at hmem
    rcases hmem with ⟨rfl, rfl⟩ | ⟨rfl, rfl⟩ | ⟨rfl, rfl⟩ | ⟨rfl, rfl⟩ <;> decide +kernel
  have hselected : selectStratified ℚ wholeRuntime longMiddle passages 1 ⟨15, none⟩ = [0, 4] := by
    have hloop : stratifiedLoop ℚ wholeRuntime longMiddle passages 1 ⟨15, none⟩ 5 1 4 [0] =
        [0, 4] := by
      rw [stratifiedLoop, hcount, if_pos (by decide)]
      dsimp only
      rw [show evenly 5 ((1 + 4) / 2) = [0, 4] from rfl, hfits _ true (by decide), if_pos rfl,
        stratifiedLoop, hcount, if_pos (by decide)]
      dsimp only
      rw [show evenly 5 ((((1 + 4) / 2 + 1) + 4) / 2) = [0, 2, 4] from rfl,
        hfits _ false (by decide), if_neg (by decide)]
      rfl
    unfold selectStratified
    rw [hcount]
    dsimp only
    rw [if_neg (by decide), show evenly 5 5 = [0, 1, 2, 3, 4] from rfl, hfits _ false (by decide)]
    exact hloop
  refine ⟨passages, hpassages ▸ rfl, fun h => ?_⟩
  have hfour := h 4 (by rw [hcount]; decide) (by
    unfold Fits
    rw [hcount]
    exact hfits _ true (by decide)) fun more hle hlt => by
      rw [hcount] at hle
      obtain rfl : more = 5 := by omega
      unfold Fits
      rw [hcount]
      exact hfits _ false (by decide)
  rw [hselected, hcount] at hfour
  revert hfour
  decide

end QuokyPlatform.Chunking
