import QuokyPlatform.Messages.Rendering

/-!
# Budgets of the layout nodes

What the layout nodes keep of their rendered contents: a clipped text keeps a beginning, fitted lines
lose their droppable lines from the end and no more of them than they must, taken lines are the
leading ones that the budget has room for.
-/

namespace QuokyPlatform.Messages
open Chunking
set_option autoImplicit false
set_option maxHeartbeats 250000

/-! ## Measures -/

theorem codePoints_length_cons_le (unit : CodeUnit) (text : JsString) :
    (codePoints (unit :: text)).length ≤ (codePoints text).length + 1 := by
  fun_induction codePoints text generalizing unit with
  | case1 => exact le_rfl
  | case2 second =>
    rw [codePoints]
    split_ifs
    · exact Nat.le_succ _
    · exact le_rfl
  | case3 second third rest hpair ih =>
    have hrest := ih third
    rw [codePoints]
    split_ifs
    · simp only [List.length_cons]
      omega
    · rw [codePoints, if_pos hpair]
      exact le_rfl
  | case4 second third rest hpair ih =>
    rw [codePoints]
    split_ifs
    · simp only [List.length_cons]
      omega
    · rw [codePoints, if_neg hpair]
      exact le_rfl

/-- Where two texts meet, two units may become one code point. -/
theorem codePoints_length_append_le (text more : JsString) :
    (codePoints (text ++ more)).length ≤ (codePoints text).length + (codePoints more).length := by
  fun_induction codePoints text with
  | case1 => exact Nat.le_add_left _ _
  | case2 unit =>
    have hcons := codePoints_length_cons_le unit more
    rw [List.singleton_append, List.length_singleton]
    omega
  | case3 first second rest hpair ih =>
    rw [List.cons_append, List.cons_append, codePoints, if_pos hpair, List.length_cons,
      List.length_cons]
    omega
  | case4 first second rest hpair ih =>
    rw [List.cons_append, List.cons_append, codePoints, if_neg hpair, List.length_cons,
      List.length_cons]
    rw [List.cons_append] at ih
    omega

theorem measure_append_le (text more : JsString) (unit : MessageLengthUnit) :
    measure (text ++ more) unit ≤ measure text unit + measure more unit := by
  cases unit with
  | utf16 => exact (List.length_append).le
  | codePoints => exact codePoints_length_append_le text more

theorem codePoints_length_of_mem {text point : JsString} (h : point ∈ codePoints text) :
    (codePoints point).length ≤ 1 := by
  fun_induction codePoints text with
  | case1 => cases h
  | case2 unit =>
    rw [List.mem_singleton.mp h]
    exact le_rfl
  | case3 first second rest hpair ih =>
    rcases List.mem_cons.mp h with rfl | hrest
    · rw [codePoints, if_pos hpair]
      exact le_rfl
    · exact ih hrest
  | case4 first second rest hpair ih =>
    rcases List.mem_cons.mp h with rfl | hrest
    · exact le_rfl
    · exact ih hrest

theorem codePoints_length_flatten_le {points : List JsString}
    (h : ∀ point ∈ points, (codePoints point).length ≤ 1) :
    (codePoints points.flatten).length ≤ points.length := by
  induction points with
  | nil => exact le_rfl
  | cons point rest ih =>
    have happend := codePoints_length_append_le point rest.flatten
    have hpoint := h point List.mem_cons_self
    have hrest := ih fun other hother => h other (List.mem_cons_of_mem _ hother)
    rw [List.flatten_cons, List.length_cons]
    omega

/-- A head is a beginning of the text. -/
theorem head_prefix (text : JsString) {count : ℤ} (h : 0 ≤ count) (unit : MessageLengthUnit) :
    head text count unit <+: text := by
  cases unit with
  | utf16 =>
    show slice text 0 count <+: text
    rw [slice_of_nonneg _ (le_refl 0) h]
    exact List.take_prefix _ _
  | codePoints =>
    show (slice (codePoints text) 0 count).flatten <+: text
    rw [slice_of_nonneg _ (le_refl 0) h, Int.toNat_zero, List.drop_zero]
    obtain ⟨rest, hrest⟩ := List.take_prefix count.toNat (codePoints text)
    refine ⟨rest.flatten, ?_⟩
    rw [← List.flatten_append, hrest, codePoints_flatten]

theorem measure_head_le (text : JsString) {count : ℤ} (h : 0 ≤ count) (unit : MessageLengthUnit) :
    (measure (head text count unit) unit : ℤ) ≤ count := by
  cases unit with
  | utf16 =>
    show ((slice text 0 count).length : ℤ) ≤ count
    rw [slice_of_nonneg _ (le_refl 0) h, Int.toNat_zero, List.drop_zero]
    have htake := List.length_take_le count.toNat text
    omega
  | codePoints =>
    show ((codePoints (slice (codePoints text) 0 count).flatten).length : ℤ) ≤ count
    rw [slice_of_nonneg _ (le_refl 0) h, Int.toNat_zero, List.drop_zero]
    have htake := List.length_take_le count.toNat (codePoints text)
    have hpoints : (codePoints ((codePoints text).take count.toNat).flatten).length ≤
        ((codePoints text).take count.toNat).length :=
      codePoints_length_flatten_le fun point hpoint =>
        codePoints_length_of_mem (List.mem_of_mem_take hpoint)
    omega

theorem measure_ellipsis (unit : MessageLengthUnit) : measure ellipsis unit = 1 := by
  cases unit with
  | utf16 => rfl
  | codePoints => rfl

/-! ## Clipped text -/

/-- What a clip gives for its content, already trimmed where it is to be, and its tail. -/
structure Clipped (text tail : JsString) (maxChars : ℤ) (unit : MessageLengthUnit)
    (clipped : JsString) : Prop where
  short : (measure tail unit : ℤ) ≤ maxChars → (measure clipped unit : ℤ) ≤ maxChars
  whole : (measure text unit : ℤ) + measure tail unit ≤ maxChars → clipped = text ++ tail
  cut : maxChars < (measure text unit : ℤ) + measure tail unit →
    (∃ kept, kept <+: text ∧ clipped = kept ++ ellipsis ++ tail) ∨
      maxChars ≤ measure tail unit ∧ clipped = tail

theorem renderClip_clipped (content : JsString) (maxChars : ℤ) (unit : MessageLengthUnit)
    (trimmed : Bool) (after : Option JsString) :
    Clipped (if trimmed then trim content else content) (after.getD []) maxChars unit
      (renderClip content maxChars unit trimmed after) := by
  unfold renderClip
  generalize after.getD [] = tail
  generalize (if trimmed then trim content else content) = text
  dsimp only
  split_ifs with hfits hroom
  · refine ⟨fun _ => ?_, fun _ => rfl, fun hlong => by omega⟩
    have happend := measure_append_le text tail unit
    omega
  · exact ⟨fun hshort => hshort, fun hwhole => by omega, fun _ => .inr ⟨by omega, rfl⟩⟩
  · have hcount : 0 ≤ maxChars - measure tail unit - 1 := by omega
    refine ⟨fun _ => ?_, fun hwhole => by omega, fun _ => .inl ⟨_, head_prefix text hcount unit, rfl⟩⟩
    have hhead := measure_head_le text hcount unit
    have hleft := measure_append_le
      (head text (maxChars - measure tail unit - 1) unit ++ ellipsis) tail unit
    have hright := measure_append_le (head text (maxChars - measure tail unit - 1) unit) ellipsis unit
    rw [measure_ellipsis] at hright
    omega

/-! ## Fitted lines -/

section
variable {T : Type}

/-- The number of lines that may be left out. -/
def droppables (lines : List (FitLine T)) : ℕ := lines.countP FitLine.droppable

/-- The lines without the droppable ones behind the first `count` of them. -/
def keepDroppables : ℕ → List (FitLine T) → List (FitLine T)
  | _, [] => []
  | count, line :: rest =>
    if line.droppable then
      match count with
      | 0 => keepDroppables 0 rest
      | count + 1 => line :: keepDroppables count rest
    else line :: keepDroppables count rest

/-- The lines that are kept keep their order. -/
theorem keepDroppables_sublist (count : ℕ) (lines : List (FitLine T)) :
    (keepDroppables count lines).Sublist lines := by
  fun_induction keepDroppables count lines with
  | case1 => exact List.Sublist.refl _
  | case2 line rest hdroppable ih => exact ih.cons _
  | case3 line rest hdroppable count ih => exact ih.cons_cons _
  | case4 count line rest hfixed ih => exact ih.cons_cons _

/-- Only droppable lines are left out. -/
theorem keepDroppables_fixed (count : ℕ) (lines : List (FitLine T)) :
    (keepDroppables count lines).filter (!·.droppable) = lines.filter (!·.droppable) := by
  fun_induction keepDroppables count lines with
  | case1 => rfl
  | case2 line rest hdroppable ih => simp [hdroppable, ih]
  | case3 line rest hdroppable count ih => simp [hdroppable, ih]
  | case4 count line rest hfixed ih => simp [hfixed, ih]

theorem keepDroppables_droppable (count : ℕ) (lines : List (FitLine T)) :
    (keepDroppables count lines).filter (·.droppable) =
      (lines.filter (·.droppable)).take count := by
  fun_induction keepDroppables count lines with
  | case1 => simp
  | case2 line rest hdroppable ih => simpa using ih
  | case3 line rest hdroppable count ih => simp [hdroppable, ih]
  | case4 count line rest hfixed ih => simp [hfixed, ih]

theorem keepDroppables_all (lines : List (FitLine T)) :
    keepDroppables (droppables lines) lines = lines := by
  unfold droppables
  induction lines with
  | nil => rfl
  | cons line rest ih =>
    cases hdroppable : line.droppable with
    | true => simp [keepDroppables, hdroppable, ih]
    | false => simp [keepDroppables, hdroppable, ih]

theorem spliceLastDroppable_keep_zero (lines : List (FitLine T)) :
    spliceLastDroppable (keepDroppables 0 lines) = none := by
  induction lines with
  | nil => rfl
  | cons line rest ih =>
    cases hdroppable : line.droppable with
    | true => simpa [keepDroppables, hdroppable] using ih
    | false => simp [keepDroppables, hdroppable, spliceLastDroppable, ih]

/-- Leaving the last droppable line out keeps one droppable line less. -/
theorem spliceLastDroppable_keep {lines : List (FitLine T)} {count : ℕ}
    (h : count < droppables lines) :
    spliceLastDroppable (keepDroppables (count + 1) lines) = some (keepDroppables count lines) := by
  induction lines generalizing count with
  | nil => exact absurd h (Nat.not_lt_zero _)
  | cons line rest ih =>
    cases hdroppable : line.droppable with
    | true =>
      have hkeep : ∀ n, keepDroppables (n + 1) (line :: rest) = line :: keepDroppables n rest := by
        intro n
        simp [keepDroppables, hdroppable]
      have hzero : keepDroppables 0 (line :: rest) = keepDroppables 0 rest := by
        simp [keepDroppables, hdroppable]
      rw [hkeep, spliceLastDroppable]
      cases count with
      | zero => rw [spliceLastDroppable_keep_zero, hzero, if_pos hdroppable]
      | succ count =>
        have hrest : count < droppables rest := by
          simp only [droppables, List.countP_cons, hdroppable, if_true] at h
          exact Nat.lt_of_succ_lt_succ h
        rw [ih hrest, hkeep]
    | false =>
      have hkeep : ∀ n, keepDroppables n (line :: rest) = line :: keepDroppables n rest := by
        intro n
        simp [keepDroppables, hdroppable]
      have hrest : count < droppables rest := by
        simpa [droppables, List.countP_cons, hdroppable] using h
      rw [hkeep, hkeep, spliceLastDroppable, ih hrest]

end

section
variable (note : Option JsString) (lines : List (FitLine JsString))

/-- The text of the lines with that many droppable ones kept. -/
def shownLines (count : ℕ) : JsString :=
  joinKept note (keepDroppables count lines) (decide (count < droppables lines))

/-- The loop leaves droppable lines out from the end, one after the other, as long as the text is too
long and there is one. -/
theorem fitKept_spec (maxChars : ℤ) {rounds count : ℕ} (hcount : count ≤ droppables lines)
    (hrounds : count ≤ rounds) :
    ∃ kept ≤ count,
      fitKept maxChars note rounds (keepDroppables count lines)
          (decide (count < droppables lines)) = shownLines note lines kept ∧
        (∀ more, kept < more → more ≤ count → maxChars < (shownLines note lines more).length) ∧
        ((shownLines note lines kept).length ≤ maxChars ∨ kept = 0) := by
  induction rounds generalizing count with
  | zero =>
    obtain rfl : count = 0 := Nat.le_zero.mp hrounds
    exact ⟨0, le_rfl, rfl, fun more hmore hle => by omega, .inr rfl⟩
  | succ rounds ih =>
    unfold fitKept
    have hshown : joinKept note (keepDroppables count lines) (decide (count < droppables lines)) =
        shownLines note lines count := rfl
    rw [hshown]
    split_ifs with hlong
    · cases count with
      | zero =>
        rw [spliceLastDroppable_keep_zero]
        exact ⟨0, le_rfl, rfl, fun more hmore hle => by omega, .inr rfl⟩
      | succ count =>
        obtain ⟨kept, hkept, htext, hmore, hend⟩ :=
          ih (show count ≤ droppables lines by omega) (show count ≤ rounds by omega)
        rw [decide_eq_true (show count < droppables lines by omega)] at htext
        rw [spliceLastDroppable_keep (show count < droppables lines by omega)]
        refine ⟨kept, by omega, htext, fun more hlt hle => ?_, hend⟩
        rcases Nat.lt_or_ge count more with hlast | hearlier
        · obtain rfl : more = count + 1 := by omega
          exact hlong
        · exact hmore more hlt hearlier
    · exact ⟨count, le_rfl, rfl, fun more hmore hle => by omega, .inl (not_lt.mp hlong)⟩

/-- What fitted lines give. -/
structure Fitted (maxChars : ℤ) (text : JsString) : Prop where
  short : (text.length : ℤ) ≤ maxChars
  order : ∀ count, (keepDroppables count lines).Sublist lines ∧
    (keepDroppables count lines).filter (!·.droppable) = lines.filter (!·.droppable) ∧
    (keepDroppables count lines).filter (·.droppable) = (lines.filter (·.droppable)).take count
  kept : ∃ kept ≤ droppables lines,
    (∀ more, kept < more → more ≤ droppables lines →
      maxChars < (shownLines note lines more).length) ∧
    (text = shownLines note lines kept ∨
      kept = 0 ∧ maxChars < (shownLines note lines 0).length ∧
        ∃ cut, cut <+: shownLines note lines 0 ∧ text = cut ++ ellipsis)

theorem renderFitLines_fitted {maxChars : ℤ} (h : 1 ≤ maxChars) :
    Fitted note lines maxChars (renderFitLines lines maxChars note) := by
  have hrounds : droppables lines ≤ lines.length := List.countP_le_length
  obtain ⟨kept, hkept, htext, hmore, hend⟩ := fitKept_spec note lines maxChars le_rfl hrounds
  rw [keepDroppables_all, decide_eq_false (lt_irrefl _)] at htext
  have horder := fun count => And.intro (keepDroppables_sublist count lines)
    (And.intro (keepDroppables_fixed count lines) (keepDroppables_droppable count lines))
  unfold renderFitLines
  rw [htext]
  dsimp only
  split_ifs with hfits
  · exact ⟨hfits, horder, kept, hkept, hmore, .inl rfl⟩
  · have hzero : kept = 0 := hend.resolve_left hfits
    subst hzero
    have hslice : slice (shownLines note lines 0) 0 (maxChars - 1) =
        (shownLines note lines 0).take (maxChars - 1).toNat := by
      rw [slice_of_nonneg _ (le_refl 0) (by omega), Int.toNat_zero, List.drop_zero]
    rw [hslice]
    refine ⟨?_, horder, ?_⟩
    · have htake := List.length_take_le (maxChars - 1).toNat (shownLines note lines 0)
      rw [List.length_append]
      show ((_ + 1 : ℕ) : ℤ) ≤ maxChars
      omega
    · exact ⟨0, hkept, hmore, .inr ⟨rfl, not_le.mp hfits, _, List.take_prefix _ _, rfl⟩⟩

end

/-! ## Taken lines -/

/-- Dropping from the end of a beginning leaves a shorter beginning. -/
theorem rdropWhile_take {α : Type} (q : α → Bool) (count : ℕ) (xs : List α) :
    ∃ kept ≤ count, (xs.take count).rdropWhile q = xs.take kept ∧
      ∀ x ∈ (xs.take count).drop kept, q x = true := by
  have hprefix : (xs.take count).rdropWhile q <+: xs.take count := List.rdropWhile_prefix q _
  have hle : ((xs.take count).rdropWhile q).length ≤ count :=
    hprefix.length_le.trans (List.length_take_le _ _)
  refine ⟨_, hle, ?_, fun x hx => ?_⟩
  · have htake := List.prefix_iff_eq_take.mp hprefix
    rw [List.take_take, min_eq_left hle] at htake
    exact htake
  · have hdrop : (xs.take count).drop ((xs.take count).rdropWhile q).length =
        (xs.take count).rtakeWhile q := by
      have hsplit : (xs.take count).rdropWhile q ++ (xs.take count).rtakeWhile q =
          xs.take count := List.rdropWhile_append_rtakeWhile
      have hleft : ((xs.take count).rdropWhile q ++ (xs.take count).rtakeWhile q).drop
          ((xs.take count).rdropWhile q).length = (xs.take count).rtakeWhile q := List.drop_left
      rwa [hsplit] at hleft
    rw [hdrop] at hx
    exact List.mem_rtakeWhile_imp hx

/-- The lines as the budget counts them, each with a separator. -/
def countedLines (unit : MessageLengthUnit) (lines : List (TakeLine JsString)) : ℤ :=
  (lines.map fun line => (measure line.content unit : ℤ) + 1).sum

section
variable (unit : MessageLengthUnit) (maxChars : ℤ)

theorem countedLines_cons (line : TakeLine JsString) (lines : List (TakeLine JsString)) :
    countedLines unit (line :: lines) = measure line.content unit + 1 + countedLines unit lines := rfl

theorem countedLines_nonneg (lines : List (TakeLine JsString)) : 0 ≤ countedLines unit lines := by
  induction lines with
  | nil => exact le_rfl
  | cons line rest ih =>
    rw [countedLines_cons]
    omega

/-- The loop takes the longest beginning of the lines that the budget has room for. -/
theorem takeFitting_spec (length : ℤ) (lines : List (TakeLine JsString)) :
    ∃ fitting ≤ lines.length,
      takeFitting unit maxChars length lines =
          (lines.take fitting, ((lines.drop fitting).filter TakeLine.item).length) ∧
        (0 < fitting → length + countedLines unit (lines.take fitting) ≤ maxChars) ∧
        (fitting < lines.length →
          maxChars < length + countedLines unit (lines.take (fitting + 1))) := by
  induction lines generalizing length with
  | nil => exact ⟨0, le_rfl, rfl, fun h => absurd h (lt_irrefl _), fun h => absurd h (lt_irrefl _)⟩
  | cons line rest ih =>
    unfold takeFitting
    dsimp only
    split_ifs with hover
    · refine ⟨0, Nat.zero_le _, rfl, fun h => absurd h (lt_irrefl _), fun _ => ?_⟩
      rw [List.take_succ_cons, List.take_zero, countedLines_cons]
      show maxChars < length + (measure line.content unit + 1 + 0)
      omega
    · obtain ⟨fitting, hle, htaken, hfits, hnext⟩ := ih (length + (measure line.content unit + 1))
      refine ⟨fitting + 1, Nat.succ_le_succ hle, by rw [htaken]; rfl, fun _ => ?_, fun hlt => ?_⟩
      · rw [List.take_succ_cons, countedLines_cons]
        rcases Nat.eq_zero_or_pos fitting with hzero | hpos
        · rw [hzero, List.take_zero]
          show length + (measure line.content unit + 1 + 0) ≤ maxChars
          omega
        · have hsum := hfits hpos
          omega
      · rw [List.take_succ_cons, countedLines_cons]
        have hsum := hnext (Nat.lt_of_succ_lt_succ hlt)
        omega

theorem countedLines_take_le {fewer more : ℕ} (h : fewer ≤ more)
    (lines : List (TakeLine JsString)) :
    countedLines unit (lines.take fewer) ≤ countedLines unit (lines.take more) := by
  induction lines generalizing fewer more with
  | nil => simp
  | cons line rest ih =>
    cases fewer with
    | zero => exact countedLines_nonneg unit _
    | succ fewer =>
      cases more with
      | zero => exact absurd h (Nat.not_succ_le_zero _)
      | succ more =>
        rw [List.take_succ_cons, List.take_succ_cons, countedLines_cons, countedLines_cons]
        have hrest := ih (Nat.le_of_succ_le_succ h)
        omega

end

section
variable (unit : MessageLengthUnit) (maxChars baseChars : ℤ) (heads tails : List JsString)
  (lines : List (TakeLine JsString)) (headOnlyWithLines dropTrailingHeadings : Bool)
  (omitted : Option Omitted)

/-- What the budget counts when that many lines are taken. -/
def countedChars (taken : ℕ) : ℤ :=
  baseChars + ((heads ++ tails).map fun line => (measure line unit : ℤ)).sum +
    countedLines unit (lines.take taken)

/-- The line that tells how many items were left out, if there is one. -/
def closingLine (leftOut : ℕ) : List JsString :=
  let count := (omitted.map Omitted.hidden).getD 0 + leftOut
  match omitted with
  | some note => if count > 0 then [note.before ++ decimal count ++ note.after] else []
  | none => []

/-- What taken lines give: a beginning of the lines between the head and the tail. -/
structure Taken (text : JsString) : Prop where
  lines : ∃ taken fitting, taken ≤ fitting ∧ fitting ≤ lines.length ∧
    (0 < taken → countedChars unit baseChars heads tails lines taken ≤ maxChars) ∧
    (fitting < lines.length →
      maxChars < countedChars unit baseChars heads tails lines (fitting + 1)) ∧
    (dropTrailingHeadings = false → taken = fitting) ∧
    (∀ line ∈ (lines.take fitting).drop taken, line.item = false) ∧
    text = newline.intercalate
      ((if headOnlyWithLines = true ∧ taken = 0 then [] else heads) ++
        ((lines.take taken).map TakeLine.content ++
          closingLine omitted ((lines.drop fitting).filter TakeLine.item).length) ++ tails)

theorem renderTakeLines_taken :
    Taken unit maxChars baseChars heads tails lines headOnlyWithLines dropTrailingHeadings omitted
      (renderTakeLines unit maxChars baseChars heads tails lines headOnlyWithLines
        dropTrailingHeadings omitted) := by
  constructor
  obtain ⟨fitting, hle, htaken, hfits, hnext⟩ := takeFitting_spec unit maxChars
    (baseChars + ((heads ++ tails).map fun line => (measure line unit : ℤ)).sum) lines
  -- The headings at the end of the taken lines leave, a beginning of the lines stays.
  obtain ⟨taken, htakenLe, hsame, hheadings, hkeep⟩ : ∃ taken ≤ fitting,
      (if dropTrailingHeadings then (lines.take fitting).rdropWhile (!·.item)
        else lines.take fitting) = lines.take taken ∧
      (∀ line ∈ (lines.take fitting).drop taken, line.item = false) ∧
      (dropTrailingHeadings = false → taken = fitting) := by
    cases dropTrailingHeadings with
    | false =>
      refine ⟨fitting, le_rfl, rfl, fun line hline => ?_, fun _ => rfl⟩
      rw [List.drop_eq_nil_of_le (List.length_take_le _ _)] at hline
      cases hline
    | true =>
      obtain ⟨taken, htakenLe, hsame, hheadings⟩ := rdropWhile_take (fun line => !line.item) fitting lines
      refine ⟨taken, htakenLe, hsame, fun line hline => ?_, fun hfalse => by cases hfalse⟩
      exact Bool.not_eq_true' line.item ▸ hheadings line hline
  refine ⟨taken, fitting, htakenLe, hle, fun hpos => ?_, hnext, hkeep, hheadings, ?_⟩
  · have hfewer := countedLines_take_le unit htakenLe lines
    have hsum := hfits (hpos.trans_le htakenLe)
    unfold countedChars
    omega
  · unfold renderTakeLines
    simp only [htaken, hsame]
    have hempty : (lines.take taken).isEmpty = true ↔ taken = 0 := by
      rw [List.isEmpty_iff, ← List.length_eq_zero_iff, List.length_take]
      omega
    simp only [Bool.and_eq_true, hempty]
    rfl

end

/-! ## The first candidate that fits -/

/-- A candidate is chosen when those before it are too long, and it fits or is the last. -/
structure FirstFit (maxChars : ℤ) (unit : MessageLengthUnit) (candidates : List JsString)
    (text : JsString) : Prop where
  chosen : ∃ before after, candidates = before ++ text :: after ∧
    (∀ candidate ∈ before, maxChars < (measure candidate unit : ℤ)) ∧
    ((measure text unit : ℤ) ≤ maxChars ∨ after = [])

theorem renderFirstFit_firstFit (maxChars : ℤ) (unit : MessageLengthUnit)
    {candidates : List JsString} (h : candidates ≠ []) (text : JsString) :
    FirstFit maxChars unit candidates (renderFirstFit maxChars unit candidates text) := by
  induction candidates generalizing text with
  | nil => exact absurd rfl h
  | cons candidate rest ih =>
    unfold renderFirstFit
    split_ifs with hfits
    · exact ⟨[], rest, rfl, (fun other hother => by cases hother), .inl hfits⟩
    · cases rest with
      | nil => exact ⟨[], [], rfl, (fun other hother => by cases hother), .inr rfl⟩
      | cons next rest =>
        obtain ⟨before, after, hsplit, hlong, hend⟩ := (ih (List.cons_ne_nil _ _) candidate).chosen
        refine ⟨candidate :: before, after, congrArg (List.cons candidate) hsplit, ?_, hend⟩
        exact List.forall_mem_cons.mpr ⟨not_le.mp hfits, hlong⟩

/-! ## The layout nodes -/

/-- The layout nodes keep to their budgets, whatever the markup makes of their contents. -/
theorem layout_respects_budgets (markup : MessageMarkup) :
    (∀ (content : MessageContent) (maxChars : ℤ) (unit : MessageLengthUnit) (trimmed : Bool)
      (after : Option MessageContent),
      Clipped (if trimmed then trim (render markup content) else render markup content)
        ((after.map (render markup)).getD []) maxChars unit
        (renderNode markup (.node (.clip content maxChars unit trimmed after)))) ∧
    (∀ (lines : List (FitLine MessageContent)) (maxChars : ℤ) (note : Option JsString),
      1 ≤ maxChars → Fitted note (lines.map (FitLine.map (render markup))) maxChars
        (renderNode markup (.node (.fitLines lines maxChars note)))) ∧
    (∀ (unit : MessageLengthUnit) (maxChars baseChars : ℤ) (heads tails : List MessageContent)
      (lines : List (TakeLine MessageContent)) (headOnly dropHeadings : Bool)
      (omitted : Option Omitted),
      Taken unit maxChars baseChars (heads.map (render markup)) (tails.map (render markup))
        (lines.map (TakeLine.map (render markup))) headOnly dropHeadings omitted
        (renderNode markup (.node (.takeLines unit maxChars baseChars heads tails lines headOnly
          dropHeadings omitted)))) ∧
    ∀ (candidates : List MessageContent) (maxChars : ℤ) (unit : MessageLengthUnit),
      candidates ≠ [] → FirstFit maxChars unit (candidates.map (render markup))
        (renderNode markup (.node (.firstFit candidates maxChars unit))) := by
  refine ⟨?_, ?_, ?_, ?_⟩
  · intro content maxChars unit trimmed after
    rw [renderNode_node]
    exact renderClip_clipped _ _ _ _ _
  · intro lines maxChars note hmax
    rw [renderNode_node]
    exact renderFitLines_fitted _ _ hmax
  · intro unit maxChars baseChars heads tails lines headOnly dropHeadings omitted
    rw [renderNode_node]
    exact renderTakeLines_taken _ _ _ _ _ _ _ _ _
  · intro candidates maxChars unit hne
    rw [renderNode_node]
    exact renderFirstFit_firstFit _ _ (fun hnil => hne (List.map_eq_nil_iff.mp hnil)) _

/-- Two lines of which the droppable one does not fit, and two candidates. -/
theorem layout_respects_budgets_plain :
    (renderNode PLAIN_TEXT_MARKUP (.node (.fitLines
        [⟨[.node (.text [0x61])], false⟩, ⟨[.node (.text [0x62])], true⟩] 1 none))).length ≤ 1 ∧
      FirstFit 1 .utf16 [[0x61, 0x62], [0x63]] [0x63] := by
  have hfit := (layout_respects_budgets PLAIN_TEXT_MARKUP).2.1
    [⟨[.node (.text [0x61])], false⟩, ⟨[.node (.text [0x62])], true⟩] 1 none le_rfl
  have hfirst := (layout_respects_budgets PLAIN_TEXT_MARKUP).2.2.2
    [[.node (.text [0x61, 0x62])], [.node (.text [0x63])]] 1 .utf16 (List.cons_ne_nil _ _)
  exact ⟨Int.ofNat_le.mp hfit.short, hfirst⟩

end QuokyPlatform.Messages
