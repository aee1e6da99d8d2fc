import QuokyPlatform.Chunking.Boundaries

/-!
# The canonical diff and its split

A preview carries one diff text. It is split into segments of whole lines: a greedy packing whose
segments, joined, are the text again.
-/

namespace QuokyPlatform.Previews
open Chunking
set_option autoImplicit false
set_option maxHeartbeats 250000

/-! ## Lines -/

/-- `/[^\n]*\n|[^\n]+$/g`: the lines, each with the newline that ends it. -/
def lines : JsString → List JsString
  | [] => []
  | unit :: rest =>
    if unit = NEWLINE then [unit] :: lines rest
    else match lines rest with
      | [] => [[unit]]
      | line :: more => (unit :: line) :: more

/-- The text ends a line. -/
def EndsLine (text : JsString) : Prop := text.getLast? = some NEWLINE

/-- Every piece but the last ends a line. -/
def Terminated (pieces : List JsString) : Prop := ∀ piece ∈ pieces.dropLast, EndsLine piece

theorem lines_eq_nil {text : JsString} : lines text = [] ↔ text = [] := by
  cases text with
  | nil => simp [lines]
  | cons unit rest =>
    rw [lines]
    split_ifs
    · simp
    · split <;> simp

@[simp] theorem flatten_lines (text : JsString) : (lines text).flatten = text := by
  induction text with
  | nil => rfl
  | cons unit rest ih =>
    rw [lines]
    split_ifs with h
    · simp [ih]
    · cases hrest : lines rest with
      | nil =>
        rw [hrest] at ih
        simp [← ih]
      | cons line more =>
        rw [hrest] at ih
        simp [← ih]

theorem lines_ne_nil {text line : JsString} (h : line ∈ lines text) : line ≠ [] := by
  induction text generalizing line with
  | nil => simp [lines] at h
  | cons unit rest ih =>
    rw [lines] at h
    split_ifs at h
    · cases List.mem_cons.mp h with
      | inl hline => simp [hline]
      | inr hmem => exact ih hmem
    · cases hrest : lines rest with
      | nil =>
        rw [hrest] at h
        simp_all
      | cons first more =>
        rw [hrest] at h ih
        cases List.mem_cons.mp h with
        | inl hline => simp [hline]
        | inr hmem => exact ih (List.mem_cons_of_mem _ hmem)

theorem terminated_cons {piece next : JsString} {rest : List JsString} :
    Terminated (piece :: next :: rest) ↔ EndsLine piece ∧ Terminated (next :: rest) := by
  simp [Terminated]

theorem terminated_nil : Terminated [] := by simp [Terminated]

theorem terminated_singleton (piece : JsString) : Terminated [piece] := by simp [Terminated]

theorem terminated_lines (text : JsString) : Terminated (lines text) := by
  induction text with
  | nil => exact terminated_nil
  | cons unit rest ih =>
    rw [lines]
    split_ifs with h
    · cases hrest : lines rest with
      | nil => exact terminated_singleton _
      | cons line more =>
        rw [hrest] at ih
        exact terminated_cons.mpr ⟨by simp [EndsLine, h], ih⟩
    · cases hrest : lines rest with
      | nil => exact terminated_singleton _
      | cons line more =>
        rw [hrest] at ih
        have hmem : line ∈ lines rest := by simp [hrest]
        have hline : line ≠ [] := lines_ne_nil hmem
        cases more with
        | nil => exact terminated_singleton _
        | cons next more =>
          obtain ⟨hends, hmore⟩ := terminated_cons.mp ih
          refine terminated_cons.mpr ⟨?_, hmore⟩
          rw [EndsLine, List.getLast?_cons_of_ne_nil hline]
          exact hends

/-! ## Packing -/

/-- Lines are added to the open segment; one that `flushes` it starts the next. -/
def pack (flushes : JsString → JsString → Bool) : JsString → List JsString → List JsString
  | current, [] => if current = [] then [] else [current]
  | current, line :: rest =>
    if current ≠ [] && flushes current line then current :: pack flushes line rest
    else pack flushes (current ++ line) rest

/-- The pieces are the lines of a text, put together in their order. -/
def OfWholeLines (pieces : List JsString) (text : JsString) : Prop :=
  ∃ groups : List (List JsString), groups.flatten = lines text ∧ pieces = groups.map List.flatten

theorem OfWholeLines.flatten {pieces : List JsString} {text : JsString}
    (h : OfWholeLines pieces text) : pieces.flatten = text := by
  obtain ⟨groups, hgroups, rfl⟩ := h
  calc (groups.map List.flatten).flatten = groups.flatten.flatten := List.flatten_flatten.symm
    _ = text := by rw [hgroups, flatten_lines]

section
variable (flushes : JsString → JsString → Bool)

theorem pack_groups (rest : List JsString) (hrest : ∀ line ∈ rest, line ≠ []) :
    ∀ current : List JsString, (∀ line ∈ current, line ≠ []) →
      ∃ groups : List (List JsString), groups.flatten = current ++ rest ∧
        pack flushes current.flatten rest = groups.map List.flatten := by
  induction rest with
  | nil =>
    intro current hcurrent
    by_cases hnil : current = []
    · subst hnil
      exact ⟨[], by simp [pack]⟩
    · have hflat : current.flatten ≠ [] := by
        obtain ⟨line, hline⟩ := List.exists_mem_of_ne_nil _ hnil
        intro hempty
        exact hcurrent line hline (List.flatten_eq_nil_iff.mp hempty line hline)
      exact ⟨[current], by simp [pack, hflat]⟩
  | cons line rest ih =>
    intro current hcurrent
    have hline : line ≠ [] := hrest line List.mem_cons_self
    have htail : ∀ l ∈ rest, l ≠ [] := fun l hl => hrest l (List.mem_cons_of_mem _ hl)
    rw [pack]
    split
    · obtain ⟨groups, hgroups, hpack⟩ := ih htail [line] (by simpa using hline)
      refine ⟨current :: groups, by simp [hgroups], ?_⟩
      simpa using hpack
    · have hboth : ∀ l ∈ current ++ [line], l ≠ [] := by
        intro l hl
        cases List.mem_append.mp hl with
        | inl hmem => exact hcurrent l hmem
        | inr hmem =>
          rw [List.mem_singleton.mp hmem]
          exact hline
      obtain ⟨groups, hgroups, hpack⟩ := ih htail (current ++ [line]) hboth
      exact ⟨groups, by simp [hgroups], by simpa using hpack⟩

/-- What packing gives is made of whole lines. -/
theorem pack_lines (text : JsString) : OfWholeLines (pack flushes [] (lines text)) text := by
  obtain ⟨groups, hgroups, hpack⟩ := pack_groups flushes (lines text)
    (fun _ hline => lines_ne_nil hline) [] (by simp)
  exact ⟨groups, by simpa using hgroups, by simpa using hpack⟩

/-- Every segment but the last ends a line. -/
theorem pack_terminated (rest : List JsString) (hlines : ∀ line ∈ rest, line ≠ [])
    (hrest : Terminated rest) : ∀ current : JsString,
      (current = [] ∨ EndsLine current ∨ rest = []) → Terminated (pack flushes current rest) := by
  induction rest with
  | nil =>
    intro current _
    rw [pack]
    split
    · exact terminated_nil
    · exact terminated_singleton _
  | cons line rest ih =>
    intro current hcurrent
    have hline : line ≠ [] := hlines line List.mem_cons_self
    have htail : ∀ l ∈ rest, l ≠ [] := fun l hl => hlines l (List.mem_cons_of_mem _ hl)
    have hends : Terminated rest ∧ (EndsLine line ∨ rest = []) := by
      cases rest with
      | nil => exact ⟨terminated_nil, .inr rfl⟩
      | cons next more =>
        obtain ⟨hfirst, hmore⟩ := terminated_cons.mp hrest
        exact ⟨hmore, .inl hfirst⟩
    rw [pack]
    split
    next hflush =>
      have hne : current ≠ [] := by
        simp only [Bool.and_eq_true, decide_eq_true_eq] at hflush
        exact hflush.1
      have hnext := ih htail hends.1 line (.inr hends.2)
      cases hpack : pack flushes line rest with
      | nil => exact terminated_singleton _
      | cons first more =>
        rw [hpack] at hnext
        have hcur : EndsLine current := by simpa [hne] using hcurrent
        exact terminated_cons.mpr ⟨hcur, hnext⟩
    next =>
      apply ih htail hends.1
      cases hends.2 with
      | inl h =>
        right
        left
        rw [EndsLine, List.getLast?_append_of_ne_nil _ hline]
        exact h
      | inr h => exact .inr (.inr h)

/-- Segments keep to a bound when the lines do and a line that would overflow flushes. -/
theorem pack_bounded (size : JsString → ℕ) (bound : ℕ)
    (hsize : ∀ a b, size (a ++ b) ≤ size a + size b)
    (hflush : ∀ current line, bound < size current + size line → flushes current line = true)
    (rest : List JsString) (hrest : ∀ line ∈ rest, size line ≤ bound) :
    ∀ current, size current ≤ bound →
      ∀ segment ∈ pack flushes current rest, size segment ≤ bound := by
  induction rest with
  | nil =>
    intro current hcurrent segment hsegment
    rw [pack] at hsegment
    split at hsegment
    · simp at hsegment
    · rw [List.mem_singleton.mp hsegment]
      exact hcurrent
  | cons line rest ih =>
    intro current hcurrent segment hsegment
    have hline : size line ≤ bound := hrest line List.mem_cons_self
    have htail : ∀ l ∈ rest, size l ≤ bound := fun l hl => hrest l (List.mem_cons_of_mem _ hl)
    rw [pack] at hsegment
    split at hsegment
    · cases List.mem_cons.mp hsegment with
      | inl h =>
        rw [h]
        exact hcurrent
      | inr h => exact ih htail line hline segment h
    next hstay =>
      apply ih htail (current ++ line) _ segment hsegment
      by_cases hcur : current = []
      · simpa [hcur] using hline
      · have hkeep : ¬ bound < size current + size line := by
          intro hover
          simp [hcur, hflush _ _ hover] at hstay
        have happend := hsize current line
        omega

end

/-! ## The split -/

/-- The new-file lines of a diff. -/
def startsFile (line : JsString) : Bool :=
  (units "diff --git ").isPrefixOf line || (units "Index: ").isPrefixOf line

def startsHunk (line : JsString) : Bool := (units "@@ ").isPrefixOf line

inductive SplitRefusal where
  | lineExceedsBudget
  | emptyBudget
  deriving DecidableEq, Repr

/-- A line overflows the open segment, or begins a file or a hunk behind one that is substantial. -/
def flushesBefore (payloadBudget : ℤ) (current line : JsString) : Bool :=
  let boundaryMin := payloadBudget * 6 / 10
  current.length + line.length > payloadBudget ||
    ((startsFile line || startsHunk line) && current.length ≥ boundaryMin)

/-- The segments of a diff within a budget, unless a line alone exceeds it. -/
def splitCanonicalDiff (canonicalDiff : JsString) (payloadBudget : ℤ) :
    Except SplitRefusal (List JsString) :=
  if payloadBudget ≤ 0 then .error .emptyBudget
  else if canonicalDiff.length = 0 then .ok []
  else if canonicalDiff.length ≤ payloadBudget then .ok [canonicalDiff]
  else if (lines canonicalDiff).any fun line => line.length > payloadBudget then
    .error .lineExceedsBudget
  else .ok (pack (flushesBefore payloadBudget) [] (lines canonicalDiff))

/-- The file's diff, ending in a newline. -/
def buildCanonicalDiff (unifiedDiffs : List JsString) : JsString :=
  (unifiedDiffs.map fun diff => if diff.getLast? = some NEWLINE then diff else diff ++ [NEWLINE]).flatten

theorem splitCanonicalDiff_whole {diff : JsString} {budget : ℤ} {segments : List JsString}
    (h : splitCanonicalDiff diff budget = .ok segments) : OfWholeLines segments diff := by
  rw [splitCanonicalDiff] at h
  split_ifs at h with hbudget hempty hfits hlong
  · cases h
    have hnil : diff = [] := List.eq_nil_of_length_eq_zero hempty
    exact ⟨[], by simp [hnil, lines]⟩
  · cases h
    exact ⟨[lines diff], by simp⟩
  · cases h
    exact pack_lines _ diff

theorem splitCanonicalDiff_terminated {diff : JsString} {budget : ℤ} {segments : List JsString}
    (h : splitCanonicalDiff diff budget = .ok segments) : Terminated segments := by
  rw [splitCanonicalDiff] at h
  split_ifs at h with hbudget hempty hfits hlong
  · cases h
    exact terminated_nil
  · cases h
    exact terminated_singleton _
  · cases h
    exact pack_terminated _ _ (fun _ hline => lines_ne_nil hline) (terminated_lines diff) [] (.inl rfl)

end QuokyPlatform.Previews
