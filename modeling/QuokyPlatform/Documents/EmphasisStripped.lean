import Mathlib.Logic.Relation
import QuokyPlatform.Documents.Emphasis
import QuokyPlatform.Foundations.Lines

/-!
# What stripping leaves of a line

Every rule takes marks away from the line or writes a bullet for a list mark, so a stripped line comes
from the line by such steps, in however many rounds. A line is never longer for it and never gets a
line break.
-/

namespace QuokyPlatform.Documents
open Chunking
set_option autoImplicit false
set_option maxHeartbeats 250000

/-! ## Steps -/

/-- One mark, or one pair of markers, taken from a line. -/
inductive StripStep : JsString → JsString → Prop
  /-- Heading marks at the start. -/
  | heading (indent marks space rest : JsString) (hindent : ∀ u ∈ indent, isBlankUnit u = true)
      (hmarks : marks = List.replicate marks.length HASH) (hcount : 1 ≤ marks.length ∧ marks.length ≤ 6)
      (hspace : space ≠ [] ∧ ∀ u ∈ space, isBlankUnit u = true) :
      StripStep (indent ++ marks ++ space ++ rest) (indent ++ rest)
  /-- A list mark at the start. -/
  | listMark (indent : JsString) (mark : CodeUnit) (space rest : JsString)
      (hindent : ∀ u ∈ indent, isBlankUnit u = true) (hmark : mark = 0x2D ∨ mark = STAR)
      (hspace : space ≠ [] ∧ ∀ u ∈ space, isBlankUnit u = true) :
      StripStep (indent ++ mark :: space ++ rest) (indent ++ bullet ++ rest)
  /-- A pair of markers around text without markup characters. -/
  | pair (before : JsString) (c : CodeUnit) (inner after : JsString) (hc : c = STAR ∨ c = UNDERSCORE)
      (hinner : ∀ u ∈ inner, u ∉ STRIP_UNSAFE) :
      StripStep (before ++ [c, c] ++ inner ++ [c, c] ++ after) (before ++ inner ++ after)

abbrev Stripped : JsString → JsString → Prop := Relation.ReflTransGen StripStep

theorem StripStep.length_le {line next : JsString} (h : StripStep line next) :
    next.length ≤ line.length := by
  cases h with
  | heading => simp only [List.length_append]; omega
  | listMark indent mark space rest _ _ hspace =>
    have hpos := List.length_pos_iff.mpr hspace.1
    simp only [List.length_append, List.length_cons, bullet, List.length_nil]
    omega
  | pair => simp only [List.length_append, List.length_cons]; omega

theorem StripStep.mem {line next : JsString} (h : StripStep line next) {u : CodeUnit} (hu : u ∈ next) :
    u ∈ line ∨ u ∈ bullet := by
  cases h with
  | heading =>
    simp only [List.mem_append] at hu ⊢
    tauto
  | listMark =>
    simp only [List.mem_append, List.mem_cons] at hu ⊢
    tauto
  | pair =>
    simp only [List.mem_append] at hu ⊢
    tauto

theorem Stripped.length_le {line next : JsString} (h : Stripped line next) :
    next.length ≤ line.length := by
  induction h with
  | refl => exact le_rfl
  | tail _ hstep ih => exact hstep.length_le.trans ih

theorem Stripped.mem {line next : JsString} (h : Stripped line next) {u : CodeUnit} (hu : u ∈ next) :
    u ∈ line ∨ u ∈ bullet := by
  induction h with
  | refl => exact .inl hu
  | tail _ hstep ih =>
    rcases hstep.mem hu with hbefore | hbullet
    · exact ih hbefore
    · exact .inr hbullet

/-! ## Line starts -/

theorem forall_takeWhile {p : CodeUnit → Bool} (text : JsString) :
    ∀ u ∈ text.takeWhile p, p u = true := fun _ hu => List.mem_takeWhile_imp hu

theorem run_eq_replicate (c : CodeUnit) (text : JsString) :
    text.takeWhile (· == c) = List.replicate (text.takeWhile (· == c)).length c := by
  refine List.eq_replicate_iff.mpr ⟨rfl, fun u hu => ?_⟩
  exact eq_of_beq (forall_takeWhile text u hu)

/-- White space that is there is not empty. -/
theorem takeWhile_ne_nil {text : JsString} (h : text.head?.any isBlankUnit = true) :
    text.takeWhile isBlankUnit ≠ [] := by
  cases text with
  | nil => cases h
  | cons first rest =>
    have hfirst : isBlankUnit first = true := h
    rw [List.takeWhile_cons_of_pos hfirst]
    exact List.cons_ne_nil _ _

theorem dropHeading_stripped (line : JsString) : Stripped line (dropHeading line) := by
  unfold dropHeading
  dsimp only
  split
  · rename_i h
    obtain ⟨hlow, hhigh, hblank⟩ := h
    have hstep := StripStep.heading (line.takeWhile isBlankUnit)
      ((line.dropWhile isBlankUnit).takeWhile (· == HASH))
      (((line.dropWhile isBlankUnit).dropWhile (· == HASH)).takeWhile isBlankUnit)
      (((line.dropWhile isBlankUnit).dropWhile (· == HASH)).dropWhile isBlankUnit)
      (forall_takeWhile line) (run_eq_replicate HASH _) ⟨hlow, hhigh⟩
      ⟨takeWhile_ne_nil hblank, forall_takeWhile _⟩
    have hline : line.takeWhile isBlankUnit ++ (line.dropWhile isBlankUnit).takeWhile (· == HASH) ++
        ((line.dropWhile isBlankUnit).dropWhile (· == HASH)).takeWhile isBlankUnit ++
        ((line.dropWhile isBlankUnit).dropWhile (· == HASH)).dropWhile isBlankUnit = line := by
      rw [List.append_assoc, List.takeWhile_append_dropWhile, List.append_assoc,
        List.takeWhile_append_dropWhile, List.takeWhile_append_dropWhile]
    rw [hline] at hstep
    exact .single hstep
  · exact .refl

theorem replaceListMark_stripped (line : JsString) : Stripped line (replaceListMark line) := by
  unfold replaceListMark
  dsimp only
  split
  · rename_i mark after hrest
    split
    · rename_i h
      obtain ⟨hmark, hblank⟩ := h
      have hstep := StripStep.listMark (line.takeWhile isBlankUnit) mark (after.takeWhile isBlankUnit)
        (after.dropWhile isBlankUnit) (forall_takeWhile line) hmark
        ⟨takeWhile_ne_nil hblank, forall_takeWhile _⟩
      have hline : line.takeWhile isBlankUnit ++ mark :: after.takeWhile isBlankUnit ++
          after.dropWhile isBlankUnit = line := by
        rw [List.append_assoc, List.cons_append, List.takeWhile_append_dropWhile, ← hrest,
          List.takeWhile_append_dropWhile]
      rw [hline] at hstep
      exact .single hstep
    · exact .refl
  · exact .refl

/-! ## Paired markers -/

variable {line : JsString} {c : CodeUnit}

def AtMarker (line : JsString) (c : CodeUnit) (position : ℕ) : Prop :=
  ∃ rest, line.drop position = c :: c :: rest

/-- The positions are markers, from `start` on and without overlap. -/
def Tokens (line : JsString) (c : CodeUnit) : ℕ → List ℕ → Prop
  | _, [] => True
  | start, position :: rest =>
    start ≤ position ∧ AtMarker line c position ∧ Tokens line c (position + 2) rest

/-- The pairs are of markers around text without markup, from `start` on and one after the other. -/
def Pairs (line : JsString) (c : CodeUnit) : ℕ → List (ℕ × ℕ) → Prop
  | _, [] => True
  | start, (first, last) :: rest =>
    start ≤ first ∧ AtMarker line c first ∧ first + 2 ≤ last ∧ AtMarker line c last ∧
      (∀ u ∈ sliceLine line (first + 2) last, u ∉ STRIP_UNSAFE) ∧ Pairs line c (last + 2) rest

theorem tokens_mono {start earlier : ℕ} (hle : earlier ≤ start) {positions : List ℕ}
    (h : Tokens line c start positions) : Tokens line c earlier positions := by
  cases positions with
  | nil => trivial
  | cons position rest => exact ⟨hle.trans h.1, h.2⟩

theorem pairs_mono {start earlier : ℕ} (hle : earlier ≤ start) {pairs : List (ℕ × ℕ)}
    (h : Pairs line c start pairs) : Pairs line c earlier pairs := by
  cases pairs with
  | nil => trivial
  | cons pair rest => exact ⟨hle.trans h.1, h.2⟩

theorem markerPositions_tokens (position : ℕ) (text : JsString) (h : line.drop position = text) :
    Tokens line c position (markerPositions c position text) := by
  fun_induction markerPositions c position text with
  | case1 position first second rest hmarker ih =>
    obtain ⟨rfl, rfl⟩ := hmarker
    refine ⟨le_rfl, ⟨rest, h⟩, ih ?_⟩
    rw [← List.drop_drop, h]
    rfl
  | case2 position first second rest hmarker ih =>
    refine tokens_mono (Nat.le_succ position) (ih ?_)
    rw [← List.drop_drop, h]
    rfl
  | case3 => trivial

/-- Whether a pair is open or not, what is dropped is pairs. -/
theorem droppedPairs_pairs (isLetterOrNumber : CodeUnit → Bool) (positions : List ℕ) {start : ℕ}
    (h : Tokens line c start positions) :
    Pairs line c start (droppedPairs isLetterOrNumber line c none positions) ∧
      ∀ first, AtMarker line c first → first + 2 ≤ start →
        Pairs line c first (droppedPairs isLetterOrNumber line c (some first) positions) := by
  induction positions generalizing start with
  | nil => exact ⟨trivial, fun _ _ _ => trivial⟩
  | cons position rest ih =>
    obtain ⟨hstart, hmarker, hrest⟩ := h
    obtain ⟨hclosed, hopen⟩ := ih hrest
    have hnone : Pairs line c start (droppedPairs isLetterOrNumber line c none rest) :=
      pairs_mono (hstart.trans (Nat.le_add_right _ 2)) hclosed
    refine ⟨?_, fun first hfirst hle => ?_⟩
    · unfold droppedPairs
      split
      · exact pairs_mono hstart (hopen position hmarker le_rfl)
      · exact hnone
    · unfold droppedPairs
      split
      · split
        · rename_i hremovable
          simp only [removable, Bool.and_eq_true, Bool.not_eq_true', List.any_eq_false,
            decide_eq_true_eq] at hremovable
          exact ⟨le_rfl, hfirst, hle.trans hstart, hmarker, hremovable.1.1, hclosed⟩
        · exact pairs_mono ((Nat.le_add_right _ 2).trans hle) hnone
      · exact hopen first hfirst (hle.trans (hstart.trans (Nat.le_add_right _ 2)))

/-! ## The line without the markers -/

theorem drop_eq_slice (line : JsString) {start stop : ℕ} (h : start ≤ stop) :
    line.drop start = sliceLine line start stop ++ line.drop stop := by
  unfold sliceLine
  have hsplit := List.take_append_drop (stop - start) (line.drop start)
  rw [List.drop_drop, Nat.add_sub_cancel' h] at hsplit
  rw [List.drop_take]
  exact hsplit.symm

theorem drop_marker {position : ℕ} (h : AtMarker line c position) :
    line.drop position = [c, c] ++ line.drop (position + 2) := by
  obtain ⟨rest, hrest⟩ := h
  rw [← List.drop_drop, hrest]
  rfl

theorem withoutMarkers_stripped (hc : c = STAR ∨ c = UNDERSCORE) {pairs : List (ℕ × ℕ)} {start : ℕ}
    (h : Pairs line c start pairs) (before : JsString) :
    Stripped (before ++ line.drop start)
      (before ++ withoutMarkers line start (pairs.flatMap fun pair => [pair.1, pair.2])) := by
  induction pairs generalizing start before with
  | nil => exact .refl
  | cons pair rest ih =>
    obtain ⟨first, last⟩ := pair
    obtain ⟨hstart, hfirst, hle, hlast, hinner, hrest⟩ := h
    have hline : before ++ line.drop start = before ++ sliceLine line start first ++ [c, c] ++
        sliceLine line (first + 2) last ++ [c, c] ++ line.drop (last + 2) := by
      rw [drop_eq_slice line hstart, drop_marker hfirst, drop_eq_slice line hle, drop_marker hlast]
      simp only [List.append_assoc]
    have hstep := StripStep.pair (before ++ sliceLine line start first) c
      (sliceLine line (first + 2) last) (line.drop (last + 2)) hc hinner
    have hnext := ih hrest (before ++ sliceLine line start first ++ sliceLine line (first + 2) last)
    have hwithout : before ++ withoutMarkers line start
        (((first, last) :: rest).flatMap fun pair => [pair.1, pair.2]) =
        before ++ sliceLine line start first ++ sliceLine line (first + 2) last ++
          withoutMarkers line (last + 2) (rest.flatMap fun pair => [pair.1, pair.2]) := by
      simp only [List.flatMap_cons, List.cons_append, List.nil_append, withoutMarkers,
        List.append_assoc]
    rw [hline, hwithout]
    exact (Relation.ReflTransGen.single hstep).trans hnext

theorem stripPairedMarker_stripped (isLetterOrNumber : CodeUnit → Bool) (line : JsString)
    (hc : c = STAR ∨ c = UNDERSCORE) : Stripped line (stripPairedMarker isLetterOrNumber line c) := by
  unfold stripPairedMarker
  dsimp only
  split
  · exact .refl
  · have htokens := markerPositions_tokens (c := c) 0 line rfl
    have hpairs := (droppedPairs_pairs isLetterOrNumber _ htokens).1
    exact withoutMarkers_stripped hc hpairs []

/-! ## A line and a text -/

variable (isLetterOrNumber : CodeUnit → Bool)

theorem stripRound_stripped (line : JsString) : Stripped line (stripRound isLetterOrNumber line) :=
  ((dropHeading_stripped line).trans (replaceListMark_stripped _)).trans
    ((stripPairedMarker_stripped isLetterOrNumber _ (.inl rfl)).trans
      (stripPairedMarker_stripped isLetterOrNumber _ (.inr rfl)))

theorem stripRounds_stripped (rounds : ℕ) (line : JsString) :
    Stripped line (stripRounds isLetterOrNumber rounds line) := by
  induction rounds generalizing line with
  | zero => exact .refl
  | succ rounds ih =>
    unfold stripRounds
    dsimp only
    split
    · exact .refl
    · exact (stripRound_stripped isLetterOrNumber line).trans (ih _)

theorem stripLine_stripped (raw : JsString) : Stripped raw (stripLine isLetterOrNumber raw) := by
  unfold stripLine
  dsimp only
  split
  · exact .refl
  · exact (stripRounds_stripped isLetterOrNumber 4 raw).trans
      ((dropHeading_stripped _).trans (replaceListMark_stripped _))

/-- A stripped line starts with no markup that the line did not start with. -/
theorem lineMarkupPrefix_stripLine (raw : JsString) :
    lineMarkupPrefix (stripLine isLetterOrNumber raw) = [] ∨
      lineMarkupPrefix (stripLine isLetterOrNumber raw) = lineMarkupPrefix raw := by
  unfold stripLine
  dsimp only
  split
  · exact .inr rfl
  · rename_i h
    rw [not_and_or, not_not, not_not] at h
    exact h.symm

theorem newline_not_mem_stripLine {raw : JsString} (h : newlineUnit ∉ raw) :
    newlineUnit ∉ stripLine isLetterOrNumber raw := by
  intro hmem
  rcases (stripLine_stripped isLetterOrNumber raw).mem hmem with hraw | hbullet
  · exact h hraw
  · revert hbullet
    decide

theorem linesOf_stripMarkdownEmphasis (text : JsString) :
    linesOf (stripMarkdownEmphasis isLetterOrNumber text) =
      (linesOf text).map (stripLine isLetterOrNumber) :=
  Lines.splitOn_intercalate_map (stripLine isLetterOrNumber) text fun _ hline =>
    newline_not_mem_stripLine isLetterOrNumber hline

/-- The text has as many lines; none is longer, none starts with markup its original did not start with,
and each is its original with pairs of markers and leading marks taken away. -/
theorem stripMarkdownEmphasis_creates_no_markup (text : JsString) :
    (linesOf (stripMarkdownEmphasis isLetterOrNumber text)).length = (linesOf text).length ∧
    ∀ (index : ℕ) (raw line : JsString), (linesOf text)[index]? = some raw →
      (linesOf (stripMarkdownEmphasis isLetterOrNumber text))[index]? = some line →
      line.length ≤ raw.length ∧
      (lineMarkupPrefix line = [] ∨ lineMarkupPrefix line = lineMarkupPrefix raw) ∧
      Stripped raw line := by
  rw [linesOf_stripMarkdownEmphasis]
  refine ⟨List.length_map _, fun index raw line hraw hline => ?_⟩
  rw [List.getElem?_map, hraw, Option.map_some, Option.some.injEq] at hline
  subst hline
  have hstripped := stripLine_stripped isLetterOrNumber raw
  exact ⟨hstripped.length_le, lineMarkupPrefix_stripLine isLetterOrNumber raw, hstripped⟩

/-- The heading's pair goes with its mark; a pair that hides a heading mark stays as it is. -/
example : stripMarkdownEmphasis (fun _ => true) (units "## **Total**\n- a **b**\n**# c**") =
    units "Total\n\u2022 a b\n**# c**" := by decide +kernel

end QuokyPlatform.Documents
