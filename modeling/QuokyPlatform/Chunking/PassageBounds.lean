import QuokyPlatform.Chunking.SectionPassages

/-!
# The sizes of passages

A passage is over the cap only when it is one grapheme that is longer than the cap. Every other
passage keeps to the cap with everything it carries along: the overlap with the passage before it, or
the repeated header of its table.
-/

namespace QuokyPlatform.Chunking
set_option autoImplicit false
set_option maxHeartbeats 250000

/-! ## Code points of a range -/

section
variable {text : JsString}

/-- Between cuts the counts of consecutive ranges add up. -/
theorem countUnits_add {a b c : ℕ} (ha : IsBoundary text a) (hb : IsBoundary text b)
    (hc : IsBoundary text c) (hab : a ≤ b) (hbc : b ≤ c) :
    (CodePointIndex.of text).countUnits a b + (CodePointIndex.of text).countUnits b c =
      (CodePointIndex.of text).countUnits a c := by
  have hleft := CodePointIndex.toPoint_mono ha hb hab
  have hright := CodePointIndex.toPoint_mono hb hc hbc
  simp only [CodePointIndex.countUnits]
  omega

theorem countUnits_pos {a b : ℕ} (ha : IsBoundary text a) (hb : IsBoundary text b) (h : a < b) :
    0 < (CodePointIndex.of text).countUnits a b := by
  have hlt := CodePointIndex.toPoint_lt ha hb h
  simp only [CodePointIndex.countUnits]
  omega

theorem countUnits_sum {W : Type} {a b : ℕ} {units : List (TextUnit W)} (ha : IsBoundary text a)
    (hcounted : UnitsCounted (.of text) units)
    (h : Tiles (IsBoundary text) a b (units.map TextUnit.toRange)) :
    (units.map (·.points)).sum = (CodePointIndex.of text).countUnits a b := by
  induction units generalizing a with
  | nil =>
    rw [List.map_nil, Tiles.nil_iff] at h
    simp [h, CodePointIndex.countUnits]
  | cons unit units ih =>
    have hb := h.cut_stop ha
    rw [List.map_cons, Tiles.cons_iff] at h
    obtain ⟨hstart, hlt, hcut, hrest⟩ := h
    have hunit := hcounted unit List.mem_cons_self
    have hothers := ih hcut (fun u hu => hcounted u (List.mem_cons_of_mem _ hu)) hrest
    rw [List.map_cons, List.sum_cons, hunit, hothers, hstart]
    exact countUnits_add ha hcut hb hlt.le hrest.le

end

/-! ## Pieces -/

/-- A range is one grapheme of a stretch of the text. -/
def IsGrapheme (runtime : Runtime) (text : JsString) (range : Range) : Prop :=
  ∃ stretch : Range, IsBoundary text stretch.start ∧ IsBoundary text stretch.stop ∧
    stretch.start ≤ stretch.stop ∧ range ∈ segmentRanges runtime .en .grapheme text stretch

section
variable {W : Type} [WeightNumber W] {runtime : Runtime} {text : JsString} {range : Range}

/-- A piece keeps to a number of code points, or is one grapheme. -/
def PieceBounded (runtime : Runtime) (text : JsString) (maxCodePoints : ℕ) (piece : Range) : Prop :=
  (CodePointIndex.of text).countUnits piece.start piece.stop ≤ maxCodePoints ∨
    IsGrapheme runtime text piece

theorem PieceBounded.mono {piece : Range} {fewer more : ℕ} (h : PieceBounded runtime text fewer piece)
    (hle : fewer ≤ more) : PieceBounded runtime text more piece :=
  h.imp (fun hfits => hfits.trans hle) id

/-- The closed pieces are bounded, and the open one keeps to the limit. -/
structure PieceState.Bounded (runtime : Runtime) (text : JsString) (limit : PieceLimit W)
    (position : ℕ) (state : PieceState W) : Prop where
  closed : ∀ piece ∈ state.out, PieceBounded runtime text limit.maxCodePoints piece
  counted : state.points = (CodePointIndex.of text).countUnits state.pieceStart position
  fits : state.points ≤ limit.maxCodePoints

theorem PieceState.Bounded.close {limit : PieceLimit W} {position : ℕ} {state : PieceState W}
    (h : state.Bounded runtime text limit position) :
    (state.close position).Bounded runtime text limit position := by
  refine ⟨fun piece hpiece => ?_, ?_, Nat.zero_le _⟩
  · unfold PieceState.close at hpiece
    dsimp only at hpiece
    split_ifs at hpiece with hlt
    · rcases List.mem_append.mp hpiece with hold | hnew
      · exact h.closed piece hold
      · rw [List.mem_singleton.mp hnew]
        exact .inl (h.counted ▸ h.fits)
    · exact h.closed piece hpiece
  · show 0 = (CodePointIndex.of text).countUnits position position
    rw [CodePointIndex.countUnits, Nat.sub_self]

/-- One grapheme more. -/
theorem PieceState.Bounded.step {limit : PieceLimit W} {position : ℕ} {state : PieceState W}
    {part : Segment} (h : state.Bounded runtime text limit position)
    (hpart : range.start + part.index = position) (hposition : IsBoundary text position)
    (hcut : IsBoundary text (range.start + part.stop))
    (hstart : IsBoundary text state.pieceStart) (hle : state.pieceStart ≤ position)
    (hlt : position < range.start + part.stop)
    (hgrapheme : IsGrapheme runtime text ⟨position, range.start + part.stop⟩) :
    (graphemeStep runtime range limit (.of text) state part).Bounded runtime text limit
      (range.start + part.stop) := by
  have hend : position + part.segment.length = range.start + part.stop := by
    rw [← hpart, Segment.stop]
    omega
  unfold graphemeStep
  simp only [hpart, hend]
  generalize (estimateTokenWeight runtime part.segment : W) = cost
  generalize hsize : (CodePointIndex.of text).countUnits position (range.start + part.stop) = size
  -- What is open before the grapheme leaves room for it, unless the grapheme is over-long.
  have hafter : ∀ full : Bool, (limit.maxCodePoints < state.points + size → full = true) →
      (if 0 < state.points && full then state.close position else state).Bounded runtime text limit
          position ∧
        IsBoundary text
          (if 0 < state.points && full then state.close position else state).pieceStart ∧
        (if 0 < state.points && full then state.close position else state).pieceStart ≤ position ∧
        (size ≤ limit.maxCodePoints →
          (if 0 < state.points && full then state.close position else state).points + size ≤
            limit.maxCodePoints) := by
    intro full hfull
    split_ifs with hclose
    · exact ⟨h.close, hposition, le_rfl, fun hfits => show 0 + size ≤ _ by omega⟩
    · refine ⟨h, hstart, hle, fun hfits => ?_⟩
      by_contra hover
      have htrue : full = true := hfull (by omega)
      have hzero : state.points = 0 := by simpa [htrue] using hclose
      omega
  obtain ⟨hbounded, hafterStart, hafterLe, hroom⟩ := hafter
    (limit.maxCodePoints < state.points + size || limit.tokensExceed (state.weight + cost))
    (fun hover => by simp [hover])
  generalize (if 0 < state.points && _ then state.close position else state) = after at *
  split_ifs with hover
  · refine ⟨fun piece hpiece => ?_, ?_, Nat.zero_le _⟩
    · unfold PieceState.close at hpiece
      rw [if_pos hlt] at hpiece
      rcases List.mem_append.mp hpiece with hold | hnew
      · exact hbounded.closed piece hold
      · rw [List.mem_singleton.mp hnew]
        exact .inr hgrapheme
    · show 0 = (CodePointIndex.of text).countUnits _ _
      rw [CodePointIndex.countUnits, PieceState.close, Nat.sub_self]
  · refine ⟨hbounded.closed, ?_, hroom (not_lt.mp hover)⟩
    show after.points + size = _
    rw [hbounded.counted, ← hsize]
    exact countUnits_add hafterStart hposition hcut hafterLe hlt.le

/-- Every piece keeps to the limit or is one grapheme. -/
theorem graphemeRanges_bounded (hsegments : runtime.SegmentsPartition)
    (hstart : IsBoundary text range.start) (hstop : IsBoundary text range.stop)
    (hle : range.start ≤ range.stop) (limit : PieceLimit W) :
    ∀ piece ∈ graphemeRanges runtime text range limit (.of text),
      PieceBounded runtime text limit.maxCodePoints piece := by
  have hparts := segmentRanges_tiles hsegments hstart hstop hle .en .grapheme
  have hfold : ∀ (parts : List Segment) (state : PieceState W) (position : ℕ),
      (∀ part ∈ parts, part ∈ runtime.segment .en .grapheme (range.slice text)) →
      IsBoundary text position →
      Tiles (IsBoundary text) position range.stop (parts.map (Segment.rangeFrom range.start)) →
      state.Covers text range.start position → state.Bounded runtime text limit position →
      (parts.foldl (graphemeStep runtime range limit (.of text)) state).Bounded runtime text limit
        range.stop := by
    intro parts
    induction parts with
    | nil =>
      intro state position _ _ hnone _ hbounded
      rw [List.map_nil, Tiles.nil_iff] at hnone
      exact hnone ▸ hbounded
    | cons part rest ih =>
      intro state position hmem hposition htiles hcovers hbounded
      rw [List.map_cons, Tiles.cons_iff] at htiles
      obtain ⟨hpart, hlt, hcut, hrest⟩ := htiles
      have hpieceStart : IsBoundary text state.pieceStart := hcovers.tiles.cut_stop hstart
      have hgrapheme : IsGrapheme runtime text ⟨position, range.start + part.stop⟩ := by
        refine ⟨range, hstart, hstop, hle, List.mem_map.mpr ⟨part, hmem part List.mem_cons_self, ?_⟩⟩
        rw [← hpart]
        rfl
      exact ih _ _ (fun other hother => hmem other (List.mem_cons_of_mem _ hother)) hcut hrest
        (hcovers.step hpart hlt hposition hcut)
        (hbounded.step hpart hposition hcut hpieceStart hcovers.opened hlt hgrapheme)
  have hinitial : (⟨[], range.start, 0, 0⟩ : PieceState W).Bounded runtime text limit
      range.start := by
    refine ⟨fun piece hpiece => ?_, ?_, Nat.zero_le _⟩
    · cases hpiece
    · show 0 = (CodePointIndex.of text).countUnits range.start range.start
      rw [CodePointIndex.countUnits, Nat.sub_self]
  have hall := hfold (runtime.segment .en .grapheme (range.slice text)) ⟨[], range.start, 0, 0⟩
    range.start (fun _ h => h) hstart hparts ⟨.nil _, le_refl _, fun _ => rfl⟩ hinitial
  exact hall.close.closed

theorem fitsLimit_le {points : ℕ} {weight : W} {limit : PieceLimit W}
    (h : fitsLimit points weight limit = true) : points ≤ limit.maxCodePoints := by
  unfold fitsLimit at h
  rw [Bool.and_eq_true, decide_eq_true_iff] at h
  exact h.1

theorem bySentence_bounded (hsegments : runtime.SegmentsPartition)
    (hstart : IsBoundary text range.start) (hstop : IsBoundary text range.stop)
    (hle : range.start ≤ range.stop) (limit : PieceLimit W) :
    ∀ piece ∈ bySentence runtime text (.of text) limit range,
      PieceBounded runtime text limit.maxCodePoints piece := by
  intro piece hpiece
  obtain ⟨sentence, hsentence, hpiece⟩ := List.mem_flatMap.mp hpiece
  obtain ⟨-, hlt, -, hfrom, hto⟩ :=
    (sentenceRanges_tiles hsegments hstart hstop hle).mem hstart hsentence
  split_ifs at hpiece with hfits
  · rw [List.mem_singleton.mp hpiece]
    exact .inl (fitsLimit_le hfits)
  · exact graphemeRanges_bounded hsegments hfrom hto hlt.le limit piece hpiece

/-- Whatever an over-long range is split by, its pieces are bounded. -/
theorem splitOversized_bounded (hsegments : runtime.SegmentsPartition)
    (hstart : IsBoundary text range.start) (hstop : IsBoundary text range.stop)
    (hlt : range.start < range.stop) (kind : PassageKind) (limit : PieceLimit W) :
    ∀ piece ∈ splitOversized runtime text (.of text) range kind limit,
      PieceBounded runtime text limit.maxCodePoints piece := by
  intro piece hpiece
  obtain ⟨part, hpart, hpiece⟩ := List.mem_flatMap.mp hpiece
  have hinside : part.start < part.stop ∧ IsBoundary text part.start ∧ IsBoundary text part.stop := by
    have hsentences := sentenceRanges_tiles hsegments hstart hstop hlt.le
    cases kind with
    | code =>
      obtain ⟨-, hpartLt, -, hcuts⟩ := (lineRanges_tiles text hstop hlt.le).mem hstart hpart
      exact ⟨hpartLt, hcuts⟩
    | list =>
      obtain ⟨-, hpartLt, -, hcuts⟩ := (listItemRanges_tiles hstart hstop hlt).mem hstart hpart
      exact ⟨hpartLt, hcuts⟩
    | prose | table | quote =>
      obtain ⟨-, hpartLt, -, hcuts⟩ := hsentences.mem hstart hpart
      exact ⟨hpartLt, hcuts⟩
  obtain ⟨hpartLt, hfrom, hto⟩ := hinside
  split_ifs at hpiece with hfits hsecond
  · rw [List.mem_singleton.mp hpiece]
    exact .inl (fitsLimit_le hfits)
  · exact bySentence_bounded hsegments hfrom hto hpartLt.le limit piece hpiece
  · exact graphemeRanges_bounded hsegments hfrom hto hpartLt.le limit piece hpiece

/-! ## Units -/

theorem unitsOf_bounded (hsegments : runtime.SegmentsPartition) {whole : TextUnit W}
    (hstart : IsBoundary text whole.start) (hstop : IsBoundary text whole.stop)
    (hlt : whole.start < whole.stop)
    (hcounted : whole.points = (CodePointIndex.of text).countUnits whole.start whole.stop)
    (limit : PieceLimit W) (kind : PassageKind) :
    ∀ unit ∈ unitsOf runtime text (.of text) limit kind whole,
      PieceBounded runtime text limit.maxCodePoints unit.toRange := by
  unfold unitsOf
  split_ifs with hfits
  · intro unit hunit
    rw [List.mem_singleton.mp hunit]
    exact .inl (hcounted ▸ fitsLimit_le hfits)
  · intro unit hunit
    obtain ⟨piece, hpiece, rfl⟩ := List.mem_map.mp hunit
    exact splitOversized_bounded hsegments hstart hstop hlt kind limit piece hpiece

theorem textUnits_bounded (hsegments : runtime.SegmentsPartition)
    (hstart : IsBoundary text range.start) (hstop : IsBoundary text range.stop)
    (hlt : range.start < range.stop) (originBase : ℕ) :
    ∀ unit ∈ textUnits (W := W) runtime text (.of text) range originBase,
      PieceBounded runtime text PASSAGE_MAX_CODE_POINTS unit.toRange := by
  intro unit hunit
  obtain ⟨⟨block, order⟩, hblock, hunit⟩ := List.mem_flatMap.mp hunit
  have hmem := List.mem_map_of_mem (f := Block.toRange) (List.fst_mem_of_mem_zipIdx hblock)
  obtain ⟨-, hblockLt, -, hfrom, hto⟩ := (blockRanges_tiles text hstop hlt).mem hstart hmem
  exact unitsOf_bounded hsegments hfrom hto hblockLt rfl PASSAGE_LIMIT _ unit hunit

theorem tableUnits_bounded (hsegments : runtime.SegmentsPartition)
    (hstart : IsBoundary text range.start) (hstop : IsBoundary text range.stop)
    (hlt : range.start < range.stop) (originBase headerPoints : ℕ) (headerWeight : W) :
    ∀ unit ∈ tableUnits runtime text (.of text) range originBase headerPoints headerWeight,
      PieceBounded runtime text PASSAGE_MAX_CODE_POINTS unit.toRange := by
  intro unit hunit
  obtain ⟨⟨row, order⟩, hrow, hunit⟩ := List.mem_flatMap.mp hunit
  obtain ⟨-, hrowLt, -, hfrom, hto⟩ := (tableRows_tiles text hstop hlt.le).mem hstart
    (List.fst_mem_of_mem_zipIdx hrow)
  refine (unitsOf_bounded hsegments hfrom hto hrowLt rfl _ _ unit hunit).mono ?_
  show max 1 (PASSAGE_MAX_CODE_POINTS - headerPoints) ≤ PASSAGE_MAX_CODE_POINTS
  exact max_le (by decide) (Nat.sub_le _ _)

/-! ## Drafts -/

/-- What a packed draft counts: its repeated header and its units, at most the cap unless it is one
unit without a header. -/
structure Draft.Bounded (draft : Draft W) : Prop where
  counted : draft.points =
    (draft.header.map (·.points)).getD 0 + (draft.units.map (·.points)).sum
  plain : draft.table = false → draft.header = none
  capped : draft.points ≤ PASSAGE_MAX_CODE_POINTS ∨
    draft.header = none ∧ ∃ unit, draft.units = [unit]

theorem pack_bounded {units : List (TextUnit W)} {frame : JsString} {table : Bool}
    {header : Option (Header W)}
    (hheader : ∀ repeated ∈ header, repeated.points ≤ PASSAGE_MAX_CODE_POINTS) :
    ∀ draft ∈ pack units frame table header PASSAGE_LIMIT, draft.toDraft.Bounded := by
  apply pack_invariant
  · rintro repeated (rfl | ⟨rfl, rfl⟩)
    · exact ⟨rfl, fun _ => rfl, .inl (Nat.zero_le _)⟩
    · refine ⟨rfl, (fun htable => by cases htable), .inl ?_⟩
      cases repeated with
      | none => exact Nat.zero_le _
      | some repeated => exact hheader repeated rfl
  · intro draft hdraft unit _ hroom
    have hadd : ∀ base : Draft W, base.Bounded →
        (base.fits unit PASSAGE_LIMIT = true ∨ base.header = none ∧ base.units = []) →
        (base.add unit).Bounded := by
      intro base hbase hcase
      refine ⟨?_, hbase.plain, ?_⟩
      · show base.points + unit.points = _
        rw [hbase.counted]
        simp only [Draft.add, List.map_append, List.map_cons, List.map_nil, List.sum_append,
          List.sum_cons, List.sum_nil, Nat.add_zero, Nat.add_assoc]
      · rcases hcase with hfits | ⟨hnone, hnil⟩
        · exact .inl (fitsLimit_le hfits)
        · refine .inr ⟨hnone, unit, ?_⟩
          show base.units ++ [unit] = [unit]
          rw [hnil, List.nil_append]
    unfold Draft.dropHeader
    split_ifs with hdrop
    · exact hadd _ ⟨rfl, fun _ => rfl, .inl (Nat.zero_le _)⟩ (.inr ⟨rfl, rfl⟩)
    · apply hadd draft hdraft
      simp only [Bool.and_eq_true, List.isEmpty_iff, Bool.not_eq_true', not_and,
        Bool.not_eq_false] at hdrop
      rcases hroom with hnil | hfits
      · cases hheaderOf : draft.header with
        | none => exact .inr ⟨rfl, hnil⟩
        | some repeated => exact .inl (hdrop ⟨hnil, by rw [hheaderOf]; rfl⟩)
      · exact .inl hfits

/-- What holds of a draft of a section. -/
structure PackedDraft.Sound (runtime : Runtime) (text : JsString) (draft : PackedDraft W) : Prop where
  bounded : draft.toDraft.Bounded
  counted : UnitsCounted (.of text) draft.units
  pieces : ∀ unit ∈ draft.units, PieceBounded runtime text PASSAGE_MAX_CODE_POINTS unit.toRange
  start : IsBoundary text draft.range.start
  tiles : Tiles (IsBoundary text) draft.range.start draft.range.stop
    (draft.units.map TextUnit.toRange)

omit [WeightNumber W] in
theorem drafts_sound {units : List (TextUnit W)} {drafts : List (PackedDraft W)}
    (hdrafts : drafts.flatMap (·.units) = units) (hstart : IsBoundary text range.start)
    (htiles : Tiles (IsBoundary text) range.start range.stop (units.map TextUnit.toRange))
    (hcounted : UnitsCounted (.of text) units)
    (hpieces : ∀ unit ∈ units, PieceBounded runtime text PASSAGE_MAX_CODE_POINTS unit.toRange)
    (hbounded : ∀ draft ∈ drafts, draft.toDraft.Bounded) :
    ∀ draft ∈ drafts, draft.Sound runtime text := by
  subst hdrafts
  intro draft hdraft
  obtain ⟨hfrom, hunits⟩ := drafts_units_tile hstart htiles draft hdraft
  have hmem : ∀ unit ∈ draft.units, unit ∈ drafts.flatMap (·.units) :=
    fun unit hunit => List.mem_flatMap.mpr ⟨draft, hdraft, hunit⟩
  exact ⟨hbounded draft hdraft, fun unit hunit => hcounted unit (hmem unit hunit),
    fun unit hunit => hpieces unit (hmem unit hunit), hfrom, hunits⟩

theorem repeatableHeader_le {repeated : Header W}
    (h : repeatableHeader runtime text (.of text) range = some repeated) :
    repeated.points ≤ PASSAGE_MAX_CODE_POINTS ∧
      repeated.points = (CodePointIndex.of text).countUnits repeated.start repeated.stop := by
  unfold repeatableHeader at h
  split at h
  · dsimp only at h
    split_ifs at h with hshort
    obtain rfl := Option.some.inj h
    exact ⟨hshort.trans (by decide), rfl⟩
  · cases h

/-- A draft repeats no other header than the one it was given. -/
theorem pack_header {units : List (TextUnit W)} {frame : JsString} {table : Bool}
    {header : Option (Header W)} {allowance : PieceLimit W} :
    ∀ draft ∈ pack units frame table header allowance,
      ∀ repeated ∈ draft.header, header = some repeated := by
  apply pack_invariant (P := fun draft => ∀ repeated ∈ draft.header, header = some repeated)
  · rintro repeated (rfl | ⟨-, rfl⟩) found hfound
    · cases hfound
    · exact hfound
  · intro draft hdraft unit _ _ repeated hrepeated
    unfold Draft.dropHeader at hrepeated
    split_ifs at hrepeated
    · cases hrepeated
    · exact hdraft repeated hrepeated

theorem sectionDrafts_header (originBase : ℕ) (part : ChunkSection) :
    ∀ draft ∈ sectionDrafts (W := W) runtime text (.of text) originBase part range,
      ∀ repeated ∈ draft.header,
        repeated.points = (CodePointIndex.of text).countUnits repeated.start repeated.stop := by
  intro draft hdraft repeated hrepeated
  unfold sectionDrafts at hdraft
  dsimp only at hdraft
  split at hdraft
  · exact (repeatableHeader_le (pack_header draft hdraft repeated hrepeated)).2
  · exact absurd (pack_header draft hdraft repeated hrepeated) (by simp)

theorem sectionDrafts_sound (hsegments : runtime.SegmentsPartition)
    (hstart : IsBoundary text range.start) (hstop : IsBoundary text range.stop)
    (hlt : range.start < range.stop) (originBase : ℕ) (part : ChunkSection) :
    ∀ draft ∈ sectionDrafts (W := W) runtime text (.of text) originBase part range,
      draft.Sound runtime text := by
  unfold sectionDrafts
  dsimp only
  split
  · exact drafts_sound (pack_units _ _ _ _ _) hstart (tableUnits_tiles hsegments hstart hstop hlt _ _ _)
      (tableUnits_counted _ _ _ _ _) (tableUnits_bounded hsegments hstart hstop hlt _ _ _)
      (pack_bounded fun repeated hrepeated => (repeatableHeader_le hrepeated).1)
  · exact drafts_sound (pack_units _ _ _ _ _) hstart (textUnits_tiles hsegments hstart hstop hlt _)
      (textUnits_counted _ _ _) (textUnits_bounded hsegments hstart hstop hlt _)
      (pack_bounded fun repeated hrepeated => by cases hrepeated)

omit [WeightNumber W] in
/-- A draft counts the code points of its span and of its header. -/
theorem PackedDraft.Sound.points {draft : PackedDraft W} (h : draft.Sound runtime text) :
    draft.points = (draft.header.map (·.points)).getD 0 +
      (CodePointIndex.of text).countUnits draft.range.start draft.range.stop := by
  rw [h.bounded.counted, countUnits_sum h.start h.counted h.tiles]

omit [WeightNumber W] in
/-- A draft over the cap is one grapheme. -/
theorem PackedDraft.Sound.overCap_iff {draft : PackedDraft W} (h : draft.Sound runtime text)
    (hover : PASSAGE_MAX_CODE_POINTS < draft.points) :
    PASSAGE_MAX_CODE_POINTS <
        (CodePointIndex.of text).countUnits draft.range.start draft.range.stop ∧
      IsGrapheme runtime text draft.range := by
  rcases h.bounded.capped with hcap | ⟨hnone, unit, hunit⟩
  · omega
  · have hpoints := h.points
    rw [hnone] at hpoints
    have hlength : PASSAGE_MAX_CODE_POINTS <
        (CodePointIndex.of text).countUnits draft.range.start draft.range.stop := by
      have heq : draft.points =
          (CodePointIndex.of text).countUnits draft.range.start draft.range.stop := by
        rw [hpoints]
        exact Nat.zero_add _
      omega
    have hrange : unit.toRange = draft.range := by
      have htiles := h.tiles
      rw [hunit, List.map_cons, List.map_nil, Tiles.cons_iff, Tiles.nil_iff] at htiles
      obtain ⟨hstart, -, -, hstop⟩ := htiles
      cases hdraft : draft.range
      rw [hdraft] at hstart hstop
      cases hunitRange : unit.toRange
      rw [hunitRange] at hstart hstop
      simp only at hstart hstop
      rw [hstart, hstop]
    refine ⟨hlength, ?_⟩
    rcases h.pieces unit (by rw [hunit]; exact List.mem_singleton_self unit) with hfits | hgrapheme
    · rw [hrange] at hfits
      omega
    · exact hrange ▸ hgrapheme

/-! ## The overlap -/

/-- An overlap is the end of the draft before it, short, and leaves the draft within the cap. -/
structure Overlaps (text : JsString) (previous draft : PackedDraft W) (overlap : Range) : Prop where
  plain : draft.table = false
  start : IsBoundary text overlap.start
  from_previous : previous.range.start ≤ overlap.start
  holds : overlap.start < overlap.stop
  stop : overlap.stop = previous.range.stop
  short : (CodePointIndex.of text).countUnits overlap.start overlap.stop ≤
    min OVERLAP_MAX_CODE_POINTS (OVERLAP_MAX_PERCENT * draft.points / 100)
  capped : draft.points + (CodePointIndex.of text).countUnits overlap.start overlap.stop ≤
    PASSAGE_MAX_CODE_POINTS

omit [WeightNumber W] in
theorem stepBack_le {units : List (TextUnit W)} {origin : ℕ} (more position : ℕ) :
    stepBack units origin more position ≤ position := by
  induction more generalizing position with
  | zero =>
    cases position with
    | zero => exact le_rfl
    | succ position => exact le_rfl
  | succ more ih =>
    cases position with
    | zero => exact le_rfl
    | succ position =>
      unfold stepBack
      split_ifs
      · exact (ih position).trans (Nat.le_succ position)
      · exact le_rfl

omit [WeightNumber W] in
theorem overlapFor_spec {previous draft : PackedDraft W} {overlap : Range}
    (hprevious : previous.Sound runtime text)
    (h : overlapFor (.of text) (some previous) draft = some overlap) :
    Overlaps text previous draft overlap := by
  unfold overlapFor at h
  simp only [Option.bind_some] at h
  have hlengthPos := List.length_pos_iff.mpr previous.holds
  -- Whatever the kind, the overlap starts with a unit of the draft before.
  have hposition : (if (previous.units.getLast previous.holds).kind = .code then
      stepBack previous.units (previous.units.getLast previous.holds).origin (CODE_OVERLAP_LINES - 1)
        (previous.units.length - 1)
      else previous.units.length - 1) < previous.units.length := by
    split_ifs
    · have hback : stepBack previous.units (previous.units.getLast previous.holds).origin
          (CODE_OVERLAP_LINES - 1) (previous.units.length - 1) ≤ previous.units.length - 1 :=
        stepBack_le _ _
      omega
    · omega
  generalize (if (previous.units.getLast previous.holds).kind = .code then
      stepBack previous.units (previous.units.getLast previous.holds).origin (CODE_OVERLAP_LINES - 1)
        (previous.units.length - 1)
      else previous.units.length - 1) = position at h hposition
  rw [List.getElem?_eq_getElem hposition, Option.map_some, Option.getD_some] at h
  have hunit := hprevious.tiles.mem hprevious.start
    (List.mem_map_of_mem (List.getElem_mem hposition))
  obtain ⟨hfrom, hlt, hle, hcut, -⟩ := hunit
  split_ifs at h with hsplit hfits
  obtain rfl := Option.some.inj h
  obtain ⟨-, hshort, hcapped⟩ := hfits
  refine ⟨?_, hcut, hfrom, hlt.trans_le hle, rfl, hshort, hcapped⟩
  cases htable : draft.table with
  | false => rfl
  | true => exact absurd (by simp [htable]) hsplit

/-! ## The entries of the drafts -/

/-- An entry's predecessor is the draft of the entry before it. -/
def Chained (all : List (PackedDraft W × Option (PackedDraft W))) : Prop :=
  ∀ i draft previous, all[i]? = some (draft, some previous) →
    ∃ j before, i = j + 1 ∧ all[j]? = some (previous, before)

omit [WeightNumber W] in
theorem withPrevious_chained (drafts : List (PackedDraft W)) : Chained (withPrevious drafts) := by
  intro i draft previous hi
  unfold withPrevious at hi ⊢
  obtain ⟨-, hprevious⟩ := List.getElem?_zip_eq_some.mp hi
  cases i with
  | zero => cases hprevious
  | succ j =>
    rw [List.getElem?_cons_succ, List.getElem?_map, Option.map_eq_some_iff] at hprevious
    obtain ⟨found, hfound, heq⟩ := hprevious
    obtain rfl := Option.some.inj heq
    obtain ⟨hlt, -⟩ := List.getElem?_eq_some_iff.mp hfound
    have hbound : j < (none :: drafts.map some).length := by
      rw [List.length_cons, List.length_map]
      omega
    exact ⟨j, _, rfl, List.getElem?_zip_eq_some.mpr ⟨hfound, List.getElem?_eq_getElem hbound⟩⟩

omit [WeightNumber W] in
theorem Chained.append {all more : List (PackedDraft W × Option (PackedDraft W))}
    (hall : Chained all) (hmore : Chained more) : Chained (all ++ more) := by
  intro i draft previous hi
  rcases Nat.lt_or_ge i all.length with hlt | hge
  · rw [List.getElem?_append_left hlt] at hi
    obtain ⟨j, before, rfl, hj⟩ := hall i draft previous hi
    exact ⟨j, before, rfl, by rwa [List.getElem?_append_left (by omega)]⟩
  · rw [List.getElem?_append_right hge] at hi
    obtain ⟨j, before, hij, hj⟩ := hmore _ draft previous hi
    refine ⟨all.length + j, before, by omega, ?_⟩
    rw [List.getElem?_append_right (Nat.le_add_right _ _), Nat.add_sub_cancel_left]
    exact hj

theorem allDrafts_chained (originBase : ℕ) (sections : List ChunkSection) :
    Chained (allDrafts (W := W) runtime text (.of text) originBase sections) := by
  induction sections generalizing originBase with
  | nil =>
    intro i draft previous hi
    cases hi
  | cons part rest ih =>
    unfold allDrafts
    dsimp only
    split_ifs
    · exact ih originBase
    · exact (withPrevious_chained _).append (ih _)

/-! ## Passages -/

/-- The number of code points of a span. -/
def spanSize (span : Span) : ℕ := span.stop - span.start

theorem spanSize_spanOf (range : Range) :
    spanSize (spanOf (.of text) range) =
      (CodePointIndex.of text).countUnits range.start range.stop := rfl

def unitRange (index : CodePointIndex) (span : Span) : Range :=
  ⟨index.toUnit span.start, index.toUnit span.stop⟩

theorem unitRange_spanOf {range : Range} (hstart : IsBoundary text range.start)
    (hstop : IsBoundary text range.stop) :
    unitRange (.of text) (spanOf (.of text) range) = range := by
  unfold unitRange spanOf
  rw [CodePointIndex.toUnit_toPoint hstart, CodePointIndex.toUnit_toPoint hstop]

/-- An overlap is an end of the text of the passage before it, in the same section. -/
structure OverlapOf (prepared : JsString) (sections : List ChunkSection) (passages : List Passage)
    (passage : Passage) (overlap : Span) (previous : Passage) : Prop where
  mem : previous ∈ passages
  before : previous.ordinal + 1 = passage.ordinal
  inSection : ∃ part ∈ sections, part.start ≤ previous.span.start ∧ previous.span.stop ≤ part.stop ∧
    part.start ≤ passage.span.start ∧ passage.span.stop ≤ part.stop
  start : previous.span.start ≤ overlap.start
  holds : overlap.start < overlap.stop
  stop : overlap.stop = previous.span.stop
  text : (CodePointIndex.of prepared).slice overlap.start overlap.stop <:+
    passageText prepared previous
  short : spanSize overlap ≤ OVERLAP_MAX_CODE_POINTS
  portion : 100 * spanSize overlap ≤ OVERLAP_MAX_PERCENT * spanSize passage.span

/-- The sizes a passage keeps to. -/
structure SizesHold (runtime : Runtime) (prepared : JsString) (sections : List ChunkSection)
    (passages : List Passage) (passage : Passage) : Prop where
  capped : passage.overCap = false →
    spanSize passage.span + (passage.overlap.map spanSize).getD 0 ≤ PASSAGE_MAX_CODE_POINTS
  header : passage.overCap = false → ∀ rows ∈ passage.rows, ∀ header ∈ rows.headerSpan,
    spanSize passage.span + spanSize header ≤ PASSAGE_MAX_CODE_POINTS
  whole : passage.overCap = true ↔ PASSAGE_MAX_CODE_POINTS < spanSize passage.span ∧
    IsGrapheme runtime prepared (unitRange (.of prepared) passage.span)
  overlap : ∀ overlap ∈ passage.overlap, ∃ previous,
    OverlapOf prepared sections passages passage overlap previous

theorem slice_suffix {range later : Range} (hstart : range.start ≤ later.start)
    (hstop : later.stop = range.stop) : later.slice text <:+ range.slice text := by
  refine ⟨(range.slice text).take (later.start - range.start), ?_⟩
  have hdrop : later.slice text = (range.slice text).drop (later.start - range.start) := by
    have hfrom : range.start + (later.start - range.start) = later.start := by omega
    have hlength : range.stop - range.start - (later.start - range.start) =
        range.stop - later.start := by omega
    simp only [Range.slice, List.drop_take, List.drop_drop, hstop, hfrom, hlength]
  rw [hdrop, List.take_append_drop]

section
variable {list : List ChunkSection}

theorem passageOf_sizes {all : List (PackedDraft W × Option (PackedDraft W))} {ordinal : ℕ}
    {draft : PackedDraft W} {before : Option (PackedDraft W)} {part : ChunkSection}
    (hchained : Chained all) (hentry : all[ordinal]? = some (draft, before)) (hpart : part ∈ list)
    (hsound : ∀ other, other = draft ∨ other ∈ before → other.Sound runtime text ∧
      part.start ≤ (spanOf (.of text) other.range).start ∧
      (spanOf (.of text) other.range).stop ≤ part.stop)
    (hheader : ∀ repeated ∈ draft.header,
      repeated.points = (CodePointIndex.of text).countUnits repeated.start repeated.stop) :
    SizesHold runtime text list (passagesOf runtime text (.of text) list all)
      (passageOf runtime text (.of text) list all.length draft before ordinal) := by
  obtain ⟨hdraft, hfrom, hto⟩ := hsound draft (.inl rfl)
  have hpoints := hdraft.points
  have hstop := hdraft.tiles.cut_stop hdraft.start
  have hsize : spanSize (spanOf (.of text) draft.range) =
      (CodePointIndex.of text).countUnits draft.range.start draft.range.stop := rfl
  constructor
  case capped =>
    intro hcap
    have hwithin : draft.points ≤ PASSAGE_MAX_CODE_POINTS :=
      not_lt.mp (of_decide_eq_false hcap)
    show spanSize (spanOf (.of text) draft.range) +
      (((overlapFor (.of text) before draft).map (spanOf (.of text))).map spanSize).getD 0 ≤ _
    cases hoverlap : overlapFor (.of text) before draft with
    | none =>
      show _ + 0 ≤ _
      omega
    | some overlap =>
      cases before with
      | none => cases hoverlap
      | some previous =>
        have hspec := overlapFor_spec (hsound previous (.inr rfl)).1 hoverlap
        have hcapped := hspec.capped
        have hoverlapSize : spanSize (spanOf (.of text) overlap) =
            (CodePointIndex.of text).countUnits overlap.start overlap.stop := rfl
        rw [Option.map_some, Option.map_some, Option.getD_some]
        omega
  case header =>
    intro hcap rows hrows header hrepeated
    have hwithin : draft.points ≤ PASSAGE_MAX_CODE_POINTS :=
      not_lt.mp (of_decide_eq_false hcap)
    have hrows' : rowsOf list (.of text) draft = some rows := hrows
    unfold rowsOf at hrows'
    split_ifs at hrows'
    obtain rfl := Option.some.inj hrows'
    have hheaderSpan : draft.header.map (fun header => spanOf (.of text) header.toRange) =
        some header := hrepeated
    obtain ⟨repeated, hdraftHeader, rfl⟩ := Option.map_eq_some_iff.mp hheaderSpan
    rw [hdraftHeader, Option.map_some, Option.getD_some, hheader repeated hdraftHeader] at hpoints
    show spanSize (spanOf (.of text) draft.range) + spanSize (spanOf (.of text) repeated.toRange) ≤ _
    rw [spanSize_spanOf, spanSize_spanOf]
    omega
  case whole =>
    show decide (PASSAGE_MAX_CODE_POINTS < draft.points) = true ↔
      PASSAGE_MAX_CODE_POINTS < spanSize (spanOf (.of text) draft.range) ∧
        IsGrapheme runtime text (unitRange (.of text) (spanOf (.of text) draft.range))
    rw [decide_eq_true_iff, unitRange_spanOf hdraft.start hstop]
    constructor
    · exact hdraft.overCap_iff
    · rintro ⟨hlong, -⟩
      omega
  case overlap =>
    intro overlap hoverlap
    obtain ⟨range, hrange, rfl⟩ := Option.map_eq_some_iff.mp hoverlap
    cases before with
    | none => cases hrange
    | some previous =>
      obtain ⟨hprevious, hpreviousFrom, hpreviousTo⟩ := hsound previous (.inr rfl)
      have hspec := overlapFor_spec hprevious hrange
      obtain ⟨j, earlier, rfl, hj⟩ := hchained ordinal draft previous hentry
      have hpreviousStop := hprevious.tiles.cut_stop hprevious.start
      have hrangeStop : IsBoundary text range.stop := hspec.stop ▸ hpreviousStop
      refine ⟨passageOf runtime text (.of text) list all.length previous earlier j, ?_⟩
      constructor
      case mem =>
        refine List.mem_map.mpr ⟨((previous, earlier), j), ?_, rfl⟩
        exact List.mem_zipIdx_iff_getElem?.mpr hj
      case before => rfl
      case inSection => exact ⟨part, hpart, hpreviousFrom, hpreviousTo, hfrom, hto⟩
      case start => exact CodePointIndex.toPoint_mono hprevious.start hspec.start hspec.from_previous
      case holds => exact CodePointIndex.toPoint_lt hspec.start hrangeStop hspec.holds
      case stop => exact congrArg (CodePointIndex.of text).toPoint hspec.stop
      case text =>
        show (CodePointIndex.of text).slice (spanOf (.of text) range).start
            (spanOf (.of text) range).stop <:+
          (CodePointIndex.of text).slice (spanOf (.of text) previous.range).start
            (spanOf (.of text) previous.range).stop
        rw [slice_spanOf hspec.start hrangeStop, slice_spanOf hprevious.start hpreviousStop]
        exact slice_suffix hspec.from_previous hspec.stop
      case short => exact hspec.short.trans (min_le_left _ _)
      case portion =>
        -- The overlapped draft is no table, so what it counts is its span.
        have hplain := hdraft.bounded.plain hspec.plain
        rw [hplain] at hpoints
        have hportion := hspec.short.trans (min_le_right _ _)
        have heq : draft.points = spanSize (spanOf (.of text) draft.range) :=
          hpoints.trans (Nat.zero_add _)
        show 100 * spanSize (spanOf (.of text) range) ≤
          OVERLAP_MAX_PERCENT * spanSize (spanOf (.of text) draft.range)
        rw [spanSize_spanOf, ← heq]
        omega

end

/-- Every passage of a chunked item without the mark keeps to the cap with its overlap or its
repeated header; the mark stands on the graphemes that are longer than the cap and nowhere else; and
an overlap is a short end of the passage before, in the same section. -/
theorem chunk_sizes (hsegments : runtime.SegmentsPartition) {prepared : JsString}
    {sections : Option (List ChunkSection)} {passages : List Passage}
    (h : chunk W runtime prepared sections = .ok passages) :
    ∀ passage ∈ passages, SizesHold runtime prepared
      (sectionList sections (codePointLength prepared)) passages passage := by
  intro passage hpassage
  by_cases hnil : prepared = []
  · rw [chunk, if_pos hnil] at h
    cases h
    cases hpassage
  · rw [← CodePointIndex.of_length]
    obtain ⟨htile, hpassages⟩ := chunk_inv h hnil
    generalize sectionList sections (CodePointIndex.of prepared).length = list at *
    have hchained : Chained (allDrafts (W := W) runtime prepared (.of prepared) 0 list) :=
      allDrafts_chained 0 list
    subst hpassages
    obtain ⟨⟨⟨draft, before⟩, ordinal⟩, hentry, rfl⟩ := List.mem_map.mp hpassage
    obtain ⟨part, hpart, hlt, base, hmem⟩ := mem_allDrafts (List.fst_mem_of_mem_zipIdx hentry)
    obtain ⟨-, hforward, hle⟩ := htile.bounds hpart
    obtain ⟨hstart, hstop, -⟩ := part.range_tile hforward hle
    obtain ⟨hdraft, hbefore⟩ := mem_drafts_of_entry hmem
    have hsound := sectionDrafts_sound hsegments hstart hstop hlt base part (W := W)
    have htiles := sectionDrafts_tile hsegments hstart hstop hlt base part (W := W)
    refine passageOf_sizes hchained (List.mem_zipIdx_iff_getElem?.mp hentry) hpart ?_
      (sectionDrafts_header base part draft hdraft)
    intro other hother
    have hmember : other ∈ sectionDrafts (W := W) runtime prepared (.of prepared) base part
        (part.range (.of prepared)) := by
      rcases hother with rfl | hprevious
      · exact hdraft
      · exact hbefore other hprevious
    obtain ⟨hfrom, -, hto, hcuts⟩ := htiles.mem hstart (List.mem_map_of_mem hmember)
    exact ⟨hsound other hmember, span_inSection hcuts.1 hcuts.2 hforward hle hfrom hto⟩

end

/-- Two messages of one emoji each are two passages within the cap. -/
theorem chunk_sizes_two_emoji : ∃ passages,
    chunk ℚ wholeRuntime twoEmoji (some [emojiMessage 0 1, emojiMessage 1 2]) = .ok passages ∧
      ∀ passage ∈ passages, SizesHold wholeRuntime twoEmoji
        [emojiMessage 0 1, emojiMessage 1 2] passages passage :=
  ⟨_, rfl, chunk_sizes wholeRuntime_partition
    (show chunk ℚ wholeRuntime twoEmoji (some [emojiMessage 0 1, emojiMessage 1 2]) = .ok _
      from rfl)⟩

end QuokyPlatform.Chunking
