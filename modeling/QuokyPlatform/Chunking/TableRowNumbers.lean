import QuokyPlatform.Chunking.SectionPassages
import QuokyPlatform.Foundations.KeptPositions

/-!
# The row numbers of a table

A table passage reports the rows it holds by their number in the list of rows, where a blank line is
part of the row before it. The row's line in the source has that number only when no blank line
stands before it.
-/

namespace QuokyPlatform.Chunking
set_option autoImplicit false
set_option maxHeartbeats 250000

section
variable {text : JsString}

/-- A line that is white space only. -/
def isBlankLine (text : JsString) (line : Range) : Bool := (trim (line.slice text)).isEmpty

/-- The line starts a row: it is the first one of the table or not blank. -/
def startsRow (text : JsString) (line : Range) (number : ℕ) : Bool :=
  number == 0 || !isBlankLine text line

/-- The lines of the source that start a row, each with its number. -/
def rowLines (text : JsString) (range : Range) : List (Range × ℕ) :=
  kept (startsRow text) (lineRanges text range)

/-- The number of the source line with which the row at a position starts. -/
def sourceRow (text : JsString) (range : Range) (position : ℕ) : ℕ :=
  (((rowLines text range).filter fun line => line.1.start ≤ position).getLast?.map Prod.snd).getD 0

/-! ## The lines that start a row -/

theorem foldl_addRow_starts {lines rows : List Range} (hrows : rows ≠ []) :
    (lines.foldl (addRow text) rows).map Range.start =
      rows.map Range.start ++ (lines.filter fun line => !isBlankLine text line).map Range.start := by
  induction lines generalizing rows with
  | nil => simp
  | cons line lines ih =>
    obtain ⟨init, last, rfl⟩ := (List.eq_nil_or_concat' rows).resolve_left hrows
    have hstep : addRow text (init ++ [last]) line =
        if isBlankLine text line then init ++ [⟨last.start, line.stop⟩]
        else init ++ [last] ++ [line] := by
      unfold addRow isBlankLine
      rw [List.getLast?_concat, List.dropLast_concat]
    rw [List.foldl_cons, hstep]
    cases hblank : isBlankLine text line with
    | true =>
      rw [if_pos rfl, ih (by simp), List.filter_cons_of_neg (by simp [hblank])]
      simp only [List.map_append, List.map_cons, List.map_nil]
    | false =>
      rw [if_neg (by simp), ih (by simp), List.filter_cons_of_pos (by simp [hblank])]
      simp only [List.map_append, List.map_cons, List.map_nil, List.append_assoc, List.cons_append,
        List.nil_append]

theorem filter_startsRow_zipIdx (lines : List Range) (number : ℕ) :
    ((lines.zipIdx (number + 1)).filter fun line => startsRow text line.1 line.2).map Prod.fst =
      lines.filter fun line => !isBlankLine text line := by
  induction lines generalizing number with
  | nil => rfl
  | cons line lines ih =>
    have hstarts : startsRow text line (number + 1) = !isBlankLine text line := by
      simp [startsRow]
    rw [List.zipIdx_cons]
    cases hblank : isBlankLine text line with
    | true =>
      rw [List.filter_cons_of_neg (by simp [hstarts, hblank]),
        List.filter_cons_of_neg (by simp [hblank]), ih]
    | false =>
      rw [List.filter_cons_of_pos (by simp [hstarts, hblank]),
        List.filter_cons_of_pos (by simp [hblank]), List.map_cons, ih]

variable (text) in
/-- Each row starts where its line does. -/
theorem tableRows_starts (range : Range) :
    (tableRows text range).map Range.start =
      (rowLines text range).map fun line => line.1.start := by
  unfold tableRows rowLines kept
  cases lineRanges text range with
  | nil => rfl
  | cons line lines =>
    have hfirst : addRow text [] line = [line] := rfl
    rw [List.foldl_cons, hfirst, foldl_addRow_starts (List.cons_ne_nil _ _), List.zipIdx_cons,
      List.filter_cons_of_pos (by rfl), List.map_cons, List.map_cons, List.map_nil,
      ← filter_startsRow_zipIdx lines 0, List.map_map]
    rfl

theorem rowLines_length (range : Range) :
    (rowLines text range).length = (tableRows text range).length := by
  have hlengths := congrArg List.length (tableRows_starts text range)
  rw [List.length_map, List.length_map] at hlengths
  exact hlengths.symm

theorem rowLines_start {range : Range} {k : ℕ} {row : Range} {line : Range × ℕ}
    (hrow : (tableRows text range)[k]? = some row) (hline : (rowLines text range)[k]? = some line) :
    line.1.start = row.start := by
  have hstarts := congrArg (·[k]?) (tableRows_starts text range)
  simp only [List.getElem?_map, hrow, hline, Option.map_some] at hstarts
  exact (Option.some.inj hstarts).symm

/-! ## The row at a position -/

theorem filter_eq_take {α : Type} {xs : List α} {q : α → Bool} {n : ℕ}
    (h : ∀ (i : ℕ) (x : α), xs[i]? = some x → (q x = true ↔ i < n)) : xs.filter q = xs.take n := by
  induction xs generalizing n with
  | nil => simp
  | cons x rest ih =>
    have hfirst := h 0 x rfl
    have hrest : ∀ (i : ℕ) (y : α), rest[i]? = some y → (q y = true ↔ i < n - 1) := by
      intro i y hy
      rw [h (i + 1) y (by rwa [List.getElem?_cons_succ])]
      omega
    cases n with
    | zero =>
      rw [List.filter_cons_of_neg (by rw [hfirst]; omega), ih hrest, List.take_zero, List.take_zero]
    | succ n =>
      rw [List.filter_cons_of_pos (by rw [hfirst]; omega), ih hrest, List.take_succ_cons,
        Nat.add_sub_cancel]

variable {range : Range}

/-- A position of a row is one of its line's. -/
theorem sourceRow_of_row (hstart : IsBoundary text range.start) (hstop : IsBoundary text range.stop)
    (hle : range.start ≤ range.stop) {k position : ℕ} {row : Range} {line : Range × ℕ}
    (hrow : (tableRows text range)[k]? = some row) (hline : (rowLines text range)[k]? = some line)
    (hfrom : row.start ≤ position) (hto : position < row.stop) :
    sourceRow text range position = line.2 := by
  have hrows := tableRows_tiles text hstop hle
  have hpairs := List.pairwise_iff_getElem.mp (hrows.pairwise hstart)
  obtain ⟨hk, hget⟩ := List.getElem?_eq_some_iff.mp hrow
  have htake : (rowLines text range).filter (fun line => line.1.start ≤ position) =
      (rowLines text range).take (k + 1) := by
    apply filter_eq_take
    intro i other hother
    obtain ⟨hi, -⟩ := List.getElem?_eq_some_iff.mp hother
    rw [rowLines_length] at hi
    have hsame := rowLines_start (List.getElem?_eq_getElem hi) hother
    rw [decide_eq_true_iff, hsame]
    constructor
    · intro hbefore
      by_contra hlater
      have hapart := hpairs k i hk hi (by omega)
      rw [hget] at hapart
      omega
    · intro hbefore
      rcases Nat.lt_or_ge i k with hlt | hge
      · have hapart := hpairs i k hi hk hlt
        have hnonempty := (hrows.mem hstart (List.getElem_mem hi)).2.1
        rw [hget] at hapart
        omega
      · obtain rfl : i = k := by omega
        rw [hget]
        exact hfrom
  unfold sourceRow
  rw [htake, List.getLast?_take, if_neg (Nat.succ_ne_zero k), Nat.add_sub_cancel, hline]
  rfl

end

/-! ## The rows of a draft -/

section
variable {W : Type} [WeightNumber W] {runtime : Runtime} {text : JsString} {range : Range}

/-- A unit lies in the row it names. -/
def InRow (text : JsString) (range : Range) (unit : TextUnit W) (k : ℕ) : Prop :=
  unit.row = some k ∧ ∃ row, (tableRows text range)[k]? = some row ∧ row.start ≤ unit.start ∧
    unit.start < unit.stop ∧ unit.stop ≤ row.stop

theorem unitsOf_row {index : CodePointIndex} {limit : PieceLimit W} {kind : PassageKind}
    {whole unit : TextUnit W} (h : unit ∈ unitsOf runtime text index limit kind whole) :
    unit.row = whole.row := by
  unfold unitsOf at h
  split_ifs at h
  · rw [List.mem_singleton.mp h]
  · obtain ⟨piece, -, rfl⟩ := List.mem_map.mp h
    rfl

theorem tableUnits_inRow (hsegments : runtime.SegmentsPartition)
    (hstart : IsBoundary text range.start) (hstop : IsBoundary text range.stop)
    (hle : range.start ≤ range.stop) (originBase headerPoints : ℕ) (headerWeight : W) :
    ∀ unit ∈ tableUnits runtime text (.of text) range originBase headerPoints headerWeight,
      ∃ k, InRow text range unit k := by
  intro unit hunit
  obtain ⟨⟨row, order⟩, hrow, hunit⟩ := List.mem_flatMap.mp hunit
  dsimp only at hunit
  obtain ⟨-, hlt, -, hfrom, hto⟩ := (tableRows_tiles text hstop hle).mem hstart
    (List.fst_mem_of_mem_zipIdx hrow)
  have hwhole : (unitOf runtime text (.of text) row .table (originBase + order) false false
      (some order) : TextUnit W).toRange = row := rfl
  obtain ⟨hinside, hunitLt, hbefore, -⟩ := (unitsOf_tiles hsegments hfrom hto hlt _ _ hwhole).mem
    hfrom (List.mem_map_of_mem hunit)
  exact ⟨order, unitsOf_row hunit, row, List.mem_zipIdx_iff_getElem?.mp hrow, hinside, hunitLt,
    hbefore⟩

omit [WeightNumber W] in
theorem InRow.mono (hstart : IsBoundary text range.start) (hstop : IsBoundary text range.stop)
    (hle : range.start ≤ range.stop) {first second : TextUnit W} {k m : ℕ}
    (hfirst : InRow text range first k) (hsecond : InRow text range second m)
    (hbefore : first.start ≤ second.start) : k ≤ m := by
  obtain ⟨-, row, hrow, hrowFrom, -, hrowTo⟩ := hfirst
  obtain ⟨-, other, hother, hotherFrom, hotherLt, hotherTo⟩ := hsecond
  obtain ⟨hk, hgetRow⟩ := List.getElem?_eq_some_iff.mp hrow
  obtain ⟨hm, hgetOther⟩ := List.getElem?_eq_some_iff.mp hother
  by_contra hlater
  have hpairs := List.pairwise_iff_getElem.mp ((tableRows_tiles text hstop hle).pairwise hstart)
  have hapart := hpairs m k hm hk (by omega)
  rw [hgetRow, hgetOther] at hapart
  omega

/-- The row of that number holds the position. -/
def RowHolds (text : JsString) (range : Range) (k position : ℕ) : Prop :=
  ∃ row, (tableRows text range)[k]? = some row ∧ row.start ≤ position ∧ position < row.stop

omit [WeightNumber W] in
/-- The least and the greatest row number of a draft are those of its first and last position. -/
theorem draft_rows (hstart : IsBoundary text range.start) (hstop : IsBoundary text range.stop)
    (hle : range.start ≤ range.stop) {draft : PackedDraft W}
    (hfrom : IsBoundary text draft.range.start)
    (htiles : Tiles (IsBoundary text) draft.range.start draft.range.stop
      (draft.units.map TextUnit.toRange))
    (hrows : ∀ unit ∈ draft.units, ∃ k, InRow text range unit k) :
    ∃ k m, (draft.units.map fun unit => unit.row.getD 0).min? = some k ∧
      (draft.units.map fun unit => unit.row.getD 0).max? = some m ∧
      RowHolds text range k draft.range.start ∧ RowHolds text range m (draft.range.stop - 1) := by
  have hheadMem := List.head_mem draft.holds
  have hlastMem := List.getLast_mem draft.holds
  obtain ⟨k, hk⟩ := hrows _ hheadMem
  obtain ⟨m, hm⟩ := hrows _ hlastMem
  have hfirst : ∀ unit ∈ draft.units, (draft.units.head draft.holds).start ≤ unit.start :=
    fun unit hunit => (htiles.mem hfrom (List.mem_map_of_mem hunit)).1
  have hlast : ∀ unit ∈ draft.units, unit.start ≤ (draft.units.getLast draft.holds).start := by
    intro unit hunit
    rw [← List.dropLast_append_getLast draft.holds, List.map_append] at htiles
    obtain ⟨position, hinit, hend⟩ := Tiles.append_iff.mp htiles
    rw [List.map_cons, List.map_nil, Tiles.cons_iff] at hend
    rw [← List.dropLast_append_getLast draft.holds] at hunit
    rcases List.mem_append.mp hunit with hbefore | hsame
    · have hinside := hinit.mem hfrom (List.mem_map_of_mem hbefore)
      rw [hend.1]
      exact hinside.2.1.le.trans hinside.2.2.1
    · rw [List.mem_singleton.mp hsame]
  have hnumber : ∀ unit ∈ draft.units, ∀ number, InRow text range unit number →
      unit.row.getD 0 = number := by
    intro unit _ number hin
    rw [hin.1, Option.getD_some]
  refine ⟨k, m, ?_, ?_, ?_, ?_⟩
  · rw [List.min?_eq_some_iff]
    refine ⟨List.mem_map.mpr ⟨_, hheadMem, hnumber _ hheadMem k hk⟩, fun number hmem => ?_⟩
    obtain ⟨unit, hunit, rfl⟩ := List.mem_map.mp hmem
    obtain ⟨n, hn⟩ := hrows unit hunit
    rw [hnumber unit hunit n hn]
    exact hk.mono hstart hstop hle hn (hfirst unit hunit)
  · rw [List.max?_eq_some_iff]
    refine ⟨List.mem_map.mpr ⟨_, hlastMem, hnumber _ hlastMem m hm⟩, fun number hmem => ?_⟩
    obtain ⟨unit, hunit, rfl⟩ := List.mem_map.mp hmem
    obtain ⟨n, hn⟩ := hrows unit hunit
    rw [hnumber unit hunit n hn]
    exact hn.mono hstart hstop hle hm (hlast unit hunit)
  · obtain ⟨-, row, hrow, hrowFrom, hlt, hrowTo⟩ := hk
    exact ⟨row, hrow, hrowFrom, hlt.trans_le hrowTo⟩
  · obtain ⟨-, row, hrow, hrowFrom, hlt, hrowTo⟩ := hm
    refine ⟨row, hrow, ?_, ?_⟩
    · show row.start ≤ (draft.units.getLast draft.holds).stop - 1
      omega
    · show (draft.units.getLast draft.holds).stop - 1 < row.stop
      omega

/-! ## The numbers a passage reports -/

/-- The row number of a section's first line. -/
def ChunkSection.base (part : ChunkSection) : ℕ := part.firstRow.getD 1

/-- A passage reports the source lines of the first and the last row it holds. -/
def ReportsRows (text : JsString) (part : ChunkSection) (passage : Passage) : Prop :=
  ∃ rows, passage.rows = some rows ∧
    rows.first = part.base + sourceRow text (part.range (.of text))
      ((CodePointIndex.of text).toUnit passage.span.start) ∧
    rows.last = part.base + sourceRow text (part.range (.of text))
      ((CodePointIndex.of text).toUnit passage.span.stop - 1)

/-- Behind a blank line of the section, other than its first line, every line is blank. -/
def BlankOnlyLast (text : JsString) (range : Range) : Prop :=
  ∀ (i j : ℕ) (first second : Range), 0 < i → i ≤ j → (lineRanges text range)[i]? = some first →
    (lineRanges text range)[j]? = some second → isBlankLine text first = true →
    isBlankLine text second = true

/-- The rows are numbered as their lines exactly when no row stands behind a blank line. -/
theorem rowLines_numbered_iff :
    (∀ (k : ℕ) (line : Range × ℕ), (rowLines text range)[k]? = some line → line.2 = k) ↔
      BlankOnlyLast text range := by
  unfold rowLines
  rw [kept_numbers_iff]
  simp only [startsRow, Bool.or_eq_true, beq_iff_eq, Bool.not_eq_true', BlankOnlyLast]
  constructor
  · intro h i j first second hpos hij hfirst hsecond hblank
    cases hother : isBlankLine text second with
    | true => rfl
    | false =>
      rcases h i j first second hij hfirst hsecond (.inr hother) with hzero | hnot
      · omega
      · rw [hblank] at hnot
        cases hnot
  · intro h i j first second hij hfirst hsecond hstarts
    rcases Nat.eq_zero_or_pos i with hzero | hpos
    · exact .inl hzero
    · cases hblank : isBlankLine text first with
      | false => exact .inr rfl
      | true =>
        have hother := h i j first second hpos hij hfirst hsecond hblank
        rcases hstarts with hzero | hnot
        · omega
        · rw [hother] at hnot
          cases hnot

/-! ## The passages of a table section -/

/-- What holds of a draft of a table section. -/
structure TableDraft (text : JsString) (range : Range) (draft : PackedDraft W) : Prop where
  table : draft.table = true
  start : IsBoundary text draft.range.start
  tiles : Tiles (IsBoundary text) draft.range.start draft.range.stop
    (draft.units.map TextUnit.toRange)
  rows : ∀ unit ∈ draft.units, ∃ k, InRow text range unit k

theorem pack_table {units : List (TextUnit W)} {frame : JsString} {header : Option (Header W)}
    {allowance : PieceLimit W} :
    ∀ draft ∈ pack units frame true header allowance, draft.table = true := by
  apply pack_invariant (P := fun draft => draft.table = true)
  · intro repeated _
    rfl
  · intro draft hdraft unit _ _
    show (draft.dropHeader unit allowance).table = true
    unfold Draft.dropHeader
    split_ifs
    · exact hdraft
    · exact hdraft

theorem pack_tableDrafts {units : List (TextUnit W)} {frame : JsString} {header : Option (Header W)}
    {allowance : PieceLimit W} (hstart : IsBoundary text range.start)
    (htiles : Tiles (IsBoundary text) range.start range.stop (units.map TextUnit.toRange))
    (hrows : ∀ unit ∈ units, ∃ k, InRow text range unit k) :
    ∀ draft ∈ pack units frame true header allowance, TableDraft text range draft := by
  intro draft hdraft
  have hunits := pack_units units frame true header allowance
  rw [← hunits] at htiles hrows
  obtain ⟨hfrom, hdraftTiles⟩ := drafts_units_tile hstart htiles draft hdraft
  exact ⟨pack_table draft hdraft, hfrom, hdraftTiles,
    fun unit hunit => hrows unit (List.mem_flatMap.mpr ⟨draft, hdraft, hunit⟩)⟩

theorem sectionDrafts_table (hsegments : runtime.SegmentsPartition)
    (hstart : IsBoundary text range.start) (hstop : IsBoundary text range.stop)
    (hlt : range.start < range.stop) (originBase : ℕ) {part : ChunkSection}
    (hkind : part.kind = .table) :
    ∀ draft ∈ sectionDrafts (W := W) runtime text (.of text) originBase part range,
      TableDraft text range draft := by
  unfold sectionDrafts
  rw [hkind]
  exact pack_tableDrafts hstart (tableUnits_tiles hsegments hstart hstop hlt _ _ _)
    (tableUnits_inRow hsegments hstart hstop hlt.le _ _ _)

/-- A draft's passage reports the source lines exactly when the lines of its first and last row have
the rows' numbers. -/
theorem passageOf_reports_iff (runtime : Runtime) {list : List ChunkSection} {length : ℕ}
    (htile : SectionsTile length 0 list) {part : ChunkSection} (hpart : part ∈ list)
    (hstart : IsBoundary text (part.range (.of text)).start)
    (hstop : IsBoundary text (part.range (.of text)).stop)
    (hle : (part.range (.of text)).start ≤ (part.range (.of text)).stop) {draft : PackedDraft W}
    (hdraft : TableDraft text (part.range (.of text)) draft)
    (hfrom : part.start ≤ (spanOf (.of text) draft.range).start)
    (hto : (spanOf (.of text) draft.range).stop ≤ part.stop) (total ordinal : ℕ)
    (before : Option (PackedDraft W)) :
    ∃ k m, RowHolds text (part.range (.of text)) k draft.range.start ∧
      RowHolds text (part.range (.of text)) m (draft.range.stop - 1) ∧
      (ReportsRows text part (passageOf runtime text (.of text) list total draft before ordinal) ↔
        sourceRow text (part.range (.of text)) draft.range.start = k ∧
          sourceRow text (part.range (.of text)) (draft.range.stop - 1) = m) := by
  obtain ⟨k, m, hmin, hmax, hfirst, hlast⟩ :=
    draft_rows hstart hstop hle hdraft.start hdraft.tiles hdraft.rows
  refine ⟨k, m, hfirst, hlast, ?_⟩
  have hdraftStop := hdraft.tiles.cut_stop hdraft.start
  have hnonempty : draft.range.start < draft.range.stop := by
    have hcons := List.cons_head_tail draft.holds
    have htiles := hdraft.tiles
    rw [← hcons, List.map_cons] at htiles
    exact htiles.lt_of_cons
  have hlt : (spanOf (.of text) draft.range).start < (spanOf (.of text) draft.range).stop :=
    CodePointIndex.toPoint_lt hdraft.start hdraftStop hnonempty
  have hbase : sectionFirstRow list (.of text) draft.range = part.base := by
    have hfind := htile.find hpart hfrom (hlt.trans_le hto)
    exact congrArg (fun found : Option ChunkSection => (found.bind (·.firstRow)).getD 1) hfind
  have hrows : (passageOf runtime text (.of text) list total draft before ordinal).rows =
      some ⟨part.base + k, part.base + m,
        draft.header.map fun header => spanOf (.of text) header.toRange⟩ := by
    show rowsOf list (.of text) draft = _
    unfold rowsOf
    rw [if_pos hdraft.table]
    simp only [hbase, hmin, hmax, Option.getD_some]
  have hunitStart : (CodePointIndex.of text).toUnit
      (passageOf runtime text (.of text) list total draft before ordinal).span.start =
        draft.range.start := CodePointIndex.toUnit_toPoint hdraft.start
  have hunitStop : (CodePointIndex.of text).toUnit
      (passageOf runtime text (.of text) list total draft before ordinal).span.stop =
        draft.range.stop := CodePointIndex.toUnit_toPoint hdraftStop
  unfold ReportsRows
  rw [hrows, hunitStart, hunitStop]
  constructor
  · rintro ⟨rows, hsome, hfirstRow, hlastRow⟩
    obtain rfl := Option.some.inj hsome
    simp only at hfirstRow hlastRow
    omega
  · rintro ⟨hfirstRow, hlastRow⟩
    exact ⟨_, rfl, by rw [hfirstRow], by rw [hlastRow]⟩

omit [WeightNumber W] in
/-- The row that holds the last position of the range is the last one. -/
theorem RowHolds.last (hstart : IsBoundary text range.start) (hstop : IsBoundary text range.stop)
    (hle : range.start ≤ range.stop) {k : ℕ} (h : RowHolds text range k (range.stop - 1)) :
    k = (rowLines text range).length - 1 := by
  obtain ⟨row, hrow, hfrom, hto⟩ := h
  obtain ⟨hk, hget⟩ := List.getElem?_eq_some_iff.mp hrow
  have hrows := tableRows_tiles text hstop hle
  by_contra hearlier
  rw [rowLines_length] at hearlier
  have hnext : k + 1 < (tableRows text range).length := by omega
  have hapart := List.pairwise_iff_getElem.mp (hrows.pairwise hstart) k (k + 1) hk hnext (by omega)
  obtain ⟨-, hnonempty, hinside, -⟩ := hrows.mem hstart (List.getElem_mem hnext)
  rw [hget] at hapart
  omega

omit [WeightNumber W] in
theorem RowHolds.sourceRow (hstart : IsBoundary text range.start)
    (hstop : IsBoundary text range.stop) (hle : range.start ≤ range.stop) {k position : ℕ}
    (h : RowHolds text range k position) :
    ∃ line, (rowLines text range)[k]? = some line ∧ sourceRow text range position = line.2 := by
  obtain ⟨row, hrow, hfrom, hto⟩ := h
  obtain ⟨hk, -⟩ := List.getElem?_eq_some_iff.mp hrow
  rw [← rowLines_length] at hk
  have hline := List.getElem?_eq_getElem hk
  exact ⟨_, hline, sourceRow_of_row hstart hstop hle hrow hline hfrom hto⟩

/-- In a section that is not empty, every passage reports its source lines exactly when the rows are
numbered as their lines. -/
theorem section_reports_iff (hsegments : runtime.SegmentsPartition) {length : ℕ}
    {list : List ChunkSection} (htile : SectionsTile length 0 list)
    (hlength : length = (CodePointIndex.of text).length) {part : ChunkSection} (hpart : part ∈ list)
    (hkind : part.kind = .table)
    (hlt : (part.range (.of text)).start < (part.range (.of text)).stop) :
    (∀ passage ∈ passagesOf runtime text (.of text) list
        (allDrafts (W := W) runtime text (.of text) 0 list),
      part.start ≤ passage.span.start → passage.span.stop ≤ part.stop →
        ReportsRows text part passage) ↔
      ∀ (k : ℕ) (line : Range × ℕ), (rowLines text (part.range (.of text)))[k]? = some line →
        line.2 = k := by
  subst hlength
  obtain ⟨-, hforward, hle⟩ := htile.bounds hpart
  obtain ⟨hstart, hstop, -⟩ := part.range_tile hforward hle
  constructor
  · intro hreports k line hline
    have hentries : ∃ base, ∀ entry ∈ sectionEntries W runtime text base part,
        entry ∈ allDrafts runtime text (.of text) 0 list := allDrafts_of_section hpart hlt 0
    obtain ⟨base, hall⟩ := hentries
    have htiles := sectionDrafts_tile (W := W) hsegments hstart hstop hlt base part
    have hdrafts := sectionDrafts_table (W := W) hsegments hstart hstop hlt base hkind
    generalize hlist : sectionDrafts (W := W) runtime text (.of text) base part
      (part.range (.of text)) = drafts at htiles hdrafts
    have hne : drafts ≠ [] := by
      rintro rfl
      rw [List.map_nil, Tiles.nil_iff] at htiles
      omega
    have hlastMem := List.getLast_mem hne
    have hlastStop : (drafts.getLast hne).range.stop = (part.range (.of text)).stop := by
      apply htiles.last_stop
      rw [List.getLast?_map, List.getLast?_eq_some_getLast hne, Option.map_some]
    have hentry : drafts.getLast hne ∈ (sectionEntries W runtime text base part).map Prod.fst := by
      rw [sectionEntries, withPrevious_fst, hlist]
      exact hlastMem
    obtain ⟨⟨draft, before⟩, hmem, hdraft⟩ := List.mem_map.mp hentry
    obtain rfl : draft = drafts.getLast hne := hdraft
    obtain ⟨ordinal, hordinal⟩ := List.mem_iff_getElem?.mp (hall _ hmem)
    obtain ⟨hfrom, -, hto, hcuts⟩ := htiles.mem hstart (List.mem_map_of_mem hlastMem)
    obtain ⟨hspanFrom, hspanTo⟩ := span_inSection hcuts.1 hcuts.2 hforward hle hfrom hto
    obtain ⟨first, last, -, hlast, hiff⟩ := passageOf_reports_iff runtime htile hpart hstart hstop
      hlt.le (hdrafts _ hlastMem) hspanFrom hspanTo
      (allDrafts (W := W) runtime text (.of text) 0 list).length ordinal before
    have hreported := hiff.mp (hreports _ (List.mem_map.mpr
      ⟨((_, before), ordinal), List.mem_zipIdx_iff_getElem?.mpr hordinal, rfl⟩) hspanFrom hspanTo)
    rw [hlastStop] at hlast hreported
    have hend := hlast.last hstart hstop hlt.le
    obtain ⟨lastLine, hlastLine, hnumber⟩ := hlast.sourceRow hstart hstop hlt.le
    rw [hend] at hlastLine
    refine kept_numbers_of_last hlastLine ?_ hline
    rw [← hnumber, hreported.2, hend]
    rfl
  · intro hnumbers passage hpassage hspanFrom hspanTo
    obtain ⟨⟨⟨draft, before⟩, ordinal⟩, hentry, rfl⟩ := List.mem_map.mp hpassage
    obtain ⟨other, hother, hotherLt, base, hmem⟩ :=
      mem_allDrafts (List.fst_mem_of_mem_zipIdx hentry)
    obtain ⟨-, hotherForward, hotherLe⟩ := htile.bounds hother
    obtain ⟨hotherStart, hotherStop, -⟩ := other.range_tile hotherForward hotherLe
    have hdraft := (mem_drafts_of_entry hmem).1
    have htiles := sectionDrafts_tile (W := W) hsegments hotherStart hotherStop hotherLt base other
    obtain ⟨hfrom, hnonempty, hto, hcuts⟩ := htiles.mem hotherStart (List.mem_map_of_mem hdraft)
    have hinside := span_inSection hcuts.1 hcuts.2 hotherForward hotherLe hfrom hto
    have hspanLt : (spanOf (.of text) draft.range).start < (spanOf (.of text) draft.range).stop :=
      CodePointIndex.toPoint_lt hcuts.1 hcuts.2 hnonempty
    obtain rfl : part = other := htile.unique hpart hother hspanFrom (hspanLt.trans_le hspanTo)
      hinside.1 (hspanLt.trans_le hinside.2)
    have htable := sectionDrafts_table hsegments hstart hstop hlt base hkind draft hdraft
    obtain ⟨first, last, hfirst, hlast, hiff⟩ := passageOf_reports_iff runtime htile hpart hstart
      hstop hlt.le htable hspanFrom hspanTo
      (allDrafts (W := W) runtime text (.of text) 0 list).length ordinal before
    obtain ⟨firstLine, hfirstLine, hfirstNumber⟩ := hfirst.sourceRow hstart hstop hlt.le
    obtain ⟨lastLine, hlastLine, hlastNumber⟩ := hlast.sourceRow hstart hstop hlt.le
    exact hiff.mpr ⟨hfirstNumber.trans (hnumbers first firstLine hfirstLine),
      hlastNumber.trans (hnumbers last lastLine hlastLine)⟩

/-! ## Every table section -/

theorem lineRanges_nil (range : Range) : (lineRanges [] range).length ≤ 1 := by
  have hstop : ∀ position : ℕ, lineStop [] range position = range.stop := by
    intro position
    simp [lineStop, indexOfNewline]
  have hend : ∀ fuel : ℕ, lineRangesFrom [] range fuel range.stop = [] := by
    intro fuel
    cases fuel with
    | zero => rfl
    | succ fuel => rw [lineRangesFrom, if_neg (lt_irrefl _)]
  unfold lineRanges
  cases range.stop - range.start with
  | zero => exact Nat.zero_le _
  | succ fuel =>
    unfold lineRangesFrom
    split_ifs
    · rw [hstop, hend]
      exact le_rfl
    · exact Nat.zero_le _

theorem blankOnlyLast_of_short (h : (lineRanges text range).length ≤ 1) :
    BlankOnlyLast text range := by
  intro i j first second hpos hij hfirst
  obtain ⟨hi, -⟩ := List.getElem?_eq_some_iff.mp hfirst
  omega

/-- The passages of a table section report the source lines of their rows exactly when no row of the
section stands behind a blank line. -/
theorem chunk_reports_rows_iff (hsegments : runtime.SegmentsPartition) {prepared : JsString}
    {sections : Option (List ChunkSection)} {passages : List Passage}
    (h : chunk W runtime prepared sections = .ok passages) {part : ChunkSection}
    (hpart : part ∈ sectionList sections (codePointLength prepared)) (hkind : part.kind = .table) :
    (∀ passage ∈ passages, part.start ≤ passage.span.start → passage.span.stop ≤ part.stop →
        ReportsRows prepared part passage) ↔
      BlankOnlyLast prepared (part.range (.of prepared)) := by
  by_cases hnil : prepared = []
  · subst hnil
    rw [chunk, if_pos rfl] at h
    cases h
    refine ⟨fun _ => blankOnlyLast_of_short (lineRanges_nil _), fun _ passage hpassage => ?_⟩
    cases hpassage
  · have hspec := chunk_spec hsegments h
    rw [← CodePointIndex.of_length] at hpart
    obtain ⟨htile, hpassages⟩ := chunk_inv h hnil
    subst hpassages
    obtain ⟨-, hforward, hle⟩ := htile.bounds hpart
    by_cases hlt : (part.range (.of prepared)).start < (part.range (.of prepared)).stop
    · rw [section_reports_iff hsegments htile rfl hpart hkind hlt, rowLines_numbered_iff]
    · -- A section without text has neither a passage nor a line.
      have hempty : (lineRanges prepared (part.range (.of prepared))).length ≤ 1 := by
        rw [lineRanges, Nat.sub_eq_zero_of_le (not_lt.mp hlt)]
        exact Nat.zero_le _
      refine ⟨fun _ => blankOnlyLast_of_short hempty, fun _ passage hpassage hfrom hto => ?_⟩
      obtain ⟨-, hnonempty, -⟩ := hspec.2.1.mem trivial (List.mem_map_of_mem hpassage)
      have hsame : part.start = part.stop := by
        have hunits := le_antisymm (CodePointIndex.toUnit_mono hle hforward) (not_lt.mp hlt)
        rw [← CodePointIndex.toPoint_toUnit (hforward.trans hle), hunits,
          CodePointIndex.toPoint_toUnit hle]
      omega

end

/-- A sheet of three lines, the second of them blank. -/
def gappedSheet : JsString := [0x61, 0x0A, 0x0A, 0x62]

def sheetSection (length : ℕ) : ChunkSection where
  frame := []
  start := 0
  stop := length
  kind := .table
  firstRow := none

/-- The row on the third line is reported as the second. -/
theorem gappedSheet_misreported : ∃ passages,
    chunk ℚ wholeRuntime gappedSheet (some [sheetSection 4]) = .ok passages ∧
      passages.map (fun passage => (passage.span, passage.rows)) =
        [(⟨0, 4⟩, some ⟨1, 2, none⟩)] ∧
      ¬ ∀ passage ∈ passages, ReportsRows gappedSheet (sheetSection 4) passage := by
  have hlast : ¬ 2 = (sheetSection 4).base + sourceRow gappedSheet
      ((sheetSection 4).range (.of gappedSheet))
      ((CodePointIndex.of gappedSheet).toUnit 4 - 1) := by decide +kernel
  have hpassages : (passagesOf wholeRuntime gappedSheet (.of gappedSheet) [sheetSection 4]
      (allDrafts (W := ℚ) wholeRuntime gappedSheet (.of gappedSheet) 0 [sheetSection 4])).map
        (fun passage => (passage.span, passage.rows)) = [(⟨0, 4⟩, some ⟨1, 2, none⟩)] := by
    decide +kernel
  refine ⟨_, rfl, hpassages, fun hreports => ?_⟩
  obtain ⟨passage, rest, hcons, hpassage, -⟩ := List.map_eq_cons_iff.mp hpassages
  obtain ⟨hspan, hrowsOf⟩ := Prod.ext_iff.mp hpassage
  obtain ⟨rows, hrows, -, hreported⟩ := hreports passage (hcons ▸ List.mem_cons_self)
  obtain rfl := Option.some.inj (hrowsOf.symm.trans hrows)
  rw [show passage.span = ⟨0, 4⟩ from hspan] at hreported
  exact hlast hreported

/-- A sheet of two rows. -/
def plainSheet : JsString := [0x61, 0x0A, 0x62]

theorem plainSheet_reported : ∃ passages,
    chunk ℚ wholeRuntime plainSheet (some [sheetSection 3]) = .ok passages ∧
      ∀ passage ∈ passages, 0 ≤ passage.span.start → passage.span.stop ≤ 3 →
        ReportsRows plainSheet (sheetSection 3) passage := by
  refine ⟨_, rfl, (chunk_reports_rows_iff wholeRuntime_partition
    (show chunk ℚ wholeRuntime plainSheet (some [sheetSection 3]) = .ok _ from rfl)
    (List.mem_singleton_self (sheetSection 3)) rfl).mpr ?_⟩
  have hlines : lineRanges plainSheet ((sheetSection 3).range (.of plainSheet)) =
      [⟨0, 2⟩, ⟨2, 3⟩] := by decide +kernel
  intro i j first second hpos hij hfirst hsecond hblank
  rw [hlines] at hfirst
  obtain ⟨hi, hget⟩ := List.getElem?_eq_some_iff.mp hfirst
  obtain rfl : i = 1 := by
    simp only [List.length_cons, List.length_nil] at hi
    omega
  obtain rfl : ⟨2, 3⟩ = first := hget
  exact absurd hblank (by decide +kernel)

end QuokyPlatform.Chunking
