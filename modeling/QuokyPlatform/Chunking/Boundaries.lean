import QuokyPlatform.Chunking.TokenEstimate

/-!
# Where a text may be cut

Lines, blocks, sentences, list items and grapheme pieces of a range of a text. Every function
partitions its range and cuts between code points only.
-/

namespace QuokyPlatform.Chunking
set_option autoImplicit false
set_option maxHeartbeats 250000

/-! ## Line shapes -/

def isBlankUnit (unit : CodeUnit) : Bool := unit == 0x20 || unit == 0x09

/-- `/^#{1,6}[ \t]/u`. -/
def isHeadingLine (body : JsString) : Bool :=
  let marks := (body.takeWhile (· == 0x23)).length
  1 ≤ marks && marks ≤ 6 && (body.drop marks).head?.any isBlankUnit

/-- A code fence of three backquotes or three tildes after blanks. -/
def isFenceLine (body : JsString) : Bool :=
  let rest := (body.dropWhile isBlankUnit).take 3
  rest == [0x60, 0x60, 0x60] || rest == [0x7E, 0x7E, 0x7E]

def isDigitUnit (unit : CodeUnit) : Bool := 0x30 ≤ unit && unit ≤ 0x39

/-- `/^[ \t]{0,3}(?:[-*+]|\d{1,3}[.)])[ \t]+/u`. -/
def isListItemLine (line : JsString) : Bool :=
  let blanks := (line.takeWhile isBlankUnit).length
  let body := line.drop blanks
  let digits := (body.takeWhile isDigitUnit).length
  blanks ≤ 3 &&
    match body.drop digits with
    | marker :: rest =>
      (if digits = 0 then marker == 0x2D || marker == 0x2A || marker == 0x2B
        else digits ≤ 3 && (marker == 0x2E || marker == 0x29)) && rest.head?.any isBlankUnit
    | [] => false

/-- `/^[ \t]*>/u`. -/
def isQuoteLine (body : JsString) : Bool := (body.dropWhile isBlankUnit).head? == some 0x3E

/-- `/^[ \t]+\S/u`. -/
def isIndentedLine (body : JsString) : Bool :=
  body.head?.any isBlankUnit &&
    (body.dropWhile isBlankUnit).head?.any fun unit => !isWhiteSpace unit

/-! ## Lines -/

def NEWLINE : CodeUnit := 0x0A

/-- `text.indexOf('\n', position)`. -/
def indexOfNewline (text : JsString) (position : ℕ) : Option ℕ :=
  ((text.drop position).findIdx? (· == NEWLINE)).map (position + ·)

/-- The end of the line that starts at the position, inside the range. -/
def lineStop (text : JsString) (range : Range) (position : ℕ) : ℕ :=
  match indexOfNewline text position with
  | none => range.stop
  | some newline => if range.stop ≤ newline then range.stop else newline + 1

/-- The lines of the range from the position on, with at most `fuel` of them. -/
def lineRangesFrom (text : JsString) (range : Range) : ℕ → ℕ → List Range
  | 0, _ => []
  | fuel + 1, position =>
    if position < range.stop then
      ⟨position, lineStop text range position⟩ ::
        lineRangesFrom text range fuel (lineStop text range position)
    else []

/-- The lines of a range, each with its trailing newline. -/
def lineRanges (text : JsString) (range : Range) : List Range :=
  lineRangesFrom text range (range.stop - range.start) range.start

theorem indexOfNewline_spec {text : JsString} {position newline : ℕ}
    (h : indexOfNewline text position = some newline) :
    position ≤ newline ∧ text[newline]? = some NEWLINE := by
  simp only [indexOfNewline, Option.map_eq_some_iff] at h
  obtain ⟨offset, hoffset, rfl⟩ := h
  obtain ⟨hlt, hunit, -⟩ := List.findIdx?_eq_some_iff_getElem.mp hoffset
  have hget : (text.drop position)[offset]? = some NEWLINE := by
    rw [List.getElem?_eq_getElem hlt]
    simpa using hunit
  rw [List.getElem?_drop] at hget
  exact ⟨Nat.le_add_right _ _, hget⟩

/-- A line is not empty, ends inside the range, and ends between two code points. -/
theorem lineStop_spec {text : JsString} {range : Range} {position : ℕ}
    (hstop : IsBoundary text range.stop) (hlt : position < range.stop) :
    position < lineStop text range position ∧ lineStop text range position ≤ range.stop ∧
      IsBoundary text (lineStop text range position) := by
  unfold lineStop
  split
  · exact ⟨hlt, le_refl _, hstop⟩
  · rename_i newline hnewline
    obtain ⟨hle, hunit⟩ := indexOfNewline_spec hnewline
    split
    · exact ⟨hlt, le_refl _, hstop⟩
    · refine ⟨by omega, by omega, isBoundary_after hunit ?_⟩
      decide

theorem lineRangesFrom_tiles {text : JsString} {range : Range} {fuel position : ℕ}
    (hstop : IsBoundary text range.stop) (hle : position ≤ range.stop)
    (hfuel : range.stop - position ≤ fuel) :
    Tiles (IsBoundary text) position range.stop (lineRangesFrom text range fuel position) := by
  induction fuel generalizing position with
  | zero =>
    have heq : position = range.stop := by omega
    simp [lineRangesFrom, heq]
  | succ fuel ih =>
    by_cases hlt : position < range.stop
    · obtain ⟨hafter, hinside, hcut⟩ := lineStop_spec hstop hlt
      rw [lineRangesFrom, if_pos hlt]
      have hrest : range.stop - lineStop text range position ≤ fuel := by omega
      exact .cons rfl hafter hcut (ih hinside hrest)
    · have heq : position = range.stop := by omega
      simp [lineRangesFrom, heq]

theorem lineRanges_tiles (text : JsString) {range : Range} (hstop : IsBoundary text range.stop)
    (hle : range.start ≤ range.stop) :
    Tiles (IsBoundary text) range.start range.stop (lineRanges text range) :=
  lineRangesFrom_tiles hstop hle (le_refl _)

def lineBody (text : JsString) (line : Range) : JsString :=
  let stop := if text[line.stop - 1]? = some NEWLINE then line.stop - 1 else line.stop
  Range.slice ⟨line.start, stop⟩ text

/-! ## Blocks -/

inductive PassageKind where
  | prose
  | list
  | table
  | code
  | quote
  deriving DecidableEq, Repr

inductive BlockKind where
  | prose
  | list
  | code
  | quote
  deriving DecidableEq, Repr

def BlockKind.toPassageKind : BlockKind → PassageKind
  | prose => .prose
  | list => .list
  | code => .code
  | quote => .quote

structure Block extends Range where
  kind : BlockKind
  /-- A Markdown heading line: a passage boundary comes before it. -/
  heading : Bool
  deriving DecidableEq, Repr

def Block.withStop (block : Block) (stop : ℕ) : Block := { block with stop }

@[simp] theorem Block.withStop_toRange (block : Block) (stop : ℕ) :
    (block.withStop stop).toRange = ⟨block.start, stop⟩ := rfl

structure BlockState where
  blocks : List Block
  current : Option Block
  inFence : Bool
  previousBlank : Bool
  carry : Option ℕ

namespace BlockState

def initial : BlockState where
  blocks := []
  current := none
  inFence := false
  previousBlank := false
  carry := none

def flush (state : BlockState) : BlockState :=
  { state with blocks := state.blocks ++ state.current.toList, current := none }

/-- A block that starts at the line, or at the blank lines carried to it. -/
def start (state : BlockState) (line : Range) (kind : BlockKind) (heading : Bool) : BlockState :=
  { state.flush with
    current := some ⟨⟨state.carry.getD line.start, line.stop⟩, kind, heading⟩
    carry := none }

def extendCurrent (state : BlockState) (stop : ℕ) : BlockState :=
  { state with current := state.current.map (·.withStop stop) }

/-- A blank line goes to the open block, to the last one, or to the first one to come. -/
def absorb (state : BlockState) (line : Range) : BlockState :=
  match state.current, state.blocks.getLast? with
  | some _, _ => state.extendCurrent line.stop
  | none, some last => { state with blocks := state.blocks.dropLast ++ [last.withStop line.stop] }
  | none, none => { state with carry := some (state.carry.getD line.start) }

end BlockState

def lineKind (body : JsString) : BlockKind :=
  if isQuoteLine body then .quote else if isListItemLine body then .list else .prose

/-- The line continues the open block. -/
def continuesBlock (state : BlockState) (body : JsString) : Bool :=
  let kind := lineKind body
  !state.previousBlank && state.current.any fun current =>
    current.kind == kind ||
      (current.kind == .list && kind == .prose && isIndentedLine body)

/-- One turn of the loop over the lines. -/
def blockStep (text : JsString) (state : BlockState) (line : Range) : BlockState :=
  let body := lineBody text line
  if state.inFence then
    let state := state.extendCurrent line.stop
    if isFenceLine body then { state.flush with inFence := false } else state
  else if isFenceLine body then
    { state.start line .code false with inFence := true, previousBlank := false }
  else if (trim body).isEmpty then { state.absorb line with previousBlank := true }
  else if isHeadingLine body then
    { (state.start line .prose true).flush with previousBlank := false }
  else if continuesBlock state body then
    { state.extendCurrent line.stop with previousBlank := false }
  else { state.start line (lineKind body) false with previousBlank := false }

/-- Blocks of a range: fenced code, Markdown headings, quote runs, list runs and paragraphs. -/
def blockRanges (text : JsString) (range : Range) : List Block :=
  let blocks := ((lineRanges text range).foldl (blockStep text) .initial).flush.blocks
  if blocks.isEmpty && range.start < range.stop then [⟨range, .prose, false⟩] else blocks

/-! ### The blocks partition the range -/

/-- The blocks found so far, the open one last. -/
def BlockState.ranges (state : BlockState) : List Range :=
  (state.blocks ++ state.current.toList).map Block.toRange

/-- What holds when the lines up to the position are read: only blank lines at the very start
are in no block, and a fence is open in the open block. -/
structure BlockState.Covers (text : JsString) (first position : ℕ) (state : BlockState) :
    Prop where
  forward : first ≤ position
  tiles : state.carry = none → Tiles (IsBoundary text) first position state.ranges
  carried : ∀ carry, state.carry = some carry →
    carry = first ∧ state.blocks = [] ∧ state.current = none
  fenced : state.inFence = true → state.current.isSome = true

namespace BlockState.Covers
variable {text : JsString} {first position : ℕ} {state : BlockState} {line : Range}

/-- Closing the open block, outside a fence. -/
theorem flush (h : state.Covers text first position) (hcarry : state.carry = none)
    {fence : Bool} (hfence : fence = false) (blank : Bool) :
    { state.flush with inFence := fence, previousBlank := blank }.Covers text first position := by
  refine ⟨h.forward, fun _ => ?_, fun carry hsome => ?_, fun hopen => ?_⟩
  · simpa [ranges, BlockState.flush] using h.tiles hcarry
  · have hnone : state.carry = some carry := hsome
    rw [hcarry] at hnone
    cases hnone
  · rw [hfence] at hopen
    cases hopen

/-- The flags of the loop do not matter, as long as a fence has its block. -/
theorem flags (h : state.Covers text first position) {fence : Bool}
    (hfence : fence = true → state.current.isSome = true) (blank : Bool) :
    { state with inFence := fence, previousBlank := blank }.Covers text first position :=
  ⟨h.forward, h.tiles, h.carried, hfence⟩

theorem carry_of_current (h : state.Covers text first position)
    (hcurrent : state.current.isSome = true) : state.carry = none := by
  by_contra hcarry
  obtain ⟨carry, hsome⟩ := Option.ne_none_iff_exists'.mp hcarry
  rw [(h.carried carry hsome).2.2] at hcurrent
  cases hcurrent

theorem start (h : state.Covers text first position) (hline : line.start = position)
    (hlt : position < line.stop) (hcut : IsBoundary text line.stop) (kind : BlockKind)
    (heading : Bool) : (state.start line kind heading).Covers text first line.stop := by
  have hforward := h.forward
  refine ⟨by omega, fun _ => ?_, fun _ hcarry => (by cases hcarry), fun _ => rfl⟩
  cases hcarry : state.carry with
  | none =>
    have htiles := h.tiles hcarry
    have hlast := htiles.concat (r := ⟨position, line.stop⟩) rfl hlt hcut
    simpa [ranges, BlockState.start, BlockState.flush, hcarry, hline] using hlast
  | some carry =>
    obtain ⟨rfl, hblocks, hcurrent⟩ := h.carried carry hcarry
    have hwhole : carry < line.stop := by omega
    simpa [ranges, BlockState.start, BlockState.flush, hcarry, hblocks, hcurrent, hwhole]
      using hcut

theorem extendCurrent (h : state.Covers text first position) (hcurrent : state.current.isSome)
    (hlt : position < line.stop) (hcut : IsBoundary text line.stop) :
    (state.extendCurrent line.stop).Covers text first line.stop := by
  obtain ⟨current, hcurrent⟩ := Option.isSome_iff_exists.mp hcurrent
  have hforward := h.forward
  refine ⟨by omega, fun hcarry => ?_, fun carry hcarry => ?_, fun _ => ?_⟩
  · have htiles := h.tiles hcarry
    rw [ranges, hcurrent, Option.toList_some, List.map_append] at htiles
    have hlast := htiles.extend_last hlt.le hcut
    simpa [ranges, BlockState.extendCurrent, hcurrent] using hlast
  · have hnone := (h.carried carry hcarry).2.2
    rw [hcurrent] at hnone
    cases hnone
  · simp [BlockState.extendCurrent, hcurrent]

theorem absorb (h : state.Covers text first position) (hfence : state.inFence = false)
    (hline : line.start = position) (hlt : position < line.stop)
    (hcut : IsBoundary text line.stop) :
    (state.absorb line).Covers text first line.stop := by
  have hforward := h.forward
  unfold BlockState.absorb
  split
  · rename_i hcurrent
    exact h.extendCurrent (by simp [hcurrent]) hlt hcut
  · rename_i last hcurrent hlast
    obtain ⟨init, hblocks⟩ := List.getLast?_eq_some_iff.mp hlast
    refine ⟨by omega, fun hcarry => ?_, fun carry hcarry => ?_, fun h => ?_⟩
    · have htiles := h.tiles hcarry
      rw [ranges, hcurrent, hblocks, Option.toList_none, List.append_nil,
        List.map_append] at htiles
      have hextended := htiles.extend_last hlt.le hcut
      simpa [ranges, hcurrent, hblocks] using hextended
    · have hnone := (h.carried carry hcarry).2.1
      simp [hblocks] at hnone
    · simp [hfence] at h
  · rename_i hcurrent hlast
    have hblocks : state.blocks = [] := List.getLast?_eq_none_iff.mp hlast
    refine ⟨by omega, fun hcarry => (by cases hcarry), fun carry hcarry => ?_, fun h => ?_⟩
    · refine ⟨?_, hblocks, hcurrent⟩
      cases hcarried : state.carry with
      | none =>
        have htiles := h.tiles hcarried
        simp only [ranges, hblocks, hcurrent, Option.toList_none, List.append_nil, List.map_nil,
          Tiles.nil_iff] at htiles
        simp only [hcarried, Option.getD_none, Option.some.injEq] at hcarry
        omega
      | some value =>
        simp only [hcarried, Option.getD_some, Option.some.injEq] at hcarry
        exact hcarry ▸ (h.carried value hcarried).1
    · simp [hfence] at h

/-- One line more is covered after a turn of the loop. -/
theorem step (h : state.Covers text first position) (hline : line.start = position)
    (hlt : position < line.stop) (hcut : IsBoundary text line.stop) :
    (blockStep text state line).Covers text first line.stop := by
  have hstart := h.start hline hlt hcut
  unfold blockStep
  by_cases hfence : state.inFence = true
  · have hcurrent := h.fenced hfence
    have hextended := h.extendCurrent hcurrent hlt hcut
    simp only [hfence, if_true]
    split
    · apply hextended.flush _ rfl
      exact h.carry_of_current hcurrent
    · exact hextended
  have hopen : state.inFence = false := by simpa using hfence
  simp only [hopen, Bool.false_eq_true, if_false]
  split
  · exact (hstart .code false).flags (fun _ => rfl) false
  split
  · have habsorbed := h.absorb hopen hline hlt hcut
    exact habsorbed.flags habsorbed.fenced true
  split
  · exact (hstart .prose true).flush rfl hopen false
  split
  · rename_i hcontinues
    have hcurrent : state.current.isSome = true := by
      simp only [continuesBlock, Bool.and_eq_true, Option.any_eq_true] at hcontinues
      obtain ⟨-, current, hsome, -⟩ := hcontinues
      simp [hsome]
    have hextended := h.extendCurrent hcurrent hlt hcut
    exact hextended.flags hextended.fenced false
  · exact (hstart _ false).flags (hstart (lineKind _) false).fenced false

/-- The loop over the lines of a range covers it. -/
theorem foldl {stop : ℕ} {lines : List Range} (h : state.Covers text first position)
    (hlines : Tiles (IsBoundary text) position stop lines) :
    (lines.foldl (blockStep text) state).Covers text first stop := by
  induction lines generalizing state position with
  | nil =>
    rw [Tiles.nil_iff] at hlines
    exact hlines ▸ h
  | cons line lines ih =>
    obtain ⟨hline, hlt, hcut, hrest⟩ := Tiles.cons_iff.mp hlines
    exact ih (h.step hline hlt hcut) hrest

end BlockState.Covers

theorem blockRanges_tiles (text : JsString) {range : Range} (hstop : IsBoundary text range.stop)
    (hlt : range.start < range.stop) :
    Tiles (IsBoundary text) range.start range.stop
      ((blockRanges text range).map Block.toRange) := by
  have hinitial : BlockState.initial.Covers text range.start range.start := by
    refine ⟨le_refl _, fun _ => ?_, fun _ h => (by cases h), fun h => (by cases h)⟩
    simp [BlockState.ranges, BlockState.initial]
  have hall := hinitial.foldl (lineRanges_tiles text hstop hlt.le)
  unfold blockRanges
  generalize (lineRanges text range).foldl (blockStep text) .initial = state at hall ⊢
  cases hcarry : state.carry with
  | some carry =>
    obtain ⟨-, hblocks, hcurrent⟩ := hall.carried carry hcarry
    simp [BlockState.flush, hblocks, hcurrent, hlt, hstop]
  | none =>
    have htiles : Tiles (IsBoundary text) range.start range.stop
        (state.flush.blocks.map Block.toRange) := hall.tiles hcarry
    simp only
    split
    · exact .single hlt hstop
    · exact htiles

/-! ## Sentences and list items -/

/-- The segments of a slice, as ranges of the text. -/
def segmentRanges (runtime : Runtime) (locale : Locale) (granularity : Granularity)
    (text : JsString) (range : Range) : List Range :=
  (runtime.segment locale granularity (range.slice text)).map (Segment.rangeFrom range.start)

/-- Sentences of a range, by the Korean rules when the range holds Hangul. -/
def sentenceRanges (runtime : Runtime) (text : JsString) (range : Range) : List Range :=
  let locale := if (codePoints (range.slice text)).any runtime.unicode.hangul then .ko else .en
  segmentRanges runtime locale .sentence text range

def listItemStarts (text : JsString) (range : Range) : List ℕ :=
  ((lineRanges text range).filter fun line => isListItemLine (lineBody text line)).map
    Range.start

/-- List items of a range: each starts at a list-marker line. -/
def listItemRanges (text : JsString) (range : Range) : List Range :=
  let starts := listItemStarts text range
  rangesBetween range.stop
    (if starts.head? = some range.start then starts else range.start :: starts)

theorem segmentRanges_tiles {runtime : Runtime} {text : JsString} {range : Range}
    (hsegments : runtime.SegmentsPartition) (hstart : IsBoundary text range.start)
    (hstop : IsBoundary text range.stop) (hle : range.start ≤ range.stop) (locale : Locale)
    (granularity : Granularity) :
    Tiles (IsBoundary text) range.start range.stop
      (segmentRanges runtime locale granularity text range) := by
  have htiles := hsegments locale granularity (range.slice text)
  have hmoved := htiles.map (f := (range.start + ·)) (isBoundary_zero _)
    (fun _ _ _ _ hlt => by simpa using hlt) fun _ hcut => hstart.of_slice hstop hle hcut
  have hlength : range.start + (range.slice text).length = range.stop := by
    have hinside := hstop.inside
    simp only [Range.slice, List.length_take, List.length_drop]
    omega
  have hranges : segmentRanges runtime locale granularity text range =
      ((runtime.segment locale granularity (range.slice text)).map (Segment.rangeFrom 0)).map
        fun r => ⟨range.start + r.start, range.start + r.stop⟩ := by
    rw [segmentRanges, List.map_map]
    congr 1
    funext part
    simp [Segment.rangeFrom]
  rw [hranges]
  simpa only [Nat.add_zero, hlength] using hmoved

theorem sentenceRanges_tiles {runtime : Runtime} {text : JsString} {range : Range}
    (hsegments : runtime.SegmentsPartition) (hstart : IsBoundary text range.start)
    (hstop : IsBoundary text range.stop) (hle : range.start ≤ range.stop) :
    Tiles (IsBoundary text) range.start range.stop (sentenceRanges runtime text range) :=
  segmentRanges_tiles hsegments hstart hstop hle _ _

theorem listItemRanges_tiles {text : JsString} {range : Range}
    (hstart : IsBoundary text range.start) (hstop : IsBoundary text range.stop)
    (hlt : range.start < range.stop) :
    Tiles (IsBoundary text) range.start range.stop (listItemRanges text range) := by
  have hlines := lineRanges_tiles text hstop hlt.le
  have hsorted : (listItemStarts text range).Pairwise (· < ·) :=
    (hlines.starts_sorted hstart).sublist (List.filter_sublist.map _)
  have hmem : ∀ start ∈ listItemStarts text range,
      range.start ≤ start ∧ start < range.stop ∧ IsBoundary text start := by
    intro start hstartMem
    obtain ⟨line, hline, rfl⟩ := List.mem_map.mp hstartMem
    obtain ⟨hle, hne, hend, hcut, -⟩ := hlines.mem hstart (List.mem_filter.mp hline).1
    exact ⟨hle, by omega, hcut⟩
  unfold listItemRanges
  generalize listItemStarts text range = starts at hsorted hmem ⊢
  cases starts with
  | nil => exact .single hlt hstop
  | cons first rest =>
    obtain ⟨hfirst, hrest⟩ := List.pairwise_cons.mp hsorted
    simp only [List.head?_cons, Option.some.injEq]
    split
    · rename_i heq
      subst heq
      refine .between hsorted (fun start h => (hmem start h).2.1) (fun start h => ?_) hstop
      exact (hmem start (List.mem_cons_of_mem _ h)).2.2
    · rename_i hne
      have hbefore : ∀ start ∈ first :: rest, range.start < start := by
        intro start h
        have hle := (hmem first (by simp)).1
        cases List.mem_cons.mp h with
        | inl heq => omega
        | inr hafter =>
          have hlater := hfirst start hafter
          omega
      refine .between (List.pairwise_cons.mpr ⟨hbefore, hsorted⟩) (fun start h => ?_)
        (fun start h => (hmem start h).2.2) hstop
      cases List.mem_cons.mp h with
      | inl heq => exact heq ▸ hlt
      | inr hafter => exact (hmem start hafter).2.1

/-! ## Grapheme pieces -/

section
variable {W : Type} [WeightNumber W]

/-- No token limit is an infinite one. -/
structure PieceLimit (W : Type) where
  maxCodePoints : ℕ
  maxTokens : Option W

def PieceLimit.tokensExceed (limit : PieceLimit W) (weight : W) : Bool :=
  limit.maxTokens.any (WeightNumber.exceeds weight)

def PieceLimit.tokensFit (limit : PieceLimit W) (weight : W) : Bool :=
  limit.maxTokens.all (WeightNumber.atMost weight)

structure PieceState (W : Type) where
  out : List Range
  pieceStart : ℕ
  points : ℕ
  weight : W

/-- Ends the open piece, if it holds anything. -/
def PieceState.close (state : PieceState W) (stop : ℕ) : PieceState W where
  out := if state.pieceStart < stop then state.out ++ [⟨state.pieceStart, stop⟩] else state.out
  pieceStart := stop
  points := 0
  weight := 0

/-- One turn of the loop over the graphemes. -/
def graphemeStep (runtime : Runtime) (range : Range) (limit : PieceLimit W)
    (index : CodePointIndex) (state : PieceState W) (part : Segment) : PieceState W :=
  let absolute := range.start + part.index
  let size := index.countUnits absolute (absolute + part.segment.length)
  let cost := estimateTokenWeight runtime part.segment
  let full := limit.maxCodePoints < state.points + size || limit.tokensExceed (state.weight + cost)
  let state := if 0 < state.points && full then state.close absolute else state
  if limit.maxCodePoints < size then
    { state with pieceStart := absolute }.close (absolute + part.segment.length)
  else { state with points := state.points + size, weight := state.weight + cost }

/-- Pieces within the limits cut on grapheme boundaries; a grapheme beyond the limit is a piece
of its own. -/
def graphemeRanges (runtime : Runtime) (text : JsString) (range : Range) (limit : PieceLimit W)
    (index : CodePointIndex) : List Range :=
  let parts := runtime.segment .en .grapheme (range.slice text)
  let initial : PieceState W := ⟨[], range.start, 0, 0⟩
  ((parts.foldl (graphemeStep runtime range limit index) initial).close range.stop).out

/-- The pieces cover what is before the open one, and an open piece of no code points is empty. -/
structure PieceState.Covers (text : JsString) (first position : ℕ) (state : PieceState W) :
    Prop where
  tiles : Tiles (IsBoundary text) first state.pieceStart state.out
  opened : state.pieceStart ≤ position
  unread : state.points = 0 → state.pieceStart = position

namespace PieceState.Covers
variable {text : JsString} {first position : ℕ} {state : PieceState W}

theorem close {stop : ℕ} (h : state.Covers text first position) (hle : position ≤ stop)
    (hcut : IsBoundary text stop) : (state.close stop).Covers text first stop := by
  have hopened := h.opened
  refine ⟨?_, le_refl _, fun _ => rfl⟩
  show Tiles (IsBoundary text) first stop (state.close stop).out
  unfold PieceState.close
  split
  · rename_i hlt
    exact h.tiles.concat (r := ⟨_, stop⟩) rfl hlt hcut
  · have heq : state.pieceStart = stop := by omega
    exact heq ▸ h.tiles

theorem step {runtime : Runtime} {range : Range} {limit : PieceLimit W} {part : Segment}
    (h : state.Covers text first position) (hstart : range.start + part.index = position)
    (hlt : position < range.start + part.stop) (hposition : IsBoundary text position)
    (hcut : IsBoundary text (range.start + part.stop)) :
    (graphemeStep runtime range limit (.of text) state part).Covers text first
      (range.start + part.stop) := by
  have hend : position + part.segment.length = range.start + part.stop := by
    rw [← hstart, Segment.stop]
    omega
  have hsize : 0 < (CodePointIndex.of text).countUnits position (range.start + part.stop) := by
    have hpoints := CodePointIndex.toPoint_lt hposition hcut hlt
    rw [CodePointIndex.countUnits]
    omega
  unfold graphemeStep
  simp only [hstart, hend]
  generalize (estimateTokenWeight runtime part.segment : W) = cost
  generalize (CodePointIndex.of text).countUnits position (range.start + part.stop) = size at *
  -- The piece before an over-long grapheme is closed, since it is not empty and overflows too.
  have hclosed : ∀ full : Bool, (limit.maxCodePoints < state.points + size → full = true) →
      (if 0 < state.points && full then state.close position else state).Covers text first
          position ∧
        (limit.maxCodePoints < size →
          (if 0 < state.points && full then state.close position else state).pieceStart =
            position) := by
    intro full hfull
    split
    · exact ⟨h.close (le_refl _) hposition, fun _ => rfl⟩
    · rename_i hkeep
      refine ⟨h, fun hover => h.unread ?_⟩
      have htrue : full = true := hfull (by omega)
      simpa [htrue] using hkeep
  obtain ⟨hcovers, hempty⟩ := hclosed
    (limit.maxCodePoints < state.points + size || limit.tokensExceed (state.weight + cost))
    (fun hover => by simp [hover])
  generalize (if 0 < state.points && _ then state.close position else state) = after at *
  split
  · rename_i hover
    have hlong := hempty hover
    have hreset : { after with pieceStart := position }.Covers text first position :=
      ⟨hlong ▸ hcovers.tiles, le_refl _, fun _ => rfl⟩
    exact hreset.close hlt.le hcut
  · refine ⟨hcovers.tiles, hcovers.opened.trans hlt.le, fun hzero => ?_⟩
    have hpoints : after.points + size = 0 := hzero
    omega

/-- The loop over graphemes that tile what is left of the range covers it. -/
theorem foldl {range : Range} {parts : List Segment} {stop : ℕ}
    (h : state.Covers text first position) (runtime : Runtime) (limit : PieceLimit W)
    (hposition : IsBoundary text position)
    (hparts : Tiles (IsBoundary text) position stop
      (parts.map (Segment.rangeFrom range.start))) :
    (parts.foldl (graphemeStep runtime range limit (.of text)) state).Covers text first stop := by
  induction parts generalizing state position with
  | nil =>
    rw [List.map_nil, Tiles.nil_iff] at hparts
    exact hparts ▸ h
  | cons part parts ih =>
    rw [List.map_cons, Tiles.cons_iff] at hparts
    obtain ⟨hstart, hlt, hcut, hrest⟩ := hparts
    exact ih (h.step hstart hlt hposition hcut) hcut hrest

end PieceState.Covers

theorem graphemeRanges_tiles {runtime : Runtime} {text : JsString} {range : Range}
    (hsegments : runtime.SegmentsPartition) (hstart : IsBoundary text range.start)
    (hstop : IsBoundary text range.stop) (hle : range.start ≤ range.stop)
    (limit : PieceLimit W) :
    Tiles (IsBoundary text) range.start range.stop
      (graphemeRanges runtime text range limit (.of text)) := by
  have hinitial : (⟨[], range.start, 0, 0⟩ : PieceState W).Covers text range.start range.start :=
    ⟨.nil _, le_refl _, fun _ => rfl⟩
  have hparts := segmentRanges_tiles hsegments hstart hstop hle .en .grapheme
  have hall := hinitial.foldl runtime limit hstart hparts
  exact (hall.close (le_refl _) hstop).tiles

end

end QuokyPlatform.Chunking
