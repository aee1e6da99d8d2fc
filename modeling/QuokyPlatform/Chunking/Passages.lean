import QuokyPlatform.Chunking.Boundaries

/-!
# Passages

`chunk` splits one prepared text into passages: each section becomes units (blocks, table rows, or
pieces of an over-long one), consecutive units are packed into drafts, and every draft becomes a
passage.
-/

namespace QuokyPlatform.Chunking
set_option autoImplicit false
set_option maxHeartbeats 250000

def PASSAGE_TARGET_CODE_POINTS : ℕ := 800
def PASSAGE_MAX_CODE_POINTS : ℕ := 1200
def PASSAGE_MAX_TOKENS : ℕ := 600
def OVERLAP_MAX_CODE_POINTS : ℕ := 150
def OVERLAP_MAX_PERCENT : ℕ := 15
def TABLE_HEADER_REPEAT_MAX_CODE_POINTS : ℕ := 300
def FRAME_MAX_CODE_POINTS : ℕ := 120
def CODE_OVERLAP_LINES : ℕ := 2

/-! ## Data -/

/-- A half-open range of code points of the prepared text. -/
abbrev Span := Range

structure PassageRows where
  first : ℕ
  last : ℕ
  headerSpan : Option Span
  deriving DecidableEq, Repr

structure Passage where
  ordinal : ℕ
  total : ℕ
  frame : JsString
  kind : PassageKind
  span : Span
  overlap : Option Span
  rows : Option PassageRows
  overCap : Bool
  estTokens : ℤ
  contentHash : String
  deriving DecidableEq, Repr

inductive SectionKind where
  | text
  | table
  deriving DecidableEq, Repr

structure ChunkSection where
  frame : JsString
  start : ℕ
  stop : ℕ
  kind : SectionKind
  firstRow : Option ℕ
  deriving DecidableEq, Repr

inductive ChunkError where
  | rangeError (message : String)
  deriving DecidableEq, Repr

section
variable {W : Type} [WeightNumber W]

def PASSAGE_LIMIT : PieceLimit W where
  maxCodePoints := PASSAGE_MAX_CODE_POINTS
  maxTokens := some (PASSAGE_MAX_TOKENS : W)

structure TextUnit (W : Type) extends Range where
  kind : PassageKind
  /-- The block (or row) the unit came from. -/
  origin : ℕ
  /-- The unit is a piece of an over-long block. -/
  split : Bool
  heading : Bool
  row : Option ℕ
  points : ℕ
  weight : W

structure Header (W : Type) extends Range where
  points : ℕ
  weight : W

structure Draft (W : Type) where
  units : List (TextUnit W)
  frame : JsString
  table : Bool
  header : Option (Header W)
  points : ℕ
  weight : W

/-- A draft that was flushed: it holds a unit. -/
structure PackedDraft (W : Type) extends Draft W where
  holds : units ≠ []

/-! ## Units -/

/-- One line, bounded. -/
def oneLineFrame (W : Type) [WeightNumber W] (runtime : Runtime) (frame : JsString) : JsString :=
  let text := trim (collapseWhiteSpace frame)
  if (codePoints text).length ≤ FRAME_MAX_CODE_POINTS then text
  else
    let limit : PieceLimit W := ⟨FRAME_MAX_CODE_POINTS, none⟩
    match graphemeRanges runtime text ⟨0, text.length⟩ limit (.of text) with
    | [] => []
    | first :: _ => first.slice text

def unitOf (runtime : Runtime) (text : JsString) (index : CodePointIndex) (range : Range)
    (kind : PassageKind) (origin : ℕ) (split heading : Bool) (row : Option ℕ) : TextUnit W where
  toRange := range
  kind := kind
  origin := origin
  split := split
  heading := heading
  row := row
  points := index.countUnits range.start range.stop
  weight := estimateTokenWeight runtime (range.slice text)

def fitsLimit (points : ℕ) (weight : W) (limit : PieceLimit W) : Bool :=
  points ≤ limit.maxCodePoints && limit.tokensFit weight

def rangeFits (runtime : Runtime) (text : JsString) (index : CodePointIndex)
    (limit : PieceLimit W) (piece : Range) : Bool :=
  fitsLimit (index.countUnits piece.start piece.stop)
    (estimateTokenWeight runtime (piece.slice text)) limit

def bySentence (runtime : Runtime) (text : JsString) (index : CodePointIndex)
    (limit : PieceLimit W) (piece : Range) : List Range :=
  (sentenceRanges runtime text piece).flatMap fun sentence =>
    if rangeFits runtime text index limit sentence then [sentence]
    else graphemeRanges runtime text sentence limit index

/-- Pieces of an over-long range: code lines, list items, then sentences, then graphemes. -/
def splitOversized (runtime : Runtime) (text : JsString) (index : CodePointIndex) (range : Range)
    (kind : PassageKind) (limit : PieceLimit W) : List Range :=
  let first := match kind with
    | .code => lineRanges text range
    | .list => listItemRanges text range
    | _ => sentenceRanges runtime text range
  first.flatMap fun piece =>
    if rangeFits runtime text index limit piece then [piece]
    else if kind == .code || kind == .list then bySentence runtime text index limit piece
    else graphemeRanges runtime text piece limit index

/-- The unit of a block or a row, or the units of its pieces when it is over-long. -/
def unitsOf (runtime : Runtime) (text : JsString) (index : CodePointIndex)
    (limit : PieceLimit W) (splitKind : PassageKind) (whole : TextUnit W) : List (TextUnit W) :=
  if fitsLimit whole.points whole.weight limit then [whole]
  else
    (splitOversized runtime text index whole.toRange splitKind limit).map fun piece =>
      unitOf runtime text index piece whole.kind whole.origin true false whole.row

def textUnits (runtime : Runtime) (text : JsString) (index : CodePointIndex) (range : Range)
    (originBase : ℕ) : List (TextUnit W) :=
  (blockRanges text range).zipIdx.flatMap fun (block, order) =>
    unitsOf runtime text index PASSAGE_LIMIT block.kind.toPassageKind
      (unitOf runtime text index block.toRange block.kind.toPassageKind (originBase + order) false
        block.heading none)

/-- A blank line belongs to the row before it. -/
def addRow (text : JsString) (rows : List Range) (line : Range) : List Range :=
  match rows.getLast? with
  | some last =>
    if (trim (line.slice text)).isEmpty then rows.dropLast ++ [⟨last.start, line.stop⟩]
    else rows ++ [line]
  | none => rows ++ [line]

def tableRows (text : JsString) (range : Range) : List Range :=
  (lineRanges text range).foldl (addRow text) []

def tableUnits (runtime : Runtime) (text : JsString) (index : CodePointIndex) (range : Range)
    (originBase headerPoints : ℕ) (headerWeight : W) : List (TextUnit W) :=
  let limit : PieceLimit W :=
    { maxCodePoints := max 1 (PASSAGE_MAX_CODE_POINTS - headerPoints)
      maxTokens := some (max ((1 : ℕ) : W) ((PASSAGE_MAX_TOKENS : W) - headerWeight)) }
  (tableRows text range).zipIdx.flatMap fun (row, order) =>
    unitsOf runtime text index limit .prose
      (unitOf runtime text index row .table (originBase + order) false false (some order))

/-! ## Packing -/

structure PackState (W : Type) where
  drafts : List (PackedDraft W)
  current : Option (Draft W)

def emptyDraft (frame : JsString) (table : Bool) (header : Option (Header W)) : Draft W where
  units := []
  frame := frame
  table := table
  header := header
  points := (header.map (·.points)).getD 0
  weight := (header.map (·.weight)).getD 0

/-- A new draft; the later ones of a table repeat the header row. -/
def PackState.openDraft (state : PackState W) (frame : JsString) (table : Bool)
    (header : Option (Header W)) : Draft W :=
  emptyDraft frame table (if table && !state.drafts.isEmpty then header else none)

def PackState.flush (state : PackState W) : PackState W where
  drafts :=
    match state.current with
    | some current =>
      if holds : current.units ≠ [] then state.drafts ++ [{ current with holds }] else state.drafts
    | none => state.drafts
  current := none

def Draft.add (draft : Draft W) (unit : TextUnit W) : Draft W :=
  { draft with
    units := draft.units ++ [unit]
    points := draft.points + unit.points
    weight := draft.weight + unit.weight }

def Draft.fits (draft : Draft W) (unit : TextUnit W) (allowance : PieceLimit W) : Bool :=
  fitsLimit (draft.points + unit.points) (draft.weight + unit.weight) allowance

/-- The unit starts a new draft: it opens a section, or the draft has no room for it. -/
def Draft.closesBefore (draft : Draft W) (unit : TextUnit W) (allowance : PieceLimit W) : Bool :=
  !draft.units.isEmpty &&
    ((unit.heading && !draft.units.all (·.heading)) || !draft.fits unit allowance)

/-- A repeated header that leaves no room for the first unit is dropped. -/
def Draft.dropHeader (draft : Draft W) (unit : TextUnit W) (allowance : PieceLimit W) : Draft W :=
  if draft.units.isEmpty && draft.header.isSome && !draft.fits unit allowance then
    emptyDraft draft.frame draft.table none
  else draft

def Draft.isFull (draft : Draft W) : Bool :=
  PASSAGE_TARGET_CODE_POINTS ≤ draft.points ||
    WeightNumber.atMost (PASSAGE_MAX_TOKENS : W) draft.weight

/-- One turn of the loop over the units. -/
def packStep (frame : JsString) (table : Bool) (header : Option (Header W))
    (allowance : PieceLimit W) (state : PackState W) (unit : TextUnit W) : PackState W :=
  let current := state.current.getD (state.openDraft frame table header)
  let state := { state with current := some current }
  let state := if current.closesBefore unit allowance then state.flush else state
  let current := state.current.getD (state.openDraft frame table header)
  let current := (current.dropHeader unit allowance).add unit
  let state := { state with current := some current }
  if current.isFull then state.flush else state

def pack (units : List (TextUnit W)) (frame : JsString) (table : Bool) (header : Option (Header W))
    (allowance : PieceLimit W) : List (PackedDraft W) :=
  (units.foldl (packStep frame table header allowance) ⟨[], none⟩).flush.drafts

/-! ## Drafts of the sections -/

/-- The header row of a table section, when it is short enough to be repeated. -/
def repeatableHeader (runtime : Runtime) (prepared : JsString) (index : CodePointIndex)
    (range : Range) : Option (Header W) :=
  match lineRanges prepared range with
  | header :: _ :: _ =>
    let points := index.countUnits header.start header.stop
    if points ≤ TABLE_HEADER_REPEAT_MAX_CODE_POINTS then
      some { header with
        points, weight := estimateTokenWeight runtime (header.slice prepared) }
    else none
  | _ => none

def sectionDrafts (runtime : Runtime) (prepared : JsString) (index : CodePointIndex)
    (originBase : ℕ) (part : ChunkSection) (range : Range) : List (PackedDraft W) :=
  let frame := oneLineFrame W runtime part.frame
  match part.kind with
  | .table =>
    let header : Option (Header W) := repeatableHeader runtime prepared index range
    let units := tableUnits runtime prepared index range originBase
      ((header.map (·.points)).getD 0) ((header.map (·.weight)).getD 0)
    pack units frame true header PASSAGE_LIMIT
  | .text => pack (textUnits runtime prepared index range originBase) frame false none PASSAGE_LIMIT

/-- The UTF-16 range of a section. -/
def ChunkSection.range (index : CodePointIndex) (part : ChunkSection) : Range :=
  ⟨index.toUnit part.start, index.toUnit part.stop⟩

/-- Each draft with the one before it in its section. -/
def withPrevious (drafts : List (PackedDraft W)) : List (PackedDraft W × Option (PackedDraft W)) :=
  drafts.zip (none :: drafts.map some)

/-- The loop over the sections; an empty section is skipped. -/
def allDrafts (runtime : Runtime) (prepared : JsString) (index : CodePointIndex) (originBase : ℕ) :
    List ChunkSection → List (PackedDraft W × Option (PackedDraft W))
  | [] => []
  | part :: rest =>
    let range := part.range index
    if range.stop ≤ range.start then allDrafts runtime prepared index originBase rest
    else
      withPrevious (sectionDrafts runtime prepared index originBase part range) ++
        allDrafts runtime prepared index (originBase + 1000000) rest

/-! ## Passages of the drafts -/

def spanOf (index : CodePointIndex) (range : Range) : Span :=
  ⟨index.toPoint range.start, index.toPoint range.stop⟩

def PackedDraft.range (draft : PackedDraft W) : Range :=
  .hull (draft.units.head draft.holds).toRange (draft.units.getLast draft.holds).toRange

def kindOf (units : List (TextUnit W)) (table : Bool) : PassageKind :=
  if table then .table
  else
    let first := (units.head?.map (·.kind)).getD .prose
    if units.all (·.kind == first) then first else .prose

/-- Steps back over units of the same origin, at most as many as given. -/
def stepBack (units : List (TextUnit W)) (origin : ℕ) : ℕ → ℕ → ℕ
  | 0, position => position
  | _, 0 => 0
  | more + 1, position + 1 =>
    if (units[position]?.map (·.origin)) = some origin then stepBack units origin more position
    else position + 1

/-- The overlap of a draft with the one before it, when a block was split between them. -/
def overlapFor (index : CodePointIndex) (previous : Option (PackedDraft W))
    (draft : PackedDraft W) : Option Range :=
  previous.bind fun previous =>
    let last := previous.units.getLast previous.holds
    let first := draft.units.head draft.holds
    if draft.table || !last.split || !first.split || last.origin ≠ first.origin then none
    else
      let position := previous.units.length - 1
      let position := if last.kind = .code then
        stepBack previous.units last.origin (CODE_OVERLAP_LINES - 1) position else position
      let start := (previous.units[position]?.map (·.start)).getD last.start
      let points := index.countUnits start last.stop
      let cap := min OVERLAP_MAX_CODE_POINTS (OVERLAP_MAX_PERCENT * draft.points / 100)
      if 0 < points ∧ points ≤ cap ∧ draft.points + points ≤ PASSAGE_MAX_CODE_POINTS then
        some ⟨start, last.stop⟩
      else none

/-- The `firstRow` of the table section that holds the range. -/
def sectionFirstRow (list : List ChunkSection) (index : CodePointIndex) (range : Range) : ℕ :=
  let point := index.toPoint range.start
  ((list.find? fun part => part.start ≤ point && point < part.stop).bind (·.firstRow)).getD 1

def rowsOf (list : List ChunkSection) (index : CodePointIndex) (draft : PackedDraft W) :
    Option PassageRows :=
  if draft.table then
    let numbers := draft.units.map fun unit => unit.row.getD 0
    let base := sectionFirstRow list index draft.range
    some
      { first := base + numbers.min?.getD 0
        last := base + numbers.max?.getD 0
        headerSpan := draft.header.map fun header => spanOf index header.toRange }
  else none

def passageOf (runtime : Runtime) (prepared : JsString) (index : CodePointIndex)
    (list : List ChunkSection) (total : ℕ) (draft : PackedDraft W)
    (previous : Option (PackedDraft W)) (ordinal : ℕ) : Passage :=
  let text := draft.range.slice prepared
  let overlap := overlapFor index previous draft
  let weight : W := estimateTokenWeight runtime text
  let weight := match overlap with
    | some overlap => weight + estimateTokenWeight runtime (overlap.slice prepared)
    | none => weight
  let weight := if draft.table then weight + (draft.header.map (·.weight)).getD 0 else weight
  { ordinal
    total
    frame := draft.frame
    kind := kindOf draft.units draft.table
    span := spanOf index draft.range
    overlap := overlap.map (spanOf index)
    rows := rowsOf list index draft
    overCap := PASSAGE_MAX_CODE_POINTS < draft.points
    estTokens := WeightNumber.ceil weight
    contentHash := runtime.sha256Hex (trim text) }

/-- The passages of all the drafts, in order. -/
def passagesOf (runtime : Runtime) (prepared : JsString) (index : CodePointIndex)
    (list : List ChunkSection) (all : List (PackedDraft W × Option (PackedDraft W))) :
    List Passage :=
  all.zipIdx.map fun (entry, ordinal) =>
    passageOf runtime prepared index list all.length entry.1 entry.2 ordinal

/-! ## The chunker -/

def notTiling : ChunkError := .rangeError "chunk sections must tile the prepared text"

/-- The sections from a position on tile the rest of the text. -/
def validateSections (length : ℕ) (position : ℕ) : List ChunkSection → Except ChunkError Unit
  | [] => if position = length then .ok () else .error notTiling
  | part :: rest =>
    if part.start ≠ position ∨ part.stop < part.start then .error notTiling
    else validateSections length part.stop rest

/-- The sections, or the whole text as one when there are none. -/
def sectionList (sections : Option (List ChunkSection)) (length : ℕ) : List ChunkSection :=
  match sections with
  | some (first :: rest) => first :: rest
  | _ => [⟨[], 0, length, .text, none⟩]

/-- Splits one prepared item into passages. -/
def chunk (W : Type) [WeightNumber W] (runtime : Runtime) (prepared : JsString)
    (sections : Option (List ChunkSection)) : Except ChunkError (List Passage) :=
  if prepared = [] then .ok []
  else do
    let index := CodePointIndex.of prepared
    let list := sectionList sections index.length
    validateSections index.length 0 list
    let all : List (PackedDraft W × Option (PackedDraft W)) :=
      allDrafts runtime prepared index 0 list
    .ok (passagesOf runtime prepared index list all)

end

end QuokyPlatform.Chunking
