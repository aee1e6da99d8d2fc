import Mathlib.Data.List.Sort
import QuokyPlatform.Chunking.Partition
import QuokyPlatform.Foundations.Occurrences

/-!
# Windows

`packWindows` packs selected passages, in document order, into windows: the text a model reads at
once. A window starts a section with its frame, repeats a sheet's header row or an overlap where
its rows are not adjacent to the previous piece, and marks a skipped stretch.
-/

namespace QuokyPlatform.Chunking
set_option autoImplicit false
set_option maxHeartbeats 250000

def UNTRUSTED_DOCUMENT_BODY_MAX_CHARS : ℕ := 3000

/-! ## Data -/

structure Window where
  text : JsString
  /-- Ordinals of the passages in it, in document order. -/
  ordinals : List ℕ
  codePoints : ℕ
  estTokens : ℤ
  deriving DecidableEq, Repr

structure WindowBudget where
  /-- The hard bound. -/
  maxCodePoints : ℕ
  /-- The packing bound; `none` is no bound. -/
  maxEstTokens : Option ℤ
  deriving DecidableEq, Repr

def DEFAULT_WINDOW_BUDGET : WindowBudget := ⟨UNTRUSTED_DOCUMENT_BODY_MAX_CHARS, some 1800⟩

/-- Between two non-adjacent pieces of one section: `[...]`. -/
def WINDOW_GAP_MARKER : JsString := [0x5B, 0x2E, 0x2E, 0x2E, 0x5D]

def lineBreak : JsString := [0x0A]

def trimEnd (text : JsString) : JsString := text.rdropWhile isWhiteSpace

section
variable (W : Type) [WeightNumber W]

/-- The estimated token count of a text, rounded up. -/
def estimateTokens (runtime : Runtime) (text : JsString) : ℤ :=
  WeightNumber.ceil (estimateTokenWeight runtime text : W)

/-! ## Pieces -/

structure Piece where
  separator : JsString
  lead : JsString
  text : JsString
  /-- The piece continues the previous one in the source with nothing between. -/
  adjacent : Bool
  deriving DecidableEq, Repr

/-- The context a piece that does not continue the previous one carries. -/
def carriedContext (index : CodePointIndex) (passage : Passage) : List JsString :=
  match passage.rows.bind PassageRows.headerSpan, passage.overlap with
  | some header, _ => [trimEnd (index.slice header.start header.stop)]
  | none, some overlap => [trimEnd (index.slice overlap.start overlap.stop)]
  | none, none => []

def piece (index : CodePointIndex) (passage : Passage) (previous : Option Passage) : Piece :=
  let text := index.slice passage.span.start passage.span.stop
  let adjacent := match previous with
    | some previous => previous.span.stop == passage.span.start && previous.frame == passage.frame
    | none => false
  let otherFrame := match previous with
    | some previous => previous.frame != passage.frame
    | none => false
  let newFrame := passage.frame != [] && (previous.isNone || otherFrame)
  let skipped := !newFrame && previous.isSome && !adjacent
  let separator :=
    if skipped then lineBreak else if otherFrame then lineBreak ++ lineBreak else []
  let first :=
    if newFrame then [passage.frame] else if skipped then [WINDOW_GAP_MARKER] else []
  let lead := first ++ if adjacent then [] else carriedContext index passage
  { separator
    lead := if lead = [] then [] else lineBreak.intercalate lead ++ lineBreak
    text
    adjacent }

/-- Cuts a text to `max` code points on a grapheme boundary. -/
def clipToBound (runtime : Runtime) (text : JsString) (max : ℕ) : JsString :=
  let index := CodePointIndex.of text
  if index.length ≤ max then text
  else
    let limit : PieceLimit W := ⟨max, none⟩
    match graphemeRanges runtime text ⟨0, text.length⟩ limit index with
    | [] => []
    | first :: _ =>
      if codePointLength (first.slice text) > max then [] else first.slice text

/-! ## Packing -/

/-- The passage may be packed: it is one of the item's, within the cap. -/
def isWanted (passages : List Passage) (ordinal : ℚ) : Bool :=
  ordinal.isInt && decide (0 ≤ ordinal) && decide (ordinal < passages.length) &&
    (passages[ordinal.num.toNat]?.map Passage.overCap) != some true

/-- The selected ordinals in document order. -/
def wantedOrdinals (passages : List Passage) (selected : List ℚ) : List ℕ :=
  ((selected.eraseDups.filter (isWanted passages)).map fun ordinal => ordinal.num.toNat).mergeSort

structure WindowState where
  windows : List Window
  text : JsString
  ordinals : List ℕ
  previous : Option Passage
  deriving DecidableEq, Repr

def WindowState.close (runtime : Runtime) (state : WindowState) : WindowState where
  windows :=
    if state.ordinals = [] then state.windows
    else
      let finished := trimEnd state.text
      state.windows ++ [{
        text := finished
        ordinals := state.ordinals
        codePoints := codePointLength finished
        estTokens := estimateTokens W runtime finished }]
  text := []
  ordinals := []
  previous := none

def WindowState.place (state : WindowState) (passage : Passage) (ordinal : ℕ) (text : JsString) :
    WindowState :=
  { state with text := text, ordinals := state.ordinals ++ [ordinal], previous := some passage }

/-- The text is over one of the bounds once its end is trimmed. -/
def WindowBudget.isOver (budget : WindowBudget) (runtime : Runtime) (text : JsString) : Bool :=
  let trimmed := trimEnd text
  decide (codePointLength trimmed > budget.maxCodePoints) ||
    match budget.maxEstTokens with
    | some bound => decide (estimateTokens W runtime trimmed > bound)
    | none => false

/-- Contiguous passages are joined exactly; otherwise the end of the text before is trimmed. -/
def WindowState.join (state : WindowState) (next : Piece) : JsString :=
  if next.adjacent then state.text ++ next.text
  else trimEnd state.text ++ next.separator ++ next.lead ++ next.text

/-- The first piece of a window. A single piece over the hard bound drops the carried context and
is then cut; a piece of which nothing is left is skipped. -/
def WindowState.openWith (runtime : Runtime) (budget : WindowBudget) (state : WindowState)
    (passage : Passage) (ordinal : ℕ) (next : Piece) : WindowState :=
  let candidate := next.lead ++ next.text
  if codePointLength (trimEnd candidate) > budget.maxCodePoints then
    let bare := next.text
    let candidate :=
      if codePointLength (trimEnd bare) ≤ budget.maxCodePoints then bare
      else clipToBound W runtime bare budget.maxCodePoints
    if candidate = [] then state else state.place passage ordinal candidate
  else state.place passage ordinal candidate

/-- One turn of the loop over the wanted ordinals. -/
def windowStep (runtime : Runtime) (index : CodePointIndex) (passages : List Passage)
    (budget : WindowBudget) (state : WindowState) (ordinal : ℕ) : WindowState :=
  match passages[ordinal]? with
  | none => state
  | some passage =>
    let next := piece index passage state.previous
    if state.ordinals = [] then state.openWith W runtime budget passage ordinal next
    else
      let candidate := state.join next
      if budget.isOver W runtime candidate then
        (state.close W runtime).openWith W runtime budget passage ordinal
          (piece index passage none)
      else state.place passage ordinal candidate

/-- Packs the selected passages, in document order, into windows. -/
def packWindows (runtime : Runtime) (prepared : JsString) (passages : List Passage)
    (selected : List ℚ) (budget : WindowBudget) : List Window :=
  let index := CodePointIndex.of prepared
  let step := windowStep W runtime index passages budget
  (((wantedOrdinals passages selected).foldl step ⟨[], [], [], none⟩).close W runtime).windows

/-- The one window of an item that fits, by the code-point bound only. -/
def singleWindow (runtime : Runtime) (prepared : JsString) (passages : List Passage)
    (budget : WindowBudget) : Option Window :=
  if passages.any Passage.overCap then none
  else
    let all := passages.map fun passage => (passage.ordinal : ℚ)
    match packWindows W runtime prepared passages all ⟨budget.maxCodePoints, none⟩ with
    | [window] => some window
    | _ => none

end

end QuokyPlatform.Chunking
