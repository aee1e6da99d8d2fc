import Mathlib.Data.List.Infix
import QuokyPlatform.Chunking.Windows

/-! # Markdown tables for Discord

Discord renders no Markdown tables, so the simple tables of a provider's reply become lines it does
render. A reply with a quote line, or whose fences are not provably balanced, is left as it is; so is
every fenced line, every list and whatever is not a simple table. -/

namespace QuokyPlatform.DiscordTables
open Chunking (JsString CodeUnit units isWhiteSpace trim trimEnd)

set_option autoImplicit false
set_option maxHeartbeats 250000

/-! ## Lines -/

def NEWLINE : CodeUnit := 0x0A
def RETURN : CodeUnit := 0x0D
def PIPE : CodeUnit := 0x7C
def BACKSLASH : CodeUnit := 0x5C
def BACKTICK : CodeUnit := 0x60
def TILDE : CodeUnit := 0x7E

def MAX_TABLE_COLUMNS : ℕ := 8
def MAX_TABLE_ROWS : ℕ := 25

/-- `[ \t]` -/
def isTab (unit : CodeUnit) : Bool := unit == 0x20 || unit == 0x09

/-- What `.` does not match, and what `^` matches behind under the `m` flag. -/
def isLineTerminator (unit : CodeUnit) : Bool :=
  unit == 0x0A || unit == 0x0D || unit == 0x2028 || unit == 0x2029

def isDigit (unit : CodeUnit) : Bool := 0x30 ≤ unit && unit ≤ 0x39

def isBlank (line : JsString) : Bool := (trim line).isEmpty

def isIndented (line : JsString) : Bool := line.head?.any isTab

/-- The line without the `\r` of a `\r\n`. -/
def withoutReturn (raw : JsString) : JsString :=
  if raw.getLast? = some RETURN then raw.dropLast else raw

def returnOf (raw : JsString) : JsString := if raw.getLast? = some RETURN then [RETURN] else []

def analysedLines (text : JsString) : List JsString := (text.splitOn NEWLINE).map withoutReturn

/-! ## Patterns -/

/-- FENCE_MARKER -/
def fenceMarker (text : JsString) : Bool :=
  decide ([BACKTICK, BACKTICK, BACKTICK] <:+: text) || decide ([TILDE, TILDE, TILDE] <:+: text)

/-- A run of three or more backticks or tildes at column 0, and what is behind it. -/
def fenceRun : JsString → Option (JsString × JsString)
  | [] => none
  | mark :: rest =>
    let run := (mark :: rest).takeWhile (· == mark)
    if (mark == BACKTICK || mark == TILDE) && 3 ≤ run.length then some (run, (mark :: rest).drop run.length)
    else none

/-- A printable ASCII character that is no backtick or tilde. -/
def isInfo (unit : CodeUnit) : Bool := (0x20 ≤ unit && unit ≤ 0x5F) || (0x61 ≤ unit && unit ≤ 0x7D)

/-- OPENER_LINE: the run of an opening fence line. -/
def openerLine (line : JsString) : Option JsString :=
  (fenceRun line).bind fun found => if found.2.all isInfo then some found.1 else none

/-- CLOSER_LINE: the run of a closing fence line. -/
def closerLine (line : JsString) : Option JsString :=
  (fenceRun line).bind fun found => if found.2.all isTab then some found.1 else none

/-- QUOTE_LINE, anywhere in the reply. -/
def quoteLine (text : JsString) : Bool :=
  (text.splitOnP isLineTerminator).any fun line => (line.dropWhile isTab).head? = some 0x3E

/-- OTHER_LINE_BREAK -/
def otherLineBreak : JsString → Bool
  | [] => false
  | unit :: rest => (unit == RETURN && rest.head? ≠ some NEWLINE) || unit == 0x85 || unit == 0x2028 ||
    unit == 0x2029 || otherLineBreak rest

/-- `(?:[ \t]|$)` -/
def endsMark (after : JsString) : Bool := after.head?.all isTab

/-- LIST_ITEM -/
def listItem (line : JsString) : Bool :=
  let rest := line.dropWhile isTab
  let digits := rest.takeWhile isDigit
  (rest.head?.any (· ∈ units "-*+") && endsMark rest.tail) ||
    (1 ≤ digits.length && digits.length ≤ 9 && (rest.drop digits.length).head?.any (· ∈ units ".)") &&
      endsMark (rest.drop (digits.length + 1)))

/-- TABLE_ROW -/
def tableRow (line : JsString) : Bool :=
  let row := line.rdropWhile isTab
  2 ≤ row.length && row.head? = some PIPE && row.getLast? = some PIPE && !row.any isLineTerminator

/-- `[ \t]*:?-+:?[ \t]*` -/
def delimiterCell (cell : JsString) : Bool :=
  let dashes := (cell.dropWhile isTab).dropWhile (· == 0x3A)
  let colons := (cell.dropWhile isTab).takeWhile (· == 0x3A)
  let after := dashes.dropWhile (· == 0x2D)
  colons.length ≤ 1 && dashes.head? = some 0x2D &&
    (if after.head? = some 0x3A then after.tail else after).all isTab

/-- DELIMITER_ROW -/
def delimiterRow (line : JsString) : Bool :=
  let row := line.rdropWhile isTab
  2 ≤ row.length && row.head? = some PIPE && row.getLast? = some PIPE &&
    (row.tail.dropLast.splitOn PIPE).all delimiterCell

/-- A row whose closing pipe is not escaped. -/
def isTableRow (line : JsString) : Bool :=
  let trimmed := trimEnd line
  tableRow line && 2 ≤ trimmed.length && trimmed[trimmed.length - 2]? ≠ some BACKSLASH

/-! ## Fences -/

/-- A fence that is open: its run, and whether a line that is not blank followed it. -/
structure Fence where
  run : JsString
  hasContent : Bool

/-- The fence after a line; `none` where the fences are not provably balanced. -/
def fenceAfter (fence : Option Fence) (line : JsString) : Option (Option Fence) :=
  match fence with
  | some fence =>
    if !fenceMarker line then some (some { fence with hasContent := fence.hasContent || !isBlank line })
    else if closerLine line = some fence.run && fence.hasContent then some none
    else none
  | none =>
    if !fenceMarker line then some none
    else (openerLine line).map fun run => some ⟨run, false⟩

/-- Which lines lie inside a fence, opener and closer included. -/
def fencedFrom (fence : Option Fence) : List JsString → Option (List Bool)
  | [] => if fence.isNone then some [] else none
  | line :: rest => (fenceAfter fence line).bind fun next =>
    (fencedFrom next rest).map ((fence.isSome || next.isSome) :: ·)

def fencedLines (lines : List JsString) : Option (List Bool) := fencedFrom none lines

/-- An unfenced blank line. -/
def separates (entry : JsString × Bool) : Bool := isBlank entry.1 && !entry.2

/-- A paragraph converts when none of its lines is fenced. -/
def paragraphs : List (JsString × Bool) → List Bool
  | [] => []
  | entry :: rest =>
    if separates entry then false :: paragraphs rest
    else
      let block := entry :: rest.takeWhile fun entry => !separates entry
      block.map (fun _ => block.all fun entry => !entry.2) ++
        paragraphs (rest.dropWhile fun entry => !separates entry)
termination_by entries => entries.length
decreasing_by
  · simp
  · have hle := List.length_dropWhile_le (fun entry => !separates entry) rest
    simp only [List.length_cons]
    omega

/-- Per line, whether a table may be converted there; `none` where the reply is not eligible. -/
def convertibleLines (text : JsString) (lines : List JsString) : Option (List Bool) :=
  if quoteLine text then none
  else if !fenceMarker text then some (lines.map fun _ => true)
  else if otherLineBreak text then none
  else (fencedLines lines).map fun fenced => paragraphs (lines.zip fenced)

def isTableRenderingEligible (text : JsString) : Bool :=
  (convertibleLines text (analysedLines text)).isSome

/-! ## Tables -/

/-- The pieces between the pipes that no backslash precedes. -/
def splitCells (previous : Option CodeUnit) : JsString → List JsString
  | [] => [[]]
  | unit :: rest =>
    if unit = PIPE ∧ previous ≠ some BACKSLASH then [] :: splitCells (some unit) rest
    else (splitCells (some unit) rest).modifyHead (unit :: ·)

def unescapePipes : JsString → JsString
  | [] => []
  | [unit] => [unit]
  | first :: second :: rest =>
    if first = BACKSLASH ∧ second = PIPE then PIPE :: unescapePipes rest
    else first :: unescapePipes (second :: rest)

def cellsOf (row : JsString) : List JsString :=
  (splitCells none (trim row).tail.dropLast).map fun cell => trim (unescapePipes cell)

/-- The label of a header cell, without the emphasis of a bold one. -/
def headerLabel (cell : JsString) : JsString :=
  let bold := (cell.drop 2).take (cell.length - 4)
  if 5 ≤ cell.length ∧ cell.take 2 = units "**" ∧ cell.drop (cell.length - 2) = units "**" ∧
      bold.any isLineTerminator = false then trim bold
  else cell

/-- The cells of a row that are not empty, under their labels. -/
def rowParts (labels row : List JsString) : List JsString :=
  ((row.mapIdx fun index cell => (labels.getD index [], cell)).filter fun part => part.2 ≠ []).map fun part =>
    if part.1 = [] then part.2 else part.1 ++ units ": " ++ part.2

def renderTable (header : List JsString) (rows : List (List JsString)) : List JsString :=
  let labels := header.map headerLabel
  let titled := labels.filter (· ≠ [])
  (if titled.length > 0 then [units "**" ++ (units " · ").intercalate titled ++ units "**"] else []) ++
    rows.filterMap fun row =>
      let parts := rowParts labels row
      if parts.length > 0 then some (units "- " ++ (units ", ").intercalate parts) else none

def isSimple (header delimiter : List JsString) (rows : List (List JsString)) : Bool :=
  1 ≤ header.length && header.length ≤ MAX_TABLE_COLUMNS && delimiter.length = header.length &&
    rows.length > 0 && rows.all fun row => row.length = header.length

def FENCE : JsString := [BACKTICK, BACKTICK, BACKTICK]

/-- What a table candidate becomes: lines, the same lines in a fence when it is long, or itself when it
is malformed. -/
def renderCandidate (header delimiter : JsString) (rows : List JsString) : List JsString :=
  let labels := cellsOf (withoutReturn header)
  let cells := rows.map fun row => cellsOf (withoutReturn row)
  let table := header :: delimiter :: rows
  if isSimple labels (cellsOf (withoutReturn delimiter)) cells then
    if cells.length > MAX_TABLE_ROWS then
      (FENCE ++ returnOf header) :: table ++ [FENCE ++ returnOf (table.getLastD [])]
    else (renderTable labels cells).map fun rendered => rendered ++ returnOf header
  else table

/-! ## The reply -/

/-- What the previous line leaves open. -/
inductive Context where
  | start | blank | plain | list
  deriving DecidableEq

structure Scan where
  context : Context
  /-- A list goes on until a blank line and an unindented line that is no list item. -/
  listOpen : Bool
  deriving DecidableEq

def Scan.next (scan : Scan) (line : JsString) : Scan :=
  if isBlank line then { scan with context := .blank }
  else if listItem line then ⟨.list, true⟩
  else if scan.context = .list then scan
  else if isIndented line then { scan with context := if scan.listOpen then .list else .plain }
  else ⟨.plain, if scan.context = .blank then false else scan.listOpen⟩

/-- A table may start on the line, by what came before it. -/
def Scan.mayStart (scan : Scan) (line : JsString) : Bool :=
  !isBlank line && !listItem line && scan.context ≠ .list && !isIndented line

def isRawRow (entry : JsString × Bool) : Bool := isTableRow (withoutReturn entry.1)

/-- The lines of the rendered reply; each line comes with whether it is convertible. -/
def renderLines (scan : Scan) : List (JsString × Bool) → List JsString
  | [] => []
  | [entry] => [entry.1]
  | entry :: delimiter :: rest =>
    let line := withoutReturn entry.1
    if scan.mayStart line && entry.2 && isRawRow entry && isRawRow delimiter &&
        delimiterRow (withoutReturn delimiter.1) then
      renderCandidate entry.1 delimiter.1 ((rest.takeWhile isRawRow).map Prod.fst) ++
        renderLines (scan.next line) (rest.dropWhile isRawRow)
    else entry.1 :: renderLines (scan.next line) (delimiter :: rest)
termination_by entries => entries.length
decreasing_by
  · have hle := List.length_dropWhile_le isRawRow rest
    simp only [List.length_cons]
    omega
  · simp

def renderMarkdownTablesForDiscord (text : JsString) : JsString :=
  if PIPE ∉ text then text
  else
    match convertibleLines text (analysedLines text) with
    | none => text
    | some convertible =>
      [NEWLINE].intercalate (renderLines ⟨.start, false⟩ ((text.splitOn NEWLINE).zip convertible))

end QuokyPlatform.DiscordTables
