import QuokyPlatform.Chunking.TokenEstimate

/-!
# Emphasis stripped from a summary

A chat platform shows an untrusted span as it is, so the markers of a provider's Markdown would be
read. Paired emphasis markers and leading heading marks are dropped and a leading list mark becomes a
bullet, for a few rounds, since a removal can expose the next mark. A line that then starts with markup
the provider's line did not start with is shown as it was.
-/

namespace QuokyPlatform.Documents
open Chunking
set_option autoImplicit false
set_option maxHeartbeats 250000

def STAR : CodeUnit := 0x2A

def UNDERSCORE : CodeUnit := 0x5F

def HASH : CodeUnit := 0x23

def newlineUnit : CodeUnit := 0x0A

/-- `'• '` -/
def bullet : JsString := [0x2022, 0x20]

/-- `[ \t]` -/
def isBlankUnit (unit : CodeUnit) : Bool := unit == 0x20 || unit == 0x09

/-- `[|~`*_>#+[\]()<!\\@]`, the characters that take part in markup, mentions or escapes. -/
def STRIP_UNSAFE : List CodeUnit := units "|~`*_>#+[]()<!\\@"

def isUnsafe (ch : Option CodeUnit) : Bool := ch.any fun unit => unit ∈ STRIP_UNSAFE

def isSpace (ch : Option CodeUnit) : Bool := ch.all isWhiteSpace

section
-- `\p{L}` and `\p{N}` of one unit
variable (isLetterOrNumber : CodeUnit → Bool)

def isWord (ch : Option CodeUnit) : Bool :=
  ch.any fun unit => isLetterOrNumber unit || unit == UNDERSCORE

/-! ## Paired markers -/

/-- The positions of the marker `cc`, without overlap. -/
def markerPositions (c : CodeUnit) (position : ℕ) : JsString → List ℕ
  | first :: second :: rest =>
    if first = c ∧ second = c then position :: markerPositions c (position + 2) rest
    else markerPositions c (position + 1) (second :: rest)
  | _ => []

/-- The character before a position. -/
def charBefore (line : JsString) (position : ℕ) : Option CodeUnit :=
  if position > 0 then (line)[position - 1]? else none

/-- `line.slice(start, stop)` -/
def sliceLine (line : JsString) (start stop : ℕ) : JsString := (line.take stop).drop start

def opens (line : JsString) (c : CodeUnit) (position : ℕ) : Bool :=
  !isSpace (line)[position + 2]? && (line)[position + 2]? != some c &&
    !(c == UNDERSCORE && isWord isLetterOrNumber (charBefore line position))

def closes (line : JsString) (c : CodeUnit) (position : ℕ) : Bool :=
  !isSpace (charBefore line position) &&
    !(c == UNDERSCORE && isWord isLetterOrNumber (line)[position + 2]?)

/-- Neither the content of the pair nor a character right outside it is markup. -/
def removable (line : JsString) (start stop : ℕ) : Bool :=
  !(sliceLine line (start + 2) stop).any (· ∈ STRIP_UNSAFE) &&
    !isUnsafe (charBefore line start) && !isUnsafe (line)[stop + 2]?

/-- The pairs to drop, in one pass over the markers. -/
def droppedPairs (line : JsString) (c : CodeUnit) : Option ℕ → List ℕ → List (ℕ × ℕ)
  | _, [] => []
  | none, position :: rest =>
    if opens isLetterOrNumber line c position then droppedPairs line c (some position) rest
    else droppedPairs line c none rest
  | some start, position :: rest =>
    if closes isLetterOrNumber line c position then
      if removable line start position then
        (start, position) :: droppedPairs line c none rest
      else droppedPairs line c none rest
    else droppedPairs line c (some start) rest

/-- The line from `start` on without the markers at these positions. -/
def withoutMarkers (line : JsString) (start : ℕ) : List ℕ → JsString
  | [] => line.drop start
  | position :: rest => sliceLine line start position ++ withoutMarkers line (position + 2) rest

/-- The dropped positions are in ascending order as the pass finds them. -/
def stripPairedMarker (line : JsString) (c : CodeUnit) : JsString :=
  let drop := (droppedPairs isLetterOrNumber line c none (markerPositions c 0 line)).flatMap
    fun pair => [pair.1, pair.2]
  if drop = [] then line else withoutMarkers line 0 drop

/-! ## Line starts -/

/-- `line.replace(/^([ \t]*)#{1,6}[ \t]+/u, '$1')` -/
def dropHeading (line : JsString) : JsString :=
  let indent := line.takeWhile isBlankUnit
  let rest := line.dropWhile isBlankUnit
  let marks := rest.takeWhile (· == HASH)
  let after := rest.dropWhile (· == HASH)
  if 1 ≤ marks.length ∧ marks.length ≤ 6 ∧ after.head?.any isBlankUnit then
    indent ++ after.dropWhile isBlankUnit
  else line

/-- `line.replace(/^([ \t]*)[-*][ \t]+/u, '$1• ')` -/
def replaceListMark (line : JsString) : JsString :=
  let indent := line.takeWhile isBlankUnit
  match line.dropWhile isBlankUnit with
  | mark :: after =>
    if (mark = 0x2D ∨ mark = STAR) ∧ after.head?.any isBlankUnit then
      indent ++ bullet ++ after.dropWhile isBlankUnit
    else line
  | [] => line

def isDigitUnit (unit : CodeUnit) : Bool := 0x30 ≤ unit && unit ≤ 0x39

/-- A run of one character: `c{low,high}`, matched greedily. -/
def runOf (c : CodeUnit) (rest : JsString) : JsString := rest.takeWhile (· == c)

/-- The line-start markup, without the white space around it: quote, fence, heading, list item, table
pipe or subtext. -/
def lineMarkupPrefix (line : JsString) : JsString :=
  let rest := line.dropWhile isBlankUnit
  let quote := (runOf 0x3E rest).take 3
  let backticks := runOf 0x60 rest
  let tildes := runOf 0x7E rest
  let hashes := runOf HASH rest
  let digits := rest.takeWhile isDigitUnit
  if quote ≠ [] then quote
  else if 3 ≤ backticks.length then backticks
  else if 3 ≤ tildes.length then tildes
  else if 1 ≤ hashes.length ∧ hashes.length ≤ 6 ∧ (rest.drop hashes.length).head?.any isBlankUnit then
    hashes
  else
    match rest with
    | [] => []
    | mark :: after =>
      if (mark = 0x2D ∨ mark = STAR ∨ mark = 0x2B) ∧ after.head?.any isBlankUnit then [mark]
      else
        match rest.drop digits.length with
        | separator :: next =>
          if 1 ≤ digits.length ∧ digits.length ≤ 9 ∧ (separator = 0x2E ∨ separator = 0x29) ∧
              next.head?.any isBlankUnit then digits ++ [separator]
          else if mark = 0x7C then [mark]
          else if mark = 0x2D ∧ after.head? = some HASH ∧ after.tail.head?.any isBlankUnit then
            [mark, HASH]
          else []
        | [] => []

/-! ## A text -/

/-- One round of the rules. -/
def stripRound (line : JsString) : JsString :=
  stripPairedMarker isLetterOrNumber
    (stripPairedMarker isLetterOrNumber (replaceListMark (dropHeading line)) STAR) UNDERSCORE

/-- Rounds until the line is stable. -/
def stripRounds : ℕ → JsString → JsString
  | 0, line => line
  | rounds + 1, line =>
    let next := stripRound isLetterOrNumber line
    if next = line then line else stripRounds rounds next

def stripLine (raw : JsString) : JsString :=
  let line := replaceListMark (dropHeading (stripRounds isLetterOrNumber 4 raw))
  if lineMarkupPrefix line ≠ lineMarkupPrefix raw ∧ lineMarkupPrefix line ≠ [] then raw else line

/-- `text.split('\n')` -/
def linesOf (text : JsString) : List JsString := text.splitOn newlineUnit

def stripMarkdownEmphasis (text : JsString) : JsString :=
  [newlineUnit].intercalate ((linesOf text).map (stripLine isLetterOrNumber))

end

end QuokyPlatform.Documents
