import QuokyPlatform.Chunking.Windows
import QuokyPlatform.Documents.Emphasis
import QuokyPlatform.Links.Neutralizer
import QuokyPlatform.Messages.Rendering

/-!
# The reply of a document summary

A provider's summary is shown as whole lines. Its links and emphasis markers go first, wrapped lines are
joined, and each line is capped to what the footer leaves when every code point is written as two. The
platform then takes the lines that fit its own rendering.
-/

namespace QuokyPlatform.Documents
open Chunking (JsString CodeUnit units codePoints isWhiteSpace trim trimEnd)
open Messages (MessageBody MessagePart MessageNode MessageContent TakeLine messageBody asContent
  plainTextOf ellipsis newline)
set_option autoImplicit false
set_option maxHeartbeats 250000

def DOCUMENT_SUMMARY_REPLY_MAX_CHARS : ℕ := 1900
def DOCUMENT_SUMMARY_WORST_CASE_EXPANSION : ℕ := 2
def DOCUMENT_SUMMARY_OMITTED_RESERVE : ℕ := 16

/-! ## Wrapped lines -/

/-- A digit of `\d`. -/
def isDigitChar (unit : CodeUnit) : Bool := 0x30 ≤ unit && unit ≤ 0x39

/-- `/^\s*(?:[-*•>]|\d{1,3}[.)])\s+/u` -/
def isBulletLine (line : JsString) : Bool :=
  let rest := line.dropWhile isWhiteSpace
  let digits := rest.takeWhile isDigitChar
  match rest with
  | [] => false
  | mark :: after =>
    mark ∈ units "-*•>" && after.head?.any isWhiteSpace ||
      1 ≤ digits.length && digits.length ≤ 3 &&
        (rest.drop digits.length).head?.any (· ∈ units ".)") &&
        (rest.drop (digits.length + 1)).head?.any isWhiteSpace

/-- `/^\s*#{1,6}\s|^[^\n]{1,80}:\s*$/u` -/
def isHeadingLine (line : JsString) : Bool :=
  let rest := line.dropWhile isWhiteSpace
  let hashes := rest.takeWhile (· == HASH)
  let ended := trimEnd line
  1 ≤ hashes.length && hashes.length ≤ 6 && (rest.drop hashes.length).head?.any isWhiteSpace ||
    ended.getLast? = some 0x3A && 1 ≤ (codePoints ended.dropLast).length &&
      (codePoints ended.dropLast).length ≤ 80

/-- `/[.!?。！？:)\]」』…]\s*$/u` -/
def isCompleteLine (line : JsString) : Bool :=
  (trimEnd line).getLast?.any (· ∈ units ".!?。！？:)]」』…")

/-- A line that goes on with the sentence of the line before it. -/
def continuesLine (previous line : JsString) : Bool :=
  trim previous ≠ [] && trim line ≠ [] && !isBulletLine line && !isHeadingLine line &&
    !isHeadingLine previous && !isCompleteLine previous

/-- The lines behind `previous`, which ends the line `current` of the result. -/
def joinWrapped (previous current : JsString) : List JsString → List JsString
  | [] => [current]
  | line :: rest =>
    if continuesLine previous line then joinWrapped line (current ++ units " " ++ trim line) rest
    else current :: joinWrapped line line rest

/-- The text with wrapped lines joined. -/
def joinedWrappedLines (text : JsString) : JsString :=
  match linesOf text with
  | [] => []
  | first :: rest => newline.intercalate (joinWrapped first first rest)

/-! ## Links -/

/-- The number of a code point. -/
def pointNumber : JsString → Links.CodePoint
  | [high, low] => 0x10000 + (high.toNat - 0xD800) * 0x400 + (low.toNat - 0xDC00)
  | point => (point.map UInt16.toNat).sum

/-- The units of a code point of that number. -/
def pointUnits (point : Links.CodePoint) : JsString :=
  if point < 0x10000 then [UInt16.ofNat point]
  else [UInt16.ofNat (0xD800 + (point - 0x10000) / 0x400),
    UInt16.ofNat (0xDC00 + (point - 0x10000) % 0x400)]

section
variable (unicode : Links.Unicode)
-- `\p{L}` and `\p{N}` of one unit
variable (isLetterOrNumber : CodeUnit → Bool)

/-- `neutralizeLinks(text, 'display')` of a string. -/
def neutralizeDisplay (text : JsString) : JsString :=
  (Links.neutralizeLinks unicode ((codePoints text).map pointNumber) .display).flatMap pointUnits

/-! ## The reply -/

/-- `text.replace(/^(?:[ \t]*\n)+/u, '')` -/
def dropBlankLines : List JsString → List JsString
  | line :: next :: rest =>
    if line.all isBlankUnit then dropBlankLines (next :: rest) else line :: next :: rest
  | lines => lines

/-- The text of a summary as its lines are taken from it. -/
def summaryText (summary : JsString) : JsString :=
  let text := neutralizeDisplay unicode (stripMarkdownEmphasis isLetterOrNumber
    (neutralizeDisplay unicode (joinedWrappedLines summary)))
  trimEnd (newline.intercalate (dropBlankLines (linesOf text)))

def capLine (cap : ℕ) (line : JsString) : JsString :=
  let points := codePoints line
  if points.length ≤ cap then line else trimEnd (points.take (cap - 1)).flatten ++ ellipsis

/-- The code points that a line may have beside a footer. -/
def lineCap (footer : MessageBody) : ℕ :=
  let budget := DOCUMENT_SUMMARY_REPLY_MAX_CHARS - DOCUMENT_SUMMARY_OMITTED_RESERVE
  let footerChars := (codePoints (plainTextOf (messageBody [footer.part]))).length + 2
  max 2 ((budget - footerChars) / DOCUMENT_SUMMARY_WORST_CASE_EXPANSION)

/-- The capped lines of a summary. -/
def summaryLines (summary : JsString) (footer : MessageBody) : List JsString :=
  (linesOf (summaryText unicode isLetterOrNumber summary)).map (capLine (lineCap footer))

def isBlankLine (line : JsString) : Bool := trim line = []

def summaryLine (line : JsString) : TakeLine MessageContent :=
  if isBlankLine line then ⟨asContent (.text []), false⟩
  else ⟨asContent (.node (.node (.untrusted line .markup))), true⟩

structure DocumentSummaryReply where
  body : MessageBody
  /-- The plain text of all its capped lines. -/
  shown : JsString

def documentSummaryReply (summary : JsString) (footer : MessageBody) : DocumentSummaryReply :=
  let lines := summaryLines unicode isLetterOrNumber summary footer
  let budget := DOCUMENT_SUMMARY_REPLY_MAX_CHARS - DOCUMENT_SUMMARY_OMITTED_RESERVE
  { body := messageBody [.node (.node (.takeLines .codePoints budget 1 []
      [asContent (.text []), asContent footer.part] (lines.map summaryLine) false false
      (some ⟨0, units "… (+", units ")"⟩)))]
    shown := newline.intercalate lines }

end

end QuokyPlatform.Documents
