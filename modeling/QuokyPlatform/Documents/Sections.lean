import Mathlib.Data.List.Sort
import QuokyPlatform.Foundations.WaterFilling
import QuokyPlatform.Messages.Rendering

/-!
# The sections of a document readout

A spreadsheet is read sheet by sheet. Every section keeps its header, and what the budget leaves after
the headers is shared between the bodies; a body that is longer than its share is cut to its head and
its tail.
-/

namespace QuokyPlatform.Documents
open Chunking (JsString units codePoints)
open Messages (decimal newline)
set_option autoImplicit false
set_option maxHeartbeats 250000

/-- `Array.from(text).length` -/
def pointCount (text : JsString) : ℕ := (codePoints text).length

/-! ## Head and tail -/

structure Clipped where
  text : JsString
  truncated : Bool
  deriving DecidableEq, Repr

def clip (value : JsString) (max : ℕ) : Clipped :=
  let points := codePoints value
  if points.length ≤ max then ⟨value, false⟩ else ⟨(points.take max).flatten, true⟩

/-- The marker between the kept head and tail of a clipped text. -/
def attachmentOmissionMarker (omitted : ℕ) : JsString :=
  units "[... " ++ decimal omitted ++ units " characters omitted ...]"

/-- About two fifths of the room are the head, the rest is the tail. -/
def clipHeadAndTail (value : JsString) (max : ℕ) : Clipped :=
  let points := codePoints value
  if points.length ≤ max then ⟨value, false⟩
  else
    let marker := attachmentOmissionMarker points.length
    let room := max - pointCount marker - 2
    let head := room * 2 / 5
    let tail := room - head
    let omitted := points.length - head - tail
    let text := (points.take head).flatten ++ newline ++ attachmentOmissionMarker omitted ++ newline ++
      if tail > 0 then (points.drop (points.length - tail)).flatten else []
    ⟨(clip text max).text, true⟩

/-! ## Prepared sections -/

def UNTRUSTED_DOCUMENT_SECTIONS_MAX : ℕ := 20

def UNTRUSTED_DOCUMENT_SECTION_TITLE_MAX_CHARS : ℕ := 60

/-- The text of a section that has no values. -/
def EMPTY_SECTION_TEXT : JsString := units "(empty)"

structure UntrustedDocumentSection where
  title : JsString
  body : JsString
  truncated : Bool

structure PreparedSection where
  header : JsString
  body : JsString
  /-- The section had no text of its own. -/
  empty : Bool
  shown : body ≠ []

structure PreparedSections where
  list : List PreparedSection
  /-- Every section, headers included, unclipped. -/
  full : JsString
  /-- More sections were given than are read. -/
  dropped : Bool

/-- What is made of the texts of a section: the normalized body without links, the title on one line and
cut, the whole title, and a text as a JSON string. -/
structure SectionTexts where
  bodyText : JsString → JsString
  oneLine : JsString → ℕ → JsString
  fullTitle : JsString → JsString
  quoted : JsString → JsString

def blankLine : JsString := newline ++ newline

/-- `[Sheet 2/5] "title" (partial)` -/
def headerFrame (texts : SectionTexts) (word : JsString) (index total : ℕ) (partially : Bool)
    (title : JsString) : JsString :=
  units "[" ++ word ++ units " " ++ decimal (index + 1) ++ units "/" ++ decimal total ++ units "] " ++
    texts.quoted title ++ if partially then units " (partial)" else []

def preparedSection (texts : SectionTexts) (word : JsString) (total : ℕ)
    (entry : UntrustedDocumentSection × ℕ) : PreparedSection where
  header := headerFrame texts word entry.2 total entry.1.truncated
    (texts.oneLine entry.1.title UNTRUSTED_DOCUMENT_SECTION_TITLE_MAX_CHARS)
  body := if texts.bodyText entry.1.body = [] then EMPTY_SECTION_TEXT else texts.bodyText entry.1.body
  empty := texts.bodyText entry.1.body = []
  shown := by
    split
    · decide
    · assumption

def fullHeader (texts : SectionTexts) (word : JsString) (total : ℕ)
    (entry : UntrustedDocumentSection × ℕ) : JsString :=
  headerFrame texts word entry.2 total entry.1.truncated (texts.fullTitle entry.1.title)

def preparedSections (texts : SectionTexts) (sections : Option (List UntrustedDocumentSection))
    (word : JsString) : Option PreparedSections :=
  match sections.getD [] with
  | [] => none
  | given =>
    let kept := given.take UNTRUSTED_DOCUMENT_SECTIONS_MAX
    let list := kept.zipIdx.map (preparedSection texts word kept.length)
    if list.all PreparedSection.empty then some ⟨[], [], false⟩
    else some {
      list := list
      full := blankLine.intercalate (kept.zipIdx.map fun entry =>
        fullHeader texts word kept.length entry ++ newline ++
          (preparedSection texts word kept.length entry).body)
      dropped := given.length > UNTRUSTED_DOCUMENT_SECTIONS_MAX }

/-! ## The fair clip -/

structure Pending where
  index : ℕ
  need : ℕ
  deriving DecidableEq, Repr

/-- Code points of the headers and of what joins the sections. -/
def overhead (list : List PreparedSection) : ℕ :=
  (list.zipIdx.map fun entry =>
    pointCount entry.1.header + 1 + if entry.2 > 0 then 2 else 0).sum

/-- The sections by the code points their bodies need, the shortest first. -/
def pending (list : List PreparedSection) : List Pending :=
  (list.zipIdx.map fun entry => (⟨entry.2, pointCount entry.1.body⟩ : Pending)).insertionSort
    fun a b => a.need ≤ b.need

/-- The budget left after the headers. -/
def roomOf (list : List PreparedSection) (max : ℕ) : ℕ := max - overhead list

/-- `shares[index]` -/
def shareOf (list : List PreparedSection) (room index : ℕ) : ℕ :=
  (((WaterFilling.fill Pending.need room (pending list)).find? fun entry => entry.1.index = index).map
    Prod.snd).getD 0

/-- The body of a section as it is shown. -/
def shownBody (list : List PreparedSection) (room : ℕ) (entry : PreparedSection × ℕ) : Clipped :=
  clipHeadAndTail entry.1.body (shareOf list room entry.2)

def clipSections (sections : PreparedSections) (max : ℕ) : Clipped :=
  let list := sections.list
  let room := roomOf list max
  let truncated := list.zipIdx.any fun entry => (shownBody list room entry).truncated
  let text := blankLine.intercalate (list.zipIdx.map fun entry =>
    entry.1.header ++ newline ++ (shownBody list room entry).text)
  if pointCount text ≤ max then ⟨text, truncated⟩ else ⟨(clipHeadAndTail text max).text, true⟩

end QuokyPlatform.Documents
