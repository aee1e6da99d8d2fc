import QuokyPlatform.Foundations.Markers
import QuokyPlatform.Previews.Telegram

/-!
# Discord messages in chunks

A text is cut into pieces, at a newline or a space when one is near the limit. A piece that ends
inside a fence is closed and the next one reopens the fence with its language tag; the marker that
would only close the fence again is consumed.
-/

namespace QuokyPlatform.Delivery
open Chunking Previews
set_option autoImplicit false
set_option maxHeartbeats 250000

/-- Below this limit there is no room for a reopening fence and a closing one. -/
def MIN_FENCE_AWARE_LIMIT : ℕ := 64

/-- Room at the end of a chunk for a newline and a fence. -/
def FENCE_CLOSER_RESERVE : ℕ := FENCE.length + 1

/-- `[A-Za-z0-9_+.#-]` -/
def isLangUnit (unit : CodeUnit) : Bool :=
  (0x41 ≤ unit && unit ≤ 0x5A) || (0x61 ≤ unit && unit ≤ 0x7A) || (0x30 ≤ unit && unit ≤ 0x39) ||
    unit ∈ units "_+.#-"

/-- The language tag of a fence, empty when there is none that is well formed. -/
structure FenceTag where
  text : JsString
  short : text.length ≤ 32
  lang : text.all isLangUnit = true

namespace FenceTag

def empty : FenceTag := ⟨[], Nat.zero_le _, rfl⟩

end FenceTag

/-- The tag of the open fence, or none. -/
abbrev FenceState := Option FenceTag

/-- Where to cut so that the piece is within the limit: newline, else space, else a hard cut. -/
def chooseCut (rest : JsString) (limit : ℕ) : ℕ := Telegram.boundaryCut rest limit

/-- The pieces of a text without fences; none while the fuel does not last. -/
def chunkPlain (maxLen : ℕ) : ℕ → JsString → Option (List JsString)
  | 0, _ => none
  | fuel + 1, rest =>
    if rest.length > maxLen then
      let cut := chooseCut rest maxLen
      (chunkPlain maxLen fuel (rest.drop cut)).map (rest.take cut :: ·)
    else if rest.length > 0 then some [rest]
    else some []

/-- The tag written after a marker, when the line it is on ends in the segment. -/
def tagAfter (after : JsString) : FenceTag :=
  let tag := if NEWLINE ∈ after then after.takeWhile (· ≠ NEWLINE) else []
  if h : 1 ≤ tag.length ∧ tag.length ≤ 32 ∧ tag.all isLangUnit = true then ⟨tag, h.2.1, h.2.2⟩ else .empty

/-- The fence state after a segment. -/
def advanceFence : FenceState → JsString → FenceState
  | state, first :: second :: third :: after =>
    if first = BACKTICK ∧ second = BACKTICK ∧ third = BACKTICK then
      match state with
      | none => advanceFence (some (tagAfter after)) after
      | some _ => advanceFence none after
    else advanceFence state (second :: third :: after)
  | state, _ => state

/-- Where the run of backticks that ends at an offset starts. -/
def runStart (rest : JsString) : ℕ → ℕ
  | 0 => 0
  | offset + 1 => if rest[offset]? = some BACKTICK then runStart rest offset else offset + 1

/-- A cut inside a run of backticks moves before the run, unless the run is all there is. -/
def protectRun (rest : JsString) (cut : ℕ) : ℕ :=
  if 0 < cut ∧ cut < rest.length ∧ rest[cut - 1]? = some BACKTICK ∧ rest[cut]? = some BACKTICK then
    if runStart rest cut > 0 then runStart rest cut else cut
  else cut

/-- The line that reopens a fence. -/
def reopening : FenceState → JsString
  | none => []
  | some tag => FENCE ++ tag.text ++ [NEWLINE]

/-- The fence that closes a chunk. -/
def closing (body : JsString) : JsString :=
  if body.getLast? = some NEWLINE then FENCE else [NEWLINE] ++ FENCE

/-- What one chunk takes of the text: its body, and the marker after it that its closing fence
stands for. -/
structure Piece where
  reopened : FenceState
  body : JsString
  closed : Bool
  consumed : Bool

namespace Piece

/-- The chunk, with the fences that were added. -/
def chunk (piece : Piece) : JsString :=
  reopening piece.reopened ++ piece.body ++ if piece.closed then closing piece.body else []

/-- The chunk without the fences that were added; a consumed marker counts as kept. -/
def kept (piece : Piece) : JsString := piece.body ++ if piece.consumed then FENCE else []

/-- The fence that the next chunk reopens. -/
def after (piece : Piece) : FenceState :=
  if piece.consumed then none else advanceFence piece.reopened piece.body

end Piece

/-- The next piece of a text that does not fit. -/
def nextPiece (maxLen : ℕ) (opened : FenceState) (rest : JsString) : Piece :=
  let limit := maxLen - (reopening opened).length - FENCE_CLOSER_RESERVE
  let cut := protectRun rest (chooseCut rest limit)
  let body := rest.take cut
  let closed := (advanceFence opened body).isSome
  { reopened := opened, body := body, closed := closed
    consumed := closed && FENCE.isPrefixOf (rest.drop cut) }

/-- The chunks of a text that starts in a fence state; none while the fuel does not last. -/
def chunkFenceAware (maxLen : ℕ) : ℕ → FenceState → JsString → Option (List JsString)
  | 0, _, _ => none
  | fuel + 1, opened, rest =>
    if (reopening opened).length + rest.length ≤ maxLen then some [reopening opened ++ rest]
    else
      let piece := nextPiece maxLen opened rest
      let rest := rest.drop piece.kept.length
      if rest.length = 0 then some [piece.chunk]
      else (chunkFenceAware maxLen fuel piece.after rest).map (piece.chunk :: ·)

/-- The messages of a text; none when a cut that takes nothing repeats for ever. -/
def chunkText (text : JsString) (maxLen : ℕ) : Option (List JsString) :=
  if text.length = 0 then some []
  else if text.length ≤ maxLen then some [text]
  else if maxLen < MIN_FENCE_AWARE_LIMIT ∨ ¬ FENCE <:+: text then
    chunkPlain maxLen (text.length + 1) text
  else chunkFenceAware maxLen (text.length + 1) none text

/-- The markers of a text. -/
def fenceCount (text : JsString) : ℕ := Markers.count BACKTICK text

end QuokyPlatform.Delivery
