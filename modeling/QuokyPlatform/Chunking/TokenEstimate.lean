import Mathlib.Data.List.DropRight
import Mathlib.Algebra.Order.Ring.Rat
import Mathlib.Data.Rat.Floor
import QuokyPlatform.Chunking.CodePoints

/-!
# The token estimate, and what the chunker takes from its runtime

Token weights are computed in the numbers of the language. The partition does not depend on how
these add up, so they are any type with the operations the code uses; the rationals are one. The
Unicode classes, `Intl.Segmenter` and SHA-256 come from the runtime.
-/

namespace QuokyPlatform.Chunking
set_option autoImplicit false
set_option maxHeartbeats 250000

/-! ## The runtime -/

/-- The arithmetic of token weights; `atMost` and `exceeds` are `<=` and `>`. -/
class WeightNumber (W : Type) extends
    Zero W, Add W, Sub W, Max W, NatCast W, OfScientific W where
  atMost : W → W → Bool
  exceeds : W → W → Bool
  ceil : W → ℤ

instance : WeightNumber ℚ where
  atMost weight limit := weight ≤ limit
  exceeds weight limit := weight > limit
  ceil := Int.ceil

inductive Locale where
  | ko
  | en
  deriving DecidableEq

inductive Granularity where
  | sentence
  | grapheme
  deriving DecidableEq

/-- One element of what `Intl.Segmenter.segment` iterates over. -/
structure Segment where
  segment : JsString
  index : ℕ

namespace Segment

/-- Where the segment ends. -/
def stop (part : Segment) : ℕ := part.index + part.segment.length

/-- The segment as a range of a text whose slice from `base` on was segmented. -/
def rangeFrom (base : ℕ) (part : Segment) : Range := ⟨base + part.index, base + part.stop⟩

end Segment

/-- The Unicode properties of a code point that the regular expressions ask for. -/
structure UnicodeClasses where
  hangul : JsString → Bool
  han : JsString → Bool
  hiragana : JsString → Bool
  katakana : JsString → Bool
  latin : JsString → Bool
  number : JsString → Bool
  letter : JsString → Bool

structure Runtime where
  segment : Locale → Granularity → JsString → List Segment
  unicode : UnicodeClasses
  sha256Hex : JsString → String

/-- The documented behaviour of `Intl.Segmenter`: the segments of a text partition it at
code-point boundaries, and each says where it starts. -/
def Runtime.SegmentsPartition (runtime : Runtime) : Prop :=
  ∀ locale granularity text,
    Tiles (IsBoundary text) 0 text.length
      ((runtime.segment locale granularity text).map (Segment.rangeFrom 0))

/-! ## White space -/

/-- A character that `\s` matches and `trim` removes. -/
def isWhiteSpace (unit : CodeUnit) : Bool :=
  (0x09 ≤ unit && unit ≤ 0x0D) || unit == 0x20 || unit == 0xA0 || unit == 0x1680 ||
    (0x2000 ≤ unit && unit ≤ 0x200A) || unit == 0x2028 || unit == 0x2029 || unit == 0x202F ||
    unit == 0x205F || unit == 0x3000 || unit == 0xFEFF

def trim (text : JsString) : JsString := (text.dropWhile isWhiteSpace).rdropWhile isWhiteSpace

/-- `text.replace(/\s+/gu, ' ')`. -/
def collapseWhiteSpace : JsString → JsString
  | [] => []
  | [unit] => [if isWhiteSpace unit then 0x20 else unit]
  | first :: second :: rest =>
    if isWhiteSpace first then
      if isWhiteSpace second then collapseWhiteSpace (second :: rest)
      else 0x20 :: collapseWhiteSpace (second :: rest)
    else first :: collapseWhiteSpace (second :: rest)

/-! ## The estimate -/

section
variable {W : Type} [WeightNumber W]

structure TokenWeights (W : Type) where
  /-- Hangul, Han, Kana (tokens per code point). -/
  cjk : W
  /-- Latin letters and digits. -/
  latin : W
  /-- Whitespace, punctuation, symbols. -/
  other : W
  /-- Letters of any other script. -/
  otherLetter : W

def DEFAULT_TOKEN_WEIGHTS : TokenWeights W where
  cjk := 1.0
  latin := 0.3
  other := 0.5
  otherLetter := 1.0

def UnicodeClasses.isCjk (unicode : UnicodeClasses) (point : JsString) : Bool :=
  unicode.hangul point || unicode.han point || unicode.hiragana point || unicode.katakana point

def isAsciiAlphanumeric (code : CodeUnit) : Bool :=
  (0x30 ≤ code && code ≤ 0x39) || (0x41 ≤ code && code ≤ 0x5A) || (0x61 ≤ code && code ≤ 0x7A)

/-- The weight of one code point. -/
def weightOf (unicode : UnicodeClasses) (weights : TokenWeights W) (point : JsString) : W :=
  let code := point.headD 0
  if code < 0x80 then if isAsciiAlphanumeric code then weights.latin else weights.other
  else if unicode.isCjk point then weights.cjk
  else if unicode.latin point || unicode.number point then weights.latin
  else if unicode.letter point then weights.otherLetter
  else weights.other

def estimateTokenWeight (runtime : Runtime) (text : JsString) : W :=
  (codePoints text).foldl
    (fun sum point => sum + weightOf runtime.unicode DEFAULT_TOKEN_WEIGHTS point) 0

end

end QuokyPlatform.Chunking
