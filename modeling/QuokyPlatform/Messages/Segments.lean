import Mathlib.Data.List.Infix
import QuokyPlatform.Foundations.Occurrences
import QuokyPlatform.Messages.Rendering

/-!
# The Telegram segment evaluator

The Telegram adapter evaluates message content a second time, on segments that remember whether
their text is Quoky's copy or a platform-rendered span. Its text agrees with Core's renderer
wherever no `fitLines` node is cut at an index that counts from the end of its text.
-/

namespace QuokyPlatform.Messages.Telegram
open Chunking
set_option autoImplicit false
set_option maxHeartbeats 250000

/-! ## Segments -/

/-- The whole text a segment is a piece of: a text of Quoky's copy or the rendering of a span. -/
inductive SegmentSource where
  | copy (text : JsString)
  | span (node : MessageNode)

/-- A piece of rendered text: Quoky copy (translatable) or an opaque span (never translated).
`source` is a ghost field that no function below reads. -/
structure TelegramSegment where
  text : JsString
  span : Bool
  source : SegmentSource

abbrev Segments := List TelegramSegment

def copy (text : JsString) : TelegramSegment := ⟨text, false, .copy text⟩

/-- The span of `node`, which renders to `text`. -/
def atom (node : NodeShape MessageContent) (text : JsString) : TelegramSegment :=
  ⟨text, true, .span (.node node)⟩

def concat (segments : Segments) : JsString := (segments.map TelegramSegment.text).flatten

def TelegramSegment.slice (segment : TelegramSegment) (start stop : ℤ) : TelegramSegment :=
  { segment with text := Messages.slice segment.text start stop }

/-- The segments covering `start` to `stop`, the first one starting at `offset`. -/
def sliceFrom (start stop : ℤ) : ℤ → Segments → Segments
  | _, [] => []
  | offset, segment :: rest =>
    let first := max (start - offset) 0
    let last := min (stop - offset) segment.text.length
    let kept := if first < last then [segment.slice first last] else []
    kept ++ sliceFrom start stop (offset + segment.text.length) rest

/-- The segments covering UTF-16 offsets `start` to `stop` of their concatenation. -/
def slice (segments : Segments) (start stop : ℤ) : Segments := sliceFrom start stop 0 segments

/-- The first `count` units of the segments. -/
def head (segments : Segments) (count : ℤ) : MessageLengthUnit → Segments
  | .utf16 => slice segments 0 count
  | .codePoints =>
    let kept := (Messages.slice (codePoints (concat segments)) 0 count).flatten
    slice segments 0 kept.length

def trim (segments : Segments) : Segments :=
  let text := concat segments
  let start : ℤ := text.length - (text.dropWhile isWhiteSpace).length
  let stop : ℤ := (text.rdropWhile isWhiteSpace).length
  if start ≥ stop then [] else slice segments start stop

def joinLines (lines : List Segments) : Segments := [copy newline].intercalate lines

/-! ## The layout nodes over segments -/

def layoutClip (content : Segments) (maxChars : ℤ) (unit : MessageLengthUnit) (trimmed : Bool)
    (after : Option Segments) : Segments :=
  let after := after.getD []
  let budget := maxChars - measure (concat after) unit
  let text := if trimmed then trim content else content
  if measure (concat text) unit ≤ budget then text ++ after
  else if budget ≤ 0 then after
  else head text (budget - 1) unit ++ [copy ellipsis] ++ after

def joinKept (omittedNote : Option JsString) (kept : List (FitLine Segments)) (dropped : Bool) :
    Segments :=
  let text := joinLines (kept.map FitLine.content)
  match dropped, omittedNote with
  | true, some note => text ++ [copy (newline ++ note)]
  | _, _ => text

def fitKept (maxChars : ℤ) (omittedNote : Option JsString) :
    ℕ → List (FitLine Segments) → Bool → Segments
  | 0, kept, dropped => joinKept omittedNote kept dropped
  | rounds + 1, kept, dropped =>
    if (concat (joinKept omittedNote kept dropped)).length > maxChars then
      match spliceLastDroppable kept with
      | none => joinKept omittedNote kept dropped
      | some fewer => fitKept maxChars omittedNote rounds fewer true
    else joinKept omittedNote kept dropped

def layoutFitLines (lines : List (FitLine Segments)) (maxChars : ℤ)
    (omittedNote : Option JsString) : Segments :=
  let text := fitKept maxChars omittedNote lines.length lines false
  if (concat text).length ≤ maxChars then text
  else slice text 0 (maxChars - 1) ++ [copy ellipsis]

def takeFitting (unit : MessageLengthUnit) (maxChars : ℤ) :
    ℤ → List (TakeLine Segments) → List (TakeLine Segments) × ℕ
  | _, [] => ([], 0)
  | length, line :: rest =>
    let size : ℤ := measure (concat line.content) unit + 1
    if length + size > maxChars then ([], ((line :: rest).filter TakeLine.item).length)
    else
      let (taken, omitted) := takeFitting unit maxChars (length + size) rest
      (line :: taken, omitted)

def layoutTakeLines (unit : MessageLengthUnit) (maxChars baseChars : ℤ) (heads tails : List Segments)
    (lines : List (TakeLine Segments)) (headOnlyWithLines dropTrailingHeadings : Bool)
    (omitted : Option Omitted) : Segments :=
  let length := baseChars + ((heads ++ tails).map fun line => (measure (concat line) unit : ℤ)).sum
  let (fitting, leftOut) := takeFitting unit maxChars length lines
  let taken := if dropTrailingHeadings then fitting.rdropWhile (!·.item) else fitting
  let count := (omitted.map Omitted.hidden).getD 0 + leftOut
  let closing := match omitted with
    | some note => if count > 0 then [[copy (note.before ++ decimal count ++ note.after)]] else []
    | none => []
  let shownHead := if headOnlyWithLines && taken.isEmpty then [] else heads
  joinLines (shownHead ++ (taken.map TakeLine.content ++ closing) ++ tails)

def layoutFirstFit (maxChars : ℤ) (unit : MessageLengthUnit) : List Segments → Segments → Segments
  | [], text => text
  | candidate :: rest, _ =>
    if measure (concat candidate) unit ≤ maxChars then candidate
    else layoutFirstFit maxChars unit rest candidate

/-! ## The evaluator -/

/-- One node over the segments of its contents. -/
def renderShape (markup : MessageMarkup) : NodeShape Segments → Segments
  | .text value => [copy value]
  | .untrusted value guard => [atom (.untrusted value guard) (markup.untrusted value guard)]
  | .link url => [atom (.link url) (markup.link url)]
  | .conversation ref => [atom (.conversation ref) (markup.conversation ref)]
  | .platformNote topic => [atom (.platformNote topic) (markup.platformNote topic)]
  | .clip content maxChars unit trimmed after => layoutClip content maxChars unit trimmed after
  | .fitLines lines maxChars omittedNote => layoutFitLines lines maxChars omittedNote
  | .takeLines unit maxChars baseChars heads tails lines headOnly dropHeadings omitted =>
    layoutTakeLines unit maxChars baseChars heads tails lines headOnly dropHeadings omitted
  | .firstFit candidates maxChars unit => layoutFirstFit maxChars unit candidates []

def renderNode (markup : MessageMarkup) : MessageNode → Segments :=
  MessageNode.fold (renderShape markup) List.flatten

def render (markup : MessageMarkup) : MessageContent → Segments :=
  foldContent (renderShape markup) List.flatten

/-- The rendered body as copy and span segments (a string body is one copy segment). -/
def telegramSegments (body : MessageBody) (markup : MessageMarkup) : Segments :=
  match body with
  | .text value => [copy value]
  | .content nodes => render markup nodes

/-- The Telegram plain text of a body: its segments translated, unless their text is not the
expected one; then nothing is translated. -/
def translateTelegramBody (translateCommonMark : Segments → JsString) (body : MessageBody)
    (markup : MessageMarkup) (expected : JsString) : JsString :=
  let segments := telegramSegments body markup
  if concat segments ≠ expected then expected else translateCommonMark segments

theorem renderNode_node (markup : MessageMarkup) (shape : NodeShape MessageContent) :
    renderNode markup (.node shape) = renderShape markup (shape.map (render markup)) :=
  MessageNode.fold_node _ _ shape

theorem render_cons (markup : MessageMarkup) (node : MessageNode) (nodes : MessageContent) :
    render markup (node :: nodes) = renderNode markup node ++ render markup nodes := rfl

/-! ## The text of cut, trimmed and joined segments -/

@[simp] theorem concat_nil : concat [] = [] := rfl

@[simp] theorem concat_cons (segment : TelegramSegment) (rest : Segments) :
    concat (segment :: rest) = segment.text ++ concat rest := rfl

@[simp] theorem concat_append (segments more : Segments) :
    concat (segments ++ more) = concat segments ++ concat more := by
  simp [concat]

@[simp] theorem copy_text (text : JsString) : (copy text).text = text := rfl

@[simp] theorem atom_text (node : NodeShape MessageContent) (text : JsString) :
    (atom node text).text = text := rfl

@[simp] theorem concat_copy (text : JsString) : concat [copy text] = text := by
  simp

theorem concat_flatten (lines : List Segments) :
    concat lines.flatten = (lines.map concat).flatten := by
  induction lines with
  | nil => rfl
  | cons line rest ih => simp [ih]

/-- What one segment gives to a cut is the cut of its text. -/
theorem concat_kept (start stop : ℤ) (segment : TelegramSegment) :
    concat (if max start 0 < min stop segment.text.length then
      [segment.slice (max start 0) (min stop segment.text.length)] else []) =
      (segment.text.take stop.toNat).drop start.toNat := by
  split_ifs with h
  · rw [concat_cons, concat_nil, List.append_nil, TelegramSegment.slice,
      slice_of_nonneg _ (by omega) (by omega)]
    have hstop : (min stop segment.text.length).toNat = min stop.toNat segment.text.length := by
      omega
    have hstart : (max start 0).toNat = start.toNat := by omega
    rw [hstop, hstart, ← List.take_take, List.take_length]
  · have hempty : ((segment.text.take stop.toNat).drop start.toNat).length = 0 := by
      rw [List.length_drop, List.length_take]
      omega
    exact (List.eq_nil_of_length_eq_zero hempty).symm

/-- A cut of segments covers the cut of their text; a negative end covers nothing. -/
theorem concat_sliceFrom (start stop offset : ℤ) (segments : Segments) :
    concat (sliceFrom start stop offset segments) =
      ((concat segments).take (stop - offset).toNat).drop (start - offset).toNat := by
  induction segments generalizing offset with
  | nil => simp [sliceFrom]
  | cons segment rest ih =>
    simp only [sliceFrom, concat_append, ih, concat_cons]
    rw [concat_kept, List.take_append, List.drop_append, List.length_take]
    congr 1
    have hstop : (stop - (offset + segment.text.length)).toNat =
        (stop - offset).toNat - segment.text.length := by omega
    rw [hstop]
    by_cases hin : (stop - offset).toNat ≤ segment.text.length
    · have hzero : (stop - offset).toNat - segment.text.length = 0 := by omega
      simp [hzero]
    · have hstart : (start - (offset + segment.text.length)).toNat =
          (start - offset).toNat - min (stop - offset).toNat segment.text.length := by omega
      rw [hstart]

theorem concat_slice (segments : Segments) (start stop : ℤ) :
    concat (slice segments start stop) =
      ((concat segments).take stop.toNat).drop start.toNat := by
  simpa [slice] using concat_sliceFrom start stop 0 segments

/-- The head of segments is the head of their text, for a count that is not negative. -/
theorem concat_head (segments : Segments) {count : ℤ} (h : 0 ≤ count) (unit : MessageLengthUnit) :
    concat (head segments count unit) = Messages.head (concat segments) count unit := by
  cases unit with
  | utf16 =>
    simp only [head, Messages.head, concat_slice]
    rw [slice_of_nonneg _ (le_refl 0) h]
  | codePoints =>
    simp only [head, Messages.head, concat_slice]
    rw [slice_of_nonneg _ (le_refl 0) h, Int.toNat_zero, List.drop_zero, List.drop_zero,
      Int.toNat_natCast]
    -- the kept code points are a prefix of the text
    have hsplit := List.take_append_drop count.toNat (codePoints (concat segments))
    have htext : ((codePoints (concat segments)).take count.toNat).flatten ++
        ((codePoints (concat segments)).drop count.toNat).flatten = concat segments := by
      rw [← List.flatten_append, hsplit, codePoints_flatten]
    generalize ((codePoints (concat segments)).take count.toNat).flatten = kept at htext ⊢
    rw [← htext]
    exact List.take_left

/-- Trimming both ends is cutting the text between its first and its last kept unit. -/
theorem trim_eq_slice (text : JsString) :
    Chunking.trim text = if (text.length : ℤ) - (text.dropWhile isWhiteSpace).length ≥
        (text.rdropWhile isWhiteSpace).length then []
      else (text.take (text.rdropWhile isWhiteSpace).length).drop
        (text.length - (text.dropWhile isWhiteSpace).length) := by
  have hsplit := List.takeWhile_append_dropWhile (p := isWhiteSpace) (l := text)
  have hlen := congrArg List.length hsplit
  rw [List.length_append] at hlen
  have htake : text.take (text.rdropWhile isWhiteSpace).length = text.rdropWhile isWhiteSpace :=
    (List.prefix_iff_eq_take.mp (List.rdropWhile_prefix isWhiteSpace text)).symm
  have hstart : text.length - (text.dropWhile isWhiteSpace).length =
      (text.takeWhile isWhiteSpace).length := by omega
  rw [htake, hstart]
  by_cases hrest : text.dropWhile isWhiteSpace = []
  · have hall : text.rdropWhile isWhiteSpace = [] := by
      rw [List.rdropWhile_eq_nil_iff]
      exact List.dropWhile_eq_nil_iff.mp hrest
    simp [Chunking.trim, hrest, hall]
  · -- the leading white space stays when only the end is trimmed
    have hkept : (text.dropWhile isWhiteSpace).rdropWhile isWhiteSpace ≠ [] := by
      rw [Ne, List.rdropWhile_eq_nil_iff]
      intro hall
      have hhead := List.head_dropWhile_not isWhiteSpace hrest
      have hws := hall _ (List.head_mem hrest)
      rw [hws] at hhead
      cases hhead
    have hend : text.rdropWhile isWhiteSpace = text.takeWhile isWhiteSpace ++
        (text.dropWhile isWhiteSpace).rdropWhile isWhiteSpace := by
      conv_lhs => rw [← hsplit]
      rw [rdropWhile_append, if_neg hkept]
    have hpos := List.length_pos_of_ne_nil hkept
    have hendlen := congrArg List.length hend
    rw [List.length_append] at hendlen
    rw [if_neg (by omega), hend, List.drop_left]
    rfl

theorem concat_trim (segments : Segments) : concat (trim segments) = Chunking.trim (concat segments) := by
  rw [trim_eq_slice, trim]
  split_ifs with h
  · rfl
  · rw [concat_slice]
    congr 1
    omega

theorem concat_joinLines (lines : List Segments) :
    concat (joinLines lines) = newline.intercalate (lines.map concat) := by
  induction lines with
  | nil => rfl
  | cons line rest ih =>
    cases rest with
    | nil => simp [joinLines]
    | cons next more =>
      simp only [joinLines, List.intercalate_cons_cons, List.map_cons, concat_append] at ih ⊢
      rw [ih]
      rfl

/-! ## The layout nodes agree -/

theorem concat_layoutClip (content : Segments) (maxChars : ℤ) (unit : MessageLengthUnit)
    (trimmed : Bool) (after : Option Segments) :
    concat (layoutClip content maxChars unit trimmed after) =
      renderClip (concat content) maxChars unit trimmed (after.map concat) := by
  have hafter : (after.map concat).getD [] = concat (after.getD []) := by
    cases after <;> rfl
  have htext : concat (if trimmed then trim content else content) =
      if trimmed then Chunking.trim (concat content) else concat content := by
    cases trimmed
    · rfl
    · exact concat_trim content
  simp only [layoutClip, renderClip, hafter, ← htext]
  generalize (if trimmed then trim content else content) = text
  split_ifs with hfits hbudget
  · exact concat_append _ _
  · rfl
  · rw [concat_append, concat_append, concat_head _ (by omega)]
    rfl

theorem spliceLastDroppable_map {T U : Type} (f : T → U) (lines : List (FitLine T)) :
    spliceLastDroppable (lines.map (FitLine.map f)) =
      (spliceLastDroppable lines).map (List.map (FitLine.map f)) := by
  induction lines with
  | nil => rfl
  | cons line rest ih =>
    simp only [List.map_cons, spliceLastDroppable, ih]
    cases spliceLastDroppable rest with
    | some kept => rfl
    | none => by_cases h : line.droppable <;> simp [FitLine.map, h]

theorem concat_joinKept (omittedNote : Option JsString) (kept : List (FitLine Segments))
    (dropped : Bool) : concat (joinKept omittedNote kept dropped) =
      Messages.joinKept omittedNote (kept.map (FitLine.map concat)) dropped := by
  have htext : concat (joinLines (kept.map FitLine.content)) =
      newline.intercalate ((kept.map (FitLine.map concat)).map FitLine.content) := by
    simp [concat_joinLines, FitLine.map, Function.comp_def]
  cases dropped with
  | false => exact htext
  | true =>
    cases omittedNote with
    | none => exact htext
    | some note =>
      simp only [joinKept, Messages.joinKept, concat_append, concat_copy, htext,
        List.append_assoc]

theorem concat_fitKept (maxChars : ℤ) (omittedNote : Option JsString) (rounds : ℕ)
    (kept : List (FitLine Segments)) (dropped : Bool) :
    concat (fitKept maxChars omittedNote rounds kept dropped) =
      Messages.fitKept maxChars omittedNote rounds (kept.map (FitLine.map concat)) dropped := by
  induction rounds generalizing kept dropped with
  | zero => exact concat_joinKept omittedNote kept dropped
  | succ rounds ih =>
    simp only [fitKept, Messages.fitKept, spliceLastDroppable_map, ← concat_joinKept]
    split_ifs with hlong
    · cases spliceLastDroppable kept with
      | none => rfl
      | some fewer => exact ih fewer true
    · rfl

theorem takeFitting_concat (unit : MessageLengthUnit) (maxChars length : ℤ)
    (lines : List (TakeLine Segments)) :
    Messages.takeFitting unit maxChars length (lines.map (TakeLine.map concat)) =
      ((takeFitting unit maxChars length lines).1.map (TakeLine.map concat),
        (takeFitting unit maxChars length lines).2) := by
  induction lines generalizing length with
  | nil => rfl
  | cons line rest ih =>
    have hitems : (((line :: rest).map (TakeLine.map concat)).filter TakeLine.item).length =
        ((line :: rest).filter TakeLine.item).length := by
      rw [List.filter_map, List.length_map]
      rfl
    have hsize : measure ((line.map concat).content) unit = measure (concat line.content) unit := rfl
    rw [List.map_cons] at hitems ⊢
    simp only [takeFitting, Messages.takeFitting, hitems, hsize, ih]
    split_ifs with hlong <;> rfl

theorem rdropWhile_map {α β : Type} (p : β → Bool) (f : α → β) (values : List α) :
    (values.map f).rdropWhile p = (values.rdropWhile (p ∘ f)).map f := by
  rw [List.rdropWhile, ← List.map_reverse, List.dropWhile_map, ← List.map_reverse]
  rfl

theorem concat_layoutTakeLines (unit : MessageLengthUnit) (maxChars baseChars : ℤ)
    (heads tails : List Segments) (lines : List (TakeLine Segments))
    (headOnlyWithLines dropTrailingHeadings : Bool) (omitted : Option Omitted) :
    concat (layoutTakeLines unit maxChars baseChars heads tails lines headOnlyWithLines
        dropTrailingHeadings omitted) =
      renderTakeLines unit maxChars baseChars (heads.map concat) (tails.map concat)
        (lines.map (TakeLine.map concat)) headOnlyWithLines dropTrailingHeadings omitted := by
  have hlength : ((heads.map concat ++ tails.map concat).map fun line => (measure line unit : ℤ)).sum =
      ((heads ++ tails).map fun line => (measure (concat line) unit : ℤ)).sum := by
    rw [← List.map_append, List.map_map]
    rfl
  simp only [layoutTakeLines, renderTakeLines, concat_joinLines, hlength, takeFitting_concat]
  generalize takeFitting unit maxChars _ lines = fitting
  have htaken : (if dropTrailingHeadings then (fitting.1.map (TakeLine.map concat)).rdropWhile (!·.item)
      else fitting.1.map (TakeLine.map concat)) =
      (if dropTrailingHeadings then fitting.1.rdropWhile (!·.item) else fitting.1).map
        (TakeLine.map concat) := by
    cases dropTrailingHeadings
    · rfl
    · exact rdropWhile_map _ _ _
  rw [htaken]
  generalize (if dropTrailingHeadings then fitting.1.rdropWhile (!·.item) else fitting.1) = taken
  have hcontents : (taken.map (TakeLine.map concat)).map TakeLine.content =
      (taken.map TakeLine.content).map concat := by
    rw [List.map_map, List.map_map]
    rfl
  congr 1
  rw [List.map_append, List.map_append, List.map_append, hcontents, List.isEmpty_map]
  congr 2
  · cases headOnlyWithLines && taken.isEmpty <;> rfl
  · cases omitted with
    | none => rfl
    | some note => split_ifs <;> simp

theorem concat_layoutFirstFit (maxChars : ℤ) (unit : MessageLengthUnit)
    (candidates : List Segments) (text : Segments) :
    concat (layoutFirstFit maxChars unit candidates text) =
      renderFirstFit maxChars unit (candidates.map concat) (concat text) := by
  induction candidates generalizing text with
  | nil => rfl
  | cons candidate rest ih =>
    simp only [layoutFirstFit, List.map_cons, renderFirstFit]
    split_ifs with hfits
    · rfl
    · exact ih candidate

/-! ## Where a cut counts from the end -/

/-- The lines that may not be dropped, with the note when there are others. -/
def undroppable (lines : List (FitLine JsString)) (omittedNote : Option JsString) : JsString :=
  Messages.joinKept omittedNote (lines.filter (!·.droppable)) (lines.any FitLine.droppable)

/-- A `fitLines` node over rendered lines is not cut at an index that counts from the end of a
text that reaches back so far: its budget is positive, its lines fit, or what cannot be dropped is
short. -/
def CutsForward (lines : List (FitLine JsString)) (maxChars : ℤ) (omittedNote : Option JsString) :
    Prop :=
  1 ≤ maxChars ∨ ((Messages.joinKept omittedNote lines false).length : ℤ) ≤ maxChars ∨
    ((undroppable lines omittedNote).length : ℤ) ≤ 1 - maxChars

theorem spliceLastDroppable_none {T : Type} {lines : List (FitLine T)}
    (h : spliceLastDroppable lines = none) : ∀ line ∈ lines, line.droppable = false := by
  induction lines with
  | nil => simp
  | cons line rest ih =>
    rw [spliceLastDroppable] at h
    cases hrest : spliceLastDroppable rest with
    | some kept =>
      rw [hrest] at h
      cases h
    | none =>
      simp only [hrest] at h
      have hline : line.droppable = false := by
        cases hd : line.droppable with
        | false => rfl
        | true => simp [hd] at h
      exact List.forall_mem_cons.mpr ⟨hline, ih hrest⟩

/-- Splicing takes out one droppable line and no other. -/
theorem spliceLastDroppable_some {T : Type} {lines fewer : List (FitLine T)}
    (h : spliceLastDroppable lines = some fewer) :
    fewer.filter (!·.droppable) = lines.filter (!·.droppable) ∧
      lines.countP FitLine.droppable = fewer.countP FitLine.droppable + 1 := by
  induction lines generalizing fewer with
  | nil => cases h
  | cons line rest ih =>
    rw [spliceLastDroppable] at h
    cases hrest : spliceLastDroppable rest with
    | some kept =>
      simp only [hrest, Option.some.injEq] at h
      have hkept := ih hrest
      subst h
      by_cases hd : line.droppable <;> simp [hd, hkept.1, hkept.2]
    | none =>
      simp only [hrest] at h
      by_cases hd : line.droppable
      · simp only [hd, if_true, Option.some.injEq] at h
        subst h
        simp [hd]
      · simp [hd] at h

theorem filter_of_none_droppable {T : Type} {lines : List (FitLine T)}
    (h : ∀ line ∈ lines, line.droppable = false) :
    lines.filter (!·.droppable) = lines ∧ lines.any FitLine.droppable = false := by
  constructor
  · exact List.filter_eq_self.mpr fun line hline => by simp [h line hline]
  · exact List.any_eq_false.mpr fun line hline => by simp [h line hline]

/-- The loop ends with a text that fits or with what cannot be dropped. -/
theorem fitKept_settles (maxChars : ℤ) (omittedNote : Option JsString) (rounds : ℕ)
    (kept : List (FitLine JsString)) (dropped : Bool)
    (h : kept.countP FitLine.droppable ≤ rounds) :
    ((Messages.fitKept maxChars omittedNote rounds kept dropped).length : ℤ) ≤ maxChars ∨
      Messages.fitKept maxChars omittedNote rounds kept dropped =
        Messages.joinKept omittedNote (kept.filter (!·.droppable))
          (dropped || kept.any FitLine.droppable) := by
  induction rounds generalizing kept dropped with
  | zero =>
    have hnone : ∀ line ∈ kept, line.droppable = false := by
      simpa using List.countP_eq_zero.mp (Nat.le_zero.mp h)
    have hkept := filter_of_none_droppable hnone
    exact .inr (by rw [hkept.1, hkept.2, Bool.or_false, Messages.fitKept])
  | succ rounds ih =>
    by_cases hlong : ((Messages.joinKept omittedNote kept dropped).length : ℤ) > maxChars
    · cases hsplice : spliceLastDroppable kept with
      | none =>
        have hkept := filter_of_none_droppable (spliceLastDroppable_none hsplice)
        right
        simp [Messages.fitKept, hlong, hsplice, hkept.1, hkept.2]
      | some fewer =>
        have hfewer := spliceLastDroppable_some hsplice
        have hany : kept.any FitLine.droppable = true := by
          have hpos : 0 < kept.countP FitLine.droppable := by omega
          simpa [List.countP_pos_iff] using hpos
        have hrest := ih fewer true (by omega)
        rw [hfewer.1, Bool.true_or] at hrest
        simpa [Messages.fitKept, hlong, hsplice, hany] using hrest
    · left
      simp only [Messages.fitKept, if_neg hlong]
      omega

theorem length_intercalate_le_of_sublist {lines more : List JsString} (h : lines.Sublist more) :
    (newline.intercalate lines).length ≤ (newline.intercalate more).length := by
  induction h with
  | slnil => simp
  | @cons lines more line hsub ih =>
    cases more with
    | nil => simp [List.sublist_nil.mp hsub]
    | cons next rest =>
      simp only [List.intercalate_cons_cons, List.length_append]
      omega
  | @cons_cons lines more line hsub ih =>
    cases lines with
    | nil =>
      cases more <;> simp
    | cons first others =>
      cases more with
      | nil => cases hsub
      | cons next rest =>
        simp only [List.intercalate_cons_cons, List.length_append] at ih ⊢
        omega

theorem length_joinKept_le_of_sublist {omittedNote : Option JsString}
    {kept more : List (FitLine JsString)} (dropped : Bool) (h : kept.Sublist more) :
    (Messages.joinKept omittedNote kept dropped).length ≤
      (Messages.joinKept omittedNote more dropped).length := by
  have hlines := length_intercalate_le_of_sublist (h.map FitLine.content)
  cases dropped with
  | false => exact hlines
  | true =>
    cases omittedNote with
    | none => exact hlines
    | some note =>
      simp only [Messages.joinKept, List.length_append]
      omega

/-- What cannot be dropped stays, with the note once a line was dropped. -/
theorem undroppable_stays (maxChars : ℤ) (omittedNote : Option JsString) (rounds : ℕ)
    (kept : List (FitLine JsString)) :
    (Messages.joinKept omittedNote (kept.filter (!·.droppable)) true).length ≤
      (Messages.fitKept maxChars omittedNote rounds kept true).length := by
  induction rounds generalizing kept with
  | zero => exact length_joinKept_le_of_sublist true List.filter_sublist
  | succ rounds ih =>
    rw [Messages.fitKept]
    split_ifs with hlong
    · cases hsplice : spliceLastDroppable kept with
      | none => exact length_joinKept_le_of_sublist true List.filter_sublist
      | some fewer =>
        rw [← (spliceLastDroppable_some hsplice).1]
        exact ih fewer
    · exact length_joinKept_le_of_sublist true List.filter_sublist

/-- Lines that do not fit leave at least what cannot be dropped. -/
theorem undroppable_le_fitKept {maxChars : ℤ} {omittedNote : Option JsString}
    {lines : List (FitLine JsString)}
    (h : maxChars < (Messages.joinKept omittedNote lines false).length) :
    (undroppable lines omittedNote).length ≤
      (Messages.fitKept maxChars omittedNote lines.length lines false).length := by
  cases lines with
  | nil => exact le_refl _
  | cons line rest =>
    rw [List.length_cons, Messages.fitKept, if_pos h]
    cases hsplice : spliceLastDroppable (line :: rest) with
    | none =>
      have hkept := filter_of_none_droppable (spliceLastDroppable_none hsplice)
      rw [undroppable, hkept.1, hkept.2]
    | some fewer =>
      have hfewer := spliceLastDroppable_some hsplice
      have hany : (line :: rest).any FitLine.droppable = true := by
        have hpos : 0 < (line :: rest).countP FitLine.droppable := by omega
        simpa [List.countP_pos_iff] using hpos
      rw [undroppable, hany, ← hfewer.1]
      exact undroppable_stays maxChars omittedNote rest.length fewer

/-- The cut of a `fitLines` text on segments and on strings. -/
theorem concat_layoutFitLines_eq (lines : List (FitLine Segments)) (maxChars : ℤ)
    (omittedNote : Option JsString) :
    concat (layoutFitLines lines maxChars omittedNote) =
      let text := Messages.fitKept maxChars omittedNote lines.length
        (lines.map (FitLine.map concat)) false
      if text.length ≤ maxChars then text else text.take (maxChars - 1).toNat ++ ellipsis := by
  simp only [layoutFitLines, ← concat_fitKept]
  split_ifs with hfits
  · rfl
  · simp [concat_slice]

theorem fitKept_of_fits {maxChars : ℤ} {omittedNote : Option JsString} {rounds : ℕ}
    {kept : List (FitLine JsString)} {dropped : Bool}
    (h : ((Messages.joinKept omittedNote kept dropped).length : ℤ) ≤ maxChars) :
    Messages.fitKept maxChars omittedNote rounds kept dropped =
      Messages.joinKept omittedNote kept dropped := by
  cases rounds with
  | zero => rfl
  | succ rounds => rw [Messages.fitKept, if_neg (by omega)]

/-- A cut at a negative index keeps the text up to that many units before its end. -/
theorem slice_to_negative {α : Type} (values : List α) {stop : ℤ} (h : stop < 0) :
    Messages.slice values 0 stop = values.take (values.length + stop).toNat := by
  simp [Messages.slice, sliceIndex, h]

theorem concat_layoutFitLines {lines : List (FitLine Segments)} {maxChars : ℤ}
    {omittedNote : Option JsString}
    (h : CutsForward (lines.map (FitLine.map concat)) maxChars omittedNote) :
    concat (layoutFitLines lines maxChars omittedNote) =
      renderFitLines (lines.map (FitLine.map concat)) maxChars omittedNote := by
  have hsettles := fitKept_settles maxChars omittedNote lines.length
    (lines.map (FitLine.map concat)) false (by rw [← List.length_map]; exact List.countP_le_length)
  rw [concat_layoutFitLines_eq, renderFitLines, List.length_map]
  generalize htext : Messages.fitKept maxChars omittedNote lines.length
    (lines.map (FitLine.map concat)) false = text at hsettles
  simp only
  split_ifs with hfits
  · rfl
  · congr 1
    by_cases hpos : 1 ≤ maxChars
    · simp [slice_of_nonneg text (le_refl 0) (show (0 : ℤ) ≤ maxChars - 1 by omega)]
    · -- what is left cannot be dropped and is too short to be cut from its end
      have hshort : (text.length : ℤ) ≤ 1 - maxChars := by
        cases h with
        | inl h => exact absurd h hpos
        | inr h =>
          cases h with
          | inl hjoin =>
            rw [fitKept_of_fits hjoin] at htext
            exact absurd (htext ▸ hjoin) hfits
          | inr hundroppable =>
            cases hsettles with
            | inl hle => exact absurd hle hfits
            | inr heq =>
              rw [heq, Bool.false_or]
              exact hundroppable
      have hneg : maxChars - 1 < 0 := by omega
      have hcore : ((text.length : ℤ) + (maxChars - 1)).toNat = 0 := by omega
      have htelegram : (maxChars - 1).toNat = 0 := by omega
      rw [slice_to_negative text hneg, hcore, htelegram]

/-- Cut from its end, the string keeps more text than the segments do. -/
theorem concat_layoutFitLines_lt {lines : List (FitLine Segments)} {maxChars : ℤ}
    {omittedNote : Option JsString}
    (h : ¬ CutsForward (lines.map (FitLine.map concat)) maxChars omittedNote) :
    (concat (layoutFitLines lines maxChars omittedNote)).length <
      (renderFitLines (lines.map (FitLine.map concat)) maxChars omittedNote).length := by
  simp only [CutsForward, not_or, not_le] at h
  have hkept := undroppable_le_fitKept h.2.1
  rw [concat_layoutFitLines_eq, renderFitLines]
  rw [List.length_map] at hkept ⊢
  generalize Messages.fitKept maxChars omittedNote lines.length
    (lines.map (FitLine.map concat)) false = text at hkept
  have hlong : ¬ (text.length : ℤ) ≤ maxChars := by omega
  have hneg : maxChars - 1 < 0 := by omega
  simp only [if_neg hlong, slice_to_negative text hneg, List.length_append, List.length_take]
  omega

/-! ## The segments have the rendered text -/

/-- No `fitLines` node of the content is cut at an index that counts from the end. -/
def ContentCutsForward (markup : MessageMarkup) (nodes : MessageContent) : Prop :=
  ∀ lines maxChars omittedNote,
    Occurs (.node (.fitLines lines maxChars omittedNote)) nodes →
      CutsForward (lines.map (FitLine.map (Messages.render markup))) maxChars omittedNote

/-- A node that is not cut so, over contents that agree, agrees. -/
theorem concat_renderShape (markup : MessageMarkup) {shape : NodeShape Segments}
    (h : ∀ lines maxChars omittedNote, shape = .fitLines lines maxChars omittedNote →
      CutsForward (lines.map (FitLine.map concat)) maxChars omittedNote) :
    concat (renderShape markup shape) = Messages.renderShape markup (shape.map concat) := by
  cases shape with
  | clip content maxChars unit trimmed after =>
    exact concat_layoutClip content maxChars unit trimmed after
  | fitLines lines maxChars omittedNote =>
    exact concat_layoutFitLines (h lines maxChars omittedNote rfl)
  | takeLines unit maxChars baseChars heads tails lines headOnly dropHeadings omitted =>
    exact concat_layoutTakeLines unit maxChars baseChars heads tails lines headOnly dropHeadings
      omitted
  | firstFit candidates maxChars unit => exact concat_layoutFirstFit maxChars unit candidates []
  | _ => exact List.append_nil _

theorem concat_render_of_nodes (markup : MessageMarkup) {nodes : MessageContent}
    (h : ∀ node ∈ nodes, concat (renderNode markup node) = Messages.renderNode markup node) :
    concat (render markup nodes) = Messages.render markup nodes := by
  induction nodes with
  | nil => rfl
  | cons node rest ih =>
    rw [render_cons, Messages.render_cons, concat_append,
      h node List.mem_cons_self, ih fun n hn => h n (List.mem_cons_of_mem _ hn)]

/-- The contents of a node over the segments of its contents, as text. -/
theorem map_concat_render (markup : MessageMarkup) {shape : NodeShape MessageContent}
    (h : ∀ nodes ∈ shape.contents, concat (render markup nodes) = Messages.render markup nodes) :
    (shape.map (render markup)).map concat = shape.map (Messages.render markup) := by
  rw [NodeShape.map_map]
  exact NodeShape.map_congr h

theorem concat_renderNode_of_contents (markup : MessageMarkup) {shape : NodeShape MessageContent}
    (h : ∀ nodes ∈ shape.contents, concat (render markup nodes) = Messages.render markup nodes)
    (hcut : ∀ lines maxChars omittedNote, shape = .fitLines lines maxChars omittedNote →
      CutsForward (lines.map (FitLine.map (Messages.render markup))) maxChars omittedNote) :
    concat (renderNode markup (.node shape)) = Messages.renderNode markup (.node shape) := by
  have hmap := map_concat_render markup h
  rw [renderNode_node, Messages.renderNode_node, ← hmap]
  apply concat_renderShape
  intro lines maxChars omittedNote hshape
  cases shape with
  | fitLines own ownMax ownNote =>
    cases hshape
    have hlines := (NodeShape.fitLines.inj hmap).1
    rw [hlines]
    exact hcut own maxChars omittedNote rfl
  | _ => cases hshape

theorem ContentCutsForward.inside {markup : MessageMarkup} {nodes contents : MessageContent}
    {shape : NodeShape MessageContent} (h : ContentCutsForward markup nodes)
    (hnode : MessageNode.node shape ∈ nodes) (hcontents : contents ∈ shape.contents) :
    ContentCutsForward markup contents :=
  fun lines maxChars omittedNote ho => h lines maxChars omittedNote (.inside hnode hcontents ho)

theorem concat_renderNode (markup : MessageMarkup) (node : MessageNode)
    (h : ContentCutsForward markup [node]) :
    concat (renderNode markup node) = Messages.renderNode markup node := by
  induction node using MessageNode.contents_induction with
  | step shape ih =>
    apply concat_renderNode_of_contents
    · intro nodes hnodes
      have hcontents := h.inside List.mem_cons_self hnodes
      apply concat_render_of_nodes
      intro node hnode
      apply ih nodes hnodes node hnode
      exact fun lines maxChars omittedNote ho =>
        hcontents lines maxChars omittedNote (ho.of_singleton hnode)
    · intro lines maxChars omittedNote hshape
      exact h lines maxChars omittedNote (.here (by rw [hshape]; exact List.mem_cons_self))

theorem concat_render (markup : MessageMarkup) {nodes : MessageContent}
    (h : ContentCutsForward markup nodes) :
    concat (render markup nodes) = Messages.render markup nodes := by
  apply concat_render_of_nodes
  intro node hnode
  apply concat_renderNode
  exact fun lines maxChars omittedNote ho =>
    h lines maxChars omittedNote (ho.of_singleton hnode)

/-- Contents below the nodes of `nodes` cut forward. -/
def InsidesCutForward (markup : MessageMarkup) (nodes : MessageContent) : Prop :=
  ∀ shape, MessageNode.node shape ∈ nodes → ∀ contents ∈ shape.contents,
    ContentCutsForward markup contents

/-- A node over contents that agree is never longer on segments, and shorter when it is cut at an
index that counts from the end. -/
theorem length_concat_renderNode (markup : MessageMarkup) {shape : NodeShape MessageContent}
    (h : ∀ contents ∈ shape.contents, ContentCutsForward markup contents) :
    (concat (renderNode markup (.node shape))).length ≤
        (Messages.renderNode markup (.node shape)).length ∧
      ∀ lines maxChars omittedNote, shape = .fitLines lines maxChars omittedNote →
        ¬ CutsForward (lines.map (FitLine.map (Messages.render markup))) maxChars omittedNote →
        (concat (renderNode markup (.node shape))).length <
          (Messages.renderNode markup (.node shape)).length := by
  have hagree : ∀ contents ∈ shape.contents,
      concat (render markup contents) = Messages.render markup contents :=
    fun contents hc => concat_render markup (h contents hc)
  have hlt : ∀ lines maxChars omittedNote, shape = .fitLines lines maxChars omittedNote →
      ¬ CutsForward (lines.map (FitLine.map (Messages.render markup))) maxChars omittedNote →
      (concat (renderNode markup (.node shape))).length <
        (Messages.renderNode markup (.node shape)).length := by
    intro lines maxChars omittedNote hshape hcut
    subst hshape
    have hmap := map_concat_render markup hagree
    have hlines := (NodeShape.fitLines.inj hmap).1
    rw [renderNode_node, Messages.renderNode_node, ← hmap]
    rw [← hlines] at hcut
    exact concat_layoutFitLines_lt hcut
  refine ⟨?_, hlt⟩
  by_cases hcut : ∀ lines maxChars omittedNote, shape = .fitLines lines maxChars omittedNote →
      CutsForward (lines.map (FitLine.map (Messages.render markup))) maxChars omittedNote
  · rw [concat_renderNode_of_contents markup hagree hcut]
  · push Not at hcut
    obtain ⟨lines, maxChars, omittedNote, hshape, hcut⟩ := hcut
    exact Nat.le_of_lt (hlt lines maxChars omittedNote hshape hcut)

theorem InsidesCutForward.tail {markup : MessageMarkup} {node : MessageNode}
    {rest : MessageContent} (h : InsidesCutForward markup (node :: rest)) :
    InsidesCutForward markup rest :=
  fun shape hmem => h shape (List.mem_cons_of_mem _ hmem)

theorem length_concat_render_le (markup : MessageMarkup) {nodes : MessageContent}
    (h : InsidesCutForward markup nodes) :
    (concat (render markup nodes)).length ≤ (Messages.render markup nodes).length := by
  induction nodes with
  | nil => exact le_refl _
  | cons node rest ih =>
    cases node with
    | node shape =>
      have hnode := (length_concat_renderNode markup (h shape List.mem_cons_self)).1
      have hrest := ih h.tail
      rw [render_cons, Messages.render_cons, concat_append, List.length_append,
        List.length_append]
      omega

theorem length_concat_render_lt (markup : MessageMarkup) {nodes : MessageContent}
    (h : InsidesCutForward markup nodes) {lines : List (FitLine MessageContent)} {maxChars : ℤ}
    {omittedNote : Option JsString}
    (hmem : MessageNode.node (.fitLines lines maxChars omittedNote) ∈ nodes)
    (hcut : ¬ CutsForward (lines.map (FitLine.map (Messages.render markup))) maxChars omittedNote) :
    (concat (render markup nodes)).length < (Messages.render markup nodes).length := by
  induction nodes with
  | nil => cases hmem
  | cons node rest ih =>
    rw [render_cons, Messages.render_cons, concat_append, List.length_append,
      List.length_append]
    have hrest := length_concat_render_le markup h.tail
    cases List.mem_cons.mp hmem with
    | inl heq =>
      have hnode := (length_concat_renderNode markup
        (h _ (heq ▸ List.mem_cons_self))).2 lines maxChars omittedNote rfl hcut
      rw [← heq]
      omega
    | inr hmem =>
      have hlt := ih h.tail hmem
      cases node with
      | node shape =>
        have hnode := (length_concat_renderNode markup (h shape List.mem_cons_self)).1
        omega

/-- Where the contents below its nodes cut forward, the content agrees exactly when it does. -/
theorem concat_render_iff (markup : MessageMarkup) {nodes : MessageContent}
    (h : InsidesCutForward markup nodes) :
    concat (render markup nodes) = Messages.render markup nodes ↔
      ContentCutsForward markup nodes := by
  refine ⟨fun heq lines maxChars omittedNote ho => ?_, concat_render markup⟩
  cases ho with
  | here hmem =>
    by_contra hcut
    have hlt := length_concat_render_lt markup h hmem hcut
    rw [heq] at hlt
    exact lt_irrefl _ hlt
  | inside hmem hc ho => exact h _ hmem _ hc lines maxChars omittedNote ho

end QuokyPlatform.Messages.Telegram
