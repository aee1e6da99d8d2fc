import QuokyPlatform.Messages.Content

/-!
# Core's renderer

The evaluation of message content with a platform's markup. A length budget measures the rendered
text, so every platform keeps what fits in its own rendering; content without a platform-rendered
span renders to its plain text whatever the markup is.
-/

namespace QuokyPlatform.Messages
open Chunking
set_option autoImplicit false
set_option maxHeartbeats 250000

/-! ## Slices and measures of a string -/

/-- The position an index argument of `slice` stands for: a negative one counts from the end. -/
def sliceIndex (length : ℕ) (index : ℤ) : ℕ :=
  if index < 0 then (length + index).toNat else min index.toNat length

/-- `slice` of a string or an array. -/
def slice {α : Type} (values : List α) (start stop : ℤ) : List α :=
  (values.take (sliceIndex values.length stop)).drop (sliceIndex values.length start)

theorem slice_of_nonneg {α : Type} (values : List α) {start stop : ℤ} (hstart : 0 ≤ start)
    (hstop : 0 ≤ stop) : slice values start stop = (values.take stop.toNat).drop start.toNat := by
  have hs : ¬ start < 0 := by omega
  have ht : ¬ stop < 0 := by omega
  simp only [slice, sliceIndex, hs, ht, if_false]
  rw [← List.take_take, List.take_length]
  by_cases h : start.toNat ≤ values.length
  · rw [min_eq_left h]
  · have hlong : values.length ≤ start.toNat := by omega
    rw [min_eq_right hlong, List.drop_eq_nil_of_le (List.length_take_le' _ _),
      List.drop_eq_nil_of_le (le_trans (List.length_take_le' _ _) hlong)]

def newline : JsString := [0x0A]

def ellipsis : JsString := [0x2026]

/-- An integer as template literals write it. -/
def decimal (value : ℤ) : JsString := (toString value).toList.map fun c => UInt16.ofNat c.toNat

/-- A decimal number is written with digits and perhaps a minus sign. -/
theorem mem_decimal {value : ℤ} {unit : CodeUnit} (h : unit ∈ decimal value) :
    unit = 0x2D ∨ 48 ≤ unit.toNat ∧ unit.toNat ≤ 57 := by
  have hrepr : ∀ (n : ℕ), ∀ c ∈ (Nat.repr n).toList, c.isDigit = true := by
    intro n c hc
    rw [Nat.repr, String.toList_ofList] at hc
    exact Nat.isDigit_of_mem_toDigits (by omega) (by omega) hc
  have hdigit : ∀ (n : ℕ), ∀ c ∈ (Nat.repr n).toList,
      48 ≤ (UInt16.ofNat c.toNat).toNat ∧ (UInt16.ofNat c.toNat).toNat ≤ 57 := by
    intro n c hc
    have hd := hrepr n c hc
    simp only [Char.isDigit, Bool.and_eq_true, decide_eq_true_eq] at hd
    have hlow : 48 ≤ c.toNat := hd.1
    have hhigh : c.toNat ≤ 57 := hd.2
    rw [UInt16.toNat_ofNat']
    omega
  obtain ⟨c, hc, rfl⟩ := List.mem_map.mp h
  cases value with
  | ofNat n => exact .inr (hdigit n c hc)
  | negSucc n =>
    rw [show toString (Int.negSucc n) = "-" ++ Nat.repr (n + 1) from rfl, String.toList_append] at hc
    cases List.mem_append.mp hc with
    | inl hminus =>
      left
      have hcase : c = '-' := by simpa using hminus
      rw [hcase]
      rfl
    | inr hmem => exact .inr (hdigit _ c hmem)

def measure (text : JsString) : MessageLengthUnit → ℕ
  | .utf16 => text.length
  | .codePoints => (codePoints text).length

def head (text : JsString) (count : ℤ) : MessageLengthUnit → JsString
  | .utf16 => slice text 0 count
  | .codePoints => (slice (codePoints text) 0 count).flatten

/-- The code points of a text in order are the text. -/
theorem codePoints_flatten (text : JsString) : (codePoints text).flatten = text := by
  fun_induction codePoints text with
  | case1 => rfl
  | case2 unit => rfl
  | case3 first second rest hpair ih => simp [ih]
  | case4 first second rest hpair ih => simp [ih]

/-! ## The layout nodes over rendered contents -/

def renderClip (content : JsString) (maxChars : ℤ) (unit : MessageLengthUnit) (trimmed : Bool)
    (after : Option JsString) : JsString :=
  let after := after.getD []
  let budget := maxChars - measure after unit
  let text := if trimmed then trim content else content
  if measure text unit ≤ budget then text ++ after
  else if budget ≤ 0 then after
  else head text (budget - 1) unit ++ ellipsis ++ after

/-- The kept lines without the last droppable one. -/
def spliceLastDroppable {T : Type} : List (FitLine T) → Option (List (FitLine T))
  | [] => none
  | line :: rest =>
    match spliceLastDroppable rest with
    | some kept => some (line :: kept)
    | none => if line.droppable then some rest else none

def joinKept (omittedNote : Option JsString) (kept : List (FitLine JsString)) (dropped : Bool) :
    JsString :=
  let text := newline.intercalate (kept.map FitLine.content)
  match dropped, omittedNote with
  | true, some note => text ++ newline ++ note
  | _, _ => text

/-- The loop that leaves droppable lines out until the text fits; a round removes one line. -/
def fitKept (maxChars : ℤ) (omittedNote : Option JsString) :
    ℕ → List (FitLine JsString) → Bool → JsString
  | 0, kept, dropped => joinKept omittedNote kept dropped
  | rounds + 1, kept, dropped =>
    if (joinKept omittedNote kept dropped).length > maxChars then
      match spliceLastDroppable kept with
      | none => joinKept omittedNote kept dropped
      | some fewer => fitKept maxChars omittedNote rounds fewer true
    else joinKept omittedNote kept dropped

def renderFitLines (lines : List (FitLine JsString)) (maxChars : ℤ)
    (omittedNote : Option JsString) : JsString :=
  let text := fitKept maxChars omittedNote lines.length lines false
  if text.length ≤ maxChars then text else slice text 0 (maxChars - 1) ++ ellipsis

/-- The leading lines that fit and the number of items left out. -/
def takeFitting (unit : MessageLengthUnit) (maxChars : ℤ) :
    ℤ → List (TakeLine JsString) → List (TakeLine JsString) × ℕ
  | _, [] => ([], 0)
  | length, line :: rest =>
    let size : ℤ := measure line.content unit + 1
    if length + size > maxChars then ([], ((line :: rest).filter TakeLine.item).length)
    else
      let (taken, omitted) := takeFitting unit maxChars (length + size) rest
      (line :: taken, omitted)

def renderTakeLines (unit : MessageLengthUnit) (maxChars baseChars : ℤ) (heads tails : List JsString)
    (lines : List (TakeLine JsString)) (headOnlyWithLines dropTrailingHeadings : Bool)
    (omitted : Option Omitted) : JsString :=
  let length := baseChars + ((heads ++ tails).map fun line => (measure line unit : ℤ)).sum
  let (fitting, leftOut) := takeFitting unit maxChars length lines
  let taken := if dropTrailingHeadings then fitting.rdropWhile (!·.item) else fitting
  let count := (omitted.map Omitted.hidden).getD 0 + leftOut
  let closing := match omitted with
    | some note => if count > 0 then [note.before ++ decimal count ++ note.after] else []
    | none => []
  let shownHead := if headOnlyWithLines && taken.isEmpty then [] else heads
  newline.intercalate (shownHead ++ (taken.map TakeLine.content ++ closing) ++ tails)

/-- The first candidate that fits, else the last one (`text` is the one before). -/
def renderFirstFit (maxChars : ℤ) (unit : MessageLengthUnit) : List JsString → JsString → JsString
  | [], text => text
  | candidate :: rest, _ =>
    if measure candidate unit ≤ maxChars then candidate
    else renderFirstFit maxChars unit rest candidate

/-! ## The evaluator -/

structure MessageMarkup where
  untrusted : JsString → UntrustedTextGuard → JsString
  link : JsString → JsString
  conversation : ConversationRefNode → JsString
  platformNote : PlatformNoteTopic → JsString

/-- The plain rendering: untrusted text verbatim, bare URLs, `#id` or the label, no notes. -/
def PLAIN_TEXT_MARKUP : MessageMarkup where
  untrusted text _ := text
  link url := url
  conversation ref :=
    match ref.id with
    | some id => 0x23 :: id
    | none => ref.label
  platformNote _ := []

/-- One node over its rendered contents. -/
def renderShape (markup : MessageMarkup) : NodeShape JsString → JsString
  | .text value => value
  | .untrusted value guard => markup.untrusted value guard
  | .link url => markup.link url
  | .conversation ref => markup.conversation ref
  | .platformNote topic => markup.platformNote topic
  | .clip content maxChars unit trimmed after => renderClip content maxChars unit trimmed after
  | .fitLines lines maxChars omittedNote => renderFitLines lines maxChars omittedNote
  | .takeLines unit maxChars baseChars heads tails lines headOnly dropHeadings omitted =>
    renderTakeLines unit maxChars baseChars heads tails lines headOnly dropHeadings omitted
  | .firstFit candidates maxChars unit => renderFirstFit maxChars unit candidates []

def renderNode (markup : MessageMarkup) : MessageNode → JsString :=
  MessageNode.fold (renderShape markup) List.flatten

def render (markup : MessageMarkup) : MessageContent → JsString :=
  foldContent (renderShape markup) List.flatten

/-- Render a body with one platform's markup (a string body is returned as it is). -/
def renderMessageContent (body : MessageBody) (markup : MessageMarkup) : JsString :=
  match body with
  | .text value => value
  | .content nodes => render markup nodes

/-- The plain rendering of a body. -/
def plainTextOf (body : MessageBody) : JsString := renderMessageContent body PLAIN_TEXT_MARKUP

/-- Whether a node carries a platform-rendered span, from whether its contents do. -/
def shapeNeedsMarkup : NodeShape Bool → Bool
  | .text _ => false
  | .clip content _ _ _ after => content || after.getD false
  | .fitLines lines _ _ => lines.any FitLine.content
  | .takeLines _ _ _ heads tails lines _ _ _ =>
    (heads ++ tails ++ lines.map TakeLine.content).any id
  | .firstFit candidates _ _ => candidates.any id
  | _ => true

def nodeNeedsMarkup : MessageNode → Bool :=
  MessageNode.fold shapeNeedsMarkup (fun nodes => nodes.any id)

def contentNeedsMarkup : MessageContent → Bool :=
  foldContent shapeNeedsMarkup (fun nodes => nodes.any id)

/-- Whether a body carries a span a platform renders its own way. -/
def needsPlatformMarkup : MessageBody → Bool
  | .text _ => false
  | .content nodes => contentNeedsMarkup nodes

/-- The body of `parts`: their plain text when nothing in them is rendered per platform. -/
def messageBody (parts : List MessagePart) : MessageBody :=
  let content := messageContent parts
  if needsPlatformMarkup (.content content) then .content content
  else .text (plainTextOf (.content content))

/-- `messageBody` of `parts` joined by `separator`. -/
def joinBody (parts : List MessagePart) (separator : JsString) : MessageBody :=
  messageBody [.content (joinMessage parts separator)]

def renderPart (markup : MessageMarkup) : MessagePart → JsString
  | .text value => value
  | .content nodes => render markup nodes
  | .node node => renderNode markup node

/-! ## Equations of the evaluator -/

section Equations
variable (markup : MessageMarkup)

theorem renderNode_node (shape : NodeShape MessageContent) :
    renderNode markup (.node shape) = renderShape markup (shape.map (render markup)) :=
  MessageNode.fold_node _ _ shape

@[simp] theorem renderNode_text (value : JsString) :
    renderNode markup (.node (.text value)) = value := rfl

@[simp] theorem render_nil : render markup [] = [] := rfl

@[simp] theorem render_cons (node : MessageNode) (nodes : MessageContent) :
    render markup (node :: nodes) = renderNode markup node ++ render markup nodes := rfl

@[simp] theorem render_append (nodes more : MessageContent) :
    render markup (nodes ++ more) = render markup nodes ++ render markup more := by
  induction nodes with
  | nil => rfl
  | cons node rest ih => simp [ih]

theorem nodeNeedsMarkup_node (shape : NodeShape MessageContent) :
    nodeNeedsMarkup (.node shape) = shapeNeedsMarkup (shape.map contentNeedsMarkup) :=
  MessageNode.fold_node _ _ shape

theorem contentNeedsMarkup_eq_any (nodes : MessageContent) :
    contentNeedsMarkup nodes = nodes.any nodeNeedsMarkup := by
  simp [contentNeedsMarkup, foldContent, nodeNeedsMarkup, List.any_map]

end Equations

/-! ## Copy alone renders the same everywhere -/

/-- A shape that needs no markup lays its contents out without one. -/
theorem renderShape_of_not_needs {markup other : MessageMarkup} {needs : NodeShape Bool}
    {rendered : NodeShape JsString} {shape : NodeShape MessageContent}
    (hneeds : needs = shape.map contentNeedsMarkup) (h : shapeNeedsMarkup needs = false)
    (hrendered : rendered = shape.map (render markup)) :
    renderShape markup rendered = renderShape other rendered := by
  subst hneeds hrendered
  cases shape with
  | untrusted value guard => simp [NodeShape.map, shapeNeedsMarkup] at h
  | link url => simp [NodeShape.map, shapeNeedsMarkup] at h
  | conversation ref => simp [NodeShape.map, shapeNeedsMarkup] at h
  | platformNote topic => simp [NodeShape.map, shapeNeedsMarkup] at h
  | _ => rfl

/-- A node that needs no markup has no content that needs one. -/
theorem contents_not_needs {shape : NodeShape MessageContent}
    (h : shapeNeedsMarkup (shape.map contentNeedsMarkup) = false) :
    ∀ nodes ∈ shape.contents, contentNeedsMarkup nodes = false := by
  cases shape with
  | clip content maxChars unit trimmed after =>
    simp only [NodeShape.map, shapeNeedsMarkup, Bool.or_eq_false_iff] at h
    intro nodes hnodes
    simp only [NodeShape.contents, List.mem_cons, Option.mem_toList] at hnodes
    cases hnodes with
    | inl hc => rw [hc]; exact h.1
    | inr ha =>
      rw [ha] at h
      exact h.2
  | fitLines lines maxChars omittedNote =>
    simpa [NodeShape.map, NodeShape.contents, shapeNeedsMarkup, FitLine.map] using h
  | takeLines unit maxChars baseChars heads tails lines headOnly dropHeadings omitted =>
    simp only [NodeShape.map, shapeNeedsMarkup, List.any_eq_false] at h
    intro nodes hnodes
    have hmem : contentNeedsMarkup nodes ∈ heads.map contentNeedsMarkup ++
        tails.map contentNeedsMarkup ++
        (lines.map (TakeLine.map contentNeedsMarkup)).map TakeLine.content := by
      have hmap := List.mem_map_of_mem (f := contentNeedsMarkup) hnodes
      simpa [NodeShape.contents, TakeLine.map, Function.comp_def] using hmap
    simpa using h _ hmem
  | firstFit candidates maxChars unit =>
    simpa [NodeShape.map, NodeShape.contents, shapeNeedsMarkup] using h
  | _ => simp [NodeShape.contents]

theorem renderNode_of_not_needs (markup other : MessageMarkup) (node : MessageNode)
    (h : nodeNeedsMarkup node = false) : renderNode markup node = renderNode other node := by
  induction node using MessageNode.contents_induction with
  | step shape ih =>
    rw [nodeNeedsMarkup_node] at h
    have hcontents : ∀ nodes ∈ shape.contents, render markup nodes = render other nodes := by
      intro nodes hnodes
      have hneeds := contents_not_needs h nodes hnodes
      rw [contentNeedsMarkup_eq_any, List.any_eq_false] at hneeds
      have hmap : nodes.map (renderNode markup) = nodes.map (renderNode other) :=
        List.map_congr_left fun node hnode =>
          ih nodes hnodes node hnode (by simpa using hneeds node hnode)
      exact congrArg List.flatten hmap
    rw [renderNode_node, renderNode_node, ← NodeShape.map_congr hcontents]
    exact renderShape_of_not_needs rfl h rfl

theorem render_of_not_needs (markup other : MessageMarkup) {nodes : MessageContent}
    (h : contentNeedsMarkup nodes = false) : render markup nodes = render other nodes := by
  rw [contentNeedsMarkup_eq_any, List.any_eq_false] at h
  have hmap : nodes.map (renderNode markup) = nodes.map (renderNode other) :=
    List.map_congr_left fun node hnode =>
      renderNode_of_not_needs markup other node (by simpa using h node hnode)
  exact congrArg List.flatten hmap

/-! ## Flattening parts -/

theorem render_push (markup : MessageMarkup) (nodes : MessageContent) (node : MessageNode) :
    render markup (push nodes node) = render markup nodes ++ renderNode markup node := by
  fun_cases push nodes node with
  | case1 value hempty =>
    have hvalue : value = [] := List.eq_nil_of_length_eq_zero hempty
    simp [hvalue]
  | case2 value hvalue last hlast =>
    have hsplit := List.dropLast_append_getLast? _ hlast
    conv_rhs => rw [← hsplit]
    simp
  | case3 value hvalue hlast => simp
  | case4 hnode => simp

theorem render_foldl_push (markup : MessageMarkup) (part nodes : MessageContent) :
    render markup (part.foldl push nodes) = render markup nodes ++ render markup part := by
  induction part generalizing nodes with
  | nil => simp
  | cons node rest ih => simp [ih, render_push]

theorem render_pushPart (markup : MessageMarkup) (nodes : MessageContent) (part : MessagePart) :
    render markup (pushPart nodes part) = render markup nodes ++ renderPart markup part := by
  cases part with
  | text value => exact render_push markup nodes (.node (.text value))
  | content more => exact render_foldl_push markup more nodes
  | node node => exact render_push markup nodes node

theorem render_foldl_pushPart (markup : MessageMarkup) (parts : List MessagePart)
    (nodes : MessageContent) : render markup (parts.foldl pushPart nodes) =
      render markup nodes ++ (parts.map (renderPart markup)).flatten := by
  induction parts generalizing nodes with
  | nil => simp
  | cons part rest ih => simp [ih, render_pushPart]

/-- Rendering is compatible with flattening. -/
theorem render_messageContent (markup : MessageMarkup) (parts : List MessagePart) :
    render markup (messageContent parts) = (parts.map (renderPart markup)).flatten := by
  have h := render_foldl_pushPart markup parts []
  rw [render_nil, List.nil_append] at h
  exact h

theorem renderMessageContent_of_not_needs (markup : MessageMarkup) {body : MessageBody}
    (h : needsPlatformMarkup body = false) : renderMessageContent body markup = plainTextOf body := by
  cases body with
  | text value => rfl
  | content nodes => exact render_of_not_needs markup PLAIN_TEXT_MARKUP h

/-- The string `messageBody` returns renders as the content it replaces. -/
theorem renderMessageContent_messageBody (markup : MessageMarkup) (parts : List MessagePart) :
    renderMessageContent (messageBody parts) markup = render markup (messageContent parts) := by
  cases h : needsPlatformMarkup (.content (messageContent parts)) with
  | true => simp [messageBody, h, renderMessageContent]
  | false =>
    have hplain := renderMessageContent_of_not_needs markup h
    simp only [messageBody, h, renderMessageContent] at hplain ⊢
    exact hplain.symm

/-- Collapsing content to a plain string is sound: a body without a platform-rendered span renders
to its plain text with every markup, the body of parts renders as the content of the parts, and
the content of parts renders as the renderings of the parts in order. -/
theorem collapse_is_sound (markup : MessageMarkup) :
    (∀ body : MessageBody, needsPlatformMarkup body = false →
      renderMessageContent body markup = plainTextOf body) ∧
    (∀ parts : List MessagePart,
      renderMessageContent (messageBody parts) markup = render markup (messageContent parts)) ∧
    (∀ parts : List MessagePart,
      render markup (messageContent parts) = (parts.map (renderPart markup)).flatten) :=
  ⟨fun _ h => renderMessageContent_of_not_needs markup h,
    renderMessageContent_messageBody markup, render_messageContent markup⟩

/-- Copy clipped to one character, with a copy ending, under a markup that brackets spans. -/
theorem collapse_is_sound_clip :
    renderMessageContent
      (.content [.node (.clip [.node (.text [0x61, 0x62])] 2 .codePoints true
        (some [.node (.text [0x2E])]))])
      { PLAIN_TEXT_MARKUP with untrusted := fun text _ => [0x5B] ++ text ++ [0x5D] } =
        [0x2026, 0x2E] :=
  ((collapse_is_sound _).1 _ (by decide)).trans (by decide)

end QuokyPlatform.Messages
