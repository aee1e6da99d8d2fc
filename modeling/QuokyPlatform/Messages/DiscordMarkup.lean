import QuokyPlatform.Messages.Segments

/-!
# Discord's markup, and where its text comes from

How Discord writes each platform-rendered span. A second evaluator keeps for every unit of the text
whether an untrusted string, Quoky's copy or the markup brought it; without the origins its text is
the rendered one.
-/

namespace QuokyPlatform.Messages.Discord
open Chunking
set_option autoImplicit false
set_option maxHeartbeats 250000

/-! ## The markup -/

def ZWSP : CodeUnit := 0x200B
def BACKSLASH : CodeUnit := 0x5C
def AT : CodeUnit := 0x40
def LESS : CodeUnit := 0x3C

/-- The units of Discord's Markdown and quotes. -/
def DISCORD_MARKDOWN : List CodeUnit := [0x5C, 0x2A, 0x5F, 0x7E, 0x60, 0x7C, 0x3E, 0x5B, 0x5D]

/-- Each of the units with a backslash before it. -/
def escapeMarkdown (text : JsString) : JsString :=
  text.flatMap fun unit => if unit ∈ DISCORD_MARKDOWN then [BACKSLASH, unit] else [unit]

/-- A zero-width space behind each such unit. -/
def breakAfter (unit : CodeUnit) (text : JsString) : JsString :=
  text.flatMap fun u => if u = unit then [u, ZWSP] else [u]

/-- Whether the text begins with the lower-case ASCII word, in either case. -/
def beginsWith (word text : JsString) : Bool :=
  word.isPrefixOf (text.map fun u => if 0x41 ≤ u && u ≤ 0x5A then u + 0x20 else u)

/-- `text.replace(/@(?=everyone|here)/gi, '@' + ZWSP)` -/
def breakBroadcasts : JsString → JsString
  | [] => []
  | unit :: rest =>
    if unit = AT && (beginsWith (units "everyone") rest || beginsWith (units "here") rest) then
      unit :: ZWSP :: breakBroadcasts rest
    else unit :: breakBroadcasts rest

/-- `text.replace(/<@/g, '<' + ZWSP + '@')` -/
def breakMentions : JsString → JsString
  | first :: second :: rest =>
    if first = LESS ∧ second = AT then LESS :: ZWSP :: AT :: breakMentions rest
    else first :: breakMentions (second :: rest)
  | text => text

def neutralize (text : JsString) : UntrustedTextGuard → JsString
  | .markup => breakAfter LESS (breakAfter AT (escapeMarkdown text))
  | .path => breakAfter LESS (breakBroadcasts (escapeMarkdown text))
  | .mentions => breakMentions (breakBroadcasts text)
  | .handles => breakAfter AT text

def PLATFORM_NOTES : PlatformNoteTopic → JsString
  | .commandPrefix =>
    units " 다만 Discord에서는 \"/\"로 시작하면 명령 선택 창이 열리니, Esc로 창을 닫은 뒤 Enter로 보내 주세요."

def DISCORD_PLATFORM : JsString := units "discord"

section
-- `toUpperCase` of one unit
variable (upper : CodeUnit → JsString)

def conversation (ref : ConversationRefNode) : JsString :=
  if ref.platform = DISCORD_PLATFORM then
    match ref.id with
    | some id => units "<#" ++ id ++ units ">"
    | none => ref.label
  else
    let name := (ref.platform.take 1).flatMap upper ++ ref.platform.drop 1
    if ref.direct then name ++ units " 개인 대화" else name ++ units " 대화방"

def DISCORD_MARKUP : MessageMarkup where
  untrusted := neutralize
  link url := units "<" ++ url ++ units ">"
  conversation := conversation upper
  platformNote := PLATFORM_NOTES

def renderDiscordContent (body : MessageBody) : JsString :=
  renderMessageContent body (DISCORD_MARKUP upper)

end

/-! ## Text with its origins -/

inductive Origin where
  | untrusted
  | quoky
  | markup
  deriving DecidableEq, Repr

structure Tracked where
  unit : CodeUnit
  origin : Origin
  deriving DecidableEq, Repr

abbrev TrackedText := List Tracked

def plain (text : TrackedText) : JsString := text.map Tracked.unit

def tracked (origin : Origin) (text : JsString) : TrackedText := text.map (⟨·, origin⟩)

@[simp] theorem plain_tracked (origin : Origin) (text : JsString) :
    plain (tracked origin text) = text := by
  simp [plain, tracked, Function.comp_def]

@[simp] theorem plain_append (first second : TrackedText) :
    plain (first ++ second) = plain first ++ plain second := List.map_append

@[simp] theorem plain_nil : plain [] = [] := rfl

theorem plain_flatten (texts : List TrackedText) :
    plain texts.flatten = (texts.map plain).flatten := List.map_flatten

/-- What the markup guard makes of one unit. -/
def trackUnit (unit : CodeUnit) : TrackedText :=
  if unit ∈ DISCORD_MARKDOWN then [⟨BACKSLASH, .markup⟩, ⟨unit, .untrusted⟩]
  else if unit = AT ∨ unit = LESS then [⟨unit, .untrusted⟩, ⟨ZWSP, .markup⟩]
  else [⟨unit, .untrusted⟩]

/-- Under the other guards all of the text counts as untrusted. -/
def trackNeutralize (text : JsString) : UntrustedTextGuard → TrackedText
  | .markup => text.flatMap trackUnit
  | guard => tracked .untrusted (neutralize text guard)

def trackHead (text : TrackedText) (count : ℤ) (unit : MessageLengthUnit) : TrackedText :=
  text.take (head (plain text) count unit).length

def trackTrim (text : TrackedText) : TrackedText :=
  (text.dropWhile (isWhiteSpace ·.unit)).rdropWhile (isWhiteSpace ·.unit)

def trackClip (content : TrackedText) (maxChars : ℤ) (unit : MessageLengthUnit) (trimmed : Bool)
    (after : Option TrackedText) : TrackedText :=
  let after := after.getD []
  let budget := maxChars - measure (plain after) unit
  let text := if trimmed then trackTrim content else content
  if measure (plain text) unit ≤ budget then text ++ after
  else if budget ≤ 0 then after
  else trackHead text (budget - 1) unit ++ tracked .quoky ellipsis ++ after

def trackJoin (lines : List TrackedText) : TrackedText :=
  (tracked .quoky newline).intercalate lines

def trackJoinKept (omittedNote : Option JsString) (kept : List (FitLine TrackedText))
    (dropped : Bool) : TrackedText :=
  let text := trackJoin (kept.map FitLine.content)
  match dropped, omittedNote with
  | true, some note => text ++ tracked .quoky newline ++ tracked .quoky note
  | _, _ => text

def trackFitKept (maxChars : ℤ) (omittedNote : Option JsString) :
    ℕ → List (FitLine TrackedText) → Bool → TrackedText
  | 0, kept, dropped => trackJoinKept omittedNote kept dropped
  | rounds + 1, kept, dropped =>
    if (trackJoinKept omittedNote kept dropped).length > maxChars then
      match spliceLastDroppable kept with
      | none => trackJoinKept omittedNote kept dropped
      | some fewer => trackFitKept maxChars omittedNote rounds fewer true
    else trackJoinKept omittedNote kept dropped

def trackFitLines (lines : List (FitLine TrackedText)) (maxChars : ℤ)
    (omittedNote : Option JsString) : TrackedText :=
  let text := trackFitKept maxChars omittedNote lines.length lines false
  if text.length ≤ maxChars then text
  else slice text 0 (maxChars - 1) ++ tracked .quoky ellipsis

def trackFitting (unit : MessageLengthUnit) (maxChars : ℤ) :
    ℤ → List (TakeLine TrackedText) → List (TakeLine TrackedText) × ℕ
  | _, [] => ([], 0)
  | length, line :: rest =>
    let size : ℤ := measure (plain line.content) unit + 1
    if length + size > maxChars then ([], ((line :: rest).filter TakeLine.item).length)
    else
      let (taken, omitted) := trackFitting unit maxChars (length + size) rest
      (line :: taken, omitted)

def trackTakeLines (unit : MessageLengthUnit) (maxChars baseChars : ℤ)
    (heads tails : List TrackedText) (lines : List (TakeLine TrackedText))
    (headOnlyWithLines dropTrailingHeadings : Bool) (omitted : Option Omitted) : TrackedText :=
  let length := baseChars + ((heads ++ tails).map fun line => (measure (plain line) unit : ℤ)).sum
  let (fitting, leftOut) := trackFitting unit maxChars length lines
  let taken := if dropTrailingHeadings then fitting.rdropWhile (!·.item) else fitting
  let count := (omitted.map Omitted.hidden).getD 0 + leftOut
  let closing := match omitted with
    | some note =>
      if count > 0 then [tracked .quoky (note.before ++ decimal count ++ note.after)] else []
    | none => []
  let shownHead := if headOnlyWithLines && taken.isEmpty then [] else heads
  trackJoin (shownHead ++ (taken.map TakeLine.content ++ closing) ++ tails)

def trackFirstFit (maxChars : ℤ) (unit : MessageLengthUnit) :
    List TrackedText → TrackedText → TrackedText
  | [], text => text
  | candidate :: rest, _ =>
    if measure (plain candidate) unit ≤ maxChars then candidate
    else trackFirstFit maxChars unit rest candidate

section
variable (upper : CodeUnit → JsString)

/-- A label is Quoky's copy; the other conversation names are the markup's. -/
def trackConversation (ref : ConversationRefNode) : TrackedText :=
  if ref.platform = DISCORD_PLATFORM ∧ ref.id = none then tracked .quoky ref.label
  else tracked .markup (conversation upper ref)

def trackShape : NodeShape TrackedText → TrackedText
  | .text value => tracked .quoky value
  | .untrusted value guard => trackNeutralize value guard
  | .link url => tracked .markup (units "<" ++ url ++ units ">")
  | .conversation ref => trackConversation upper ref
  | .platformNote topic => tracked .quoky (PLATFORM_NOTES topic)
  | .clip content maxChars unit trimmed after => trackClip content maxChars unit trimmed after
  | .fitLines lines maxChars omittedNote => trackFitLines lines maxChars omittedNote
  | .takeLines unit maxChars baseChars heads tails lines headOnly dropHeadings omitted =>
    trackTakeLines unit maxChars baseChars heads tails lines headOnly dropHeadings omitted
  | .firstFit candidates maxChars unit => trackFirstFit maxChars unit candidates []

def trackNode : MessageNode → TrackedText := MessageNode.fold (trackShape upper) List.flatten

def track : MessageContent → TrackedText := foldContent (trackShape upper) List.flatten

/-- A body with its origins; a string body is Quoky's copy. -/
def trackBody : MessageBody → TrackedText
  | .text value => tracked .quoky value
  | .content nodes => track upper nodes

end

/-! ## Without the origins it is the rendered text -/

theorem neutralize_markup (text : JsString) :
    neutralize text .markup = plain (trackNeutralize text .markup) := by
  simp only [neutralize, trackNeutralize, plain, escapeMarkdown, breakAfter, List.flatMap_assoc,
    List.map_flatMap]
  apply List.flatMap_congr
  intro unit _
  have hspecial : AT ∉ DISCORD_MARKDOWN ∧ LESS ∉ DISCORD_MARKDOWN := by decide
  by_cases hmarkdown : unit ∈ DISCORD_MARKDOWN
  · have hat : unit ≠ AT := fun h => hspecial.1 (h ▸ hmarkdown)
    have hless : unit ≠ LESS := fun h => hspecial.2 (h ▸ hmarkdown)
    have hbackslash : BACKSLASH ≠ AT ∧ BACKSLASH ≠ LESS := by decide
    simp [trackUnit, hmarkdown, hat, hless, hbackslash]
  · have hdistinct : AT ≠ LESS ∧ LESS ≠ AT ∧ ZWSP ≠ LESS := by decide
    by_cases hat : unit = AT
    · subst hat
      simp [trackUnit, hmarkdown, hdistinct]
    · by_cases hless : unit = LESS
      · subst hless
        simp [trackUnit, hmarkdown, hdistinct]
      · simp [trackUnit, hmarkdown, hat, hless]

theorem plain_trackNeutralize (text : JsString) (guard : UntrustedTextGuard) :
    plain (trackNeutralize text guard) = neutralize text guard := by
  cases guard with
  | markup => exact (neutralize_markup text).symm
  | _ => exact plain_tracked _ _

theorem head_initial (text : JsString) (count : ℤ) (unit : MessageLengthUnit) :
    head text count unit <+: text := by
  have hslice : ∀ {α : Type} (values : List α), slice values 0 count <+: values := by
    intro α values
    have hstart : sliceIndex values.length 0 = 0 := by simp [sliceIndex]
    rw [slice, hstart, List.drop_zero]
    exact List.take_prefix _ _
  cases unit with
  | utf16 => exact hslice text
  | codePoints =>
    have hpoints := (hslice (codePoints text)).flatten
    rwa [codePoints_flatten] at hpoints

theorem plain_take (text : TrackedText) (n : ℕ) : plain (text.take n) = (plain text).take n :=
  List.map_take

theorem plain_trackHead (text : TrackedText) (count : ℤ) (unit : MessageLengthUnit) :
    plain (trackHead text count unit) = head (plain text) count unit := by
  rw [trackHead, plain_take]
  exact (List.prefix_iff_eq_take.mp (head_initial (plain text) count unit)).symm

theorem plain_trackTrim (text : TrackedText) : plain (trackTrim text) = trim (plain text) := by
  rw [trackTrim, trim, plain, plain, List.dropWhile_map, Telegram.rdropWhile_map]
  rfl

theorem plain_trackClip (content : TrackedText) (maxChars : ℤ) (unit : MessageLengthUnit)
    (trimmed : Bool) (after : Option TrackedText) :
    plain (trackClip content maxChars unit trimmed after) =
      renderClip (plain content) maxChars unit trimmed (after.map plain) := by
  have hafter : plain (after.getD []) = (after.map plain).getD [] := by cases after <;> rfl
  have htext : plain (if trimmed then trackTrim content else content) =
      if trimmed then trim (plain content) else plain content := by
    cases trimmed
    · rfl
    · exact plain_trackTrim content
  simp only [trackClip, renderClip, hafter, htext]
  split_ifs <;> simp [hafter, plain_trackHead, plain_trackTrim]

theorem plain_trackJoin (lines : List TrackedText) :
    plain (trackJoin lines) = newline.intercalate (lines.map plain) := by
  induction lines with
  | nil => rfl
  | cons line rest ih =>
    cases rest with
    | nil => simp [trackJoin, plain]
    | cons next rest =>
      have htail : plain (trackJoin (next :: rest)) = newline.intercalate ((next :: rest).map plain) :=
        ih
      simp only [trackJoin, List.intercalate_cons_cons, plain_append, plain_tracked, List.map_cons]
        at htail ⊢
      rw [htail]

theorem plain_trackJoinKept (omittedNote : Option JsString) (kept : List (FitLine TrackedText))
    (dropped : Bool) : plain (trackJoinKept omittedNote kept dropped) =
      joinKept omittedNote (kept.map (FitLine.map plain)) dropped := by
  have htext : plain (trackJoin (kept.map FitLine.content)) =
      newline.intercalate ((kept.map (FitLine.map plain)).map FitLine.content) := by
    simp [plain_trackJoin, FitLine.map, Function.comp_def]
  cases dropped with
  | false => exact htext
  | true =>
    cases omittedNote with
    | none => exact htext
    | some note => simp [trackJoinKept, joinKept, htext]

theorem length_plain (text : TrackedText) : (plain text).length = text.length := List.length_map _

theorem plain_trackFitKept (maxChars : ℤ) (omittedNote : Option JsString) (rounds : ℕ)
    (kept : List (FitLine TrackedText)) (dropped : Bool) :
    plain (trackFitKept maxChars omittedNote rounds kept dropped) =
      fitKept maxChars omittedNote rounds (kept.map (FitLine.map plain)) dropped := by
  induction rounds generalizing kept dropped with
  | zero => exact plain_trackJoinKept omittedNote kept dropped
  | succ rounds ih =>
    simp only [trackFitKept, fitKept, Telegram.spliceLastDroppable_map, ← plain_trackJoinKept,
      length_plain]
    split_ifs with hlong
    · cases spliceLastDroppable kept with
      | none => rfl
      | some fewer => exact ih fewer true
    · rfl

theorem plain_slice (text : TrackedText) (start stop : ℤ) :
    plain (slice text start stop) = slice (plain text) start stop := by
  simp only [slice, length_plain]
  rw [plain, plain, List.map_drop, List.map_take]

theorem plain_trackFitLines (lines : List (FitLine TrackedText)) (maxChars : ℤ)
    (omittedNote : Option JsString) : plain (trackFitLines lines maxChars omittedNote) =
      renderFitLines (lines.map (FitLine.map plain)) maxChars omittedNote := by
  simp only [trackFitLines, renderFitLines, List.length_map, ← plain_trackFitKept, length_plain]
  split_ifs with hfits
  · rfl
  · simp [plain_slice]

theorem trackFitting_plain (unit : MessageLengthUnit) (maxChars length : ℤ)
    (lines : List (TakeLine TrackedText)) :
    takeFitting unit maxChars length (lines.map (TakeLine.map plain)) =
      ((trackFitting unit maxChars length lines).1.map (TakeLine.map plain),
        (trackFitting unit maxChars length lines).2) := by
  induction lines generalizing length with
  | nil => rfl
  | cons line rest ih =>
    have hitems : (((line :: rest).map (TakeLine.map plain)).filter TakeLine.item).length =
        ((line :: rest).filter TakeLine.item).length := by
      rw [List.filter_map, List.length_map]
      rfl
    have hsize : measure ((line.map plain).content) unit = measure (plain line.content) unit := rfl
    rw [List.map_cons] at hitems ⊢
    simp only [takeFitting, trackFitting, hitems, hsize, ih]
    split_ifs with hlong <;> rfl

theorem plain_trackTakeLines (unit : MessageLengthUnit) (maxChars baseChars : ℤ)
    (heads tails : List TrackedText) (lines : List (TakeLine TrackedText))
    (headOnlyWithLines dropTrailingHeadings : Bool) (omitted : Option Omitted) :
    plain (trackTakeLines unit maxChars baseChars heads tails lines headOnlyWithLines
        dropTrailingHeadings omitted) =
      renderTakeLines unit maxChars baseChars (heads.map plain) (tails.map plain)
        (lines.map (TakeLine.map plain)) headOnlyWithLines dropTrailingHeadings omitted := by
  have hlength : ((heads.map plain ++ tails.map plain).map fun line => (measure line unit : ℤ)).sum =
      ((heads ++ tails).map fun line => (measure (plain line) unit : ℤ)).sum := by
    rw [← List.map_append, List.map_map]
    rfl
  simp only [trackTakeLines, renderTakeLines, plain_trackJoin, hlength, trackFitting_plain]
  generalize trackFitting unit maxChars _ lines = fitting
  have htaken : (if dropTrailingHeadings then (fitting.1.map (TakeLine.map plain)).rdropWhile (!·.item)
      else fitting.1.map (TakeLine.map plain)) =
      (if dropTrailingHeadings then fitting.1.rdropWhile (!·.item) else fitting.1).map
        (TakeLine.map plain) := by
    cases dropTrailingHeadings
    · rfl
    · exact Telegram.rdropWhile_map _ _ _
  rw [htaken]
  generalize (if dropTrailingHeadings then fitting.1.rdropWhile (!·.item) else fitting.1) = taken
  have hcontents : (taken.map (TakeLine.map plain)).map TakeLine.content =
      (taken.map TakeLine.content).map plain := by
    rw [List.map_map, List.map_map]
    rfl
  congr 1
  rw [List.map_append, List.map_append, List.map_append, hcontents, List.isEmpty_map]
  congr 2
  · cases headOnlyWithLines && taken.isEmpty <;> rfl
  · cases omitted with
    | none => rfl
    | some note => split_ifs <;> simp

theorem plain_trackFirstFit (maxChars : ℤ) (unit : MessageLengthUnit)
    (candidates : List TrackedText) (text : TrackedText) :
    plain (trackFirstFit maxChars unit candidates text) =
      renderFirstFit maxChars unit (candidates.map plain) (plain text) := by
  induction candidates generalizing text with
  | nil => rfl
  | cons candidate rest ih =>
    simp only [trackFirstFit, List.map_cons, renderFirstFit]
    split_ifs with hfits
    · rfl
    · exact ih candidate

section
variable (upper : CodeUnit → JsString)

theorem plain_trackConversation (ref : ConversationRefNode) :
    plain (trackConversation upper ref) = conversation upper ref := by
  rw [trackConversation]
  split
  next h => simp [conversation, h]
  next => exact plain_tracked _ _

theorem plain_trackShape (shape : NodeShape TrackedText) :
    plain (trackShape upper shape) = renderShape (DISCORD_MARKUP upper) (shape.map plain) := by
  cases shape with
  | text value => exact plain_tracked _ _
  | untrusted value guard => exact plain_trackNeutralize value guard
  | link url => exact plain_tracked _ _
  | conversation ref => exact plain_trackConversation upper ref
  | platformNote topic =>
    simp only [trackShape, NodeShape.map, renderShape, DISCORD_MARKUP, plain_tracked]
  | clip content maxChars unit trimmed after => exact plain_trackClip _ _ _ _ _
  | fitLines lines maxChars omittedNote => exact plain_trackFitLines _ _ _
  | takeLines unit maxChars baseChars heads tails lines headOnly dropHeadings omitted =>
    exact plain_trackTakeLines _ _ _ _ _ _ _ _ _
  | firstFit candidates maxChars unit => exact plain_trackFirstFit _ _ _ _

theorem trackNode_node (shape : NodeShape MessageContent) :
    trackNode upper (.node shape) = trackShape upper (shape.map (track upper)) :=
  MessageNode.fold_node _ _ shape

theorem track_eq (nodes : MessageContent) :
    track upper nodes = (nodes.map (trackNode upper)).flatten := rfl

theorem plain_trackNode (node : MessageNode) :
    plain (trackNode upper node) = renderNode (DISCORD_MARKUP upper) node := by
  induction node using MessageNode.contents_induction with
  | step shape ih =>
    have hcontents : ∀ nodes ∈ shape.contents,
        (plain ∘ track upper) nodes = render (DISCORD_MARKUP upper) nodes := by
      intro nodes hnodes
      have hmap : (nodes.map (trackNode upper)).map plain =
          nodes.map (renderNode (DISCORD_MARKUP upper)) := by
        rw [List.map_map]
        exact List.map_congr_left fun node hnode => ih nodes hnodes node hnode
      rw [Function.comp_apply, track_eq, plain_flatten, hmap]
      rfl
    rw [trackNode_node, plain_trackShape, NodeShape.map_map, renderNode_node,
      NodeShape.map_congr hcontents]

/-- The text with its origins is the text Discord gets. -/
theorem plain_trackBody (body : MessageBody) :
    plain (trackBody upper body) = renderDiscordContent upper body := by
  cases body with
  | text value => exact plain_tracked _ _
  | content nodes =>
    have hmap : (nodes.map (trackNode upper)).map plain =
        nodes.map (renderNode (DISCORD_MARKUP upper)) := by
      rw [List.map_map]
      exact List.map_congr_left fun node _ => plain_trackNode upper node
    show plain (track upper nodes) = render (DISCORD_MARKUP upper) nodes
    rw [track_eq, plain_flatten, hmap]
    rfl

end

end QuokyPlatform.Messages.Discord
