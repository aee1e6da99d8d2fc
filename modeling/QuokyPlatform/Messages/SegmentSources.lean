import QuokyPlatform.Messages.Segments

/-!
# What a Telegram segment is a piece of

Cutting, trimming and joining keep every segment a contiguous piece of the text it was made with:
a text of Quoky's copy, or the rendering of one span of the message.
-/

namespace QuokyPlatform.Messages.Telegram
open Chunking
set_option autoImplicit false
set_option maxHeartbeats 250000

/-! ## Pieces -/

/-- The texts of Quoky's copy that the content brings into a message. -/
inductive CopyText (nodes : MessageContent) : JsString → Prop
  | node {text : JsString} (h : Occurs (.node (.text text)) nodes) : CopyText nodes text
  | separator : CopyText nodes newline
  | ellipsis : CopyText nodes ellipsis
  | note {lines : List (FitLine MessageContent)} {maxChars : ℤ} {note : JsString}
      (h : Occurs (.node (.fitLines lines maxChars (some note))) nodes) :
      CopyText nodes (newline ++ note)
  | closing {unit : MessageLengthUnit} {maxChars baseChars : ℤ} {heads tails : List MessageContent}
      {lines : List (TakeLine MessageContent)} {headOnly dropHeadings : Bool} {omitted : Omitted}
      (h : Occurs (.node (.takeLines unit maxChars baseChars heads tails lines headOnly dropHeadings
        (some omitted))) nodes) (count : ℤ) :
      CopyText nodes (omitted.before ++ decimal count ++ omitted.after)

/-- Untrusted text, a link, a conversation reference or a platform note. -/
def isSpan : MessageNode → Bool
  | .node (.untrusted _ _) => true
  | .node (.link _) => true
  | .node (.conversation _) => true
  | .node (.platformNote _) => true
  | _ => false

/-- The segment is a contiguous piece of its source: a copy text of the content when it is copy, the
rendering of a span node of the content when it is a span. -/
def PieceOf (markup : MessageMarkup) (nodes : MessageContent) (segment : TelegramSegment) : Prop :=
  match segment.source with
  | .copy text => segment.span = false ∧ CopyText nodes text ∧ segment.text <:+: text
  | .span node => segment.span = true ∧ isSpan node = true ∧ Occurs node nodes ∧
      segment.text <:+: Messages.renderNode markup node

theorem slice_infix {α : Type} (values : List α) (start stop : ℤ) :
    Messages.slice values start stop <:+: values :=
  (List.drop_suffix _ _).isInfix.trans (List.take_prefix _ _).isInfix

theorem PieceOf.slice {markup : MessageMarkup} {nodes : MessageContent} {segment : TelegramSegment}
    (h : PieceOf markup nodes segment) (start stop : ℤ) :
    PieceOf markup nodes (segment.slice start stop) := by
  have hcut := slice_infix segment.text start stop
  unfold PieceOf at h ⊢
  simp only [TelegramSegment.slice]
  cases hsource : segment.source with
  | copy text =>
    rw [hsource] at h
    exact ⟨h.1, h.2.1, hcut.trans h.2.2⟩
  | span node =>
    rw [hsource] at h
    exact ⟨h.1, h.2.1, h.2.2.1, hcut.trans h.2.2.2⟩

theorem PieceOf.copy {markup : MessageMarkup} {nodes : MessageContent} {text : JsString}
    (h : CopyText nodes text) : PieceOf markup nodes (copy text) :=
  ⟨rfl, h, List.infix_rfl⟩

/-! ## A property that cuts keep holds through the layout nodes -/

section Layout
variable {Q : TelegramSegment → Prop}
  (hcut : ∀ segment, Q segment → ∀ start stop, Q (segment.slice start stop))

include hcut in
theorem forall_sliceFrom {segments : Segments} (h : ∀ s ∈ segments, Q s) (start stop offset : ℤ) :
    ∀ s ∈ sliceFrom start stop offset segments, Q s := by
  induction segments generalizing offset with
  | nil => simp [sliceFrom]
  | cons segment rest ih =>
    simp only [sliceFrom, List.forall_mem_append]
    have hrest := ih (fun s hs => h s (List.mem_cons_of_mem _ hs))
      (offset + segment.text.length)
    refine ⟨?_, hrest⟩
    split_ifs
    · simpa using hcut segment (h segment List.mem_cons_self) _ _
    · simp

include hcut in
theorem forall_slice {segments : Segments} (h : ∀ s ∈ segments, Q s) (start stop : ℤ) :
    ∀ s ∈ slice segments start stop, Q s :=
  forall_sliceFrom hcut h start stop 0

include hcut in
theorem forall_head {segments : Segments} (h : ∀ s ∈ segments, Q s) (count : ℤ)
    (unit : MessageLengthUnit) : ∀ s ∈ head segments count unit, Q s := by
  cases unit with
  | utf16 => exact forall_slice hcut h 0 count
  | codePoints => exact forall_slice hcut h 0 _

include hcut in
theorem forall_trim {segments : Segments} (h : ∀ s ∈ segments, Q s) : ∀ s ∈ trim segments, Q s := by
  rw [trim]
  split_ifs
  · simp
  · exact forall_slice hcut h _ _

theorem forall_joinLines (hnewline : Q (copy newline)) {lines : List Segments}
    (h : ∀ line ∈ lines, ∀ s ∈ line, Q s) : ∀ s ∈ joinLines lines, Q s := by
  induction lines with
  | nil => simp [joinLines]
  | cons line rest ih =>
    have hline := h line List.mem_cons_self
    cases rest with
    | nil => simpa [joinLines] using hline
    | cons next more =>
      have hrest := ih fun l hl => h l (List.mem_cons_of_mem _ hl)
      simp only [joinLines, List.intercalate_cons_cons, List.forall_mem_append] at hrest ⊢
      exact ⟨⟨hline, by simpa using hnewline⟩, hrest⟩

include hcut in
theorem forall_layoutClip (hellipsis : Q (copy ellipsis)) {content : Segments}
    {after : Option Segments} (h : ∀ s ∈ content, Q s) (ha : ∀ segments ∈ after, ∀ s ∈ segments, Q s)
    (maxChars : ℤ) (unit : MessageLengthUnit) (trimmed : Bool) :
    ∀ s ∈ layoutClip content maxChars unit trimmed after, Q s := by
  have hafter : ∀ s ∈ after.getD [], Q s := by
    cases after with
    | none => simp
    | some segments => exact ha segments rfl
  have htext : ∀ s ∈ (if trimmed then trim content else content), Q s := by
    cases trimmed
    · exact h
    · exact forall_trim hcut h
  simp only [layoutClip]
  generalize (if trimmed then trim content else content) = text at htext ⊢
  split_ifs
  · exact List.forall_mem_append.mpr ⟨htext, hafter⟩
  · exact hafter
  · simp only [List.forall_mem_append]
    exact ⟨⟨forall_head hcut htext _ unit, by simpa using hellipsis⟩, hafter⟩

theorem mem_of_spliceLastDroppable {T : Type} {lines fewer : List (FitLine T)}
    (h : spliceLastDroppable lines = some fewer) : ∀ line ∈ fewer, line ∈ lines := by
  induction lines generalizing fewer with
  | nil => cases h
  | cons line rest ih =>
    rw [spliceLastDroppable] at h
    cases hrest : spliceLastDroppable rest with
    | some kept =>
      simp only [hrest, Option.some.injEq] at h
      subst h
      exact List.forall_mem_cons.mpr
        ⟨List.mem_cons_self, fun l hl => List.mem_cons_of_mem _ (ih hrest l hl)⟩
    | none =>
      simp only [hrest] at h
      split_ifs at h
      cases h
      exact fun l hl => List.mem_cons_of_mem _ hl

theorem forall_joinKept (hnewline : Q (copy newline)) {omittedNote : Option JsString}
    (hnote : ∀ note ∈ omittedNote, Q (copy (newline ++ note))) {kept : List (FitLine Segments)}
    (h : ∀ line ∈ kept, ∀ s ∈ line.content, Q s) (dropped : Bool) :
    ∀ s ∈ joinKept omittedNote kept dropped, Q s := by
  have htext : ∀ s ∈ joinLines (kept.map FitLine.content), Q s :=
    forall_joinLines hnewline (by simpa using h)
  cases dropped with
  | false => exact htext
  | true =>
    cases omittedNote with
    | none => exact htext
    | some note =>
      simp only [joinKept, List.forall_mem_append]
      exact ⟨htext, by simpa using hnote note rfl⟩

theorem forall_fitKept (hnewline : Q (copy newline)) {omittedNote : Option JsString}
    (hnote : ∀ note ∈ omittedNote, Q (copy (newline ++ note))) (maxChars : ℤ) (rounds : ℕ)
    {kept : List (FitLine Segments)} (h : ∀ line ∈ kept, ∀ s ∈ line.content, Q s)
    (dropped : Bool) : ∀ s ∈ fitKept maxChars omittedNote rounds kept dropped, Q s := by
  induction rounds generalizing kept dropped with
  | zero => exact forall_joinKept hnewline hnote h dropped
  | succ rounds ih =>
    rw [fitKept]
    split_ifs
    · cases hsplice : spliceLastDroppable kept with
      | none => exact forall_joinKept hnewline hnote h dropped
      | some fewer =>
        exact ih (fun line hline => h line (mem_of_spliceLastDroppable hsplice line hline)) true
    · exact forall_joinKept hnewline hnote h dropped

include hcut in
theorem forall_layoutFitLines (hnewline : Q (copy newline)) (hellipsis : Q (copy ellipsis))
    {omittedNote : Option JsString} (hnote : ∀ note ∈ omittedNote, Q (copy (newline ++ note)))
    {lines : List (FitLine Segments)} (h : ∀ line ∈ lines, ∀ s ∈ line.content, Q s) (maxChars : ℤ) :
    ∀ s ∈ layoutFitLines lines maxChars omittedNote, Q s := by
  have htext := forall_fitKept hnewline hnote maxChars lines.length h false
  simp only [layoutFitLines]
  split_ifs
  · exact htext
  · exact List.forall_mem_append.mpr
      ⟨forall_slice hcut htext 0 _, by simpa using hellipsis⟩

theorem mem_of_takeFitting {unit : MessageLengthUnit} {maxChars length : ℤ}
    {lines : List (TakeLine Segments)} :
    ∀ line ∈ (takeFitting unit maxChars length lines).1, line ∈ lines := by
  induction lines generalizing length with
  | nil => simp [takeFitting]
  | cons line rest ih =>
    simp only [takeFitting]
    split_ifs
    · simp
    · exact List.forall_mem_cons.mpr
        ⟨List.mem_cons_self, fun l hl => List.mem_cons_of_mem _ (ih l hl)⟩

theorem forall_layoutTakeLines (hnewline : Q (copy newline)) {omitted : Option Omitted}
    (hclosing : ∀ note ∈ omitted, ∀ count, Q (copy (note.before ++ decimal count ++ note.after)))
    {heads tails : List Segments} {lines : List (TakeLine Segments)}
    (hheads : ∀ line ∈ heads, ∀ s ∈ line, Q s) (htails : ∀ line ∈ tails, ∀ s ∈ line, Q s)
    (hlines : ∀ line ∈ lines, ∀ s ∈ line.content, Q s) (unit : MessageLengthUnit)
    (maxChars baseChars : ℤ) (headOnlyWithLines dropTrailingHeadings : Bool) :
    ∀ s ∈ layoutTakeLines unit maxChars baseChars heads tails lines headOnlyWithLines
      dropTrailingHeadings omitted, Q s := by
  simp only [layoutTakeLines]
  generalize hfitting : takeFitting unit maxChars _ lines = fitting
  have htaken : ∀ line ∈ (if dropTrailingHeadings then fitting.1.rdropWhile (!·.item)
      else fitting.1), ∀ s ∈ line.content, Q s := by
    intro line hline
    have hmem : line ∈ fitting.1 := by
      cases dropTrailingHeadings
      · exact hline
      · exact (List.rdropWhile_prefix _ _).subset hline
    rw [← hfitting] at hmem
    exact hlines line (mem_of_takeFitting line hmem)
  generalize (if dropTrailingHeadings then fitting.1.rdropWhile (!·.item) else fitting.1) = taken
    at htaken
  apply forall_joinLines hnewline
  simp only [List.forall_mem_append]
  refine ⟨⟨?_, by simpa using htaken, ?_⟩, htails⟩
  · split_ifs
    · simp
    · exact hheads
  · cases omitted with
    | none => simp
    | some note =>
      split_ifs
      · simpa using hclosing note rfl _
      · simp

theorem forall_layoutFirstFit {candidates : List Segments} {text : Segments}
    (h : ∀ candidate ∈ candidates, ∀ s ∈ candidate, Q s) (htext : ∀ s ∈ text, Q s) (maxChars : ℤ)
    (unit : MessageLengthUnit) : ∀ s ∈ layoutFirstFit maxChars unit candidates text, Q s := by
  induction candidates generalizing text with
  | nil => exact htext
  | cons candidate rest ih =>
    have hcandidate := h candidate List.mem_cons_self
    rw [layoutFirstFit]
    split_ifs
    · exact hcandidate
    · exact ih (fun c hc => h c (List.mem_cons_of_mem _ hc)) hcandidate

end Layout

/-! ## The segments of a body -/

theorem CopyText.inside {nodes contents : MessageContent} {shape : NodeShape MessageContent}
    {text : JsString} (h : CopyText contents text) (hnode : MessageNode.node shape ∈ nodes)
    (hcontents : contents ∈ shape.contents) : CopyText nodes text := by
  cases h with
  | node h => exact .node (.inside hnode hcontents h)
  | separator => exact .separator
  | ellipsis => exact .ellipsis
  | note h => exact .note (.inside hnode hcontents h)
  | closing h count => exact .closing (.inside hnode hcontents h) count

theorem PieceOf.inside {markup : MessageMarkup} {nodes contents : MessageContent}
    {shape : NodeShape MessageContent} {segment : TelegramSegment}
    (h : PieceOf markup contents segment) (hnode : MessageNode.node shape ∈ nodes)
    (hcontents : contents ∈ shape.contents) : PieceOf markup nodes segment := by
  unfold PieceOf at h ⊢
  cases hsource : segment.source with
  | copy text =>
    rw [hsource] at h
    exact ⟨h.1, h.2.1.inside hnode hcontents, h.2.2⟩
  | span node =>
    rw [hsource] at h
    exact ⟨h.1, h.2.1, .inside hnode hcontents h.2.2.1, h.2.2.2⟩

/-- The layout of a node, over contents whose segments are pieces, gives pieces. -/
theorem forall_renderShape (markup : MessageMarkup) {nodes : MessageContent}
    {shape : NodeShape MessageContent} (hnode : MessageNode.node shape ∈ nodes)
    (h : ∀ contents ∈ shape.contents, ∀ s ∈ render markup contents, PieceOf markup nodes s) :
    ∀ s ∈ renderShape markup (shape.map (render markup)), PieceOf markup nodes s := by
  have hcut : ∀ segment, PieceOf markup nodes segment → ∀ start stop,
      PieceOf markup nodes (segment.slice start stop) := fun _ hs => hs.slice
  have hnewline : PieceOf markup nodes (copy newline) := .copy .separator
  have hellipsis : PieceOf markup nodes (copy ellipsis) := .copy .ellipsis
  cases shape with
  | text value =>
    simpa [NodeShape.map, renderShape] using PieceOf.copy (.node (.here hnode))
  | clip content maxChars unit trimmed after =>
    apply forall_layoutClip hcut hellipsis (h content (by simp [NodeShape.contents]))
    intro segments hsegments
    obtain ⟨contents, hafter, rfl⟩ := Option.map_eq_some_iff.mp hsegments
    exact h contents (by simp [NodeShape.contents, hafter])
  | fitLines lines maxChars omittedNote =>
    apply forall_layoutFitLines hcut hnewline hellipsis
    · intro note hnote
      rw [Option.mem_def.mp hnote] at hnode
      exact .copy (.note (.here hnode))
    · simpa [NodeShape.contents, FitLine.map] using h
  | takeLines unit maxChars baseChars heads tails lines headOnly dropHeadings omitted =>
    simp only [NodeShape.contents, List.forall_mem_append, List.forall_mem_map] at h
    apply forall_layoutTakeLines hnewline
    · intro note hnote count
      rw [Option.mem_def.mp hnote] at hnode
      exact .copy (.closing (.here hnode) count)
    · simpa using h.1.1
    · simpa using h.1.2
    · simpa [TakeLine.map] using h.2
  | firstFit candidates maxChars unit =>
    apply forall_layoutFirstFit
    · simpa [NodeShape.contents] using h
    · simp
  | _ =>
    simp only [NodeShape.map, renderShape, List.forall_mem_singleton]
    exact ⟨rfl, rfl, .here hnode, List.infix_rfl⟩

theorem forall_renderNode (markup : MessageMarkup) (node : MessageNode) {nodes : MessageContent}
    (hnode : node ∈ nodes) : ∀ s ∈ renderNode markup node, PieceOf markup nodes s := by
  induction node using MessageNode.contents_induction generalizing nodes with
  | step shape ih =>
    rw [renderNode_node]
    apply forall_renderShape markup hnode
    intro contents hcontents s hs
    obtain ⟨segments, hsegments, hs⟩ := List.mem_flatten.mp hs
    obtain ⟨node, hmem, rfl⟩ := List.mem_map.mp hsegments
    exact (ih contents hcontents node hmem hmem s hs).inside hnode hcontents

theorem forall_render (markup : MessageMarkup) (nodes : MessageContent) :
    ∀ s ∈ render markup nodes, PieceOf markup nodes s := by
  intro s hs
  obtain ⟨segments, hsegments, hs⟩ := List.mem_flatten.mp hs
  obtain ⟨node, hmem, rfl⟩ := List.mem_map.mp hsegments
  exact forall_renderNode markup node hmem s hs

/-- A string body is one node of copy. -/
def nodesOf : MessageBody → MessageContent
  | .text value => [.node (.text value)]
  | .content nodes => nodes

theorem forall_telegramSegments (markup : MessageMarkup) (body : MessageBody) :
    ∀ s ∈ telegramSegments body markup, PieceOf markup (nodesOf body) s := by
  cases body with
  | text value =>
    have hpiece : PieceOf markup (nodesOf (.text value)) (copy value) :=
      .copy (.node (.here List.mem_cons_self))
    simpa [telegramSegments] using hpiece
  | content nodes => exact forall_render markup nodes

theorem concat_telegramSegments (markup : MessageMarkup) {body : MessageBody}
    (h : ContentCutsForward markup (nodesOf body)) :
    concat (telegramSegments body markup) = renderMessageContent body markup := by
  cases body with
  | text value => exact concat_copy value
  | content nodes => exact concat_render markup h

/-- Untrusted text in brackets, the other spans as in the plain rendering. -/
def bracketMarkup : MessageMarkup :=
  { PLAIN_TEXT_MARKUP with untrusted := fun text _ => [0x5B] ++ text ++ [0x5D] }

/-- A line of two letters under a budget of no characters. -/
def noBudget : MessageContent := [.node (.fitLines [⟨[.node (.text [0x61, 0x62])], false⟩] 0 none)]

/-- An untrusted span clipped to three characters. -/
def clippedSpan : MessageContent :=
  [.node (.clip [.node (.untrusted [0x61, 0x62, 0x63] .markup)] 3 .utf16 false none)]

theorem clippedSpan_cutsForward : ContentCutsForward bracketMarkup clippedSpan := by
  intro lines maxChars omittedNote ho
  cases ho with
  | here hmem => simp [clippedSpan] at hmem
  | inside hmem hc ho =>
    simp only [clippedSpan, List.mem_singleton, MessageNode.node.injEq] at hmem
    subst hmem
    simp only [NodeShape.contents, Option.toList_none, List.mem_singleton] at hc
    subst hc
    cases ho with
    | here hmem => simp at hmem
    | inside hmem hc ho =>
      simp only [List.mem_singleton, MessageNode.node.injEq] at hmem
      subst hmem
      cases hc

end QuokyPlatform.Messages.Telegram
