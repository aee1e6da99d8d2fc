import QuokyPlatform.Chunking.WindowPacking
import QuokyPlatform.Documents.Summary
import QuokyPlatform.Links.Rounds
import QuokyPlatform.Messages.Budgets
import QuokyPlatform.Messages.DiscordMarkup
import QuokyPlatform.Messages.TelegramMarkup

/-!
# A document summary fits one message

The cap of a line, the budget of the taken lines and the reserve for the note add up on every platform,
so a first line with text is always shown. Lines that are blank but hold more than spaces and tabs stay
before it, and they can take its room.
-/

namespace QuokyPlatform.Documents
open Chunking (JsString CodeUnit units codePoints isWhiteSpace trim trimEnd)
open Messages
set_option autoImplicit false
set_option maxHeartbeats 250000

/-! ## What a platform makes of a span -/

/-- The markups that a summary is delivered with. -/
def platformMarkups (upper : CodeUnit → JsString) : List MessageMarkup :=
  [Discord.DISCORD_MARKUP upper, Telegram.TELEGRAM_MARKUP upper, PLAIN_TEXT_MARKUP]

theorem pointCount_flatMap_le {write : CodeUnit → JsString}
    (hshort : ∀ unit, (codePoints (write unit)).length ≤ 2)
    (hpair : ∀ first second, Chunking.isPair first second = true →
      write first = [first] ∧ write second = [second]) (text : JsString) :
    (codePoints (text.flatMap write)).length ≤ 2 * (codePoints text).length := by
  fun_induction codePoints text with
  | case1 => exact le_rfl
  | case2 unit =>
    have hunit := hshort unit
    rw [List.flatMap_singleton, List.length_singleton]
    omega
  | case3 first second rest hpaired ih =>
    obtain ⟨hfirst, hsecond⟩ := hpair first second hpaired
    rw [List.flatMap_cons, List.flatMap_cons, hfirst, hsecond, List.singleton_append,
      List.singleton_append, codePoints, if_pos hpaired, List.length_cons, List.length_cons]
    omega
  | case4 first second rest hpaired ih =>
    have happend := codePoints_length_append_le (write first) ((second :: rest).flatMap write)
    have hfirst := hshort first
    rw [List.flatMap_cons, List.length_cons]
    omega

theorem pointCount_le_length (text : JsString) : (codePoints text).length ≤ text.length := by
  fun_induction codePoints text with
  | case1 => exact le_rfl
  | case2 unit => exact le_rfl
  | case3 first second rest hpaired ih =>
    rw [List.length_cons, List.length_cons, List.length_cons]
    omega
  | case4 first second rest hpaired ih =>
    rw [List.length_cons, List.length_cons]
    omega

theorem trackUnit_length_le (unit : CodeUnit) : (Discord.trackUnit unit).length ≤ 2 := by
  unfold Discord.trackUnit
  split
  · exact le_rfl
  · split
    · exact le_rfl
    · exact Nat.le_succ 1

/-- A unit of a surrogate pair is written as it is. -/
theorem trackUnit_surrogate {unit : CodeUnit} (h : 0xD800 ≤ unit) :
    Discord.trackUnit unit = [⟨unit, .untrusted⟩] := by
  have hall : (Discord.AT :: Discord.LESS :: Discord.DISCORD_MARKDOWN).all (· < 0xD800) := by
    decide
  have hlow : ∀ special ∈ Discord.AT :: Discord.LESS :: Discord.DISCORD_MARKDOWN,
      special < 0xD800 := fun special hmem => of_decide_eq_true (List.all_eq_true.mp hall special hmem)
  have hnot : unit ∉ Discord.AT :: Discord.LESS :: Discord.DISCORD_MARKDOWN := fun hmem =>
    absurd (hlow unit hmem) (UInt16.not_lt.mpr h)
  rw [List.mem_cons, List.mem_cons, not_or, not_or] at hnot
  rw [Discord.trackUnit, if_neg hnot.2.2, if_neg (not_or.mpr ⟨hnot.1, hnot.2.1⟩)]

theorem discord_doubles (text : JsString) :
    (codePoints (Discord.neutralize text .markup)).length ≤ 2 * (codePoints text).length := by
  rw [Discord.neutralize_markup]
  show (codePoints ((text.flatMap Discord.trackUnit).map Discord.Tracked.unit)).length ≤ _
  rw [List.map_flatMap]
  refine pointCount_flatMap_le (fun unit => ?_) (fun first second hpair => ?_) text
  · refine (pointCount_le_length _).trans ?_
    rw [List.length_map]
    exact trackUnit_length_le unit
  · simp only [Chunking.isPair, Chunking.isHighSurrogate, Chunking.isLowSurrogate,
      Bool.and_eq_true, decide_eq_true_eq] at hpair
    obtain ⟨⟨hfirst, -⟩, hsecond, -⟩ := hpair
    rw [trackUnit_surrogate hfirst,
      trackUnit_surrogate (UInt16.le_trans (by decide : (0xD800 : CodeUnit) ≤ 0xDC00) hsecond)]
    exact ⟨rfl, rfl⟩

/-- Every platform writes a code point of untrusted text as at most two. -/
theorem platform_doubles {upper : CodeUnit → JsString} {markup : MessageMarkup}
    (h : markup ∈ platformMarkups upper) (text : JsString) :
    (codePoints (markup.untrusted text .markup)).length ≤
      DOCUMENT_SUMMARY_WORST_CASE_EXPANSION * (codePoints text).length := by
  have hsame : (codePoints text).length ≤
      DOCUMENT_SUMMARY_WORST_CASE_EXPANSION * (codePoints text).length :=
    Nat.le_mul_of_pos_left _ (by decide)
  rcases List.mem_cons.mp h with rfl | h
  · exact discord_doubles text
  · rcases List.mem_cons.mp h with rfl | h
    · exact hsame
    · rw [List.mem_singleton.mp h]
      exact hsame

/-! ## The lines -/

theorem codePointLength_eq (text : JsString) :
    Chunking.codePointLength text = (codePoints text).length := by
  fun_induction codePoints text with
  | case1 => rfl
  | case2 unit => rfl
  | case3 first second rest hpaired ih =>
    rw [Chunking.codePointLength, if_pos hpaired, ih, List.length_cons]
  | case4 first second rest hpaired ih =>
    rw [Chunking.codePointLength, if_neg hpaired, ih, List.length_cons]

theorem pointCount_capLine_le {cap : ℕ} (hcap : 1 ≤ cap) (line : JsString) :
    (codePoints (capLine cap line)).length ≤ cap := by
  unfold capLine
  dsimp only
  split
  · assumption
  · have happend := codePoints_length_append_le
      (trimEnd ((codePoints line).take (cap - 1)).flatten) ellipsis
    have htrim : (codePoints (trimEnd ((codePoints line).take (cap - 1)).flatten)).length ≤
        (codePoints ((codePoints line).take (cap - 1)).flatten).length := by
      rw [← codePointLength_eq, ← codePointLength_eq]
      exact Chunking.codePointLength_trimEnd_le _
    have htake : (codePoints ((codePoints line).take (cap - 1)).flatten).length ≤ cap - 1 := by
      refine (codePoints_length_flatten_le fun point hpoint =>
        codePoints_length_of_mem (List.mem_of_mem_take hpoint)).trans ?_
      exact List.length_take_le _ _
    have hellipsis : (codePoints ellipsis).length = 1 := rfl
    omega

theorem decimal_length_le {count : ℕ} (h : count < 10 ^ 10) : (decimal count).length ≤ 10 := by
  show ((Nat.repr count).toList.map _).length ≤ 10
  rw [List.length_map, String.length_toList]
  exact (Nat.length_repr_le_iff (by decide)).mpr h

/-- Joined lines count as their lines, each with a separator, but for the last. -/
theorem pointCount_intercalate_lt {parts : List JsString} (h : parts ≠ []) :
    (codePoints (newline.intercalate parts)).length + 1 ≤
      (parts.map fun part => (codePoints part).length + 1).sum := by
  induction parts with
  | nil => exact absurd rfl h
  | cons part rest ih =>
    cases rest with
    | nil => simp
    | cons next rest =>
      have hrest := ih (List.cons_ne_nil _ _)
      have hjoin : newline.intercalate (part :: next :: rest) =
          part ++ (newline ++ newline.intercalate (next :: rest)) := by
        simp [List.intercalate]
      have hfirst := codePoints_length_append_le part
        (newline ++ newline.intercalate (next :: rest))
      have hsecond := codePoints_length_append_le newline (newline.intercalate (next :: rest))
      have hnewline : (codePoints newline).length = 1 := rfl
      rw [hjoin, List.map_cons, List.sum_cons]
      omega

/-! ## The delivered text -/

/-- A line as a platform shows it. -/
def shownLine (markup : MessageMarkup) (line : JsString) : JsString :=
  if isBlankLine line then [] else markup.untrusted line .markup

def shownTakeLine (markup : MessageMarkup) (line : JsString) : TakeLine JsString :=
  ⟨shownLine markup line, !isBlankLine line⟩

/-- How many lines the renderer takes. -/
def takenLines (markup : MessageMarkup) (footer : MessageBody) (lines : List JsString) : ℕ :=
  (takeFitting .codePoints (DOCUMENT_SUMMARY_REPLY_MAX_CHARS - DOCUMENT_SUMMARY_OMITTED_RESERVE : ℕ)
    (1 + (codePoints (renderMessageContent footer markup)).length)
    (lines.map (shownTakeLine markup))).1.length

/-- The note of the lines with text that are left out. -/
def omittedNote (leftOut : List JsString) : List JsString :=
  let count := leftOut.countP fun line => !isBlankLine line
  if count = 0 then [] else [units "… (+" ++ decimal count ++ units ")"]

/-- The delivered text is that of one message: a beginning of the lines, the note of what is left out,
the blank line and the footer; the first line with text is among the lines. -/
structure Delivered (markup : MessageMarkup) (footer : MessageBody) (lines : List JsString)
    (text : JsString) (taken : ℕ) : Prop where
  layout : text = newline.intercalate ((lines.take taken).map (shownLine markup) ++
    omittedNote (lines.drop taken) ++ [[], renderMessageContent footer markup])
  ends : newline ++ newline ++ renderMessageContent footer markup <:+ text
  short : (codePoints text).length ≤ DOCUMENT_SUMMARY_REPLY_MAX_CHARS
  first : ∀ blanks first rest, lines = blanks ++ first :: rest →
    (∀ blank ∈ blanks, isBlankLine blank = true) → isBlankLine first = false →
    blanks.length < taken

/-- The blank lines before the first line with text leave it room. -/
def RoomForFirst (markup : MessageMarkup) (footer : MessageBody) (lines : List JsString) : Prop :=
  ∀ blanks first rest, lines = blanks ++ first :: rest →
    (∀ blank ∈ blanks, isBlankLine blank = true) → isBlankLine first = false →
    blanks.length + (codePoints (markup.untrusted first .markup)).length +
      (codePoints (renderMessageContent footer markup)).length + 2 ≤
        DOCUMENT_SUMMARY_REPLY_MAX_CHARS - DOCUMENT_SUMMARY_OMITTED_RESERVE

theorem render_asContent (markup : MessageMarkup) (part : MessagePart) :
    render markup (asContent part) = renderPart markup part := by
  cases part with
  | content nodes => rfl
  | text value =>
    show render markup (messageContent [.text value]) = _
    rw [render_messageContent]
    simp
  | node node =>
    show render markup (messageContent [.node node]) = _
    rw [render_messageContent]
    simp

theorem renderPart_part (markup : MessageMarkup) (body : MessageBody) :
    renderPart markup body.part = renderMessageContent body markup := by
  cases body with
  | text value => rfl
  | content nodes => rfl

section
variable {unicode : Links.Unicode} {isLetterOrNumber : CodeUnit → Bool}
  {upper : CodeUnit → JsString} {markup : MessageMarkup} {footer : MessageBody}
  {summary : JsString} {lines : List JsString}

theorem render_summaryLine (line : JsString) :
    TakeLine.map (render markup) (summaryLine line) = shownTakeLine markup line := by
  unfold summaryLine shownTakeLine shownLine
  split
  · rename_i hblank
    rw [hblank]
    rfl
  · rename_i hblank
    rw [Bool.not_eq_true] at hblank
    rw [hblank]
    rw [TakeLine.map, render_asContent]
    rfl

/-- The renderer takes a beginning of the lines, the longest that the budget has room for. -/
theorem takenLines_spec (markup : MessageMarkup) (footer : MessageBody) (lines : List JsString) :
    let taken := takenLines markup footer lines
    let base : ℤ := 1 + (codePoints (renderMessageContent footer markup)).length
    let budget : ℤ := (DOCUMENT_SUMMARY_REPLY_MAX_CHARS - DOCUMENT_SUMMARY_OMITTED_RESERVE : ℕ)
    taken ≤ lines.length ∧
      takeFitting .codePoints budget base (lines.map (shownTakeLine markup)) =
        ((lines.take taken).map (shownTakeLine markup),
          (lines.drop taken).countP fun line => !isBlankLine line) ∧
      (0 < taken → base +
        countedLines .codePoints ((lines.take taken).map (shownTakeLine markup)) ≤ budget) ∧
      (taken < lines.length → budget < base +
        countedLines .codePoints ((lines.take (taken + 1)).map (shownTakeLine markup))) := by
  intro taken base budget
  obtain ⟨fitting, hle, htaken, hfits, hnext⟩ :=
    takeFitting_spec .codePoints budget base (lines.map (shownTakeLine markup))
  rw [List.length_map] at hle
  have hsame : taken = fitting := by
    show (takeFitting _ _ _ _).1.length = fitting
    rw [htaken, List.length_take, List.length_map, min_eq_left hle]
  have hcount : ∀ part : List JsString,
      ((part.map (shownTakeLine markup)).filter TakeLine.item).length =
        part.countP fun line => !isBlankLine line := by
    intro part
    rw [List.filter_map, List.length_map, List.countP_eq_length_filter]
    rfl
  rw [hsame]
  rw [List.length_map] at hnext
  refine ⟨hle, ?_, ?_, ?_⟩
  · rw [htaken, ← List.map_take, ← List.map_drop, hcount]
  · rw [List.map_take]
    exact hfits
  · rw [List.map_take]
    exact hnext

theorem renderTakeLines_summary (lines : List JsString) :
    renderTakeLines .codePoints (DOCUMENT_SUMMARY_REPLY_MAX_CHARS - DOCUMENT_SUMMARY_OMITTED_RESERVE : ℕ)
        1 [] [[], renderMessageContent footer markup] (lines.map (shownTakeLine markup)) false false
        (some ⟨0, units "… (+", units ")"⟩) =
      newline.intercalate ((lines.take (takenLines markup footer lines)).map (shownLine markup) ++
        omittedNote (lines.drop (takenLines markup footer lines)) ++
        [[], renderMessageContent footer markup]) := by
  obtain ⟨-, htaken, -, -⟩ := takenLines_spec markup footer lines
  have hbase : (1 : ℤ) + (([] ++ [[], renderMessageContent footer markup]).map fun line =>
      (Messages.measure line .codePoints : ℤ)).sum =
        1 + (codePoints (renderMessageContent footer markup)).length := by
    simp [Messages.measure, codePoints]
  have hclosing : (if ((some (⟨0, units "… (+", units ")"⟩ : Omitted)).map Omitted.hidden).getD 0 +
        ((lines.drop (takenLines markup footer lines)).countP fun line => !isBlankLine line : ℤ) > 0
      then [units "… (+" ++ decimal (((some (⟨0, units "… (+", units ")"⟩ : Omitted)).map
        Omitted.hidden).getD 0 + ((lines.drop (takenLines markup footer lines)).countP
          fun line => !isBlankLine line : ℤ)) ++ units ")"] else []) =
      omittedNote (lines.drop (takenLines markup footer lines)) := by
    rw [Option.map_some, Option.getD_some, zero_add, omittedNote]
    by_cases hnone : ((lines.drop (takenLines markup footer lines)).countP
        fun line => !isBlankLine line) = 0
    · rw [hnone]
      rfl
    · rw [if_neg hnone, if_pos (by omega)]
  unfold renderTakeLines
  simp only [hbase, htaken, Bool.false_and, Bool.false_eq_true, if_false]
  rw [hclosing, List.map_map]
  rfl

/-- The delivered text, as the renderer lays it out. -/
theorem render_documentSummaryReply {lines : List JsString}
    (hlines : lines = summaryLines unicode isLetterOrNumber summary footer) :
    renderMessageContent (documentSummaryReply unicode isLetterOrNumber summary footer).body markup =
      newline.intercalate ((lines.take (takenLines markup footer lines)).map (shownLine markup) ++
        omittedNote (lines.drop (takenLines markup footer lines)) ++
        [[], renderMessageContent footer markup]) := by
  have htails : [asContent (.text []), asContent footer.part].map (render markup) =
      [[], renderMessageContent footer markup] := by
    rw [List.map_cons, List.map_singleton, render_asContent, render_asContent, renderPart_part]
    rfl
  have hmap : (lines.map summaryLine).map (TakeLine.map (render markup)) =
      lines.map (shownTakeLine markup) := by
    rw [List.map_map]
    exact List.map_congr_left fun line _ => render_summaryLine line
  have hnode : renderNode markup (.node (.takeLines .codePoints
      (DOCUMENT_SUMMARY_REPLY_MAX_CHARS - DOCUMENT_SUMMARY_OMITTED_RESERVE : ℕ) 1 []
      [asContent (.text []), asContent footer.part] (lines.map summaryLine) false false
      (some ⟨0, units "… (+", units ")"⟩))) = newline.intercalate
        ((lines.take (takenLines markup footer lines)).map (shownLine markup) ++
          omittedNote (lines.drop (takenLines markup footer lines)) ++
          [[], renderMessageContent footer markup]) := by
    rw [← renderTakeLines_summary, ← htails, ← hmap, renderNode_node]
    rfl
  rw [← hnode, hlines]
  unfold documentSummaryReply
  rw [renderMessageContent_messageBody, render_messageContent, List.map_singleton,
    List.flatten_singleton]
  rfl

/-! ## The constants add up -/

theorem counted_blanks {blanks : List JsString} (h : ∀ blank ∈ blanks, isBlankLine blank = true) :
    countedLines .codePoints (blanks.map (shownTakeLine markup)) = blanks.length := by
  induction blanks with
  | nil => rfl
  | cons blank rest ih =>
    have hblank : shownLine markup blank = [] := by
      rw [shownLine, if_pos (h blank List.mem_cons_self)]
    have hrest := ih fun other hother => h other (List.mem_cons_of_mem _ hother)
    rw [List.map_cons, countedLines_cons, hrest]
    show (Messages.measure (shownLine markup blank) .codePoints : ℤ) + 1 + rest.length = _
    rw [hblank, List.length_cons]
    show ((0 : ℕ) : ℤ) + 1 + rest.length = _
    omega

theorem counted_append (first second : List (TakeLine JsString)) :
    countedLines .codePoints (first ++ second) =
      countedLines .codePoints first + countedLines .codePoints second := by
  unfold countedLines
  rw [List.map_append, List.sum_append]

theorem counted_eq_sum (lines : List JsString) :
    countedLines .codePoints (lines.map (shownTakeLine markup)) =
      (((lines.map (shownLine markup)).map fun line => (codePoints line).length + 1).sum : ℕ) := by
  induction lines with
  | nil => rfl
  | cons line rest ih =>
    rw [List.map_cons, countedLines_cons, ih, List.map_cons, List.map_cons, List.sum_cons,
      Nat.cast_add, Nat.cast_add]
    rfl

/-- The first line with text is taken exactly when it and the blank lines before it fit. -/
theorem first_taken_iff {blanks rest : List JsString} {first : JsString}
    (hlines : lines = blanks ++ first :: rest) (hblanks : ∀ blank ∈ blanks, isBlankLine blank = true)
    (hfirst : isBlankLine first = false) :
    blanks.length < takenLines markup footer lines ↔
      blanks.length + (codePoints (markup.untrusted first .markup)).length +
        (codePoints (renderMessageContent footer markup)).length + 2 ≤
          DOCUMENT_SUMMARY_REPLY_MAX_CHARS - DOCUMENT_SUMMARY_OMITTED_RESERVE := by
  obtain ⟨hle, -, hfits, hnext⟩ := takenLines_spec markup footer lines
  have hlength : lines.length = blanks.length + (rest.length + 1) := by
    rw [hlines, List.length_append, List.length_cons]
  have htake : (lines.take (blanks.length + 1)).map (shownTakeLine markup) =
      blanks.map (shownTakeLine markup) ++ [shownTakeLine markup first] := by
    rw [hlines, List.take_length_add_append, List.map_append]
    rfl
  have hcounted : countedLines .codePoints
      ((lines.take (blanks.length + 1)).map (shownTakeLine markup)) =
        blanks.length + ((codePoints (markup.untrusted first .markup)).length + 1) := by
    have hshown : (shownTakeLine markup first).content = markup.untrusted first .markup := by
      show shownLine markup first = _
      rw [shownLine, hfirst]
      rfl
    rw [htake, counted_append, counted_blanks hblanks, countedLines_cons, hshown]
    show _ = (blanks.length : ℤ) + ((codePoints _).length + 1)
    exact congrArg _ (add_zero _)
  have hmono : ∀ {fewer more : ℕ}, fewer ≤ more →
      countedLines .codePoints ((lines.take fewer).map (shownTakeLine markup)) ≤
        countedLines .codePoints ((lines.take more).map (shownTakeLine markup)) := by
    intro fewer more hle
    rw [List.map_take, List.map_take]
    exact countedLines_take_le .codePoints hle _
  constructor
  · intro hlt
    have hsum := hfits (Nat.zero_lt_of_lt hlt)
    have hless := hmono (Nat.succ_le_of_lt hlt)
    rw [hcounted] at hless
    omega
  · intro hroom
    by_contra hnot
    have hover := hnext (by omega)
    have hmore := hmono (show takenLines markup footer lines + 1 ≤ blanks.length + 1 by omega)
    rw [hcounted] at hmore
    omega

/-- The joined text of some lines, a blank line and the footer. -/
theorem intercalate_tail {shown : List JsString} {last : JsString} (h : shown ≠ []) :
    newline.intercalate (shown ++ [[], last]) =
      newline.intercalate shown ++ (newline ++ newline ++ last) := by
  induction shown with
  | nil => exact absurd rfl h
  | cons part rest ih =>
    cases rest with
    | nil => simp [List.intercalate]
    | cons next rest =>
      have hrest := ih (List.cons_ne_nil _ _)
      rw [List.cons_append, List.cons_append, List.intercalate_cons_cons, ← List.cons_append, hrest,
        List.intercalate_cons_cons, List.append_assoc, List.append_assoc, List.append_assoc,
        List.append_assoc]

theorem one_le_lineCap (footer : MessageBody) : 1 ≤ lineCap footer :=
  le_trans one_le_two (le_max_left _ _)

/-- A line at its cap, written twice as long, and the footer are within the budget. -/
theorem lineCap_adds (hfooter : (codePoints (plainTextOf footer)).length ≤ 1000) :
    DOCUMENT_SUMMARY_WORST_CASE_EXPANSION * lineCap footer +
        (codePoints (plainTextOf footer)).length + 2 ≤
      DOCUMENT_SUMMARY_REPLY_MAX_CHARS - DOCUMENT_SUMMARY_OMITTED_RESERVE := by
  have hplain : plainTextOf (messageBody [footer.part]) = plainTextOf footer := by
    show renderMessageContent (messageBody [footer.part]) PLAIN_TEXT_MARKUP = _
    rw [renderMessageContent_messageBody, render_messageContent, List.map_singleton,
      List.flatten_singleton]
    exact renderPart_part PLAIN_TEXT_MARKUP footer
  unfold lineCap
  rw [hplain]
  simp only [DOCUMENT_SUMMARY_REPLY_MAX_CHARS, DOCUMENT_SUMMARY_OMITTED_RESERVE,
    DOCUMENT_SUMMARY_WORST_CASE_EXPANSION]
  omega

theorem summaryLines_ne_nil : summaryLines unicode isLetterOrNumber summary footer ≠ [] := by
  unfold summaryLines linesOf
  rw [Ne, List.map_eq_nil_iff]
  exact List.splitOn_ne_nil _ _

/-- With a footer in its bounds there is always a line or a note above it. -/
theorem shown_ne_nil (hlines : lines ≠ [])
    (hfooter : (codePoints (renderMessageContent footer markup)).length ≤ 1000) :
    (lines.take (takenLines markup footer lines)).map (shownLine markup) ++
      omittedNote (lines.drop (takenLines markup footer lines)) ≠ [] := by
  obtain ⟨first, rest, rfl⟩ := List.exists_cons_of_ne_nil hlines
  by_cases htaken : takenLines markup footer (first :: rest) = 0
  · -- a blank line would have been taken, so the note counts the first line
    have hfirst : isBlankLine first = false := by
      by_contra hblank
      rw [Bool.not_eq_false] at hblank
      obtain ⟨-, -, -, hnext⟩ := takenLines_spec markup footer (first :: rest)
      rw [htaken] at hnext
      have hover := hnext (Nat.succ_pos _)
      have hcounted : countedLines .codePoints ([first].map (shownTakeLine markup)) =
          [first].length := counted_blanks (by simpa using hblank)
      rw [zero_add, List.take_succ_cons, List.take_zero, hcounted] at hover
      simp only [DOCUMENT_SUMMARY_REPLY_MAX_CHARS, DOCUMENT_SUMMARY_OMITTED_RESERVE,
        List.length_singleton] at hover
      omega
    rw [htaken, List.take_zero, List.map_nil, List.nil_append, List.drop_zero, omittedNote,
      List.countP_cons, hfirst]
    simp
  · obtain ⟨taken, hsucc⟩ := Nat.exists_eq_succ_of_ne_zero htaken
    rw [hsucc]
    exact List.append_ne_nil_of_left_ne_nil (by simp) _

theorem pointCount_omittedNote_le {leftOut : List JsString} (h : leftOut.length < 10 ^ 10) :
    ((omittedNote leftOut).map fun part => (codePoints part).length + 1).sum ≤
      DOCUMENT_SUMMARY_OMITTED_RESERVE := by
  unfold omittedNote
  dsimp only
  split
  · exact Nat.zero_le _
  · have hcount : leftOut.countP (fun line => !isBlankLine line) ≤ leftOut.length :=
      List.countP_le_length
    have hdecimal := decimal_length_le (lt_of_le_of_lt hcount h)
    have hpoints := pointCount_le_length (units "… (+" ++
      decimal (leftOut.countP fun line => !isBlankLine line) ++ units ")")
    have hbefore : (units "… (+").length = 4 := by decide
    have hafter : (units ")").length = 1 := by decide
    rw [List.length_append, List.length_append] at hpoints
    rw [List.map_singleton, List.sum_singleton]
    show _ ≤ 16
    omega

/-- From every summary, under every footer in its bounds and on every platform, the delivered text is
that of one message exactly when the blank lines before the first line with text leave it room; they
do where there is none. -/
theorem summary_delivered_iff (hmarkup : markup ∈ platformMarkups upper)
    (hfooter : (codePoints (plainTextOf footer)).length ≤ 1000)
    (hgrows : (codePoints (renderMessageContent footer markup)).length ≤
      (codePoints (plainTextOf footer)).length)
    (hlines : lines = summaryLines unicode isLetterOrNumber summary footer)
    (hcount : lines.length < 10 ^ 10) :
    (Delivered markup footer lines
        (renderMessageContent (documentSummaryReply unicode isLetterOrNumber summary footer).body
          markup) (takenLines markup footer lines) ↔ RoomForFirst markup footer lines) ∧
      (lines.head?.any isBlankLine = false → RoomForFirst markup footer lines) := by
  have hrendered := hgrows.trans hfooter
  refine ⟨⟨fun h => ?_, fun hroom => ?_⟩, fun hhead => ?_⟩
  · intro blanks first rest hsplit hblanks hfirst
    exact (first_taken_iff hsplit hblanks hfirst).mp (h.first blanks first rest hsplit hblanks hfirst)
  · have hlayout : renderMessageContent
        (documentSummaryReply unicode isLetterOrNumber summary footer).body markup = _ :=
      render_documentSummaryReply hlines
    have hne := shown_ne_nil (hlines ▸ summaryLines_ne_nil) hrendered
    refine ⟨hlayout, ?_, ?_, fun blanks first rest hsplit hblanks hfirst =>
      (first_taken_iff hsplit hblanks hfirst).mpr (hroom blanks first rest hsplit hblanks hfirst)⟩
    · rw [hlayout, intercalate_tail hne]
      exact List.suffix_append _ _
    · obtain ⟨-, -, hfits, -⟩ := takenLines_spec markup footer lines
      rw [hlayout]
      set taken := takenLines markup footer lines with htaken
      have hleft : (lines.drop taken).length < 10 ^ 10 := by
        rw [List.length_drop]
        omega
      have hnote := pointCount_omittedNote_le hleft
      have hparts : (lines.take taken).map (shownLine markup) ++ omittedNote (lines.drop taken) ++
          [[], renderMessageContent footer markup] ≠ [] := by simp
      have hjoin := pointCount_intercalate_lt hparts
      rw [List.map_append, List.map_append, List.sum_append, List.sum_append] at hjoin
      have htail : ([[], renderMessageContent footer markup].map fun part =>
          (codePoints part).length + 1).sum =
          (codePoints (renderMessageContent footer markup)).length + 2 := by
        simp [codePoints]
        omega
      have htake : ((((lines.take taken).map (shownLine markup)).map fun line =>
          (codePoints line).length + 1).sum +
          (codePoints (renderMessageContent footer markup)).length + 1 : ℕ) ≤
            DOCUMENT_SUMMARY_REPLY_MAX_CHARS - DOCUMENT_SUMMARY_OMITTED_RESERVE := by
        rcases Nat.eq_zero_or_pos taken with hzero | hpos
        · rw [hzero, List.take_zero, List.map_nil, List.map_nil, List.sum_nil]
          simp only [DOCUMENT_SUMMARY_REPLY_MAX_CHARS, DOCUMENT_SUMMARY_OMITTED_RESERVE]
          omega
        · have hsum := hfits hpos
          rw [counted_eq_sum] at hsum
          omega
      simp only [DOCUMENT_SUMMARY_REPLY_MAX_CHARS, DOCUMENT_SUMMARY_OMITTED_RESERVE] at *
      omega
  · intro blanks first rest hsplit hblanks hfirst
    cases blanks with
    | cons blank blanks =>
      rw [hsplit] at hhead
      have hblank := hblanks blank List.mem_cons_self
      rw [show ((blank :: blanks ++ first :: rest).head?.any isBlankLine) = isBlankLine blank from rfl,
        hblank] at hhead
      cases hhead
    | nil =>
      have hmem : first ∈ summaryLines unicode isLetterOrNumber summary footer := by
        rw [← hlines, hsplit]
        exact List.mem_cons_self
      obtain ⟨line, -, rfl⟩ := List.mem_map.mp hmem
      have hcap := pointCount_capLine_le (one_le_lineCap footer) line
      have hwide := platform_doubles hmarkup (capLine (lineCap footer) line)
      have hadds := lineCap_adds hfooter
      simp only [DOCUMENT_SUMMARY_REPLY_MAX_CHARS, DOCUMENT_SUMMARY_OMITTED_RESERVE,
        DOCUMENT_SUMMARY_WORST_CASE_EXPANSION, List.length_nil] at hwide hadds ⊢
      omega

end

/-- A summary of one letter under a footer of one. -/
theorem summary_delivered_letter :
    Delivered PLAIN_TEXT_MARKUP (.text [0x62]) [[0x61]]
      (renderMessageContent (documentSummaryReply Links.koreanUnicode (fun _ => false) [0x61]
        (.text [0x62])).body PLAIN_TEXT_MARKUP)
      (takenLines PLAIN_TEXT_MARKUP (.text [0x62]) [[0x61]]) := by
  have hlines : [[0x61]] = summaryLines Links.koreanUnicode (fun _ => false) [0x61]
      (.text [0x62]) := by decide +kernel
  have h := summary_delivered_iff
    (List.mem_cons_of_mem _ (List.mem_cons_of_mem _ List.mem_cons_self) :
      PLAIN_TEXT_MARKUP ∈ platformMarkups fun unit => [unit])
    (show (codePoints (plainTextOf (.text [0x62]))).length ≤ 1000 by decide) le_rfl hlines
    (by decide)
  exact h.1.mpr (h.2 (by decide))

/-! ## A line that is hidden -/

/-- A text without a full stop or a colon has no link. -/
theorem neutralizeLinks_of_no_mark {unicode : Links.Unicode} {text : Links.Text}
    (hclean : Links.Clean unicode text) (hmark : text.countP Links.isLinkMark = 0)
    (mode : Links.LinkNeutralizationMode) : Links.neutralizeLinks unicode text mode = text := by
  have hround : Links.neutralizeRound unicode mode text = text := by
    refine (Links.round_countP unicode mode text).resolve_right ?_
    rw [hmark]
    exact Nat.not_lt_zero _
  unfold Links.neutralizeLinks
  split
  · rename_i hempty
    rw [List.eq_nil_of_length_eq_zero hempty]
  · rw [hclean.normalized, Links.neutralizeRounds, hround, if_pos rfl]

/-- A text of the basic plane is its code points. -/
theorem codePoints_basic {text : JsString} (h : ∀ unit ∈ text, unit < 0xD800) :
    codePoints text = text.map fun unit => [unit] := by
  fun_induction codePoints text with
  | case1 => rfl
  | case2 unit => rfl
  | case3 first second rest hpaired ih =>
    simp only [Chunking.isPair, Chunking.isHighSurrogate, Bool.and_eq_true,
      decide_eq_true_eq] at hpaired
    exact absurd (h first List.mem_cons_self) (UInt16.not_lt.mpr hpaired.1.1)
  | case4 first second rest hpaired ih =>
    rw [ih fun unit hunit => h unit (List.mem_cons_of_mem _ hunit)]
    rfl

theorem neutralizeDisplay_plain {text : JsString} (h : ∀ unit ∈ text, unit < 0xD800)
    (hmark : ∀ unit ∈ text, Links.isLinkMark unit.toNat = false) :
    neutralizeDisplay Links.koreanUnicode text = text := by
  have hnumbers : (codePoints text).map pointNumber = text.map UInt16.toNat := by
    rw [codePoints_basic h, List.map_map]
    refine List.map_congr_left fun unit _ => ?_
    show [unit.toNat].sum = unit.toNat
    exact List.sum_singleton
  have hnone : (text.map UInt16.toNat).countP Links.isLinkMark = 0 := by
    rw [List.countP_eq_zero]
    intro c hc
    obtain ⟨unit, hunit, rfl⟩ := List.mem_map.mp hc
    rw [hmark unit hunit]
    exact Bool.false_ne_true
  unfold neutralizeDisplay
  rw [hnumbers, neutralizeLinks_of_no_mark ⟨rfl, fun _ _ => rfl⟩ hnone, List.flatMap_map]
  have hunits : ∀ unit ∈ text, pointUnits unit.toNat = [unit] := by
    intro unit hunit
    have hbound : unit.toNat < 0x10000 := unit.toNat_lt
    rw [pointUnits, if_pos hbound, UInt16.ofNat_toNat]
  rw [List.flatMap_congr hunits, List.flatMap_singleton']

/-- A blank line with a carriage return, and a line at its cap that Discord writes twice as long. -/
def wideSummary : JsString := [0x0D, 0x0A] ++ List.replicate 441 Discord.AT

/-- The longest footer. -/
def longFooter : MessageBody := .text (List.replicate 1000 0x2D)

theorem wideSummary_lines : summaryLines Links.koreanUnicode (fun _ => false) wideSummary longFooter =
    [[0x0D]] ++ List.replicate 441 Discord.AT :: [] := by
  have hplain : neutralizeDisplay Links.koreanUnicode wideSummary = wideSummary := by
    have hall : wideSummary.all fun unit =>
        decide (unit < 0xD800) && !Links.isLinkMark unit.toNat := by decide +kernel
    simp only [List.all_eq_true, Bool.and_eq_true, decide_eq_true_eq, Bool.not_eq_true'] at hall
    exact neutralizeDisplay_plain (fun unit hunit => (hall unit hunit).1)
      fun unit hunit => (hall unit hunit).2
  have hjoined : joinedWrappedLines wideSummary = wideSummary := by decide +kernel
  have hstripped : stripMarkdownEmphasis (fun _ => false) wideSummary = wideSummary := by
    decide +kernel
  have hcap : lineCap longFooter = 441 := by decide +kernel
  unfold summaryLines summaryText
  rw [hjoined, hplain, hstripped, hplain, hcap]
  decide +kernel

theorem wide_line_hidden :
    ¬ ∀ (unicode : Links.Unicode) (isLetterOrNumber : CodeUnit → Bool)
      (upper : CodeUnit → JsString) (markup : MessageMarkup) (footer : MessageBody)
      (summary : JsString), markup ∈ platformMarkups upper →
        (codePoints (plainTextOf footer)).length ≤ 1000 →
        (codePoints (renderMessageContent footer markup)).length ≤
          (codePoints (plainTextOf footer)).length →
        Delivered markup footer (summaryLines unicode isLetterOrNumber summary footer)
          (renderMessageContent
            (documentSummaryReply unicode isLetterOrNumber summary footer).body markup)
          (takenLines markup footer (summaryLines unicode isLetterOrNumber summary footer)) := by
  intro h
  have hdelivered := h Links.koreanUnicode (fun _ => false) (fun unit => [unit])
    (Discord.DISCORD_MARKUP fun unit => [unit]) longFooter wideSummary List.mem_cons_self
    (by decide +kernel) (by decide +kernel)
  have hblanks : ∀ blank ∈ [[(0x0D : CodeUnit)]], isBlankLine blank = true := by decide
  have hfirst : isBlankLine (List.replicate 441 Discord.AT) = false := by decide +kernel
  have hshown := hdelivered.first [[0x0D]] (List.replicate 441 Discord.AT) [] wideSummary_lines
    hblanks hfirst
  have hroom := (first_taken_iff wideSummary_lines hblanks hfirst).mp hshown
  exact absurd hroom (by decide +kernel)

end QuokyPlatform.Documents
