import Mathlib.Data.List.Chain
import QuokyPlatform.DiscordTables.CellsKept
import QuokyPlatform.Foundations.Lines

/-! # The lines that table rendering keeps

A fenced line, and a line that is no table row, comes out as it went in and in its place. From a
convertible line on, every line up to the next blank one is convertible, and no convertible line is
fenced; so the rows of a table, none of which is blank, are outside every fence. -/

namespace QuokyPlatform.DiscordTables
open Chunking (JsString CodeUnit units isWhiteSpace trim trimEnd)

set_option autoImplicit false
set_option maxHeartbeats 250000

/-! ## Rows -/

def isRow (raw : JsString) : Bool := isTableRow (withoutReturn raw)

theorem head_of_isTableRow {line : JsString} (h : isTableRow line = true) : line.head? = some PIPE := by
  have hrow : (line.rdropWhile isTab).head? = some PIPE := by
    simp only [isTableRow, tableRow, Bool.and_eq_true, decide_eq_true_eq] at h
    exact h.1.1.1.1.2
  obtain ⟨rest, hrest⟩ := List.rdropWhile_prefix isTab line
  cases hline : line.rdropWhile isTab with
  | nil =>
    rw [hline] at hrow
    cases hrow
  | cons first more =>
    rw [hline] at hrow hrest
    rw [← hrest]
    exact hrow

theorem not_blank_of_row {raw : JsString} (h : isRow raw = true) : isBlank (withoutReturn raw) = false := by
  have hhead := head_of_isTableRow h
  cases hline : withoutReturn raw with
  | nil =>
    rw [hline] at hhead
    cases hhead
  | cons first rest =>
    rw [hline] at hhead
    obtain rfl := Option.some.inj hhead
    have hdrop : (PIPE :: rest).dropWhile isWhiteSpace = PIPE :: rest := by
      rw [List.dropWhile_cons_of_neg (by decide)]
    rw [isBlank, trim, hdrop, List.isEmpty_eq_false_iff, ne_eq, List.rdropWhile_eq_nil_iff]
    intro hall
    exact absurd (hall PIPE List.mem_cons_self) (by decide)

/-! ## Paragraphs -/

/-- A line of the reply, with whether it is fenced and whether a table may start on it. -/
structure Marked where
  raw : JsString
  fenced : Bool
  convertible : Bool

def Marked.line (marked : Marked) : JsString × Bool := (marked.raw, marked.fenced)

def Marked.isRow (marked : Marked) : Bool := DiscordTables.isRow marked.raw

def Marked.entry (marked : Marked) : JsString × Bool := (marked.raw, marked.convertible)

/-- A convertible line is followed by a blank line or by a convertible one. -/
def Spreads (first second : Marked) : Prop :=
  first.convertible = true → isBlank (withoutReturn second.raw) = false → second.convertible = true

/-- The marks of a reply whose tables may be converted. -/
structure WellMarked (marked : List Marked) : Prop where
  unfenced : ∀ line ∈ marked, line.convertible = true → line.fenced = false
  spreads : marked.IsChain Spreads

theorem WellMarked.suffix {marked rest : List Marked} (h : WellMarked marked) (hrest : rest <:+ marked) :
    WellMarked rest :=
  ⟨fun line hline => h.unfenced line (hrest.subset hline), h.spreads.suffix hrest⟩

theorem WellMarked.append {before after : List Marked} (hbefore : WellMarked before)
    (hafter : WellMarked after) (hborder : ∀ line ∈ after.head?, isBlank (withoutReturn line.raw) = true) :
    WellMarked (before ++ after) := by
  refine ⟨fun line hline => ?_, List.isChain_append.mpr ⟨hbefore.spreads, hafter.spreads, ?_⟩⟩
  · rcases List.mem_append.mp hline with hline | hline
    · exact hbefore.unfenced line hline
    · exact hafter.unfenced line hline
  · intro first _ second hsecond _ hblank
    rw [hborder second hsecond] at hblank
    cases hblank

/-- A line as it is analysed, with whether it is fenced. -/
def analyse (entry : JsString × Bool) : JsString × Bool := (withoutReturn entry.1, entry.2)

def goesOn (entry : JsString × Bool) : Bool := !separates (analyse entry)

/-- The lines of a reply with their marks. -/
def marksOf : List (JsString × Bool) → List Marked
  | [] => []
  | entry :: rest =>
    if separates (analyse entry) then ⟨entry.1, entry.2, false⟩ :: marksOf rest
    else
      let block := entry :: rest.takeWhile goesOn
      block.map (fun line => ⟨line.1, line.2, block.all fun line => !line.2⟩) ++
        marksOf (rest.dropWhile goesOn)
termination_by entries => entries.length
decreasing_by
  · simp
  · have hle := List.length_dropWhile_le goesOn rest
    simp only [List.length_cons]
    omega

theorem convertible_marksOf (entries : List (JsString × Bool)) :
    (marksOf entries).map Marked.convertible = paragraphs (entries.map analyse) := by
  induction entries using marksOf.induct with
  | case1 => rw [marksOf, List.map_nil, List.map_nil, paragraphs]
  | case2 entry rest hseparates ih =>
    rw [marksOf, if_pos hseparates, List.map_cons, List.map_cons, paragraphs, if_pos hseparates, ih]
  | case3 entry rest hseparates ih =>
    have hgoes : (fun entry => !separates entry) ∘ analyse = goesOn := rfl
    rw [marksOf, if_neg hseparates, List.map_cons, paragraphs, if_neg hseparates, List.map_append, ih,
      List.takeWhile_map, List.dropWhile_map, hgoes, ← List.map_cons]
    dsimp only
    rw [List.all_map, List.map_map, List.map_map]
    rfl

theorem lines_marksOf (entries : List (JsString × Bool)) :
    (marksOf entries).map Marked.line = entries := by
  induction entries using marksOf.induct with
  | case1 => rw [marksOf, List.map_nil]
  | case2 entry rest hseparates ih =>
    rw [marksOf, if_pos hseparates, List.map_cons, ih]
    rfl
  | case3 entry rest hseparates ih =>
    rw [marksOf, if_neg hseparates, List.map_append, ih, List.map_map]
    have hsame : ∀ flag : Bool, (Marked.line ∘
        fun line : JsString × Bool => (⟨line.1, line.2, flag⟩ : Marked)) = id := fun _ => rfl
    rw [hsame, List.map_id, List.cons_append, List.takeWhile_append_dropWhile]

theorem entries_marksOf (entries : List (JsString × Bool)) :
    (marksOf entries).map Marked.entry =
      (entries.map Prod.fst).zip (paragraphs (entries.map analyse)) := by
  have hraws : (marksOf entries).map Marked.raw = entries.map Prod.fst := by
    rw [← lines_marksOf entries, List.map_map, lines_marksOf]
    rfl
  rw [← hraws, ← convertible_marksOf, List.zip_map']
  rfl

theorem wellMarked_marksOf (entries : List (JsString × Bool)) : WellMarked (marksOf entries) := by
  induction entries using marksOf.induct with
  | case1 =>
    rw [marksOf]
    exact ⟨fun line hline => (by cases hline), .nil⟩
  | case2 entry rest hseparates ih =>
    rw [marksOf, if_pos hseparates]
    refine ⟨fun line hline hconvertible => ?_, List.isChain_cons.mpr ⟨?_, ih.spreads⟩⟩
    · rcases List.mem_cons.mp hline with rfl | hline
      · cases hconvertible
      · exact ih.unfenced line hline hconvertible
    · intro second _ hconvertible
      cases hconvertible
  | case3 entry rest hseparates ih =>
    rw [marksOf, if_neg hseparates]
    refine WellMarked.append ⟨fun line hline hconvertible => ?_, ?_⟩ ih fun line hline => ?_
    · obtain ⟨source, hsource, rfl⟩ := List.mem_map.mp hline
      have hopen := List.all_eq_true.mp hconvertible source hsource
      rwa [Bool.not_eq_true'] at hopen
    · refine (List.isChain_map _).mpr (List.Pairwise.isChain ?_)
      exact List.pairwise_of_forall fun first second hconvertible _ => hconvertible
    · have hhead : ((marksOf (rest.dropWhile goesOn)).map Marked.line).head? = some line.line := by
        rw [List.head?_map, hline]
        rfl
      rw [lines_marksOf] at hhead
      have hstops := List.head?_dropWhile_not goesOn rest
      rw [hhead] at hstops
      simp only [goesOn, separates, analyse, Bool.not_eq_false', Bool.and_eq_true] at hstops
      exact hstops.1

/-! ## The walk over the lines -/

/-- The lines of a rendering: a line stays, or stands with the rows of a table outside every fence. -/
inductive Adapted : List (JsString × Bool) → List JsString → Prop
  | nil : Adapted [] []
  | keep (line : JsString × Bool) {rest : List (JsString × Bool)} {out : List JsString} :
    Adapted rest out → Adapted (line :: rest) (line.1 :: out)
  | table (header delimiter : JsString) (rows : List JsString) {rest : List (JsString × Bool)}
    {out : List JsString} : (∀ raw ∈ header :: delimiter :: rows, isRow raw = true) → Adapted rest out →
    Adapted ((header :: delimiter :: rows).map (fun raw => (raw, false)) ++ rest)
      (renderCandidate header delimiter rows ++ out)

/-- The rows behind a convertible line are outside every fence. -/
theorem rows_unfenced {prior : Marked} {rest : List Marked} (h : WellMarked (prior :: rest))
    (hprior : prior.convertible = true) :
    (rest.takeWhile Marked.isRow).map Marked.line =
      ((rest.takeWhile Marked.isRow).map Marked.raw).map fun raw => (raw, false) := by
  induction rest generalizing prior with
  | nil => rfl
  | cons line rest ih =>
    by_cases hrow : line.isRow = true
    · have htail : WellMarked (line :: rest) := h.suffix (List.suffix_cons _ _)
      have hconvertible : line.convertible = true :=
        (List.isChain_cons_cons.mp h.spreads).1 hprior (not_blank_of_row hrow)
      have hunfenced := htail.unfenced line List.mem_cons_self hconvertible
      rw [List.takeWhile_cons_of_pos hrow, List.map_cons,
        ih htail hconvertible, Marked.line, hunfenced]
      rfl
    · rw [List.takeWhile_cons_of_neg hrow]
      rfl

theorem isRow_of_takeWhile {marked : List Marked} {raw : JsString}
    (h : raw ∈ (marked.takeWhile Marked.isRow).map Marked.raw) : isRow raw = true := by
  obtain ⟨line, hline, rfl⟩ := List.mem_map.mp h
  exact List.mem_takeWhile_imp (p := Marked.isRow) hline

/-- The rendering adapts tables only. -/
theorem adapted_renderLines (scan : Scan) {marked : List Marked} (h : WellMarked marked) :
    Adapted (marked.map Marked.line) (renderLines scan (marked.map Marked.entry)) := by
  induction hn : marked.length using Nat.strong_induction_on generalizing marked scan with
  | _ n ih =>
    subst hn
    cases marked with
    | nil =>
      rw [List.map_nil, List.map_nil, renderLines]
      exact .nil
    | cons line rest =>
      have hkeep := fun next => ih rest.length (Nat.lt_succ_self _) next
        (h.suffix (List.suffix_cons line rest)) rfl
      cases rest with
      | nil =>
        rw [List.map_cons, List.map_nil, List.map_cons, List.map_nil, renderLines]
        exact .keep line.line .nil
      | cons delimiter more =>
        rw [List.map_cons (f := Marked.entry), List.map_cons (f := Marked.entry), renderLines]
        split
        · rename_i hstart
          simp only [Bool.and_eq_true] at hstart
          obtain ⟨⟨⟨⟨-, hconvertible⟩, hrow⟩, hdelimiter⟩, -⟩ := hstart
          replace hdelimiter : delimiter.isRow = true := hdelimiter
          -- the delimiter is the first of the rows behind the header
          have hrows := rows_unfenced h hconvertible
          have hunfenced := h.unfenced line List.mem_cons_self hconvertible
          rw [List.takeWhile_cons_of_pos hdelimiter] at hrows
          have hsuffix : (more.dropWhile Marked.isRow) <:+ line :: delimiter :: more :=
            (List.dropWhile_suffix _).trans ((List.suffix_cons delimiter more).trans (List.suffix_cons line _))
          have hshorter := List.length_dropWhile_le Marked.isRow more
          have hrest : Adapted ((more.dropWhile Marked.isRow).map Marked.line)
              (renderLines (scan.next (withoutReturn line.raw))
                ((more.dropWhile Marked.isRow).map Marked.entry)) := by
            refine ih _ ?_ _ (h.suffix hsuffix) rfl
            simp only [List.length_cons]
            omega
          have htable := Adapted.table line.raw delimiter.raw
            ((more.takeWhile Marked.isRow).map Marked.raw) (fun raw hraw => ?_) hrest
          · have hlines : (line :: delimiter :: more).map Marked.line =
                (line.raw :: delimiter.raw ::
                    (more.takeWhile Marked.isRow).map Marked.raw).map (fun raw => (raw, false)) ++
                  (more.dropWhile Marked.isRow).map Marked.line := by
              have hsplit := List.takeWhile_append_dropWhile (p := Marked.isRow)
                (l := delimiter :: more)
              rw [List.takeWhile_cons_of_pos hdelimiter,
                List.dropWhile_cons_of_pos hdelimiter] at hsplit
              rw [List.map_cons, ← hsplit, List.map_append, hrows, Marked.line, hunfenced]
              rfl
            rw [hlines, List.takeWhile_map, List.dropWhile_map, List.map_map]
            exact htable
          · rcases List.mem_cons.mp hraw with rfl | hraw
            · exact hrow
            · rcases List.mem_cons.mp hraw with rfl | hraw
              · exact hdelimiter
              · exact isRow_of_takeWhile hraw
        · exact .keep line.line (hkeep _)

/-- The line is fenced or is no table row. -/
def stays (line : JsString × Bool) : Bool := line.2 || !isRow line.1

/-- What stays comes out of a rendering in its order. -/
theorem Adapted.stays_sublist {lines : List (JsString × Bool)} {out : List JsString}
    (h : Adapted lines out) : ((lines.filter stays).map Prod.fst).Sublist out := by
  induction h with
  | nil => exact List.nil_sublist _
  | keep line _ ih =>
    rw [List.filter_cons]
    split
    · exact ih.cons_cons _
    · exact ih.cons _
  | table header delimiter rows hrows _ ih =>
    have hnone : ((header :: delimiter :: rows).map fun raw => (raw, false)).filter stays = [] := by
      refine List.filter_eq_nil_iff.mpr fun line hline => ?_
      obtain ⟨raw, hraw, rfl⟩ := List.mem_map.mp hline
      simp [stays, hrows raw hraw]
    rw [List.filter_append, hnone, List.nil_append]
    exact ih.trans (List.sublist_append_right _ _)

/-! ## The reply -/

theorem fenceMarker_of_piece {line text : JsString} (hline : line <:+: text)
    (h : fenceMarker line = true) : fenceMarker text = true := by
  simp only [fenceMarker, Bool.or_eq_true, decide_eq_true_eq] at h ⊢
  exact h.imp (fun hmarker => hmarker.trans hline) fun hmarker => hmarker.trans hline

theorem withoutReturn_begins (raw : JsString) : withoutReturn raw <+: raw := by
  unfold withoutReturn
  split
  · exact List.dropLast_prefix raw
  · exact List.prefix_rfl

theorem fencedFrom_length {lines : List JsString} {fence : Option Fence} {fenced : List Bool}
    (h : fencedFrom fence lines = some fenced) : fenced.length = lines.length := by
  induction lines generalizing fence fenced with
  | nil =>
    rw [fencedFrom] at h
    split at h
    · exact congrArg List.length (Option.some.inj h).symm
    · cases h
  | cons line rest ih =>
    rw [fencedFrom] at h
    obtain ⟨next, -, hnext⟩ := Option.bind_eq_some_iff.mp h
    obtain ⟨after, hafter, rfl⟩ := Option.map_eq_some_iff.mp hnext
    rw [List.length_cons, List.length_cons, ih hafter]

theorem fencedFrom_plain {lines : List JsString} (h : ∀ line ∈ lines, fenceMarker line = false) :
    fencedFrom none lines = some (lines.map fun _ => false) := by
  induction lines with
  | nil => rfl
  | cons line rest ih =>
    have hnext : fenceAfter none line = some none := by
      rw [fenceAfter, h line List.mem_cons_self]
      rfl
    rw [fencedFrom, hnext, Option.bind_some, ih fun other hother => h other (List.mem_cons_of_mem _ hother)]
    rfl

/-- The lines of an eligible reply are well marked. -/
theorem wellMarked_of_convertible {text : JsString} {fenced convertible : List Bool}
    (hfenced : fencedLines (analysedLines text) = some fenced)
    (h : convertibleLines text (analysedLines text) = some convertible) : ∃ marked, WellMarked marked ∧
      marked.map Marked.entry = (text.splitOn NEWLINE).zip convertible ∧
      marked.map Marked.line = (text.splitOn NEWLINE).zip fenced := by
  unfold convertibleLines at h
  split at h
  · cases h
  · split at h
    · rename_i hmarker
      rw [Bool.not_eq_true'] at hmarker
      have hplain : ∀ line ∈ analysedLines text, fenceMarker line = false := by
        intro line hline
        obtain ⟨raw, hraw, rfl⟩ := List.mem_map.mp hline
        have hpiece := (withoutReturn_begins raw).isInfix.trans (Lines.infix_of_mem_splitOn hraw)
        exact Bool.eq_false_iff.mpr fun hfound => by
          rw [fenceMarker_of_piece hpiece hfound] at hmarker
          cases hmarker
      rw [fencedLines, fencedFrom_plain hplain] at hfenced
      obtain rfl := Option.some.inj hfenced
      obtain rfl := Option.some.inj h
      refine ⟨(text.splitOn NEWLINE).map fun raw => ⟨raw, false, true⟩,
        ⟨fun line hline _ => ?_, ?_⟩, ?_, ?_⟩
      · obtain ⟨raw, -, rfl⟩ := List.mem_map.mp hline
        rfl
      · exact (List.isChain_map _).mpr (List.pairwise_of_forall fun _ _ _ _ => rfl).isChain
      · rw [analysedLines, List.map_map, List.map_map, ← List.map_prod_left_eq_zip]
        rfl
      · rw [analysedLines, List.map_map, List.map_map, ← List.map_prod_left_eq_zip]
        rfl
    · split at h
      · cases h
      · rw [hfenced] at h
        obtain rfl := Option.some.inj h
        have hlength := fencedFrom_length hfenced
        rw [analysedLines, List.length_map] at hlength
        refine ⟨marksOf ((text.splitOn NEWLINE).zip fenced), wellMarked_marksOf _, ?_, lines_marksOf _⟩
        have hanalyse : ((text.splitOn NEWLINE).zip fenced).map analyse =
            (analysedLines text).zip fenced := (List.zip_map_left ..).symm
        rw [entries_marksOf, hanalyse, List.map_fst_zip (Nat.le_of_eq hlength.symm)]

theorem adapted_self : ∀ lines : List (JsString × Bool), Adapted lines (lines.map Prod.fst)
  | [] => .nil
  | line :: rest => .keep line (adapted_self rest)

/-- The rendered reply is the reply with its tables outside the fences adapted. -/
theorem adapted_render {text : JsString} {fenced : List Bool}
    (h : fencedLines (analysedLines text) = some fenced) :
    ∃ out, Adapted ((text.splitOn NEWLINE).zip fenced) out ∧ (∀ line ∈ out, Unbroken line) ∧
      renderMarkdownTablesForDiscord text = [NEWLINE].intercalate out := by
  have hlength := fencedFrom_length h
  rw [analysedLines, List.length_map] at hlength
  have hself : ∃ out, Adapted ((text.splitOn NEWLINE).zip fenced) out ∧ (∀ line ∈ out, Unbroken line) ∧
      text = [NEWLINE].intercalate out := by
    have hall := adapted_self ((text.splitOn NEWLINE).zip fenced)
    rw [List.map_fst_zip (Nat.le_of_eq hlength.symm)] at hall
    exact ⟨_, hall, fun line hline => Lines.not_mem_of_mem_splitOn hline, (List.intercalate_splitOn _).symm⟩
  unfold renderMarkdownTablesForDiscord
  split
  · exact hself
  · split
    · exact hself
    · rename_i convertible hconvertible
      obtain ⟨marked, hwell, hentries, hlines⟩ := wellMarked_of_convertible h hconvertible
      have hadapted := adapted_renderLines ⟨.start, false⟩ hwell
      rw [hentries, hlines] at hadapted
      exact ⟨_, hadapted, unbroken_renderLines _ fun entry hentry =>
        Lines.not_mem_of_mem_splitOn (List.of_mem_zip hentry).1, rfl⟩

/-- Every line that is fenced or is no table row comes out of the rendering, in the order of the reply. -/
theorem lines_kept (text : JsString) (fenced : List Bool)
    (h : fencedLines (analysedLines text) = some fenced) :
    ((((text.splitOn NEWLINE).zip fenced).filter stays).map Prod.fst).Sublist
      ((renderMarkdownTablesForDiscord text).splitOn NEWLINE) := by
  obtain ⟨out, hadapted, hunbroken, hrender⟩ := adapted_render h
  have hstays := hadapted.stays_sublist
  rw [hrender]
  cases out with
  | nil => exact hstays.trans (List.nil_sublist _)
  | cons line rest =>
    rw [List.splitOn_intercalate NEWLINE hunbroken (List.cons_ne_nil _ _)]
    exact hstays

/-- A table, and a table row inside a fence. -/
def fencedRow : JsString := units "| a |\n| - |\n| b |\n\n```\n| c |\n```"

/-- The fenced row stays, with the lines of its fence. -/
theorem lines_kept_fenced_row : [[], units "```", units "| c |", units "```"].Sublist
    ((renderMarkdownTablesForDiscord fencedRow).splitOn NEWLINE) := by
  have hkept := lines_kept fencedRow [false, false, false, false, true, true, true] (by decide +kernel)
  have hlines : (((fencedRow.splitOn NEWLINE).zip
      [false, false, false, false, true, true, true]).filter stays).map Prod.fst =
        [[], units "```", units "| c |", units "```"] := by
    decide +kernel
  rwa [hlines] at hkept

end QuokyPlatform.DiscordTables
