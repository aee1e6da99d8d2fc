import QuokyPlatform.DiscordTables.Rendering

/-! # The lines of a rendered table

A rendered table holds no line feed that its rows did not hold, and the cells of a row that are not empty
stand in the row's line in their order. -/

namespace QuokyPlatform.DiscordTables
open Chunking (JsString CodeUnit units isWhiteSpace trim trimEnd)

set_option autoImplicit false
set_option maxHeartbeats 250000

/-! ## Lines without breaks -/

theorem mem_unescapePipes {unit : CodeUnit} {text : JsString} (h : unit ∈ unescapePipes text) :
    unit ∈ text := by
  induction text using unescapePipes.induct with
  | case1 => exact h
  | case2 => exact h
  | case3 first second rest hmarks ih =>
    rw [unescapePipes, if_pos hmarks] at h
    rcases List.mem_cons.mp h with rfl | h
    · rw [hmarks.2]
      exact List.mem_cons_of_mem _ List.mem_cons_self
    · exact List.mem_cons_of_mem _ (List.mem_cons_of_mem _ (ih h))
  | case4 first second rest hmarks ih =>
    rw [unescapePipes, if_neg hmarks] at h
    rcases List.mem_cons.mp h with rfl | h
    · exact List.mem_cons_self
    · exact List.mem_cons_of_mem _ (ih h)

theorem mem_splitCells {unit : CodeUnit} {previous : Option CodeUnit} {line cell : JsString}
    (hcell : cell ∈ splitCells previous line) (h : unit ∈ cell) : unit ∈ line := by
  induction line generalizing previous cell with
  | nil =>
    rw [splitCells, List.mem_singleton] at hcell
    rw [hcell] at h
    exact h
  | cons first rest ih =>
    rw [splitCells] at hcell
    split at hcell
    · rcases List.mem_cons.mp hcell with rfl | hcell
      · cases h
      · exact List.mem_cons_of_mem _ (ih hcell h)
    · cases hcells : splitCells (some first) rest with
      | nil =>
        rw [hcells] at hcell
        cases hcell
      | cons head others =>
        rw [hcells, List.modifyHead_cons] at hcell
        rcases List.mem_cons.mp hcell with rfl | hcell
        · rcases List.mem_cons.mp h with rfl | h
          · exact List.mem_cons_self
          · exact List.mem_cons_of_mem _ (ih (hcells ▸ List.mem_cons_self) h)
        · exact List.mem_cons_of_mem _ (ih (hcells ▸ List.mem_cons_of_mem _ hcell) h)

theorem trim_sublist (text : JsString) : (trim text).Sublist text :=
  (List.rdropWhile_prefix _ _).sublist.trans (List.dropWhile_sublist _)

theorem mem_cellsOf {unit : CodeUnit} {row cell : JsString} (hcell : cell ∈ cellsOf row)
    (h : unit ∈ cell) : unit ∈ row := by
  obtain ⟨source, hsource, rfl⟩ := List.mem_map.mp hcell
  have hmem := mem_splitCells hsource (mem_unescapePipes ((trim_sublist _).subset h))
  exact (trim_sublist row).subset (List.mem_of_mem_tail (List.mem_of_mem_dropLast hmem))

theorem mem_headerLabel {unit : CodeUnit} {cell : JsString} (h : unit ∈ headerLabel cell) :
    unit ∈ cell := by
  unfold headerLabel at h
  simp only [] at h
  split at h
  · exact List.mem_of_mem_drop (List.mem_of_mem_take ((trim_sublist _).subset h))
  · exact h

/-- The line holds no line feed. -/
def Unbroken (line : JsString) : Prop := NEWLINE ∉ line

instance (line : JsString) : Decidable (Unbroken line) := inferInstanceAs (Decidable (NEWLINE ∉ line))

theorem Unbroken.append {line after : JsString} (h : Unbroken line) (hafter : Unbroken after) :
    Unbroken (line ++ after) := fun hmem =>
  (List.mem_append.mp hmem).elim h hafter

theorem Unbroken.intercalate {join : JsString} {pieces : List JsString} (hjoin : Unbroken join)
    (h : ∀ piece ∈ pieces, Unbroken piece) : Unbroken (join.intercalate pieces) := by
  induction pieces with
  | nil => exact fun hmem => by cases hmem
  | cons piece rest ih =>
    have hrest := ih fun other hother => h other (List.mem_cons_of_mem _ hother)
    cases rest with
    | nil =>
      rw [List.intercalate_singleton]
      exact h piece List.mem_cons_self
    | cons second more =>
      rw [List.intercalate_cons_cons]
      exact ((h piece List.mem_cons_self).append hjoin).append hrest

theorem unbroken_returnOf (raw : JsString) : Unbroken (returnOf raw) := by
  unfold returnOf
  split
  · decide
  · exact List.not_mem_nil

theorem Unbroken.withoutReturn {raw : JsString} (h : Unbroken raw) : Unbroken (withoutReturn raw) := by
  unfold DiscordTables.withoutReturn
  split
  · exact fun hmem => h (List.mem_of_mem_dropLast hmem)
  · exact h

theorem Unbroken.cell {raw cell : JsString} (h : Unbroken raw)
    (hcell : cell ∈ cellsOf (DiscordTables.withoutReturn raw)) : Unbroken cell :=
  fun hmem => h.withoutReturn (mem_cellsOf hcell hmem)

theorem unbroken_rowParts {labels row : List JsString} (hlabels : ∀ label ∈ labels, Unbroken label)
    (hrow : ∀ cell ∈ row, Unbroken cell) : ∀ part ∈ rowParts labels row, Unbroken part := by
  intro part hpart
  obtain ⟨pair, hpair, rfl⟩ := List.mem_map.mp hpart
  obtain ⟨index, hindex, rfl⟩ := List.mem_mapIdx.mp (List.mem_of_mem_filter hpair)
  have hcell := hrow row[index] (List.getElem_mem hindex)
  split
  · exact hcell
  · refine (Unbroken.append ?_ (by decide)).append hcell
    rw [List.getD_eq_getElem?_getD]
    cases hlabel : labels[index]? with
    | none => exact List.not_mem_nil
    | some label => exact hlabels label (List.mem_of_getElem? hlabel)

theorem unbroken_renderTable {header : List JsString} {rows : List (List JsString)}
    (hheader : ∀ cell ∈ header, Unbroken cell) (hrows : ∀ row ∈ rows, ∀ cell ∈ row, Unbroken cell) :
    ∀ line ∈ renderTable header rows, Unbroken line := by
  have hlabels : ∀ label ∈ header.map headerLabel, Unbroken label := by
    intro label hlabel
    obtain ⟨cell, hcell, rfl⟩ := List.mem_map.mp hlabel
    exact fun hmem => hheader cell hcell (mem_headerLabel hmem)
  intro line hline
  rcases List.mem_append.mp hline with hline | hline
  · split at hline
    · rw [List.mem_singleton] at hline
      subst hline
      have htitle : Unbroken ((units " · ").intercalate ((header.map headerLabel).filter (· ≠ []))) :=
        Unbroken.intercalate (by decide) fun label hlabel => hlabels label (List.mem_of_mem_filter hlabel)
      exact (Unbroken.append (by decide) htitle).append (by decide)
    · cases hline
  · obtain ⟨row, hrow, hparts⟩ := List.mem_filterMap.mp hline
    simp only [] at hparts
    split at hparts
    · rw [← Option.some.inj hparts]
      exact Unbroken.append (by decide)
        (Unbroken.intercalate (by decide) (unbroken_rowParts hlabels (hrows row hrow)))
    · cases hparts

theorem unbroken_renderCandidate {header delimiter : JsString} {rows : List JsString}
    (h : ∀ raw ∈ header :: delimiter :: rows, Unbroken raw) :
    ∀ line ∈ renderCandidate header delimiter rows, Unbroken line := by
  have hheader := h header List.mem_cons_self
  have hfence : ∀ raw, Unbroken (FENCE ++ returnOf raw) := fun raw =>
    Unbroken.append (by decide) (unbroken_returnOf raw)
  intro line hline
  unfold renderCandidate at hline
  simp only [] at hline
  split at hline
  · split at hline
    · rcases List.mem_append.mp hline with hline | hline
      · rcases List.mem_cons.mp hline with rfl | hline
        · exact hfence _
        · exact h line hline
      · rw [List.mem_singleton] at hline
        subst hline
        exact hfence _
    · obtain ⟨rendered, hrendered, rfl⟩ := List.mem_map.mp hline
      refine Unbroken.append (unbroken_renderTable (fun cell => hheader.cell) (fun row hrow cell hcell => ?_)
        rendered hrendered) (unbroken_returnOf header)
      obtain ⟨raw, hraw, rfl⟩ := List.mem_map.mp hrow
      exact (h raw (List.mem_cons_of_mem _ (List.mem_cons_of_mem _ hraw))).cell hcell
  · exact h line hline

theorem unbroken_renderLines (scan : Scan) {entries : List (JsString × Bool)}
    (h : ∀ entry ∈ entries, Unbroken entry.1) : ∀ line ∈ renderLines scan entries, Unbroken line := by
  induction hn : entries.length using Nat.strong_induction_on generalizing entries scan with
  | _ n ih =>
    subst hn
    cases entries with
    | nil =>
      intro line hline
      rw [renderLines] at hline
      cases hline
    | cons entry rest =>
      have hrest : ∀ other ∈ rest, Unbroken other.1 :=
        fun other hother => h other (List.mem_cons_of_mem _ hother)
      cases rest with
      | nil =>
        intro line hline
        rw [renderLines, List.mem_singleton] at hline
        subst hline
        exact h entry List.mem_cons_self
      | cons delimiter more =>
        intro line hline
        rw [renderLines] at hline
        split at hline
        · rcases List.mem_append.mp hline with hline | hline
          · refine unbroken_renderCandidate (fun raw hraw => ?_) line hline
            rcases List.mem_cons.mp hraw with rfl | hraw
            · exact h entry List.mem_cons_self
            · rcases List.mem_cons.mp hraw with rfl | hraw
              · exact hrest delimiter List.mem_cons_self
              · obtain ⟨row, hrow, rfl⟩ := List.mem_map.mp hraw
                exact hrest row (List.mem_cons_of_mem _ ((List.takeWhile_sublist _).subset hrow))
          · have hshorter := List.length_dropWhile_le isRawRow more
            refine ih _ ?_ _ (fun other hother => hrest other
              (List.mem_cons_of_mem _ ((List.dropWhile_sublist _).subset hother))) rfl line hline
            simp only [List.length_cons]
            omega
        · rcases List.mem_cons.mp hline with rfl | hline
          · exact h entry List.mem_cons_self
          · exact ih _ (Nat.lt_succ_self _) _ hrest rfl line hline

/-! ## The cells of a row -/

/-- A cell that is not empty, under its label. -/
def labelled (part : JsString × JsString) : JsString :=
  if part.1 = [] then part.2 else part.1 ++ units ": " ++ part.2

theorem inOrder_labelled {pieces : List JsString} {after : JsString} (part : JsString × JsString)
    (h : OccurInOrder pieces after) : OccurInOrder (part.2 :: pieces) (labelled part ++ after) := by
  unfold labelled
  split
  · exact .cons [] part.2 h
  · exact .cons _ part.2 h

theorem inOrder_intercalate (join : JsString) (parts : List (JsString × JsString)) :
    OccurInOrder (parts.map Prod.snd) (join.intercalate (parts.map labelled)) := by
  induction parts with
  | nil => exact .nil _
  | cons part rest ih =>
    cases rest with
    | nil =>
      have hlast := inOrder_labelled part (.nil [])
      rw [List.append_nil] at hlast
      show OccurInOrder [part.2] (join.intercalate [labelled part])
      rw [List.intercalate_singleton]
      exact hlast
    | cons second more =>
      rw [List.map_cons, List.map_cons, List.map_cons, List.map_cons, List.intercalate_cons_cons,
        List.append_assoc]
      exact inOrder_labelled part (ih.behind join)

theorem snd_parts (labels row : List JsString) :
    ((row.mapIdx fun index cell => (labels.getD index [], cell)).filter fun part =>
      part.2 ≠ []).map Prod.snd = row.filter (· ≠ []) := by
  have hall : (row.mapIdx fun index cell => (labels.getD index [], cell)).map Prod.snd = row :=
    List.ext_getElem (by simp) fun index _ _ => by simp
  conv_rhs => rw [← hall, List.filter_map]
  rfl

theorem inOrder_rowParts (labels row : List JsString) :
    OccurInOrder (row.filter (· ≠ [])) ((units ", ").intercalate (rowParts labels row)) := by
  rw [← snd_parts labels]
  exact inOrder_intercalate _ _

theorem length_rowParts (labels row : List JsString) :
    (rowParts labels row).length = (row.filter (· ≠ [])).length := by
  rw [← snd_parts labels, rowParts, List.length_map, List.length_map]

/-- The line of a row; none where all its cells are empty. -/
def rowLine (labels row : List JsString) : Option JsString :=
  let parts := rowParts labels row
  if parts.length > 0 then some (units "- " ++ (units ", ").intercalate parts) else none

theorem rowLine_of_any {labels row : List JsString} (h : (row.any (· ≠ [])) = true) :
    rowLine labels row = some (units "- " ++ (units ", ").intercalate (rowParts labels row)) := by
  refine if_pos ?_
  obtain ⟨cell, hcell, hne⟩ := List.any_eq_true.mp h
  rw [length_rowParts]
  exact List.length_pos_of_mem (List.mem_filter.mpr ⟨hcell, hne⟩)

theorem rowLine_of_not_any {labels row : List JsString} (h : (row.any (· ≠ [])) = false) :
    rowLine labels row = none := by
  refine if_neg ?_
  rw [length_rowParts, List.filter_eq_nil_iff.mpr fun cell hcell => ?_]
  · exact Nat.lt_irrefl 0
  · exact List.any_eq_false.mp h cell hcell

theorem inOrder_rows (labels : List JsString) (ending : JsString) (rows : List (List JsString)) :
    List.Forall₂ (fun row line => OccurInOrder (row.filter (· ≠ [])) line)
      (rows.filter fun row => row.any (· ≠ []))
      ((rows.filterMap (rowLine labels)).map fun rendered => rendered ++ ending) := by
  induction rows with
  | nil => exact .nil
  | cons row rest ih =>
    cases hany : row.any (· ≠ []) with
    | true =>
      rw [List.filter_cons_of_pos (p := fun row : List JsString => row.any (· ≠ [])) hany,
        List.filterMap_cons_some (rowLine_of_any hany), List.map_cons]
      exact .cons (((inOrder_rowParts labels row).behind _).append ending) ih
    | false =>
      rw [List.filter_cons_of_neg (p := fun row : List JsString => row.any (· ≠ []))
        (by rw [hany]; exact Bool.false_ne_true), List.filterMap_cons_none (rowLine_of_not_any hany)]
      exact ih

/-- Behind the title of a rendered table stands one line for each row with a cell that is not empty, and
holds these cells in their order. -/
theorem cells_kept (header delimiter : JsString) (rows : List JsString)
    (hsimple : isSimple (cellsOf (withoutReturn header)) (cellsOf (withoutReturn delimiter))
      (rows.map fun row => cellsOf (withoutReturn row)) = true) (hshort : rows.length ≤ MAX_TABLE_ROWS) :
    ∃ title lines, renderCandidate header delimiter rows = title ++ lines ∧ title.length ≤ 1 ∧
      List.Forall₂ (fun row line => OccurInOrder (row.filter (· ≠ [])) line)
        ((rows.map fun row => cellsOf (withoutReturn row)).filter fun row => row.any (· ≠ [])) lines := by
  have hcandidate : renderCandidate header delimiter rows =
      (renderTable (cellsOf (withoutReturn header)) (rows.map fun row => cellsOf (withoutReturn row))).map
        fun rendered => rendered ++ returnOf header := by
    unfold renderCandidate
    simp only []
    rw [if_pos hsimple, if_neg (by rw [List.length_map]; exact Nat.not_lt.mpr hshort)]
  rw [hcandidate, renderTable, List.map_append]
  refine ⟨_, _, rfl, ?_, inOrder_rows _ (returnOf header) _⟩
  rw [List.length_map]
  split
  · exact Nat.le_refl 1
  · exact Nat.zero_le 1

/-- A row with an empty cell, and one of empty cells only. -/
theorem cells_kept_oolong : ∃ title lines,
    renderCandidate (units "| tea | note |") (units "|-|-|") [units "| oolong | |", units "| | |"] =
      title ++ lines ∧ title.length ≤ 1 ∧
      List.Forall₂ (fun row line => OccurInOrder (row.filter (· ≠ [])) line)
        [[units "oolong", []]] lines := by
  obtain ⟨title, lines, hrender, htitle, hlines⟩ := cells_kept (units "| tea | note |") (units "|-|-|")
    [units "| oolong | |", units "| | |"] (by decide +kernel) (by decide)
  have hrows : ([units "| oolong | |", units "| | |"].map fun row => cellsOf (withoutReturn row)).filter
      (fun row => row.any (· ≠ [])) = [[units "oolong", []]] := by
    decide +kernel
  rw [hrows] at hlines
  exact ⟨title, lines, hrender, htitle, hlines⟩

end QuokyPlatform.DiscordTables
