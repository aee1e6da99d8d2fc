import QuokyPlatform.Chunking.Passages

/-!
# The passages partition the prepared text

Every stage keeps the tiling: the pieces of a block tile it, the units of a section tile the
section, packing keeps the units in order and puts each in one draft, and the code-point index
carries the tiling by drafts over to spans.
-/

namespace QuokyPlatform.Chunking
set_option autoImplicit false
set_option maxHeartbeats 250000

section
variable {W : Type} [WeightNumber W] {runtime : Runtime} {text : JsString} {range : Range}

/-! ## Units -/

theorem bySentence_tiles (hsegments : runtime.SegmentsPartition)
    (hstart : IsBoundary text range.start) (hstop : IsBoundary text range.stop)
    (hle : range.start ≤ range.stop) (limit : PieceLimit W) :
    Tiles (IsBoundary text) range.start range.stop
      (bySentence runtime text (.of text) limit range) := by
  apply (sentenceRanges_tiles hsegments hstart hstop hle).refine hstart
  intro piece hlt hfrom hto
  split
  · exact .single hlt hto
  · exact graphemeRanges_tiles hsegments hfrom hto hlt.le limit

/-- The pieces of an over-long range partition it. -/
theorem splitOversized_tiles (hsegments : runtime.SegmentsPartition)
    (hstart : IsBoundary text range.start) (hstop : IsBoundary text range.stop)
    (hlt : range.start < range.stop) (kind : PassageKind) (limit : PieceLimit W) :
    Tiles (IsBoundary text) range.start range.stop
      (splitOversized runtime text (.of text) range kind limit) := by
  have hsentences := sentenceRanges_tiles hsegments hstart hstop hlt.le
  unfold splitOversized
  apply Tiles.refine _ hstart
  swap
  · cases kind with
    | code => exact lineRanges_tiles text hstop hlt.le
    | list => exact listItemRanges_tiles hstart hstop hlt
    | prose | table | quote => exact hsentences
  intro piece hpiece hfrom hto
  split
  · exact .single hpiece hto
  split
  · exact bySentence_tiles hsegments hfrom hto hpiece.le limit
  · exact graphemeRanges_tiles hsegments hfrom hto hpiece.le limit

theorem unitsOf_tiles (hsegments : runtime.SegmentsPartition) {whole : TextUnit W}
    (hstart : IsBoundary text range.start) (hstop : IsBoundary text range.stop)
    (hlt : range.start < range.stop) (limit : PieceLimit W) (kind : PassageKind)
    (hwhole : whole.toRange = range) :
    Tiles (IsBoundary text) range.start range.stop
      ((unitsOf runtime text (.of text) limit kind whole).map TextUnit.toRange) := by
  subst hwhole
  unfold unitsOf
  split
  · exact .single hlt hstop
  · have hpieces := splitOversized_tiles hsegments hstart hstop hlt kind limit
    simpa [List.map_map, Function.comp_def, unitOf] using hpieces

theorem textUnits_tiles (hsegments : runtime.SegmentsPartition)
    (hstart : IsBoundary text range.start) (hstop : IsBoundary text range.stop)
    (hlt : range.start < range.stop) (originBase : ℕ) :
    Tiles (IsBoundary text) range.start range.stop
      ((textUnits (W := W) runtime text (.of text) range originBase).map TextUnit.toRange) := by
  have hblocks := blockRanges_tiles text hstop hlt
  rw [← List.zipIdx_map_fst 0 (blockRanges text range), List.map_map] at hblocks
  rw [textUnits, List.map_flatMap]
  apply Tiles.flatMap hblocks hstart
  rintro ⟨piece, order⟩ hpiece hfrom hto
  exact unitsOf_tiles hsegments hfrom hto hpiece _ _ rfl

/-- Merging a blank line into the row before it moves no cut. -/
theorem addRow_tiles {first position : ℕ} {rows : List Range} {line : Range}
    (hrows : Tiles (IsBoundary text) first position rows) (hline : line.start = position)
    (hlt : position < line.stop) (hcut : IsBoundary text line.stop) :
    Tiles (IsBoundary text) first line.stop (addRow text rows line) := by
  have hnext := hrows.concat hline hlt hcut
  unfold addRow
  split
  · rename_i last hlast
    obtain ⟨init, rfl⟩ := List.getLast?_eq_some_iff.mp hlast
    split
    · rw [List.dropLast_concat]
      exact hrows.extend_last hlt.le hcut
    · exact hnext
  · exact hnext

theorem tableRows_tiles (text : JsString) {range : Range} (hstop : IsBoundary text range.stop) (hle : range.start ≤ range.stop) :
    Tiles (IsBoundary text) range.start range.stop (tableRows text range) := by
  have hlines := lineRanges_tiles text hstop hle
  have hfold : ∀ (lines rows : List Range) (position : ℕ),
      Tiles (IsBoundary text) range.start position rows →
      Tiles (IsBoundary text) position range.stop lines →
      Tiles (IsBoundary text) range.start range.stop (lines.foldl (addRow text) rows) := by
    intro lines
    induction lines with
    | nil =>
      intro rows position hrows hnone
      rw [Tiles.nil_iff] at hnone
      exact hnone ▸ hrows
    | cons line lines ih =>
      intro rows position hrows hrest
      obtain ⟨hline, hlt, hcut, hrest⟩ := Tiles.cons_iff.mp hrest
      exact ih _ line.stop (addRow_tiles hrows hline hlt hcut) hrest
  exact hfold _ [] range.start (.nil _) hlines

theorem tableUnits_tiles (hsegments : runtime.SegmentsPartition)
    (hstart : IsBoundary text range.start) (hstop : IsBoundary text range.stop)
    (hlt : range.start < range.stop) (originBase headerPoints : ℕ) (headerWeight : W) :
    Tiles (IsBoundary text) range.start range.stop
      ((tableUnits runtime text (.of text) range originBase headerPoints headerWeight).map
        TextUnit.toRange) := by
  have hrows := tableRows_tiles text hstop hlt.le
  rw [← List.zipIdx_map_fst 0 (tableRows text range)] at hrows
  rw [tableUnits, List.map_flatMap]
  apply Tiles.flatMap hrows hstart
  rintro ⟨piece, order⟩ hpiece hfrom hto
  exact unitsOf_tiles hsegments hfrom hto hpiece _ _ rfl

/-! ## Packing -/

/-- The units packed so far, those of the open draft last. -/
def PackState.units (state : PackState W) : List (TextUnit W) :=
  state.drafts.flatMap (·.units) ++ (state.current.map (·.units)).getD []

omit [WeightNumber W] in
theorem PackState.flush_units (state : PackState W) : state.flush.units = state.units := by
  unfold PackState.flush PackState.units
  cases state.current with
  | none => simp
  | some current =>
    by_cases hnil : current.units = []
    · simp [hnil]
    · simp [hnil]

theorem emptyDraft_units (frame : JsString) (table : Bool) (header : Option (Header W)) :
    (emptyDraft frame table header).units = [] := rfl

theorem Draft.dropHeader_units (draft : Draft W) (unit : TextUnit W) (allowance : PieceLimit W) :
    (draft.dropHeader unit allowance).units = draft.units := by
  unfold Draft.dropHeader
  split
  · rename_i h
    simp only [Bool.and_eq_true, List.isEmpty_iff] at h
    rw [emptyDraft_units, h.1.1]
  · rfl

/-- A turn of the loop adds its unit after the others. -/
theorem packStep_units (frame : JsString) (table : Bool) (header : Option (Header W))
    (allowance : PieceLimit W) (state : PackState W) (unit : TextUnit W) :
    (packStep frame table header allowance state unit).units = state.units ++ [unit] := by
  have hcurrent : ∀ s : PackState W,
      s.drafts.flatMap (·.units) ++ (s.current.getD (s.openDraft frame table header)).units =
        s.units := by
    intro s
    cases h : s.current <;> simp [PackState.units, h, PackState.openDraft, emptyDraft_units]
  unfold packStep
  extract_lets opened before closed current added after
  have hbefore : before.units = state.units := hcurrent state
  have hclosed : closed.units = state.units := by
    rw [← hbefore]
    show (if _ then before.flush else before).units = _
    split
    · exact before.flush_units
    · rfl
  have hafter : after.units = state.units ++ [unit] := by
    show closed.drafts.flatMap (·.units) ++ added.units = _
    have hadded : added.units = current.units ++ [unit] := by
      show (current.dropHeader unit allowance).units ++ [unit] = _
      rw [Draft.dropHeader_units]
    rw [hadded, ← List.append_assoc, hcurrent, hclosed]
  split
  · rw [PackState.flush_units, hafter]
  · exact hafter

theorem pack_units (units : List (TextUnit W)) (frame : JsString) (table : Bool)
    (header : Option (Header W)) (allowance : PieceLimit W) :
    (pack units frame table header allowance).flatMap (·.units) = units := by
  have hfold : ∀ state : PackState W,
      (units.foldl (packStep frame table header allowance) state).units =
        state.units ++ units := by
    induction units with
    | nil => simp
    | cons unit units ih =>
      intro state
      rw [List.foldl_cons, ih, packStep_units, List.append_assoc]
      rfl
  have hflush := PackState.flush_units
    (units.foldl (packStep frame table header allowance) ⟨[], none⟩)
  rw [hfold] at hflush
  simpa [PackState.units, pack, PackState.flush] using hflush

/-! ## Drafts -/

omit [WeightNumber W] in
/-- Drafts that hold the units of a tiling in order tile the same range. -/
theorem drafts_tile {cut : ℕ → Prop} {a b : ℕ} {drafts : List (PackedDraft W)}
    (h : Tiles cut a b ((drafts.flatMap (·.units)).map TextUnit.toRange)) :
    Tiles cut a b (drafts.map PackedDraft.range) := by
  apply h.hulls
  intro draft
  exact ⟨draft.units.head draft.holds, draft.units.getLast draft.holds,
    List.head?_eq_some_head draft.holds, List.getLast?_eq_some_getLast draft.holds, rfl⟩

theorem sectionDrafts_tile (hsegments : runtime.SegmentsPartition)
    (hstart : IsBoundary text range.start) (hstop : IsBoundary text range.stop)
    (hlt : range.start < range.stop) (originBase : ℕ) (part : ChunkSection) :
    Tiles (IsBoundary text) range.start range.stop
      ((sectionDrafts (W := W) runtime text (.of text) originBase part range).map
        PackedDraft.range) := by
  unfold sectionDrafts
  split
  · apply drafts_tile
    rw [pack_units]
    exact tableUnits_tiles hsegments hstart hstop hlt _ _ _
  · apply drafts_tile
    rw [pack_units]
    exact textUnits_tiles hsegments hstart hstop hlt _

/-- The sections from a position on tile the rest of a text of that many code points. -/
inductive SectionsTile (length : ℕ) : ℕ → List ChunkSection → Prop
  | done : SectionsTile length length []
  | next {part : ChunkSection} {rest : List ChunkSection} (hforward : part.start ≤ part.stop)
      (hrest : SectionsTile length part.stop rest) : SectionsTile length part.start (part :: rest)

theorem SectionsTile.le {length position : ℕ} {sections : List ChunkSection}
    (h : SectionsTile length position sections) : position ≤ length := by
  induction h with
  | done => exact le_refl _
  | next hforward _ ih => exact hforward.trans ih

theorem SectionsTile.of_nil {length position : ℕ} (h : SectionsTile length position []) :
    position = length := by
  cases h
  rfl

/-- The validation accepts exactly the lists that tile the text. -/
theorem validateSections_ok {length position : ℕ} {sections : List ChunkSection} :
    validateSections length position sections = .ok () ↔
      SectionsTile length position sections := by
  induction sections generalizing position with
  | nil =>
    unfold validateSections
    constructor
    · intro h
      split at h
      · rename_i heq
        exact heq ▸ .done
      · cases h
    · intro h
      cases h
      exact if_pos rfl
  | cons part rest ih =>
    unfold validateSections
    constructor
    · intro h
      split at h
      · cases h
      · rename_i hok
        simp only [not_or, not_not, not_lt] at hok
        obtain ⟨rfl, hforward⟩ := hok
        exact .next hforward (ih.mp h)
    · intro h
      cases h with
      | next hforward hrest =>
        rw [if_neg (by omega)]
        exact ih.mpr hrest

theorem validateSections_error {length position : ℕ} {sections : List ChunkSection}
    (h : ¬ SectionsTile length position sections) :
    validateSections length position sections = .error notTiling := by
  rw [← validateSections_ok] at h
  induction sections generalizing position with
  | nil =>
    unfold validateSections at h ⊢
    split_ifs at h ⊢ with hend
    · exact absurd rfl h
    · rfl
  | cons part rest ih =>
    unfold validateSections at h ⊢
    split_ifs at h ⊢ with hbad
    · rfl
    · exact ih h

omit [WeightNumber W] in
@[simp] theorem withPrevious_fst (drafts : List (PackedDraft W)) :
    (withPrevious drafts).map Prod.fst = drafts := by
  unfold withPrevious
  apply List.map_fst_zip
  simp

theorem ChunkSection.range_tile {part : ChunkSection} (hforward : part.start ≤ part.stop)
    (hle : part.stop ≤ (CodePointIndex.of text).length) :
    IsBoundary text (part.range (.of text)).start ∧ IsBoundary text (part.range (.of text)).stop ∧
      (part.range (.of text)).start ≤ (part.range (.of text)).stop :=
  ⟨CodePointIndex.toUnit_isBoundary (hforward.trans hle), CodePointIndex.toUnit_isBoundary hle,
    CodePointIndex.toUnit_mono hle hforward⟩

/-- The drafts of the sections tile what the sections tile, and each lies in a section. -/
theorem allDrafts_tile (hsegments : runtime.SegmentsPartition) {position : ℕ}
    {sections : List ChunkSection}
    (h : SectionsTile (CodePointIndex.of text).length position sections) (originBase : ℕ) :
    Tiles (IsBoundary text) ((CodePointIndex.of text).toUnit position) text.length
        (((allDrafts (W := W) runtime text (.of text) originBase sections).map Prod.fst).map
          PackedDraft.range) ∧
      ∀ entry ∈ allDrafts (W := W) runtime text (.of text) originBase sections,
        ∃ part ∈ sections, part.start ≤ part.stop ∧
          part.stop ≤ (CodePointIndex.of text).length ∧
          (part.range (.of text)).start ≤ entry.1.range.start ∧
          entry.1.range.stop ≤ (part.range (.of text)).stop := by
  induction h generalizing originBase with
  | done =>
    simp only [allDrafts, List.map_nil, Tiles.nil_iff, List.not_mem_nil]
    exact ⟨CodePointIndex.toUnit_length, fun _ hmem => hmem.elim⟩
  | @next part rest hforward hrest ih =>
    have hle := hrest.le
    obtain ⟨hstart, hstop, hmono⟩ := part.range_tile hforward hle
    unfold allDrafts
    simp only
    split
    · rename_i hempty
      obtain ⟨htiles, hinside⟩ := ih originBase
      have heq : (CodePointIndex.of text).toUnit part.start =
          (CodePointIndex.of text).toUnit part.stop := le_antisymm hmono hempty
      refine ⟨?_, fun entry hentry => ?_⟩
      · rw [heq]
        exact htiles
      · obtain ⟨found, hfound, hbounds⟩ := hinside entry hentry
        exact ⟨found, List.mem_cons_of_mem _ hfound, hbounds⟩
    · rename_i hne
      obtain ⟨htiles, hinside⟩ := ih (originBase + 1000000)
      have hsection := sectionDrafts_tile (W := W) hsegments hstart hstop (not_le.mp hne)
        originBase part
      refine ⟨?_, fun entry hentry => ?_⟩
      · rw [List.map_append, List.map_append, withPrevious_fst]
        exact hsection.append htiles
      · cases List.mem_append.mp hentry with
        | inl hhere =>
          have hdraft := List.mem_map_of_mem (f := Prod.fst) hhere
          rw [withPrevious_fst] at hdraft
          obtain ⟨hfrom, -, hto, -⟩ := hsection.mem hstart (List.mem_map_of_mem hdraft)
          exact ⟨part, List.mem_cons_self, hforward, hle, hfrom, hto⟩
        | inr hlater =>
          obtain ⟨found, hfound, hbounds⟩ := hinside entry hlater
          exact ⟨found, List.mem_cons_of_mem _ hfound, hbounds⟩

end

/-! ## Passages -/

/-- The passages partition the text of the sections: consecutive ordinals, non-empty spans end to
end from the first code point to the last, none across a section boundary. -/
structure Partitions (prepared : JsString) (sections : List ChunkSection)
    (passages : List Passage) : Prop where
  ordinals : ∀ i (passage : Passage), passages[i]? = some passage →
    passage.ordinal = i ∧ passage.total = passages.length
  spans : Tiles (fun _ => True) 0 (codePointLength prepared) (passages.map (·.span))
  rebuilds : (passages.map fun passage =>
    (CodePointIndex.of prepared).slice passage.span.start passage.span.stop).flatten = prepared
  inSection : ∀ passage ∈ passages, ∃ part ∈ sections,
    part.start ≤ passage.span.start ∧ passage.span.stop ≤ part.stop

/-- A draft's span keeps to the section the draft lies in. -/
theorem span_inSection {text : JsString} {part : ChunkSection} {range : Range}
    (hstart : IsBoundary text range.start) (hstop : IsBoundary text range.stop)
    (hforward : part.start ≤ part.stop) (hle : part.stop ≤ (CodePointIndex.of text).length)
    (hfrom : (part.range (.of text)).start ≤ range.start)
    (hto : range.stop ≤ (part.range (.of text)).stop) :
    part.start ≤ (spanOf (.of text) range).start ∧ (spanOf (.of text) range).stop ≤ part.stop := by
  obtain ⟨hpartStart, hpartStop, -⟩ := part.range_tile hforward hle
  constructor
  · have hpoints := CodePointIndex.toPoint_mono hpartStart hstart hfrom
    rwa [ChunkSection.range, CodePointIndex.toPoint_toUnit (hforward.trans hle)] at hpoints
  · have hpoints := CodePointIndex.toPoint_mono hstop hpartStop hto
    rwa [ChunkSection.range, CodePointIndex.toPoint_toUnit hle] at hpoints

/-- The text of a span is the text of the range it was made from. -/
theorem slice_spanOf {text : JsString} {range : Range} (hstart : IsBoundary text range.start)
    (hstop : IsBoundary text range.stop) :
    (CodePointIndex.of text).slice (spanOf (.of text) range).start (spanOf (.of text) range).stop =
      range.slice text := by
  rw [CodePointIndex.slice, spanOf, CodePointIndex.toUnit_toPoint hstart,
    CodePointIndex.toUnit_toPoint hstop, CodePointIndex.of_text]

section
variable {W : Type} [WeightNumber W] {runtime : Runtime} {text : JsString}
  {list : List ChunkSection} {all : List (PackedDraft W × Option (PackedDraft W))}

theorem passagesOf_spans :
    (passagesOf runtime text (.of text) list all).map (·.span) =
      ((all.map Prod.fst).map PackedDraft.range).map (spanOf (.of text)) := by
  have hfst : all.map Prod.fst = (all.zipIdx.map Prod.fst).map Prod.fst := by
    rw [List.zipIdx_map_fst]
  rw [hfst, passagesOf, List.map_map, List.map_map, List.map_map, List.map_map]
  rfl

theorem passagesOf_length : (passagesOf runtime text (.of text) list all).length = all.length := by
  simp [passagesOf]

theorem passagesOf_ordinal {i : ℕ} {passage : Passage}
    (h : (passagesOf runtime text (.of text) list all)[i]? = some passage) :
    passage.ordinal = i ∧ passage.total = all.length := by
  simp only [passagesOf, List.getElem?_map, List.getElem?_zipIdx, Option.map_map,
    Option.map_eq_some_iff] at h
  obtain ⟨entry, -, rfl⟩ := h
  simp [passageOf]

/-- Every passage is that of one of the drafts. -/
theorem passagesOf_span_mem {passage : Passage}
    (h : passage ∈ passagesOf runtime text (.of text) list all) :
    ∃ entry ∈ all, passage.span = spanOf (.of text) entry.1.range := by
  simp only [passagesOf, List.mem_map] at h
  obtain ⟨⟨entry, ordinal⟩, hmem, rfl⟩ := h
  exact ⟨entry, List.fst_mem_of_mem_zipIdx hmem, rfl⟩

/-- The texts of the passages, in order, are the text of the drafts. -/
theorem passagesOf_slices
    (hcuts : ∀ entry ∈ all, IsBoundary text entry.1.range.start ∧
      IsBoundary text entry.1.range.stop) :
    (passagesOf runtime text (.of text) list all).map (fun passage =>
        (CodePointIndex.of text).slice passage.span.start passage.span.stop) =
      ((all.map Prod.fst).map PackedDraft.range).map fun range => range.slice text := by
  have hslice : ∀ passages : List Passage,
      passages.map (fun passage =>
        (CodePointIndex.of text).slice passage.span.start passage.span.stop) =
      (passages.map (·.span)).map fun span =>
        (CodePointIndex.of text).slice span.start span.stop := by
    intro passages
    rw [List.map_map]
    rfl
  rw [hslice, passagesOf_spans, List.map_map]
  apply List.map_congr_left
  intro range hrange
  simp only [List.mem_map] at hrange
  obtain ⟨draft, ⟨entry, hentry, rfl⟩, rfl⟩ := hrange
  exact slice_spanOf (hcuts entry hentry).1 (hcuts entry hentry).2

/-- Drafts that tile the text, each in a section, give passages that partition it. -/
theorem passagesOf_partitions
    (htiles : Tiles (IsBoundary text) 0 text.length
      ((all.map Prod.fst).map PackedDraft.range))
    (hinside : ∀ entry ∈ all, ∃ part ∈ list, part.start ≤ part.stop ∧
      part.stop ≤ (CodePointIndex.of text).length ∧
      (part.range (.of text)).start ≤ entry.1.range.start ∧
      entry.1.range.stop ≤ (part.range (.of text)).stop) :
    Partitions text list (passagesOf runtime text (.of text) list all) := by
  have hzero := isBoundary_zero text
  have hcuts : ∀ entry ∈ all, IsBoundary text entry.1.range.start ∧
      IsBoundary text entry.1.range.stop := by
    intro entry hentry
    have hdraft := List.mem_map_of_mem (f := PackedDraft.range)
      (List.mem_map_of_mem (f := Prod.fst) hentry)
    exact (htiles.mem hzero hdraft).2.2.2
  constructor
  case ordinals =>
    intro i passage hpassage
    rw [passagesOf_length]
    exact passagesOf_ordinal hpassage
  case spans =>
    have hspans := htiles.map_increasing hzero
      fun _ _ hx hy hlt => CodePointIndex.toPoint_lt hx hy hlt
    rw [CodePointIndex.toPoint_zero, CodePointIndex.toPoint_length,
      CodePointIndex.of_length] at hspans
    rw [passagesOf_spans]
    exact hspans
  case rebuilds =>
    rw [passagesOf_slices hcuts, htiles.flatten_slices]
    simp [Range.slice]
  case inSection =>
    intro passage hpassage
    obtain ⟨entry, hentry, hspan⟩ := passagesOf_span_mem hpassage
    obtain ⟨part, hpart, hforward, hle, hfrom, hto⟩ := hinside entry hentry
    obtain ⟨hstart, hstop⟩ := hcuts entry hentry
    rw [hspan]
    exact ⟨part, hpart, span_inSection hstart hstop hforward hle hfrom hto⟩

end

/-- Whatever list the chunker takes for the sections, it partitions the text when they tile it. -/
theorem chunk_ok (W : Type) [WeightNumber W] {runtime : Runtime}
    (hsegments : runtime.SegmentsPartition) {prepared : JsString} (hne : prepared ≠ [])
    {sections : Option (List ChunkSection)} {list : List ChunkSection}
    (hlist : sectionList sections (CodePointIndex.of prepared).length = list)
    (hsections : SectionsTile (CodePointIndex.of prepared).length 0 list) :
    ∃ passages, chunk W runtime prepared sections = .ok passages ∧
      Partitions prepared list passages := by
  obtain ⟨htiles, hinside⟩ := allDrafts_tile (W := W) hsegments hsections 0
  rw [CodePointIndex.toUnit_zero] at htiles
  refine ⟨passagesOf runtime _ _ _ _, ?_, passagesOf_partitions htiles hinside⟩
  rw [chunk, if_neg hne]
  simp only [hlist, validateSections_ok.mpr hsections]
  rfl

/-- `chunk` partitions the item: whatever sections tile a non-empty text, it returns passages, and
they partition the text without crossing a section. -/
theorem chunk_partitions (W : Type) [WeightNumber W] (runtime : Runtime)
    (hsegments : runtime.SegmentsPartition) (prepared : JsString) (hne : prepared ≠ [])
    (sections : List ChunkSection)
    (hsections : SectionsTile (codePointLength prepared) 0 sections) :
    ∃ passages, chunk W runtime prepared (some sections) = .ok passages ∧
      Partitions prepared sections passages := by
  rw [← CodePointIndex.of_length] at hsections
  apply chunk_ok W hsegments hne _ hsections
  cases sections with
  | nil =>
    have hend : (CodePointIndex.of prepared).toUnit (CodePointIndex.of prepared).length =
        prepared.length := CodePointIndex.toUnit_length
    rw [← hsections.of_nil, CodePointIndex.toUnit_zero] at hend
    exact absurd (List.length_eq_zero_iff.mp hend.symm) hne
  | cons first rest => rfl

/-- A segmenter that gives every text as one segment, as the real one does on one emoji. -/
def wholeRuntime : Runtime where
  segment := fun _ _ text => if text = [] then [] else [⟨text, 0⟩]
  unicode := ⟨fun _ => false, fun _ => false, fun _ => false, fun _ => false, fun _ => false,
    fun _ => false, fun _ => false⟩
  sha256Hex := fun _ => ""

theorem wholeRuntime_partition : wholeRuntime.SegmentsPartition := by
  intro locale granularity text
  simp only [wholeRuntime]
  split
  · rename_i hnil
    simp [hnil]
  · rename_i hne
    have hlt := List.length_pos_iff.mpr hne
    simp [Segment.rangeFrom, Segment.stop, hlt, isBoundary_length]

/-- Two messages of one emoji each. -/
def twoEmoji : JsString := [0xD83D, 0xDE00, 0xD83D, 0xDE00]

def emojiMessage (start stop : ℕ) : ChunkSection where
  frame := []
  start := start
  stop := stop
  kind := .text
  firstRow := none

theorem chunk_partitions_two_emoji :
    ∃ passages, chunk ℚ wholeRuntime twoEmoji (some [emojiMessage 0 1, emojiMessage 1 2]) =
        .ok passages ∧
      Partitions twoEmoji [emojiMessage 0 1, emojiMessage 1 2] passages :=
  chunk_partitions ℚ wholeRuntime wholeRuntime_partition twoEmoji (by decide) _
    (validateSections_ok.mp rfl)

/-- Without sections the whole text is one. -/
theorem chunk_whole_partitions (W : Type) [WeightNumber W] (runtime : Runtime)
    (hsegments : runtime.SegmentsPartition) (prepared : JsString) (hne : prepared ≠ []) :
    ∃ passages, chunk W runtime prepared none = .ok passages ∧
      Partitions prepared (sectionList none (codePointLength prepared)) passages := by
  apply chunk_ok W hsegments hne (by rw [CodePointIndex.of_length])
  apply validateSections_ok.mp
  simp [sectionList, validateSections, CodePointIndex.of_length]

/-- A list of sections that does not tile the text is refused. -/
theorem chunk_refuses (W : Type) [WeightNumber W] {runtime : Runtime} {prepared : JsString}
    (hne : prepared ≠ []) {first : ChunkSection} {rest : List ChunkSection}
    (hsections : ¬ SectionsTile (codePointLength prepared) 0 (first :: rest)) :
    chunk W runtime prepared (some (first :: rest)) = .error notTiling := by
  rw [← CodePointIndex.of_length] at hsections
  rw [chunk, if_neg hne]
  simp only [sectionList, validateSections_error hsections]
  rfl

end QuokyPlatform.Chunking
