import QuokyPlatform.Chunking.Windows

/-!
# Packing loses nothing

A passage within the cap is far shorter than a window, so it is never cut: every wanted passage is
placed in one window, whole and in order, and every window keeps to the hard bound.
-/

namespace QuokyPlatform.Chunking
set_option autoImplicit false
set_option maxHeartbeats 250000

/-! ## A passage within the cap is short -/

section
variable {W : Type} [WeightNumber W] {runtime : Runtime} {text : JsString}

/-- The units' code points were counted on their ranges. -/
def UnitsCounted (index : CodePointIndex) (units : List (TextUnit W)) : Prop :=
  ∀ unit ∈ units, unit.points = index.countUnits unit.start unit.stop

theorem unitsOf_counted {index : CodePointIndex} {limit : PieceLimit W} {kind : PassageKind}
    {whole : TextUnit W} (h : whole.points = index.countUnits whole.start whole.stop) :
    UnitsCounted index (unitsOf runtime text index limit kind whole) := by
  unfold unitsOf UnitsCounted
  split
  · simpa using h
  · simp [unitOf]

theorem textUnits_counted (index : CodePointIndex) (range : Range) (originBase : ℕ) :
    UnitsCounted index (textUnits (W := W) runtime text index range originBase) := by
  intro unit hunit
  obtain ⟨⟨block, order⟩, -, hunit⟩ := List.mem_flatMap.mp hunit
  exact unitsOf_counted rfl unit hunit

theorem tableUnits_counted (index : CodePointIndex) (range : Range) (originBase headerPoints : ℕ)
    (headerWeight : W) : UnitsCounted index
      (tableUnits runtime text index range originBase headerPoints headerWeight) := by
  intro unit hunit
  obtain ⟨⟨row, order⟩, -, hunit⟩ := List.mem_flatMap.mp hunit
  exact unitsOf_counted rfl unit hunit

/-- The draft's own count covers its units; a repeated header comes on top. -/
def Draft.Covers (draft : Draft W) : Prop := (draft.units.map (·.points)).sum ≤ draft.points

structure PackState.Covers (state : PackState W) : Prop where
  drafts : ∀ draft ∈ state.drafts, draft.toDraft.Covers
  current : ∀ draft ∈ state.current, draft.Covers

theorem emptyDraft_covers (frame : JsString) (table : Bool) (header : Option (Header W)) :
    (emptyDraft frame table header).Covers := Nat.zero_le _

theorem Draft.Covers.add {draft : Draft W} (h : draft.Covers) (unit : TextUnit W) :
    (draft.add unit).Covers := by
  simp only [Draft.Covers, Draft.add, List.map_append, List.map_cons, List.map_nil,
    List.sum_append, List.sum_cons, List.sum_nil, Nat.add_zero] at h ⊢
  omega

theorem Draft.Covers.dropHeader {draft : Draft W} (h : draft.Covers) (unit : TextUnit W)
    (allowance : PieceLimit W) : (draft.dropHeader unit allowance).Covers := by
  unfold Draft.dropHeader
  split
  · exact emptyDraft_covers _ _ _
  · exact h

omit [WeightNumber W] in
theorem PackState.Covers.flush {state : PackState W} (h : state.Covers) : state.flush.Covers := by
  refine ⟨?_, by simp [PackState.flush]⟩
  unfold PackState.flush
  cases hcurrent : state.current with
  | none => exact h.drafts
  | some current =>
    simp only
    split
    · intro draft hdraft
      cases List.mem_append.mp hdraft with
      | inl hmem => exact h.drafts draft hmem
      | inr hmem =>
        rw [List.mem_singleton.mp hmem]
        exact h.current current hcurrent
    · exact h.drafts

theorem packStep_covers {state : PackState W} (h : state.Covers) (frame : JsString) (table : Bool)
    (header : Option (Header W)) (allowance : PieceLimit W) (unit : TextUnit W) :
    (packStep frame table header allowance state unit).Covers := by
  have hopen : ∀ s : PackState W, s.Covers →
      (s.current.getD (s.openDraft frame table header)).Covers := by
    intro s hs
    cases hcurrent : s.current with
    | none => exact emptyDraft_covers _ _ _
    | some current => exact hs.current current hcurrent
  unfold packStep
  extract_lets opened before closed current added after
  have hbefore : before.Covers := ⟨h.drafts, by simpa [before] using hopen state h⟩
  have hclosed : closed.Covers := by
    show (if _ then before.flush else before).Covers
    split
    · exact hbefore.flush
    · exact hbefore
  have hafter : after.Covers := by
    refine ⟨hclosed.drafts, ?_⟩
    simpa [after] using ((hopen closed hclosed).dropHeader unit allowance).add unit
  split
  · exact hafter.flush
  · exact hafter

theorem pack_covers (units : List (TextUnit W)) (frame : JsString) (table : Bool)
    (header : Option (Header W)) (allowance : PieceLimit W) :
    ∀ draft ∈ pack units frame table header allowance, draft.toDraft.Covers := by
  have hfold : ∀ state : PackState W, state.Covers →
      (units.foldl (packStep frame table header allowance) state).Covers := by
    induction units with
    | nil => exact fun state h => h
    | cons unit units ih =>
      exact fun state h => ih _ (packStep_covers h frame table header allowance unit)
  exact (hfold ⟨[], none⟩ ⟨by simp, by simp⟩).flush.drafts

omit [WeightNumber W] in
/-- The counts of consecutive ranges add up to at least the count of the whole. -/
theorem countUnits_le_sum {index : CodePointIndex} {cut : ℕ → Prop} {a b : ℕ}
    {units : List (TextUnit W)} (hcounted : UnitsCounted index units)
    (h : Tiles cut a b (units.map TextUnit.toRange)) :
    index.countUnits a b ≤ (units.map (·.points)).sum := by
  induction units generalizing a with
  | nil =>
    rw [List.map_nil, Tiles.nil_iff] at h
    simp [h, CodePointIndex.countUnits]
  | cons unit units ih =>
    rw [List.map_cons, Tiles.cons_iff] at h
    have hunit := hcounted unit List.mem_cons_self
    have hrest := ih (fun u hu => hcounted u (List.mem_cons_of_mem _ hu)) h.2.2.2
    rw [List.map_cons, List.sum_cons, hunit]
    rw [CodePointIndex.countUnits] at hrest ⊢
    rw [CodePointIndex.countUnits, h.1]
    omega

/-- The span of the draft has at most the code points that were counted for it. -/
def PackedDraft.Short (index : CodePointIndex) (draft : PackedDraft W) : Prop :=
  index.countUnits draft.range.start draft.range.stop ≤ draft.points

omit [WeightNumber W] in
theorem drafts_short {index : CodePointIndex} {cut : ℕ → Prop} {a b : ℕ}
    {drafts : List (PackedDraft W)}
    (h : Tiles cut a b ((drafts.flatMap (·.units)).map TextUnit.toRange))
    (hcounted : UnitsCounted index (drafts.flatMap (·.units)))
    (hcovers : ∀ draft ∈ drafts, draft.toDraft.Covers) :
    ∀ draft ∈ drafts, draft.Short index := by
  induction drafts generalizing a with
  | nil => simp
  | cons draft drafts ih =>
    rw [List.flatMap_cons, List.map_append] at h
    obtain ⟨m, hdraft, hrest⟩ := Tiles.append_iff.mp h
    have hothers := ih hrest
      (fun unit hunit => hcounted unit (by simpa using .inr (by simpa using hunit)))
      fun d hd => hcovers d (List.mem_cons_of_mem _ hd)
    refine List.forall_mem_cons.mpr ⟨?_, hothers⟩
    have hunits : UnitsCounted index draft.units :=
      fun unit hunit => hcounted unit (by simp [hunit])
    have hstart : draft.range.start = a := by
      have hcons := List.cons_head_tail draft.holds
      rw [← hcons, List.map_cons] at hdraft
      exact hdraft.head_start
    have hlast : (draft.units.map TextUnit.toRange).getLast? =
        some (draft.units.getLast draft.holds).toRange := by
      rw [List.getLast?_map, List.getLast?_eq_some_getLast draft.holds]
      rfl
    have hstop : (draft.units.getLast draft.holds).stop = m := hdraft.last_stop hlast
    rw [PackedDraft.Short, hstart, show draft.range.stop = m from hstop]
    exact (countUnits_le_sum hunits hdraft).trans (hcovers draft List.mem_cons_self)

theorem pack_short {index : CodePointIndex} {cut : ℕ → Prop} {a b : ℕ} {units : List (TextUnit W)}
    (h : Tiles cut a b (units.map TextUnit.toRange)) (hcounted : UnitsCounted index units)
    (frame : JsString) (table : Bool) (header : Option (Header W)) (allowance : PieceLimit W) :
    ∀ draft ∈ pack units frame table header allowance, draft.Short index := by
  rw [← pack_units units frame table header allowance] at h hcounted
  exact drafts_short h hcounted (pack_covers units frame table header allowance)

theorem sectionDrafts_short (hsegments : runtime.SegmentsPartition) {range : Range}
    (hstart : IsBoundary text range.start) (hstop : IsBoundary text range.stop)
    (hlt : range.start < range.stop) (originBase : ℕ) (part : ChunkSection) :
    ∀ draft ∈ sectionDrafts (W := W) runtime text (.of text) originBase part range,
      draft.Short (.of text) := by
  unfold sectionDrafts
  split
  · exact pack_short (tableUnits_tiles hsegments hstart hstop hlt _ _ _)
      (tableUnits_counted _ _ _ _ _) _ _ _ _
  · exact pack_short (textUnits_tiles hsegments hstart hstop hlt _) (textUnits_counted _ _ _) _ _ _ _

theorem allDrafts_short (hsegments : runtime.SegmentsPartition) {position : ℕ}
    {sections : List ChunkSection}
    (h : SectionsTile (CodePointIndex.of text).length position sections) (originBase : ℕ) :
    ∀ entry ∈ allDrafts (W := W) runtime text (.of text) originBase sections,
      entry.1.Short (.of text) := by
  induction h generalizing originBase with
  | done => simp [allDrafts]
  | @next part rest hforward hrest ih =>
    obtain ⟨hstart, hstop, hmono⟩ := part.range_tile hforward hrest.le
    unfold allDrafts
    simp only
    split
    · exact ih originBase
    · rename_i hne
      have hsection := sectionDrafts_short (W := W) hsegments hstart hstop (not_le.mp hne)
        originBase part
      intro entry hentry
      cases List.mem_append.mp hentry with
      | inl hhere =>
        have hdraft := List.mem_map_of_mem (f := Prod.fst) hhere
        rw [withPrevious_fst] at hdraft
        exact hsection entry.1 hdraft
      | inr hlater => exact ih (originBase + 1000000) entry hlater

/-- A passage that is not over the cap has a span of at most the cap. -/
def CapHolds (passages : List Passage) : Prop :=
  ∀ passage ∈ passages, passage.overCap = false →
    passage.span.stop - passage.span.start ≤ PASSAGE_MAX_CODE_POINTS

theorem passagesOf_capHolds {list : List ChunkSection}
    {all : List (PackedDraft W × Option (PackedDraft W))}
    (h : ∀ entry ∈ all, entry.1.Short (.of text)) :
    CapHolds (passagesOf runtime text (.of text) list all) := by
  intro passage hpassage hcap
  simp only [passagesOf, List.mem_map] at hpassage
  obtain ⟨⟨entry, ordinal⟩, hmem, rfl⟩ := hpassage
  have hshort := h entry (List.fst_mem_of_mem_zipIdx hmem)
  have hpoints : entry.1.points ≤ PASSAGE_MAX_CODE_POINTS := by
    simpa [passageOf] using hcap
  exact hshort.trans hpoints

/-- What the chunker returns partitions its text, and the cap bounds the spans. -/
theorem chunk_spec (hsegments : runtime.SegmentsPartition) {prepared : JsString}
    {sections : Option (List ChunkSection)} {passages : List Passage}
    (h : chunk W runtime prepared sections = .ok passages) :
    CapHolds passages ∧
      Tiles (fun _ => True) 0 (codePointLength prepared) (passages.map (·.span)) ∧
      ∀ i (passage : Passage), passages[i]? = some passage → passage.ordinal = i := by
  by_cases hnil : prepared = []
  · rw [chunk, if_pos hnil] at h
    cases h
    simp [hnil, CapHolds]
  · have hvalid : SectionsTile (CodePointIndex.of prepared).length 0
        (sectionList sections (CodePointIndex.of prepared).length) := by
      rw [chunk, if_neg hnil] at h
      apply validateSections_ok.mp
      cases hv : validateSections (CodePointIndex.of prepared).length 0
        (sectionList sections (CodePointIndex.of prepared).length) with
      | ok => rfl
      | error e =>
        simp only [hv] at h
        cases h
    obtain ⟨found, hfound, hpartitions⟩ := chunk_ok W hsegments hnil rfl hvalid
    have hsame : found = passages := by
      rw [hfound] at h
      exact Except.ok.inj h
    subst hsame
    refine ⟨?_, hpartitions.spans, fun i passage hi => (hpartitions.ordinals i passage hi).1⟩
    rw [chunk, if_neg hnil] at h
    simp only [validateSections_ok.mpr hvalid] at h
    rw [← Except.ok.inj h]
    exact passagesOf_capHolds (allDrafts_short hsegments hvalid 0)

end

/-! ## The texts of the passages -/

/-- The text of a passage of the item. -/
def passageText (prepared : JsString) (passage : Passage) : JsString :=
  (CodePointIndex.of prepared).slice passage.span.start passage.span.stop

theorem IsBoundary.take {text : JsString} {k l : ℕ} (h : IsBoundary text k) (hle : k ≤ l) :
    IsBoundary (text.take l) k := by
  refine ⟨by have := h.inside; rw [List.length_take]; omega, ?_⟩
  cases k with
  | zero => rfl
  | succ before =>
    have hwhole := h.whole
    have hlt : before < l := by omega
    simp only [splitsPair, List.getElem?_take, if_pos hlt] at hwhole ⊢
    by_cases hnext : before + 1 < l
    · rw [if_pos hnext]
      exact hwhole
    · rw [if_neg hnext]
      cases text[before]? <;> rfl

/-- The text of a range of code points has that many code points. -/
theorem codePointLength_slice {text : JsString} {start stop : ℕ} (hle : start ≤ stop)
    (hstop : stop ≤ (CodePointIndex.of text).length) :
    codePointLength ((CodePointIndex.of text).slice start stop) = stop - start := by
  have hk := CodePointIndex.toUnit_isBoundary (hle.trans hstop)
  have hl := CodePointIndex.toUnit_isBoundary hstop
  have hmono := CodePointIndex.toUnit_mono hstop hle
  have hstart := CodePointIndex.toPoint_eq_take hk
  have hend := CodePointIndex.toPoint_eq_take hl
  rw [CodePointIndex.toPoint_toUnit (hle.trans hstop)] at hstart
  rw [CodePointIndex.toPoint_toUnit hstop] at hend
  have hsplit := CodePointIndex.codePointLength_split (hk.take hmono)
  rw [List.take_take, Nat.min_eq_left hmono, ← hstart, ← hend] at hsplit
  have hslice : (CodePointIndex.of text).slice start stop =
      (text.take ((CodePointIndex.of text).toUnit stop)).drop
        ((CodePointIndex.of text).toUnit start) := by
    rw [CodePointIndex.slice, CodePointIndex.of_text]
    exact List.drop_take.symm
  rw [hslice]
  omega

theorem codePointLength_trimEnd_le (text : JsString) :
    codePointLength (trimEnd text) ≤ codePointLength text := by
  obtain ⟨rest, hrest⟩ := List.rdropWhile_prefix isWhiteSpace text
  have hle := codePointLength_le_append (trimEnd text) rest
  rw [trimEnd] at hle ⊢
  rwa [hrest] at hle

theorem trimEnd_trimEnd (text : JsString) : trimEnd (trimEnd text) = trimEnd text :=
  List.rdropWhile_idempotent isWhiteSpace text

/-- A text is its trimmed text and white space. -/
theorem exists_trimEnd_append (text : JsString) : ∃ space, text = trimEnd text ++ space := by
  obtain ⟨space, hspace⟩ := List.rdropWhile_prefix isWhiteSpace text
  exact ⟨space, hspace.symm⟩

/-! ## The loop over the wanted ordinals -/

section
variable (W : Type) [WeightNumber W] (runtime : Runtime) (prepared : JsString)
  (passages : List Passage) (budget : WindowBudget)

/-- The texts of the passages with the given ordinals, each trimmed at its end. -/
def placedTexts (ordinals : List ℕ) : List JsString :=
  ordinals.map fun ordinal =>
    trimEnd ((passages[ordinal]?.map (passageText prepared)).getD [])

/-- A window holds a passage, keeps to the hard bound, and has the texts of its passages in order. -/
structure Window.Sound (window : Window) : Prop where
  holds : window.ordinals ≠ []
  bounded : codePointLength window.text ≤ budget.maxCodePoints
  texts : OccurInOrder (placedTexts prepared passages window.ordinals) window.text

/-- What the loop has done after the ordinals `done`. -/
structure WindowState.Packed (done : List ℕ) (state : WindowState) : Prop where
  placed : state.windows.flatMap Window.ordinals ++ state.ordinals = done
  closed : ∀ window ∈ state.windows, window.Sound prepared passages budget
  bounded : state.ordinals ≠ [] → codePointLength (trimEnd state.text) ≤ budget.maxCodePoints
  texts : OccurInOrder (placedTexts prepared passages state.ordinals) state.text

variable {prepared passages budget}

omit [WeightNumber W] in
theorem placedTexts_trimmed (ordinals : List ℕ) :
    ∀ text ∈ placedTexts prepared passages ordinals, trimEnd text = text := by
  intro text htext
  obtain ⟨ordinal, -, rfl⟩ := List.mem_map.mp htext
  exact trimEnd_trimEnd _

theorem placedTexts_concat {ordinal : ℕ} {passage : Passage} (ordinals : List ℕ)
    (h : passages[ordinal]? = some passage) :
    placedTexts prepared passages (ordinals ++ [ordinal]) =
      placedTexts prepared passages ordinals ++ [trimEnd (passageText prepared passage)] := by
  simp [placedTexts, h]

theorem WindowState.Packed.close {done : List ℕ} {state : WindowState}
    (h : state.Packed prepared passages budget done) :
    (state.close W runtime).Packed prepared passages budget done := by
  have hplaced := h.placed
  by_cases hempty : state.ordinals = []
  · rw [hempty, List.append_nil] at hplaced
    refine ⟨by simpa [WindowState.close, hempty] using hplaced, ?_, by simp [WindowState.close],
      .nil _⟩
    simpa [WindowState.close, hempty] using h.closed
  · refine ⟨by simpa [WindowState.close, hempty] using hplaced, ?_, by simp [WindowState.close],
      .nil _⟩
    simp only [WindowState.close, if_neg hempty, List.forall_mem_append, List.forall_mem_singleton]
    exact ⟨h.closed, hempty, h.bounded hempty, h.texts.rdropWhile (placedTexts_trimmed _)⟩

/-- A passage is placed behind the text it is joined to. -/
theorem WindowState.Packed.place {done : List ℕ} {state : WindowState}
    (h : state.Packed prepared passages budget done) {ordinal : ℕ} {passage : Passage}
    (hpassage : passages[ordinal]? = some passage) {text : JsString}
    (hbounded : codePointLength (trimEnd text) ≤ budget.maxCodePoints)
    (htexts : OccurInOrder (placedTexts prepared passages state.ordinals ++
      [trimEnd (passageText prepared passage)]) text) :
    (state.place passage ordinal text).Packed prepared passages budget (done ++ [ordinal]) := by
  constructor
  case placed =>
    rw [← h.placed, List.append_assoc]
    rfl
  case closed => exact h.closed
  case bounded => exact fun _ => hbounded
  case texts =>
    show OccurInOrder (placedTexts prepared passages (state.ordinals ++ [ordinal])) text
    rw [placedTexts_concat _ hpassage]
    exact htexts

/-- The text of a passage, behind a lead, is its trimmed text between other text. -/
theorem occurs_behind {pieces : List JsString} {text : JsString} (h : OccurInOrder pieces text)
    (gap own : JsString) : OccurInOrder (pieces ++ [trimEnd own]) (text ++ gap ++ own) := by
  obtain ⟨space, hspace⟩ := exists_trimEnd_append own
  have hown := h.concat gap (trimEnd own) space
  rw [List.append_assoc, ← hspace] at hown
  exact hown

/-- A short passage opens a window whole. -/
theorem WindowState.Packed.openWith {done : List ℕ} {state : WindowState}
    (h : state.Packed prepared passages budget done) (hempty : state.ordinals = []) {ordinal : ℕ}
    {passage : Passage} (hpassage : passages[ordinal]? = some passage)
    (hne : passageText prepared passage ≠ [])
    (hshort : codePointLength (passageText prepared passage) ≤ budget.maxCodePoints)
    {next : Piece} (hnext : next.text = passageText prepared passage) :
    (state.openWith W runtime budget passage ordinal next).Packed prepared passages budget
      (done ++ [ordinal]) := by
  have hpieces : ∀ lead : JsString, OccurInOrder (placedTexts prepared passages state.ordinals ++
      [trimEnd (passageText prepared passage)]) (lead ++ next.text) := by
    intro lead
    rw [hempty, hnext]
    exact occurs_behind (.nil []) lead _
  have htrimmed := (codePointLength_trimEnd_le (passageText prepared passage)).trans hshort
  unfold WindowState.openWith
  rw [hnext] at hpieces ⊢
  simp only [if_pos htrimmed, if_neg hne]
  split_ifs with hover
  · exact h.place hpassage htrimmed (hpieces [])
  · exact h.place hpassage (not_lt.mp hover) (hpieces next.lead)

/-- One turn places its passage. -/
theorem WindowState.Packed.step {done : List ℕ} {state : WindowState}
    (h : state.Packed prepared passages budget done) {ordinal : ℕ} {passage : Passage}
    (hpassage : passages[ordinal]? = some passage) (hne : passageText prepared passage ≠ [])
    (hshort : codePointLength (passageText prepared passage) ≤ budget.maxCodePoints) :
    (windowStep W runtime (.of prepared) passages budget state ordinal).Packed prepared passages
      budget (done ++ [ordinal]) := by
  simp only [windowStep, hpassage]
  split_ifs with hempty hover
  · exact h.openWith W runtime hempty hpassage hne hshort rfl
  · exact (h.close W runtime).openWith W runtime rfl hpassage hne hshort rfl
  · have hbounded : codePointLength (trimEnd (state.join
        (piece (.of prepared) passage state.previous))) ≤ budget.maxCodePoints := by
      simp only [WindowBudget.isOver, Bool.not_eq_true, Bool.or_eq_false_iff,
        decide_eq_false_iff_not, not_lt] at hover
      exact hover.1
    apply h.place hpassage hbounded
    unfold WindowState.join
    split_ifs with hadjacent
    · have hown := occurs_behind h.texts [] (passageText prepared passage)
      rwa [List.append_nil] at hown
    · have htrimmed := h.texts.rdropWhile (placedTexts_trimmed state.ordinals)
      rw [List.append_assoc (trimEnd state.text)]
      exact occurs_behind htrimmed _ (passageText prepared passage)

/-- The loop over short passages places every one of them. -/
theorem WindowState.Packed.foldl {done wanted : List ℕ} {state : WindowState}
    (h : state.Packed prepared passages budget done)
    (hwanted : ∀ ordinal ∈ wanted, ∃ passage, passages[ordinal]? = some passage ∧
      passageText prepared passage ≠ [] ∧
      codePointLength (passageText prepared passage) ≤ budget.maxCodePoints) :
    (wanted.foldl (windowStep W runtime (.of prepared) passages budget) state).Packed prepared
      passages budget (done ++ wanted) := by
  induction wanted generalizing done state with
  | nil => simpa using h
  | cons ordinal rest ih =>
    obtain ⟨passage, hpassage, hne, hshort⟩ := hwanted ordinal List.mem_cons_self
    have hstep := h.step W runtime hpassage hne hshort
    have hrest := ih hstep fun o ho => hwanted o (List.mem_cons_of_mem _ ho)
    rwa [List.append_assoc] at hrest

end

/-! ## The wanted ordinals -/

/-- The ordinals of the item's passages that were selected and are not over the cap, in order. -/
def selectedOrdinals (passages : List Passage) (selected : List ℚ) : List ℕ :=
  (List.range passages.length).filter fun ordinal =>
    decide ((ordinal : ℚ) ∈ selected) && (passages[ordinal]?.map Passage.overCap) != some true

theorem isWanted_iff {passages : List Passage} {ordinal : ℚ} :
    isWanted passages ordinal = true ↔ ∃ position : ℕ, ordinal = position ∧
      position < passages.length ∧ (passages[position]?.map Passage.overCap) ≠ some true := by
  simp only [isWanted, Bool.and_eq_true, decide_eq_true_eq, bne_iff_ne]
  constructor
  · rintro ⟨⟨⟨hint, hpos⟩, hlt⟩, hcap⟩
    have hden : ordinal.den = 1 := by simpa [Rat.isInt] using hint
    have hnum : (ordinal.num : ℚ) = ordinal := Rat.den_eq_one_iff ordinal |>.mp hden
    have hnonneg : 0 ≤ ordinal.num := Rat.num_nonneg.mpr hpos
    have hcast : ((ordinal.num.toNat : ℕ) : ℚ) = ordinal := by
      have hz : ((ordinal.num.toNat : ℕ) : ℤ) = ordinal.num := Int.toNat_of_nonneg hnonneg
      have hq : (((ordinal.num.toNat : ℕ) : ℤ) : ℚ) = (ordinal.num : ℚ) := congrArg _ hz
      rw [hnum] at hq
      exact_mod_cast hq
    refine ⟨ordinal.num.toNat, hcast.symm, ?_, hcap⟩
    rw [← hcast] at hlt
    exact_mod_cast hlt
  · rintro ⟨position, rfl, hlt, hcap⟩
    refine ⟨⟨⟨?_, ?_⟩, ?_⟩, ?_⟩
    · simp [Rat.isInt]
    · exact_mod_cast Nat.zero_le position
    · exact_mod_cast hlt
    · simpa using hcap

theorem mem_wantedOrdinals {passages : List Passage} {selected : List ℚ} {ordinal : ℕ} :
    ordinal ∈ wantedOrdinals passages selected ↔ ordinal ∈ selectedOrdinals passages selected := by
  simp only [wantedOrdinals, List.mem_mergeSort, List.mem_map, List.mem_filter,
    List.mem_eraseDups, isWanted_iff, selectedOrdinals, List.mem_range, Bool.and_eq_true,
    decide_eq_true_eq, bne_iff_ne]
  constructor
  · rintro ⟨value, ⟨hmem, position, rfl, hlt, hcap⟩, rfl⟩
    refine ⟨by simpa using hlt, by simpa using hmem, by simpa using hcap⟩
  · rintro ⟨hlt, hmem, hcap⟩
    exact ⟨ordinal, ⟨hmem, ordinal, rfl, hlt, hcap⟩, by simp⟩

theorem nodup_eraseDups {α : Type} [BEq α] [LawfulBEq α] (values : List α) :
    values.eraseDups.Nodup := by
  induction hlength : values.length using Nat.strong_induction_on generalizing values with
  | _ length ih =>
    cases values with
    | nil => simp
    | cons value rest =>
      have hshorter : (rest.filter fun other => !other == value).length < length := by
        have hle := List.length_filter_le (fun other => !other == value) rest
        rw [List.length_cons] at hlength
        omega
      rw [List.eraseDups_cons, List.nodup_cons]
      exact ⟨by simp [List.mem_eraseDups], ih _ hshorter _ rfl⟩

theorem wantedOrdinals_sorted (passages : List Passage) (selected : List ℚ) :
    (wantedOrdinals passages selected).Pairwise (· < ·) := by
  have hnodup : ((selected.eraseDups.filter (isWanted passages)).map
      fun ordinal => ordinal.num.toNat).Nodup := by
    apply List.Nodup.map_on _ ((nodup_eraseDups selected).filter _)
    intro x hx y hy heq
    obtain ⟨i, rfl, -⟩ := isWanted_iff.mp (List.mem_filter.mp hx).2
    obtain ⟨j, rfl, -⟩ := isWanted_iff.mp (List.mem_filter.mp hy).2
    simpa using heq
  have hperm := (List.mergeSort_perm ((selected.eraseDups.filter (isWanted passages)).map
    fun ordinal => ordinal.num.toNat) (· ≤ ·)).nodup_iff.mpr hnodup
  have hsorted := List.pairwise_mergeSort' (· ≤ ·)
    ((selected.eraseDups.filter (isWanted passages)).map fun ordinal => ordinal.num.toNat)
  exact (hsorted.and hperm).imp fun h => lt_of_le_of_ne h.1 h.2

theorem wantedOrdinals_eq (passages : List Passage) (selected : List ℚ) :
    wantedOrdinals passages selected = selectedOrdinals passages selected := by
  have hrange : (selectedOrdinals passages selected).Pairwise (· < ·) :=
    List.pairwise_lt_range.filter _
  exact (wantedOrdinals_sorted passages selected).eq_of_mem_iff hrange fun _ => mem_wantedOrdinals

/-! ## Packing loses nothing -/

section
variable {W : Type} [WeightNumber W] {runtime : Runtime} {prepared : JsString}
  {passages : List Passage}

/-- A passage of a chunked item that is within the cap is neither empty nor longer than it. -/
theorem passageText_short (hcap : CapHolds passages)
    (hspans : Tiles (fun _ => True) 0 (codePointLength prepared) (passages.map (·.span)))
    {passage : Passage} (hmem : passage ∈ passages) (hwithin : passage.overCap = false) :
    passageText prepared passage ≠ [] ∧
      codePointLength (passageText prepared passage) ≤ PASSAGE_MAX_CODE_POINTS := by
  have hspan := hspans.mem trivial (List.mem_map_of_mem hmem)
  have hinside : passage.span.stop ≤ (CodePointIndex.of prepared).length := by
    rw [CodePointIndex.of_length]
    exact hspan.2.2.1
  have hlength : codePointLength (passageText prepared passage) =
      passage.span.stop - passage.span.start := codePointLength_slice hspan.2.1.le hinside
  have hshort := hcap passage hmem hwithin
  refine ⟨fun hnil => ?_, by omega⟩
  rw [hnil, codePointLength_nil] at hlength
  omega

theorem wanted_short (hcap : CapHolds passages)
    (hspans : Tiles (fun _ => True) 0 (codePointLength prepared) (passages.map (·.span)))
    {budget : WindowBudget}
    (hbudget : DEFAULT_WINDOW_BUDGET.maxCodePoints ≤ budget.maxCodePoints) (selected : List ℚ) :
    ∀ ordinal ∈ selectedOrdinals passages selected, ∃ passage,
      passages[ordinal]? = some passage ∧ passageText prepared passage ≠ [] ∧
        codePointLength (passageText prepared passage) ≤ budget.maxCodePoints := by
  intro ordinal hordinal
  simp only [selectedOrdinals, List.mem_filter, List.mem_range, Bool.and_eq_true,
    decide_eq_true_eq, bne_iff_ne] at hordinal
  have hget := List.getElem?_eq_getElem hordinal.1
  have hwithin : passages[ordinal].overCap = false := by
    simpa [hget] using hordinal.2.2
  have hshort := passageText_short hcap hspans (List.getElem_mem hordinal.1) hwithin
  have hmax : PASSAGE_MAX_CODE_POINTS ≤ DEFAULT_WINDOW_BUDGET.maxCodePoints := by decide
  exact ⟨_, hget, hshort.1, hshort.2.trans (hmax.trans hbudget)⟩

/-- For a chunked item, every list of selected ordinals and every budget of at least the default
bounds, the windows hold exactly the selected passages within the cap, in order. No window is
without a passage; every window keeps to the hard bound and holds the texts of its passages, trimmed
at their ends, whole and in order, so that its text is empty only where they are white space. -/
theorem packWindows_loses_nothing (hsegments : runtime.SegmentsPartition)
    {sections : Option (List ChunkSection)}
    (hchunk : chunk W runtime prepared sections = .ok passages) (selected : List ℚ)
    {budget : WindowBudget}
    (hbudget : DEFAULT_WINDOW_BUDGET.maxCodePoints ≤ budget.maxCodePoints) :
    (packWindows W runtime prepared passages selected budget).flatMap Window.ordinals =
        selectedOrdinals passages selected ∧
      ∀ window ∈ packWindows W runtime prepared passages selected budget,
        window.Sound prepared passages budget ∧
          (window.text = [] → ∀ text ∈ placedTexts prepared passages window.ordinals, text = []) := by
  obtain ⟨hcap, hspans, -⟩ := chunk_spec hsegments hchunk
  have hinitial : (⟨[], [], [], none⟩ : WindowState).Packed prepared passages budget [] :=
    ⟨rfl, by simp, by simp, .nil []⟩
  have hwanted := wanted_short hcap hspans hbudget selected
  have hloop := (hinitial.foldl W runtime hwanted).close W runtime
  have hplaced := hloop.placed
  rw [List.nil_append] at hplaced
  rw [packWindows, wantedOrdinals_eq]
  refine ⟨by simpa [WindowState.close] using hplaced, fun window hwindow => ?_⟩
  have hsound := hloop.closed window hwindow
  refine ⟨hsound, fun hempty text htext => ?_⟩
  have hinfix := hsound.texts.mem_infix text htext
  rw [hempty] at hinfix
  exact List.infix_nil.mp hinfix

end

/-- Two messages, selected out of order, twice and out of range. -/
theorem packWindows_loses_nothing_two_emoji : ∃ passages,
    chunk ℚ wholeRuntime twoEmoji (some [emojiMessage 0 1, emojiMessage 1 2]) = .ok passages ∧
      (packWindows ℚ wholeRuntime twoEmoji passages [1, 0, 1, 7, -2, 1 / 2]
        DEFAULT_WINDOW_BUDGET).flatMap Window.ordinals = [0, 1] := by
  refine ⟨_, rfl, ?_⟩
  have hwindows := (packWindows_loses_nothing wholeRuntime_partition
    (show chunk ℚ wholeRuntime twoEmoji (some [emojiMessage 0 1, emojiMessage 1 2]) = .ok _
      from rfl) [1, 0, 1, 7, -2, 1 / 2] (le_refl DEFAULT_WINDOW_BUDGET.maxCodePoints)).1
  exact hwindows.trans (by decide +kernel)

/-- A text of one space is one passage, and its window has no text. -/
theorem packWindows_blank : ∃ passages,
    chunk ℚ wholeRuntime [0x20] none = .ok passages ∧
      packWindows ℚ wholeRuntime [0x20] passages [0] DEFAULT_WINDOW_BUDGET =
        [⟨[], [0], 0, 0⟩] := by
  refine ⟨_, rfl, ?_⟩
  rw [packWindows, wantedOrdinals_eq]
  decide +kernel

end QuokyPlatform.Chunking
