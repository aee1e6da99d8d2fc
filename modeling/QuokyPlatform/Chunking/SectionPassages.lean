import QuokyPlatform.Chunking.WindowPacking

/-!
# The passages of a section

Every passage is made from a draft of one section, and its predecessor there, if it has one, made
the passage before it. What packing keeps of its drafts is one rule.
-/

namespace QuokyPlatform.Chunking
set_option autoImplicit false
set_option maxHeartbeats 250000

section
variable {W : Type} [WeightNumber W] {runtime : Runtime} {text : JsString}

/-! ## Drafts that packing makes -/

/-- What holds of empty drafts, and of a draft with a unit more where the draft was empty or the unit
fits, holds of every packed draft. -/
theorem pack_invariant {units : List (TextUnit W)} {frame : JsString} {table : Bool}
    {header : Option (Header W)} {allowance : PieceLimit W} {P : Draft W → Prop}
    (hempty : ∀ repeated, repeated = none ∨ table = true ∧ repeated = header →
      P (emptyDraft frame table repeated))
    (hadd : ∀ draft, P draft → ∀ unit ∈ units, draft.units = [] ∨ draft.fits unit allowance = true →
      P ((draft.dropHeader unit allowance).add unit)) :
    ∀ draft ∈ pack units frame table header allowance, P draft.toDraft := by
  let Keeps (state : PackState W) : Prop :=
    (∀ draft ∈ state.drafts, P draft.toDraft) ∧ ∀ draft ∈ state.current, P draft
  have hopen : ∀ state : PackState W, Keeps state →
      P (state.current.getD (state.openDraft frame table header)) := by
    intro state hstate
    cases hcurrent : state.current with
    | none =>
      apply hempty
      split_ifs with hrepeat
      · rw [Bool.and_eq_true] at hrepeat
        exact .inr ⟨hrepeat.1, rfl⟩
      · exact .inl rfl
    | some current => exact hstate.2 current hcurrent
  have hflush : ∀ state : PackState W, Keeps state → Keeps state.flush := by
    intro state hstate
    refine ⟨?_, fun draft hdraft => by cases hdraft⟩
    unfold PackState.flush
    cases hcurrent : state.current with
    | none => exact hstate.1
    | some current =>
      dsimp only
      split_ifs with hholds
      · intro draft hdraft
        rcases List.mem_append.mp hdraft with hold | hnew
        · exact hstate.1 draft hold
        · rw [List.mem_singleton.mp hnew]
          exact hstate.2 current hcurrent
      · exact hstate.1
  have hstep : ∀ state : PackState W, Keeps state → ∀ unit ∈ units,
      Keeps (packStep frame table header allowance state unit) := by
    intro state hstate unit hunit
    unfold packStep
    extract_lets opened before closed current added after
    have hbefore : Keeps before := by
      refine ⟨hstate.1, fun draft hdraft => ?_⟩
      obtain rfl := Option.some.inj hdraft
      exact hopen state hstate
    have hclosed : Keeps closed ∧ (current.units = [] ∨ current.fits unit allowance = true) := by
      show Keeps (if _ then before.flush else before) ∧ _
      cases hcloses : opened.closesBefore unit allowance with
      | true =>
        refine ⟨hflush before hbefore, .inl ?_⟩
        show (closed.current.getD (closed.openDraft frame table header)).units = []
        have hnone : closed.current = none := by
          show (if opened.closesBefore unit allowance then before.flush else before).current = none
          rw [hcloses]
          rfl
        rw [hnone]
        rfl
      | false =>
        refine ⟨hbefore, ?_⟩
        have hsame : current = opened := by
          show closed.current.getD _ = opened
          have hsome : closed.current = some opened := by
            show (if opened.closesBefore unit allowance then before.flush else before).current = _
            rw [hcloses]
            rfl
          rw [hsome]
          rfl
        rw [hsame]
        unfold Draft.closesBefore at hcloses
        simp only [Bool.and_eq_false_iff, Bool.not_eq_false', List.isEmpty_iff,
          Bool.or_eq_false_iff] at hcloses
        rcases hcloses with hnil | ⟨-, hfits⟩
        · exact .inl hnil
        · exact .inr hfits
    have hafter : Keeps after := by
      refine ⟨hclosed.1.1, fun draft hdraft => ?_⟩
      obtain rfl := Option.some.inj hdraft
      exact hadd current (hopen closed hclosed.1) unit hunit hclosed.2
    split
    · exact hflush after hafter
    · exact hafter
  have hfold : ∀ more : List (TextUnit W), (∀ unit ∈ more, unit ∈ units) →
      ∀ state : PackState W, Keeps state →
        Keeps (more.foldl (packStep frame table header allowance) state) := by
    intro more
    induction more with
    | nil => exact fun _ state hstate => hstate
    | cons unit rest ih =>
      intro hmem state hstate
      exact ih (fun other hother => hmem other (List.mem_cons_of_mem _ hother)) _
        (hstep state hstate unit (hmem unit List.mem_cons_self))
  have hstart : Keeps ⟨[], none⟩ := ⟨(fun draft h => by cases h), fun draft h => by cases h⟩
  exact (hflush _ (hfold units (fun _ h => h) _ hstart)).1

/-! ## The section of a draft -/

omit [WeightNumber W] in
/-- The units of each draft tile its range. -/
theorem drafts_units_tile {cut : ℕ → Prop} {a b : ℕ} {drafts : List (PackedDraft W)} (ha : cut a)
    (h : Tiles cut a b ((drafts.flatMap (·.units)).map TextUnit.toRange)) :
    ∀ draft ∈ drafts, cut draft.range.start ∧
      Tiles cut draft.range.start draft.range.stop (draft.units.map TextUnit.toRange) := by
  induction drafts generalizing a with
  | nil =>
    intro draft hdraft
    cases hdraft
  | cons draft drafts ih =>
    rw [List.flatMap_cons, List.map_append] at h
    obtain ⟨m, hdraft, hrest⟩ := Tiles.append_iff.mp h
    refine List.forall_mem_cons.mpr ⟨?_, ih (hdraft.cut_stop ha) hrest⟩
    have hstart : draft.range.start = a := by
      have hcons := List.cons_head_tail draft.holds
      rw [← hcons, List.map_cons] at hdraft
      exact hdraft.head_start
    have hlast : (draft.units.map TextUnit.toRange).getLast? =
        some (draft.units.getLast draft.holds).toRange := by
      rw [List.getLast?_map, List.getLast?_eq_some_getLast draft.holds]
      rfl
    have hstop : (draft.units.getLast draft.holds).stop = m := hdraft.last_stop hlast
    rw [hstart, show draft.range.stop = m from hstop]
    exact ⟨ha, hdraft⟩

omit [WeightNumber W] in
/-- The predecessor of a draft is the draft before it. -/
theorem mem_withPrevious {drafts : List (PackedDraft W)} {draft previous : PackedDraft W}
    (h : (draft, some previous) ∈ withPrevious drafts) :
    ∃ before after, drafts = before ++ previous :: draft :: after := by
  unfold withPrevious at h
  obtain ⟨i, hi⟩ := List.mem_iff_getElem?.mp h
  obtain ⟨hdraft, hprevious⟩ := List.getElem?_zip_eq_some.mp hi
  cases i with
  | zero => cases hprevious
  | succ i =>
    rw [List.getElem?_cons_succ, List.getElem?_map, Option.map_eq_some_iff] at hprevious
    obtain ⟨found, hfound, heq⟩ := hprevious
    obtain rfl := Option.some.inj heq
    refine ⟨drafts.take i, drafts.drop (i + 2), ?_⟩
    obtain ⟨hlt, hget⟩ := List.getElem?_eq_some_iff.mp hfound
    obtain ⟨hlt', hget'⟩ := List.getElem?_eq_some_iff.mp hdraft
    replace hget' : drafts[i + 1] = draft := hget'
    rw [← hget, ← hget', ← List.drop_eq_getElem_cons, ← List.drop_eq_getElem_cons,
      List.take_append_drop]

/-- The entries of the drafts of a section. -/
def sectionEntries (W : Type) [WeightNumber W] (runtime : Runtime) (text : JsString)
    (originBase : ℕ) (part : ChunkSection) : List (PackedDraft W × Option (PackedDraft W)) :=
  withPrevious (sectionDrafts runtime text (.of text) originBase part (part.range (.of text)))

theorem mem_drafts_of_entry {originBase : ℕ} {part : ChunkSection}
    {entry : PackedDraft W × Option (PackedDraft W)}
    (h : entry ∈ sectionEntries W runtime text originBase part) :
    entry.1 ∈ sectionDrafts (W := W) runtime text (.of text) originBase part
        (part.range (.of text)) ∧
      ∀ previous ∈ entry.2, previous ∈ sectionDrafts (W := W) runtime text (.of text) originBase
        part (part.range (.of text)) := by
  constructor
  · have hmem := List.mem_map_of_mem (f := Prod.fst) h
    rwa [sectionEntries, withPrevious_fst] at hmem
  · intro previous hprevious
    obtain ⟨draft, before⟩ := entry
    cases hprevious
    obtain ⟨front, back, hdrafts⟩ := mem_withPrevious h
    rw [hdrafts]
    exact List.mem_append_right _ List.mem_cons_self

/-- Every entry is one of a section that is not empty. -/
theorem mem_allDrafts {sections : List ChunkSection} {originBase : ℕ}
    {entry : PackedDraft W × Option (PackedDraft W)}
    (h : entry ∈ allDrafts runtime text (.of text) originBase sections) :
    ∃ part ∈ sections, (part.range (.of text)).start < (part.range (.of text)).stop ∧
      ∃ base, entry ∈ sectionEntries W runtime text base part := by
  induction sections generalizing originBase with
  | nil => cases h
  | cons part rest ih =>
    unfold allDrafts at h
    dsimp only at h
    split_ifs at h with hempty
    · obtain ⟨found, hfound, hrest⟩ := ih h
      exact ⟨found, List.mem_cons_of_mem _ hfound, hrest⟩
    · rcases List.mem_append.mp h with hhere | hlater
      · exact ⟨part, List.mem_cons_self, not_le.mp hempty, originBase, hhere⟩
      · obtain ⟨found, hfound, hrest⟩ := ih hlater
        exact ⟨found, List.mem_cons_of_mem _ hfound, hrest⟩

/-- Every entry of a section that is not empty is there. -/
theorem allDrafts_of_section {sections : List ChunkSection} {part : ChunkSection}
    (hpart : part ∈ sections)
    (hlt : (part.range (.of text)).start < (part.range (.of text)).stop) (originBase : ℕ) :
    ∃ base, ∀ entry ∈ sectionEntries W runtime text base part,
      entry ∈ allDrafts runtime text (.of text) originBase sections := by
  induction sections generalizing originBase with
  | nil => cases hpart
  | cons first rest ih =>
    unfold allDrafts
    dsimp only
    rcases List.mem_cons.mp hpart with rfl | hrest
    · rw [if_neg (not_le.mpr hlt)]
      exact ⟨originBase, fun entry hentry => List.mem_append_left _ hentry⟩
    · split_ifs with hempty
      · exact ih hrest originBase
      · obtain ⟨base, hbase⟩ := ih hrest (originBase + 1000000)
        exact ⟨base, fun entry hentry => List.mem_append_right _ (hbase entry hentry)⟩

/-- The chunker validates the sections and makes the passages of their drafts. -/
theorem chunk_inv {prepared : JsString} {sections : Option (List ChunkSection)}
    {passages : List Passage} (h : chunk W runtime prepared sections = .ok passages)
    (hne : prepared ≠ []) :
    SectionsTile (CodePointIndex.of prepared).length 0
        (sectionList sections (CodePointIndex.of prepared).length) ∧
      passages = passagesOf runtime prepared (.of prepared)
        (sectionList sections (CodePointIndex.of prepared).length)
        (allDrafts (W := W) runtime prepared (.of prepared) 0
          (sectionList sections (CodePointIndex.of prepared).length)) := by
  rw [chunk, if_neg hne] at h
  cases hvalid : validateSections (CodePointIndex.of prepared).length 0
      (sectionList sections (CodePointIndex.of prepared).length) with
  | error e =>
    simp only [hvalid] at h
    cases h
  | ok =>
    simp only [hvalid] at h
    exact ⟨validateSections_ok.mp hvalid, (Except.ok.inj h).symm⟩

/-! ## Sections do not overlap -/

theorem SectionsTile.bounds {length position : ℕ} {sections : List ChunkSection}
    (h : SectionsTile length position sections) {part : ChunkSection} (hpart : part ∈ sections) :
    position ≤ part.start ∧ part.start ≤ part.stop ∧ part.stop ≤ length := by
  induction h with
  | done => cases hpart
  | @next first rest hforward hrest ih =>
    rcases List.mem_cons.mp hpart with rfl | hlater
    · exact ⟨le_rfl, hforward, hrest.le⟩
    · obtain ⟨hstart, hle, hstop⟩ := ih hlater
      exact ⟨hforward.trans hstart, hle, hstop⟩

/-- The first section that holds a code point is the only one. -/
theorem SectionsTile.find {length position point : ℕ} {sections : List ChunkSection}
    (h : SectionsTile length position sections) {part : ChunkSection} (hpart : part ∈ sections)
    (hstart : part.start ≤ point) (hstop : point < part.stop) :
    sections.find? (fun other => other.start ≤ point && point < other.stop) = some part := by
  induction h with
  | done => cases hpart
  | @next first rest hforward hrest ih =>
    rcases List.mem_cons.mp hpart with rfl | hlater
    · rw [List.find?_cons_of_pos]
      simp only [Bool.and_eq_true, decide_eq_true_eq]
      exact ⟨hstart, hstop⟩
    · have hbounds := hrest.bounds hlater
      rw [List.find?_cons_of_neg]
      · exact ih hlater
      · simp only [Bool.and_eq_true, decide_eq_true_eq, not_and, not_lt]
        omega

theorem SectionsTile.unique {length position point : ℕ} {sections : List ChunkSection}
    (h : SectionsTile length position sections) {part other : ChunkSection} (hpart : part ∈ sections)
    (hother : other ∈ sections) (hstart : part.start ≤ point) (hstop : point < part.stop)
    (hstart' : other.start ≤ point) (hstop' : point < other.stop) : part = other :=
  Option.some.inj ((h.find hpart hstart hstop).symm.trans (h.find hother hstart' hstop'))

end

end QuokyPlatform.Chunking
