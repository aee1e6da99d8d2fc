import QuokyPlatform.Documents.Sections
import QuokyPlatform.Messages.Budgets

/-!
# The clip of sections is fair

The shares are a water filling of the room with the needs of the bodies. What is clipped is shorter
than the body, so a section loses text just when its share is less than its need.
-/

namespace QuokyPlatform.Documents
open Chunking (JsString units codePoints)
open Messages (decimal newline codePoints_length_append_le codePoints_length_flatten_le
  codePoints_length_of_mem codePoints_flatten)
open WaterFilling (fill total)
set_option autoImplicit false
set_option maxHeartbeats 250000

/-! ## Clipped texts -/

theorem pointCount_append_le (text more : JsString) :
    pointCount (text ++ more) ≤ pointCount text + pointCount more :=
  codePoints_length_append_le text more

theorem pointCount_flatten_take_le (value : JsString) (count : ℕ) :
    pointCount ((codePoints value).take count).flatten ≤ count := by
  refine (codePoints_length_flatten_le fun point hpoint => ?_).trans (List.length_take_le count _)
  exact codePoints_length_of_mem (List.mem_of_mem_take hpoint)

theorem pointCount_clip_le (value : JsString) (max : ℕ) : pointCount (clip value max).text ≤ max := by
  unfold clip
  dsimp only
  split
  · assumption
  · exact pointCount_flatten_take_le value max

theorem clipHeadAndTail_of_le {value : JsString} {max : ℕ} (h : pointCount value ≤ max) :
    clipHeadAndTail value max = ⟨value, false⟩ := if_pos h

theorem clipHeadAndTail_truncated {value : JsString} {max : ℕ} :
    (clipHeadAndTail value max).truncated = true ↔ max < pointCount value := by
  unfold clipHeadAndTail
  dsimp only
  split
  · rename_i hle
    exact ⟨fun h => absurd h Bool.false_ne_true, fun h => absurd hle (not_le.mpr h)⟩
  · rename_i hle
    exact ⟨fun _ => not_le.mp hle, fun _ => rfl⟩

theorem pointCount_clipHeadAndTail_le (value : JsString) (max : ℕ) :
    pointCount (clipHeadAndTail value max).text ≤ max := by
  unfold clipHeadAndTail
  dsimp only
  split
  · assumption
  · exact pointCount_clip_le _ max

/-- A text is shown as it is just when it fits. -/
theorem clipHeadAndTail_text_eq {value : JsString} {max : ℕ} :
    (clipHeadAndTail value max).text = value ↔ pointCount value ≤ max := by
  constructor
  · intro h
    have hle := pointCount_clipHeadAndTail_le value max
    rwa [h] at hle
  · intro h
    rw [clipHeadAndTail_of_le h]

/-! ## Shares -/

variable (list : List PreparedSection) (room : ℕ)

/-- What the water filling gives. -/
def filled : List (Pending × ℕ) := fill Pending.need room (pending list)

variable {list room}

theorem pending_perm : (pending list).Perm
    (list.zipIdx.map fun entry => ⟨entry.2, pointCount entry.1.body⟩) :=
  List.perm_insertionSort _ _

theorem pending_sorted : (pending list).Pairwise fun a b => a.need ≤ b.need := by
  have htotal : Std.Total fun a b : Pending => a.need ≤ b.need := ⟨fun a b => le_total a.need b.need⟩
  have htrans : IsTrans Pending fun a b => a.need ≤ b.need := ⟨fun a b c hab hbc => hab.trans hbc⟩
  exact List.pairwise_insertionSort _ _

theorem pending_indices : ((pending list).map Pending.index).Perm (List.range list.length) := by
  have hperm : ((pending list).map Pending.index).Perm
      ((list.zipIdx.map fun entry => ⟨entry.2, pointCount entry.1.body⟩).map Pending.index) :=
    pending_perm.map Pending.index
  rw [List.map_map] at hperm
  have hindices : (list.zipIdx.map (Pending.index ∘ fun entry =>
      ⟨entry.2, pointCount entry.1.body⟩)) = List.range list.length := by
    rw [show (Pending.index ∘ fun entry : PreparedSection × ℕ =>
      (⟨entry.2, pointCount entry.1.body⟩ : Pending)) = Prod.snd from rfl, List.zipIdx_map_snd,
      List.range_eq_range']
  rwa [hindices] at hperm

/-- The entry of a section. -/
theorem mem_pending {index : ℕ} {body : PreparedSection} (h : list[index]? = some body) :
    (⟨index, pointCount body.body⟩ : Pending) ∈ pending list := by
  rw [pending_perm.mem_iff, List.mem_map]
  exact ⟨(body, index), List.mem_zipIdx_iff_getElem?.mpr h, rfl⟩

theorem filled_indices : ((filled list room).map fun entry => entry.1.index).Perm
    (List.range list.length) := by
  have hfst : ((filled list room).map fun entry => entry.1.index) =
      (pending list).map Pending.index := by
    rw [← WaterFilling.fill_fst Pending.need room (pending list), List.map_map]
    rfl
  rw [hfst]
  exact pending_indices

theorem filled_nodup : ((filled list room).map fun entry => entry.1.index).Nodup :=
  filled_indices.nodup_iff.mpr List.nodup_range

/-- The share of an entry's section is what the entry is given. -/
theorem shareOf_of_mem {entry : Pending × ℕ} (h : entry ∈ filled list room) :
    shareOf list room entry.1.index = entry.2 := by
  have hnodup : ((filled list room).map fun entry => entry.1.index).Nodup := filled_nodup
  unfold shareOf
  cases hfind : (fill Pending.need room (pending list)).find? fun other =>
      other.1.index = entry.1.index with
  | none =>
    have hnone := List.find?_eq_none.mp hfind entry h
    exact absurd (decide_eq_true rfl) hnone
  | some found =>
    have hindex : found.1.index = entry.1.index := by simpa using List.find?_some hfind
    have hfound := List.mem_of_find?_eq_some hfind
    rw [List.inj_on_of_nodup_map hnodup hfound h hindex]
    rfl

/-- Every section has its entry. -/
theorem entry_of_section {index : ℕ} {body : PreparedSection} (h : list[index]? = some body) :
    (⟨index, pointCount body.body⟩, shareOf list room index) ∈ filled list room := by
  have hmem := mem_pending h
  rw [← WaterFilling.fill_fst Pending.need room (pending list)] at hmem
  obtain ⟨entry, hentry, heq⟩ := List.mem_map.mp hmem
  have hshare := shareOf_of_mem hentry
  rw [heq] at hshare
  rw [hshare, ← heq]
  exact hentry

/-- Every entry is a section's. -/
theorem section_of_entry {entry : Pending × ℕ} (h : entry ∈ filled list room) :
    ∃ body, list[entry.1.index]? = some body ∧ pointCount body.body = entry.1.need := by
  have hmem : entry.1 ∈ pending list := by
    rw [← WaterFilling.fill_fst Pending.need room (pending list)]
    exact List.mem_map_of_mem h
  rw [pending_perm.mem_iff, List.mem_map] at hmem
  obtain ⟨found, hfound, heq⟩ := hmem
  rw [← heq]
  exact ⟨found.1, List.mem_zipIdx_iff_getElem?.mp hfound, rfl⟩

/-- The shares of all sections together. -/
theorem sum_shares : ((List.range list.length).map (shareOf list room)).sum =
    total (filled list room) := by
  have hshares : (filled list room).map Prod.snd =
      ((filled list room).map fun entry => entry.1.index).map (shareOf list room) := by
    rw [List.map_map]
    refine List.map_congr_left fun entry hentry => ?_
    exact (shareOf_of_mem hentry).symm
  rw [total, hshares]
  exact (filled_indices.map _).sum_eq.symm

/-- The needs of all sections together. -/
theorem sum_needs : ((pending list).map Pending.need).sum =
    (list.map fun body => pointCount body.body).sum := by
  have hperm : ((pending list).map Pending.need).Perm
      ((list.zipIdx.map fun entry => ⟨entry.2, pointCount entry.1.body⟩).map Pending.need) :=
    pending_perm.map Pending.need
  rw [hperm.sum_eq, List.map_map]
  have hneeds : (Pending.need ∘ fun entry : PreparedSection × ℕ =>
      (⟨entry.2, pointCount entry.1.body⟩ : Pending)) =
      (fun body : PreparedSection => pointCount body.body) ∘ Prod.fst := rfl
  rw [hneeds, ← List.map_map, List.zipIdx_map_fst]

/-! ## The whole text -/

theorem pointCount_intercalate_le {β : Type} (piece : β → JsString) (size : β → ℕ) (entries : List β)
    (h : ∀ entry ∈ entries, pointCount (piece entry) ≤ size entry) :
    pointCount (blankLine.intercalate (entries.map piece)) ≤
      (entries.map size).sum + 2 * (entries.length - 1) := by
  induction entries with
  | nil => exact Nat.le_refl 0
  | cons entry rest ih =>
    have hentry := h entry List.mem_cons_self
    have hrest := ih fun other hother => h other (List.mem_cons_of_mem _ hother)
    cases rest with
    | nil =>
      rw [List.map_singleton, List.intercalate_singleton]
      simpa using hentry
    | cons second more =>
      have hfirst := pointCount_append_le (piece entry ++ blankLine)
        (blankLine.intercalate ((second :: more).map piece))
      have hjoin := pointCount_append_le (piece entry) blankLine
      have hblank : pointCount blankLine = 2 := by decide
      simp only [List.map_cons, List.intercalate_cons_cons, List.sum_cons, List.length_cons] at *
      omega

theorem sum_joins (list : List PreparedSection) (size : PreparedSection → ℕ) :
    (list.zipIdx.map fun entry => size entry.1 + if entry.2 > 0 then 2 else 0).sum =
      (list.map size).sum + 2 * (list.length - 1) := by
  have hlater : ∀ (more : List PreparedSection) (start : ℕ), 0 < start →
      ((more.zipIdx start).map fun entry => size entry.1 + if entry.2 > 0 then 2 else 0).sum =
        (more.map size).sum + 2 * more.length := by
    intro more
    induction more with
    | nil => intro start _; rfl
    | cons body rest ih =>
      intro start hstart
      rw [List.zipIdx_cons, List.map_cons, List.sum_cons, ih (start + 1) (Nat.succ_pos _),
        List.map_cons, List.sum_cons, if_pos hstart, List.length_cons]
      dsimp only
      omega
  cases list with
  | nil => rfl
  | cons body rest =>
    rw [List.zipIdx_cons, List.map_cons, List.sum_cons, hlater rest (0 + 1) (Nat.succ_pos 0),
      List.map_cons, List.sum_cons, if_neg (lt_irrefl 0), List.length_cons]
    dsimp only
    omega

theorem overhead_eq (list : List PreparedSection) :
    overhead list = (list.map fun body => pointCount body.header + 1).sum + 2 * (list.length - 1) :=
  sum_joins list fun body => pointCount body.header + 1

/-- The sections as they are shown. -/
def sectionsText (list : List PreparedSection) (room : ℕ) : JsString :=
  blankLine.intercalate (list.zipIdx.map fun entry =>
    entry.1.header ++ newline ++ (shownBody list room entry).text)

theorem sum_zipIdx_shares (list : List PreparedSection) (share : ℕ → ℕ) :
    (list.zipIdx.map fun entry => share entry.2).sum = ((List.range list.length).map share).sum := by
  have hcompose : (fun entry : PreparedSection × ℕ => share entry.2) = share ∘ Prod.snd := rfl
  rw [hcompose, ← List.map_map, List.zipIdx_map_snd, List.range_eq_range']

theorem clipSections_eq (sections : PreparedSections) (max : ℕ) :
    clipSections sections max =
      if pointCount (sectionsText sections.list (roomOf sections.list max)) ≤ max then
        ⟨sectionsText sections.list (roomOf sections.list max), sections.list.zipIdx.any fun entry =>
          (shownBody sections.list (roomOf sections.list max) entry).truncated⟩
      else ⟨(clipHeadAndTail (sectionsText sections.list (roomOf sections.list max)) max).text, true⟩ :=
  rfl

/-- The headers and the shares are room enough for the text. -/
theorem pointCount_sectionsText_le (list : List PreparedSection) (room : ℕ) :
    pointCount (sectionsText list room) ≤ overhead list + room := by
  have hpieces := pointCount_intercalate_le
    (fun entry : PreparedSection × ℕ => entry.1.header ++ newline ++ (shownBody list room entry).text)
    (fun entry => (pointCount entry.1.header + 1) + shareOf list room entry.2) list.zipIdx (by
      intro entry _
      have hclipped : pointCount (shownBody list room entry).text ≤ shareOf list room entry.2 :=
        pointCount_clipHeadAndTail_le _ _
      have hheader := pointCount_append_le entry.1.header newline
      have hall := pointCount_append_le (entry.1.header ++ newline) (shownBody list room entry).text
      have hbreak : pointCount newline = 1 := by decide
      omega)
  have hsum : (list.zipIdx.map fun entry =>
      (pointCount entry.1.header + 1) + shareOf list room entry.2).sum =
      (list.map fun body => pointCount body.header + 1).sum + total (filled list room) := by
    rw [List.sum_map_add, sum_zipIdx_shares, sum_shares]
    have hcompose : (fun entry : PreparedSection × ℕ => pointCount entry.1.header + 1) =
        (fun body : PreparedSection => pointCount body.header + 1) ∘ Prod.fst := rfl
    rw [hcompose, ← List.map_map, List.zipIdx_map_fst]
  have htotal : total (filled list room) ≤ room := WaterFilling.total_le _ _
  rw [hsum, List.length_zipIdx] at hpieces
  rw [overhead_eq]
  unfold sectionsText
  omega

/-! ## The fair clip -/

/-- Some part of the section's body is not shown. -/
def LosesText (list : List PreparedSection) (room index : ℕ) : Prop :=
  ∃ body, list[index]? = some body ∧ (shownBody list room (body, index)).text ≠ body.body

/-- What the clip promises of the shares and of the text. -/
structure ClipsFairly (sections : PreparedSections) (max : ℕ) : Prop where
  /-- No share is larger than the need, and all shares fit. -/
  within : (∀ index body, sections.list[index]? = some body →
      shareOf sections.list (roomOf sections.list max) index ≤ pointCount body.body) ∧
    ((List.range sections.list.length).map
      (shareOf sections.list (roomOf sections.list max))).sum ≤ roomOf sections.list max
  /-- Nothing is clipped when all needs fit. -/
  whole : (sections.list.map fun body => pointCount body.body).sum ≤ roomOf sections.list max →
    clipSections sections max = ⟨blankLine.intercalate (sections.list.map fun body =>
      body.header ++ newline ++ body.body), false⟩
  /-- The text is marked just when some section lost text. -/
  marked : (clipSections sections max).truncated = true ↔
    ∃ index, LosesText sections.list (roomOf sections.list max) index
  /-- When a section is clipped, all the room is given. -/
  used : (∃ index, LosesText sections.list (roomOf sections.list max) index) →
    ((List.range sections.list.length).map
      (shareOf sections.list (roomOf sections.list max))).sum = roomOf sections.list max
  /-- The text is within the budget. -/
  bounded : pointCount (clipSections sections max).text ≤ max

/-- A clipped section gets at least every unclipped one's need, less `slack`. -/
def FairUpTo (slack : ℕ) (sections : PreparedSections) (max : ℕ) : Prop :=
  ∀ index other body, LosesText sections.list (roomOf sections.list max) index →
    sections.list[other]? = some body → ¬ LosesText sections.list (roomOf sections.list max) other →
    pointCount body.body ≤ shareOf sections.list (roomOf sections.list max) index + slack

theorem losesText_iff {index : ℕ} : LosesText list room index ↔
    ∃ body, list[index]? = some body ∧ shareOf list room index < pointCount body.body := by
  unfold LosesText shownBody
  simp only [ne_eq, clipHeadAndTail_text_eq, not_le]

theorem share_le_need {index : ℕ} {body : PreparedSection} (h : list[index]? = some body) :
    shareOf list room index ≤ pointCount body.body :=
  WaterFilling.given_le_need (entry_of_section h)

theorem pointCount_pos {text : JsString} (h : text ≠ []) : 0 < pointCount text := by
  by_contra hzero
  have hnil : codePoints text = [] := List.length_eq_zero_iff.mp (by unfold pointCount at hzero; omega)
  have hflat := codePoints_flatten text
  rw [hnil] at hflat
  exact h hflat.symm

/-- Without room every section loses its text. -/
theorem losesText_of_room_zero {index : ℕ} {body : PreparedSection} (h : list[index]? = some body) :
    LosesText list 0 index := by
  refine losesText_iff.mpr ⟨body, h, ?_⟩
  have hentry : (⟨index, pointCount body.body⟩, shareOf list 0 index) ∈ filled list 0 :=
    entry_of_section h
  have hshare : shareOf list 0 index = 0 := by
    have hmem : shareOf list 0 index ∈ (filled list 0).map Prod.snd :=
      List.mem_map.mpr ⟨_, hentry, rfl⟩
    have hle := List.single_le_sum (fun value _ => Nat.zero_le value) _ hmem
    have htotal : total (filled list 0) ≤ 0 := WaterFilling.total_le _ _
    exact Nat.le_zero.mp (hle.trans htotal)
  rw [hshare]
  exact pointCount_pos body.shown

theorem unclipped_of_needs {index : ℕ} {body : PreparedSection}
    (hneeds : (list.map fun body => pointCount body.body).sum ≤ room) (h : list[index]? = some body) :
    shownBody list room (body, index) = ⟨body.body, false⟩ := by
  have hmet := WaterFilling.all_met pending_sorted (sum_needs.trans_le hneeds) _ (entry_of_section h)
  have hshare : shareOf list room index = pointCount body.body := hmet
  exact clipHeadAndTail_of_le hshare.ge

theorem overhead_le_of_nil (max : ℕ) : overhead [] ≤ max := Nat.zero_le max

/-- When the needs fit, so do the headers. -/
theorem overhead_le_of_needs {max : ℕ}
    (hneeds : (list.map fun body => pointCount body.body).sum ≤ roomOf list max) :
    overhead list ≤ max := by
  by_contra hover
  have hroom : roomOf list max = 0 := by
    unfold roomOf
    omega
  cases list with
  | nil => exact hover (overhead_le_of_nil max)
  | cons body rest =>
    have hpos := pointCount_pos body.shown
    rw [hroom, List.map_cons, List.sum_cons] at hneeds
    omega

theorem pointCount_text_le {max : ℕ} (h : overhead list ≤ max) :
    pointCount (sectionsText list (roomOf list max)) ≤ max := by
  have hle := pointCount_sectionsText_le list (roomOf list max)
  unfold roomOf at *
  omega

theorem any_truncated_iff : (list.zipIdx.any fun entry => (shownBody list room entry).truncated) = true ↔
    ∃ index, LosesText list room index := by
  rw [List.any_eq_true]
  constructor
  · rintro ⟨⟨body, index⟩, hentry, htruncated⟩
    exact ⟨index, losesText_iff.mpr ⟨body, List.mem_zipIdx_iff_getElem?.mp hentry,
      clipHeadAndTail_truncated.mp htruncated⟩⟩
  · rintro ⟨index, hloses⟩
    obtain ⟨body, hbody, hshare⟩ := losesText_iff.mp hloses
    exact ⟨(body, index), List.mem_zipIdx_iff_getElem?.mpr hbody,
      clipHeadAndTail_truncated.mpr hshare⟩

/-- The clip is fair up to one code point, and exact. -/
theorem clipSections_fair (sections : PreparedSections) (max : ℕ) :
    ClipsFairly sections max ∧ FairUpTo 1 sections max := by
  have htotal : total (filled sections.list (roomOf sections.list max)) ≤ roomOf sections.list max :=
    WaterFilling.total_le _ _
  refine ⟨⟨⟨fun index body hbody => share_le_need hbody, ?_⟩, ?_, ?_, ?_, ?_⟩, ?_⟩
  · rw [sum_shares]
    exact htotal
  · intro hneeds
    have htext : sectionsText sections.list (roomOf sections.list max) =
        blankLine.intercalate (sections.list.map fun body => body.header ++ newline ++ body.body) := by
      have hpieces : (sections.list.zipIdx.map fun entry => entry.1.header ++ newline ++
          (shownBody sections.list (roomOf sections.list max) entry).text) =
          sections.list.zipIdx.map ((fun body : PreparedSection => body.header ++ newline ++ body.body) ∘
            Prod.fst) := by
        refine List.map_congr_left fun entry hentry => ?_
        have hshown := unclipped_of_needs hneeds (List.mem_zipIdx_iff_getElem?.mp hentry)
        rw [hshown]
        rfl
      rw [sectionsText, hpieces, ← List.map_map, List.zipIdx_map_fst]
    have hnone : (sections.list.zipIdx.any fun entry =>
        (shownBody sections.list (roomOf sections.list max) entry).truncated) = false := by
      rw [List.any_eq_false]
      intro entry hentry
      rw [unclipped_of_needs hneeds (List.mem_zipIdx_iff_getElem?.mp hentry)]
      exact Bool.false_ne_true
    have hfits := pointCount_text_le (overhead_le_of_needs hneeds)
    rw [clipSections_eq, if_pos hfits, hnone, htext]
  · rw [clipSections_eq]
    split
    · exact any_truncated_iff
    · rename_i hlong
      refine ⟨fun _ => ?_, fun _ => rfl⟩
      -- The text is too long only when the headers are, and then there is no room at all.
      have hover : ¬ overhead sections.list ≤ max := fun h => hlong (pointCount_text_le h)
      have hroom : roomOf sections.list max = 0 := by
        unfold roomOf
        omega
      rw [hroom]
      cases hlist : sections.list with
      | nil =>
        rw [hlist] at hover
        exact absurd (overhead_le_of_nil max) hover
      | cons body rest => exact ⟨0, losesText_of_room_zero rfl⟩
  · rintro ⟨index, hloses⟩
    obtain ⟨body, hbody, hshare⟩ := losesText_iff.mp hloses
    rw [sum_shares]
    exact WaterFilling.total_of_unmet pending_sorted ⟨_, entry_of_section hbody, hshare⟩
  · rw [clipSections_eq]
    split
    · assumption
    · exact pointCount_clipHeadAndTail_le _ max
  · intro index other body hloses hother hwhole
    obtain ⟨clipped, hclipped, hshare⟩ := losesText_iff.mp hloses
    have hmet : shareOf sections.list (roomOf sections.list max) other = pointCount body.body := by
      by_contra hne
      exact hwhole (losesText_iff.mpr ⟨body, hother, lt_of_le_of_ne (share_le_need hother) hne⟩)
    exact WaterFilling.fair pending_sorted (entry_of_section hclipped) hshare (entry_of_section hother)
      hmet

/-- Two bodies of two code points with room for three. -/
def evenSections : PreparedSections where
  list := [⟨units "a", units "xy", false, by decide⟩, ⟨units "b", units "xy", false, by decide⟩]
  full := units "a\nxy\n\nb\nxy"
  dropped := false

/-- The first is clipped to one code point, the second shown whole. -/
theorem evenSections_unfair : ¬ FairUpTo 0 evenSections 9 := by
  intro h
  have hfirst : LosesText evenSections.list (roomOf evenSections.list 9) 0 :=
    losesText_iff.mpr ⟨_, rfl, by decide⟩
  have hsecond : ¬ LosesText evenSections.list (roomOf evenSections.list 9) 1 := by
    rintro ⟨body, hbody, hne⟩
    cases hbody
    exact hne (by decide)
  have hle := h 0 1 _ hfirst rfl hsecond
  revert hle
  decide

end QuokyPlatform.Documents
