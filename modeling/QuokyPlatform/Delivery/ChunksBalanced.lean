import QuokyPlatform.Delivery.Chunks

/-!
# Discord chunks are lossless and bounded, and balanced unless a marker is broken

A chunk that is not the last is balanced by its own closing fence. So all is decided by the last
one: it is balanced when the pieces together have the markers of the text. A cut can break a marker
only where a run of backticks fills a whole piece.
-/

namespace QuokyPlatform.Delivery
open Chunking Previews
set_option autoImplicit false
set_option maxHeartbeats 250000

/-! ## Where a text is cut -/

theorem lastIndexOf_some {text : JsString} {unit : CodeUnit} {i : ℕ}
    (h : Telegram.lastIndexOf text unit = some i) : i < text.length ∧ text[i]? = some unit := by
  have hunit := List.find?_some h
  have hmem := List.mem_of_find?_eq_some h
  rw [List.mem_reverse, List.mem_range] at hmem
  exact ⟨hmem, of_decide_eq_true hunit⟩

/-- A boundary of the text within the limit. -/
theorem boundary_some {rest : JsString} {limit i minBoundary : ℕ} {unit : CodeUnit}
    (h : (Telegram.lastIndexOf (rest.take limit) unit).filter (minBoundary ≤ ·) = some i) :
    i < limit ∧ rest[i]? = some unit := by
  obtain ⟨hindex, -⟩ := Option.filter_eq_some_iff.mp h
  obtain ⟨hlt, hunit⟩ := lastIndexOf_some hindex
  rw [List.length_take] at hlt
  refine ⟨by omega, ?_⟩
  rwa [List.getElem?_take_of_lt (by omega)] at hunit

theorem chooseCut_cases (rest : JsString) (limit : ℕ) :
    chooseCut rest limit = limit ∨ 0 < chooseCut rest limit ∧ chooseCut rest limit ≤ limit ∧
      rest[chooseCut rest limit - 1]? ≠ some BACKTICK := by
  unfold chooseCut Telegram.boundaryCut
  dsimp only
  split
  · rename_i hnl
    obtain ⟨hlt, hunit⟩ := boundary_some hnl
    refine .inr ⟨Nat.succ_pos _, hlt, ?_⟩
    rw [Nat.add_sub_cancel, hunit]
    decide
  · rename_i sp _ hsp
    obtain ⟨hlt, hunit⟩ := boundary_some hsp
    refine .inr ⟨Nat.succ_pos _, hlt, ?_⟩
    rw [Nat.add_sub_cancel, hunit]
    decide
  · exact .inl rfl

theorem chooseCut_pos (rest : JsString) {limit : ℕ} (h : 0 < limit) : 0 < chooseCut rest limit := by
  rcases chooseCut_cases rest limit with hcut | hcut
  · omega
  · exact hcut.1

theorem chooseCut_le (rest : JsString) (limit : ℕ) : chooseCut rest limit ≤ limit := by
  rcases chooseCut_cases rest limit with hcut | hcut
  · omega
  · exact hcut.2.1

theorem runStart_le (rest : JsString) (cut : ℕ) : runStart rest cut ≤ cut := by
  induction cut with
  | zero => exact le_refl 0
  | succ cut ih =>
    rw [runStart]
    split
    · omega
    · exact le_refl _

theorem before_runStart {rest : JsString} {cut : ℕ} (h : 0 < runStart rest cut) :
    rest[runStart rest cut - 1]? ≠ some BACKTICK := by
  induction cut with
  | zero => exact absurd h (Nat.lt_irrefl 0)
  | succ cut ih =>
    rw [runStart] at h ⊢
    split at h
    · rename_i hunit
      rw [if_pos hunit]
      exact ih h
    · rename_i hunit
      rwa [if_neg hunit, Nat.add_sub_cancel]

/-- A run that starts with the text is all there is before the cut. -/
theorem take_of_runStart_eq_zero {rest : JsString} {cut : ℕ} (h : runStart rest cut = 0) :
    rest.take cut = List.replicate cut BACKTICK := by
  induction cut with
  | zero => rfl
  | succ cut ih =>
    rw [runStart] at h
    split at h
    · rename_i hunit
      rw [List.take_add_one, ih h, hunit, List.replicate_succ', Option.toList_some]
    · exact absurd h (Nat.succ_ne_zero cut)

theorem protectRun_pos {rest : JsString} {cut : ℕ} (h : 0 < cut) : 0 < protectRun rest cut := by
  unfold protectRun
  split
  · split
    · rename_i hpos
      exact hpos
    · exact h
  · exact h

theorem protectRun_le (rest : JsString) (cut : ℕ) : protectRun rest cut ≤ cut := by
  unfold protectRun
  split
  · split
    · exact runStart_le rest cut
    · exact le_refl cut
  · exact le_refl cut

/-- A cut between two backticks that stays where it is ends a piece of nothing but backticks. -/
theorem protectRun_between {rest : JsString} {cut : ℕ}
    (hbefore : rest[protectRun rest cut - 1]? = some BACKTICK)
    (hafter : rest[protectRun rest cut]? = some BACKTICK) (hcut : 0 < cut) (hlen : cut < rest.length) :
    protectRun rest cut = cut ∧ rest.take cut = List.replicate cut BACKTICK := by
  unfold protectRun at hbefore hafter ⊢
  split at hbefore
  · rename_i hin
    rw [if_pos hin] at hafter ⊢
    split at hbefore
    · rename_i hpos
      exact absurd hbefore (before_runStart hpos)
    · rename_i hzero
      rw [if_neg hzero]
      exact ⟨rfl, take_of_runStart_eq_zero (by omega)⟩
  · rename_i hin
    rw [if_neg hin] at hafter
    exact absurd ⟨hcut, hlen, hbefore, hafter⟩ hin

/-! ## Markers of pieces and chunks -/

theorem advanceFence_marker (state : FenceState) (after : JsString) :
    advanceFence state (BACKTICK :: BACKTICK :: BACKTICK :: after) =
      advanceFence (if state.isSome then none else some (tagAfter after)) after := by
  show (if _ then _ else _) = _
  rw [if_pos ⟨rfl, rfl, rfl⟩]
  cases state <;> rfl

theorem advanceFence_skip (state : FenceState) {first second third : CodeUnit}
    (h : ¬ (first = BACKTICK ∧ second = BACKTICK ∧ third = BACKTICK)) (after : JsString) :
    advanceFence state (first :: second :: third :: after) =
      advanceFence state (second :: third :: after) := if_neg h

/-- The state toggles with every marker. -/
theorem advanceFence_parity (state : FenceState) (segment : JsString) :
    Even (state.isSome.toNat + fenceCount segment + (advanceFence state segment).isSome.toNat) := by
  unfold fenceCount
  induction segment using Markers.count.induct BACKTICK generalizing state with
  | case1 first second third after hmarks ih =>
    obtain ⟨rfl, rfl, rfl⟩ := hmarks
    rw [Markers.count_marker, advanceFence_marker]
    cases state with
    | none =>
      have h := ih (some (tagAfter after))
      simp only [Option.isSome_some, Option.isSome_none, Bool.toNat_true, Bool.toNat_false,
        Bool.false_eq_true, if_false] at h ⊢
      rw [Nat.even_iff] at h ⊢
      omega
    | some tag =>
      have h := ih none
      simp only [Option.isSome_some, Option.isSome_none, Bool.toNat_true, Bool.toNat_false,
        if_true] at h ⊢
      rw [Nat.even_iff] at h ⊢
      omega
  | case2 first second third after hmarks ih =>
    rw [Markers.count, if_neg hmarks, advanceFence_skip state hmarks]
    exact ih state
  | case3 segment hshort =>
    rcases segment with _ | ⟨first, _ | ⟨second, _ | ⟨third, after⟩⟩⟩
    case cons.cons.cons => exact absurd rfl (hshort first second third after)
    all_goals
      show Even (state.isSome.toNat + 0 + state.isSome.toNat)
      exact ⟨state.isSome.toNat, by omega⟩

theorem ne_backtick_of_isLangUnit {unit : CodeUnit} (h : isLangUnit unit = true) :
    unit ≠ BACKTICK := by
  rintro rfl
  exact absurd h (by decide)

theorem fenceCount_of_not_mem {text : JsString} (h : BACKTICK ∉ text) : fenceCount text = 0 := by
  refine Markers.count_eq_zero (fun hmarker => h ?_) (List.infix_refl text)
  exact hmarker.subset List.mem_cons_self

theorem length_reopening_le (state : FenceState) : (reopening state).length ≤ 36 := by
  cases state with
  | none => exact Nat.zero_le 36
  | some tag =>
    have htag := tag.short
    simp only [reopening, FENCE, List.length_append, List.length_cons, List.length_nil]
    omega

theorem fenceCount_reopening_append (state : FenceState) (body : JsString) :
    fenceCount (reopening state ++ body) = state.isSome.toNat + fenceCount body := by
  cases state with
  | none => simp [reopening]
  | some tag =>
    have htag : fenceCount (tag.text ++ [NEWLINE]) = 0 := by
      refine fenceCount_of_not_mem fun hmem => ?_
      rcases List.mem_append.mp hmem with hmem | hmem
      · exact ne_backtick_of_isLangUnit (List.all_eq_true.mp tag.lang _ hmem) rfl
      · exact absurd hmem (by decide)
    have hline : fenceCount (FENCE ++ (tag.text ++ [NEWLINE])) = 1 := by
      show Markers.count BACKTICK (BACKTICK :: BACKTICK :: BACKTICK :: (tag.text ++ [NEWLINE])) = 1
      rw [Markers.count_marker]
      exact congrArg (· + 1) htag
    unfold fenceCount at hline ⊢
    rw [reopening, List.append_assoc FENCE, Markers.count_append_of_last, hline]
    · rfl
    · simp only [List.getLast?_append, List.getLast?_singleton, Option.some_or]
      decide

theorem fenceCount_append_closing (front body : JsString) (hbody : body ≠ []) :
    fenceCount (front ++ body ++ closing body) = fenceCount (front ++ body) + 1 := by
  unfold closing fenceCount
  split
  · rename_i hlast
    have hfence : Markers.count BACKTICK FENCE = 1 := by decide
    rw [Markers.count_append_of_last, hfence]
    rw [List.getLast?_append_of_ne_nil front hbody, hlast]
    decide
  · have hfence : Markers.count BACKTICK FENCE = 1 := by decide
    rw [List.singleton_append, Markers.count_append_cons _ (by decide), hfence]

theorem length_closing_le (body : JsString) : (closing body).length ≤ FENCE_CLOSER_RESERVE := by
  unfold closing
  split <;> decide

/-! ## One piece -/

/-- What a chunk that is not the last takes of a text. -/
structure Takes (maxLen : ℕ) (opened : FenceState) (rest : JsString) (piece : Piece) : Prop where
  reopened : piece.reopened = opened
  closed : piece.closed = (advanceFence opened piece.body).isSome
  consumed : piece.consumed = true → piece.closed = true
  body : piece.body ≠ []
  kept : rest = piece.kept ++ rest.drop piece.kept.length
  bounded : piece.chunk.length ≤ maxLen
  ends : rest.drop piece.kept.length = [] → piece.consumed = true

variable {maxLen : ℕ} {opened : FenceState} {rest : JsString}

theorem nextPiece_takes (hmax : 64 ≤ maxLen) (hlong : maxLen < (reopening opened).length + rest.length) :
    Takes maxLen opened rest (nextPiece maxLen opened rest) := by
  have hreopening := length_reopening_le opened
  have hreserve : FENCE_CLOSER_RESERVE = 4 := rfl
  generalize hlimit : maxLen - (reopening opened).length - FENCE_CLOSER_RESERVE = limit
  have hlimitPos : 0 < limit := by omega
  generalize hcut : protectRun rest (chooseCut rest limit) = cut
  have hcutPos : 0 < cut := hcut ▸ protectRun_pos (chooseCut_pos rest hlimitPos)
  have hcutLe : cut ≤ limit :=
    hcut ▸ (protectRun_le rest _).trans (chooseCut_le rest limit)
  have hbodyLength : (rest.take cut).length = cut := by
    rw [List.length_take]
    omega
  have hpiece : nextPiece maxLen opened rest =
      { reopened := opened, body := rest.take cut
        closed := (advanceFence opened (rest.take cut)).isSome
        consumed := (advanceFence opened (rest.take cut)).isSome &&
          FENCE.isPrefixOf (rest.drop cut) } := by
    unfold nextPiece
    dsimp only
    rw [hlimit, hcut]
  rw [hpiece]
  refine ⟨rfl, rfl, fun h => (Bool.and_eq_true_iff.mp h).1, ?_, ?_, ?_, ?_⟩
  · intro hnil
    dsimp only at hnil
    rw [hnil, List.length_nil] at hbodyLength
    omega
  · refine (List.prefix_iff_eq_append.mp ?_).symm
    unfold Piece.kept
    dsimp only
    split
    · rename_i hconsumed
      obtain ⟨after, hafter⟩ := List.isPrefixOf_iff_prefix.mp (Bool.and_eq_true_iff.mp hconsumed).2
      refine ⟨after, ?_⟩
      rw [List.append_assoc, hafter, List.take_append_drop]
    · rw [List.append_nil]
      exact List.take_prefix cut rest
  · unfold Piece.chunk
    dsimp only
    rw [List.length_append, List.length_append, hbodyLength]
    have hclosing := length_closing_le (rest.take cut)
    split
    · omega
    · rw [List.length_nil]
      omega
  · intro hend
    dsimp only
    by_contra hconsumed
    unfold Piece.kept at hend
    dsimp only at hend
    rw [if_neg hconsumed, List.append_nil, hbodyLength] at hend
    have hlength := congrArg List.length hend
    rw [List.length_drop, List.length_nil] at hlength
    omega

variable {piece : Piece}

theorem Takes.length_lt (h : Takes maxLen opened rest piece) :
    (rest.drop piece.kept.length).length < rest.length := by
  have hbody := List.length_pos_iff.mpr h.body
  have hkept : piece.body.length ≤ piece.kept.length := by
    rw [Piece.kept, List.length_append]
    omega
  have hrest := congrArg List.length h.kept
  rw [List.length_append] at hrest
  omega

theorem Takes.chunk_ne_nil (h : Takes maxLen opened rest piece) : piece.chunk ≠ [] := by
  unfold Piece.chunk
  simp [h.body]

/-- Its own closing fence balances a chunk. -/
theorem Takes.chunk_even (h : Takes maxLen opened rest piece) : Even (fenceCount piece.chunk) := by
  have hparity := advanceFence_parity opened piece.body
  rw [← h.closed] at hparity
  unfold Piece.chunk
  cases hclosed : piece.closed with
  | false =>
    rw [hclosed, Bool.toNat_false, Nat.add_zero] at hparity
    rw [if_neg Bool.false_ne_true, List.append_nil, fenceCount_reopening_append, h.reopened]
    exact hparity
  | true =>
    rw [hclosed, Bool.toNat_true] at hparity
    rw [if_pos rfl, fenceCount_append_closing _ _ h.body, fenceCount_reopening_append, h.reopened]
    exact hparity

/-- The markers before and after a piece, with the one that its cut breaks. -/
theorem Takes.parity (h : Takes maxLen opened rest piece) :
    Even (opened.isSome.toNat + fenceCount rest + (piece.after.isSome.toNat +
      fenceCount (rest.drop piece.kept.length) +
      (Markers.breaks BACKTICK piece.body (rest.drop piece.body.length)).toNat)) := by
  have hparity := advanceFence_parity opened piece.body
  have hrest : rest = piece.body ++ rest.drop piece.body.length := by
    refine (List.prefix_iff_eq_append.mp ?_).symm
    refine List.IsPrefix.trans ?_ (List.prefix_iff_eq_append.mpr h.kept.symm)
    exact List.prefix_append piece.body _
  have hcount := Markers.count_append_breaks BACKTICK piece.body (rest.drop piece.body.length)
  rw [← hrest] at hcount
  unfold fenceCount at hparity ⊢
  cases hconsumed : piece.consumed with
  | false =>
    have hkept : piece.kept = piece.body := by simp [Piece.kept, hconsumed]
    have hafter : piece.after = advanceFence opened piece.body := by
      simp [Piece.after, hconsumed, h.reopened]
    rw [hkept, hafter]
    rw [Nat.even_iff] at hparity ⊢
    omega
  | true =>
    have hkept : piece.kept = piece.body ++ FENCE := by simp [Piece.kept, hconsumed]
    have hafter : piece.after = none := by simp [Piece.after, hconsumed]
    have hclosed := h.closed
    rw [h.consumed hconsumed] at hclosed
    rw [← hclosed, Bool.toNat_true] at hparity
    have hmarker : rest.drop piece.body.length = FENCE ++ rest.drop piece.kept.length := by
      have hsplit := h.kept
      rw [hkept, List.append_assoc] at hsplit
      rw [hkept]
      exact List.append_cancel_left (hrest.symm.trans hsplit)
    have hmarkers : Markers.count BACKTICK (rest.drop piece.body.length) =
        Markers.count BACKTICK (rest.drop piece.kept.length) + 1 := by
      rw [hmarker]
      exact Markers.count_marker _
    rw [hafter, Option.isSome_none, Bool.toNat_false]
    rw [Nat.even_iff] at hparity ⊢
    omega

/-! ## Pieces in a row -/

/-- Each piece reopens the fence that the one before it closed, and all but the last close the
fence they end in. -/
def Linked : FenceState → List Piece → Prop
  | _, [] => True
  | opened, piece :: pieces =>
    piece.reopened = opened ∧
    (piece.closed = true → (advanceFence opened piece.body).isSome) ∧
    (pieces ≠ [] → piece.closed = (advanceFence opened piece.body).isSome) ∧
    (piece.consumed = true → piece.closed = true) ∧
    Linked piece.after pieces

/-- Without the fences that were added the chunks are the text. -/
def Lossless (text : JsString) (chunks : List JsString) : Prop :=
  ∃ pieces, Linked none pieces ∧ chunks = pieces.map Piece.chunk ∧
    text = (pieces.map Piece.kept).flatten

/-- A piece of text to which nothing is added. -/
def Piece.whole (opened : FenceState) (body : JsString) : Piece :=
  { reopened := opened, body := body, closed := false, consumed := false }

@[simp] theorem Piece.kept_whole (body : JsString) : (Piece.whole opened body).kept = body :=
  List.append_nil body

@[simp] theorem Piece.chunk_whole (body : JsString) :
    (Piece.whole opened body).chunk = reopening opened ++ body :=
  List.append_nil _

theorem linked_whole (body : JsString) : Linked opened [Piece.whole opened body] :=
  ⟨rfl, fun h => absurd h Bool.false_ne_true, fun h => absurd rfl h,
    fun h => absurd h Bool.false_ne_true, trivial⟩

theorem Takes.linked (h : Takes maxLen opened rest piece) {pieces : List Piece}
    (hpieces : Linked piece.after pieces) : Linked opened (piece :: pieces) :=
  ⟨h.reopened, fun hclosed => h.closed ▸ hclosed, fun _ => h.closed, h.consumed, hpieces⟩

/-! ## Texts without fences -/

theorem advanceFence_eq_none {segment : JsString} (h : fenceCount segment = 0) :
    advanceFence none segment = none := by
  have hparity := advanceFence_parity none segment
  rw [h] at hparity
  cases hstate : advanceFence none segment with
  | none => rfl
  | some tag =>
    rw [hstate] at hparity
    simp at hparity

/-- The pieces of a text without fences, when it is cut at a positive limit. -/
theorem chunkPlain_spec (hmax : 0 < maxLen) (fuel : ℕ) (rest : JsString) (hfuel : rest.length < fuel)
    (hplain : ∀ part, part <:+: rest → fenceCount part = 0) :
    ∃ pieces, chunkPlain maxLen fuel rest = some (pieces.map Piece.chunk) ∧ Linked none pieces ∧
      rest = (pieces.map Piece.kept).flatten ∧
      ∀ piece ∈ pieces, piece.chunk ≠ [] ∧ piece.chunk.length ≤ maxLen ∧
        fenceCount piece.chunk = 0 := by
  induction fuel generalizing rest with
  | zero => exact absurd hfuel (Nat.not_lt_zero _)
  | succ fuel ih =>
    rw [chunkPlain]
    split
    · rename_i hlong
      have hpos := chooseCut_pos rest hmax
      have hle := chooseCut_le rest maxLen
      generalize chooseCut rest maxLen = cut at hpos hle
      obtain ⟨pieces, hrun, hlinked, hrest, hpieces⟩ := ih (rest.drop cut)
        (by rw [List.length_drop]; omega)
        (fun part hpart => hplain part (hpart.trans (List.drop_suffix cut rest).isInfix))
      have hbody : fenceCount (rest.take cut) = 0 :=
        hplain _ (List.take_prefix cut rest).isInfix
      have hbodyLength : (rest.take cut).length = cut := by
        rw [List.length_take]
        omega
      have hafter : (Piece.whole none (rest.take cut)).after = none := advanceFence_eq_none hbody
      refine ⟨Piece.whole none (rest.take cut) :: pieces, ?_, ?_, ?_, ?_⟩
      · dsimp only
        rw [hrun, Option.map_some, List.map_cons, Piece.chunk_whole]
        rfl
      · refine ⟨rfl, fun h => absurd h Bool.false_ne_true, fun _ => ?_,
          fun h => absurd h Bool.false_ne_true, by rw [hafter]; exact hlinked⟩
        show false = (advanceFence none (rest.take cut)).isSome
        rw [advanceFence_eq_none hbody, Option.isSome_none]
      · rw [List.map_cons, List.flatten_cons, ← hrest, Piece.kept_whole, List.take_append_drop]
      · intro piece hpiece
        rcases List.mem_cons.mp hpiece with rfl | hpiece
        · rw [Piece.chunk_whole]
          refine ⟨fun hnil => ?_, ?_, hbody⟩
          · have hlength := congrArg List.length hnil
            rw [reopening, List.nil_append, hbodyLength, List.length_nil] at hlength
            omega
          · rw [reopening, List.nil_append, hbodyLength]
            exact hle
        · exact hpieces piece hpiece
    · split
      · rename_i hlong hpos
        refine ⟨[Piece.whole none rest], by simp [reopening], linked_whole rest, by simp, ?_⟩
        intro piece hpiece
        rw [List.mem_singleton.mp hpiece, Piece.chunk_whole]
        exact ⟨List.length_pos_iff.mp hpos, not_lt.mp hlong, hplain rest (List.infix_refl rest)⟩
      · rename_i hpos
        have hnil : rest = [] := List.length_eq_zero_iff.mp (by omega)
        refine ⟨[], rfl, trivial, hnil, fun piece hpiece => ?_⟩
        exact absurd hpiece List.not_mem_nil

/-! ## Texts with fences -/

/-- The markers that the cuts of a text break. -/
def brokenMarkersFrom (maxLen : ℕ) : ℕ → FenceState → JsString → ℕ
  | 0, _, _ => 0
  | fuel + 1, opened, rest =>
    if (reopening opened).length + rest.length ≤ maxLen then 0
    else
      let piece := nextPiece maxLen opened rest
      (Markers.breaks BACKTICK piece.body (rest.drop piece.body.length)).toNat +
        if (rest.drop piece.kept.length).length = 0 then 0
        else brokenMarkersFrom maxLen fuel piece.after (rest.drop piece.kept.length)

def brokenMarkers (text : JsString) (maxLen : ℕ) : ℕ :=
  brokenMarkersFrom maxLen (text.length + 1) none text

theorem chunkFenceAware_spec (hmax : 64 ≤ maxLen) (fuel : ℕ) (opened : FenceState) (rest : JsString)
    (hfuel : rest.length < fuel) (hrest : rest ≠ []) :
    ∃ pieces, chunkFenceAware maxLen fuel opened rest = some (pieces.map Piece.chunk) ∧
      Linked opened pieces ∧ rest = (pieces.map Piece.kept).flatten ∧
      (∀ piece ∈ pieces, piece.chunk ≠ [] ∧ piece.chunk.length ≤ maxLen) ∧
      ((∀ piece ∈ pieces, Even (fenceCount piece.chunk)) ↔
        Even (opened.isSome.toNat + fenceCount rest +
          brokenMarkersFrom maxLen fuel opened rest)) := by
  induction fuel generalizing opened rest with
  | zero => exact absurd hfuel (Nat.not_lt_zero _)
  | succ fuel ih =>
    rw [chunkFenceAware, brokenMarkersFrom]
    split
    · rename_i hshort
      refine ⟨[Piece.whole opened rest], by simp, linked_whole rest, by simp, ?_, ?_⟩
      · intro piece hpiece
        rw [List.mem_singleton.mp hpiece, Piece.chunk_whole, List.length_append]
        exact ⟨by simp [hrest], hshort⟩
      · rw [List.forall_mem_singleton, Piece.chunk_whole, fenceCount_reopening_append, Nat.add_zero]
    · rename_i hlong
      have htakes := nextPiece_takes hmax (not_le.mp hlong)
      generalize nextPiece maxLen opened rest = piece at htakes
      have hparity := htakes.parity
      have heven := htakes.chunk_even
      dsimp only
      split
      · rename_i hend
        have hnil := List.length_eq_zero_iff.mp hend
        have hafter : piece.after = none := by
          simp [Piece.after, htakes.ends hnil]
        refine ⟨[piece], rfl, htakes.linked trivial, ?_, ?_, ?_⟩
        · rw [List.map_singleton, List.flatten_singleton]
          exact htakes.kept.trans (by rw [hnil, List.append_nil])
        · intro single hsingle
          rw [List.mem_singleton.mp hsingle]
          exact ⟨htakes.chunk_ne_nil, htakes.bounded⟩
        · rw [List.forall_mem_singleton]
          rw [hnil, hafter] at hparity
          refine ⟨fun _ => ?_, fun _ => heven⟩
          simpa [fenceCount] using hparity
      · rename_i hmore
        have hne : rest.drop piece.kept.length ≠ [] := fun hnil => hmore (by rw [hnil]; rfl)
        obtain ⟨pieces, hrun, hlinked, hflat, hpieces, hbalanced⟩ :=
          ih piece.after (rest.drop piece.kept.length) (by have := htakes.length_lt; omega) hne
        refine ⟨piece :: pieces, ?_, htakes.linked hlinked, ?_, ?_, ?_⟩
        · rw [hrun]
          rfl
        · rw [List.map_cons, List.flatten_cons, ← hflat]
          exact htakes.kept
        · intro single hsingle
          rcases List.mem_cons.mp hsingle with rfl | hsingle
          · exact ⟨htakes.chunk_ne_nil, htakes.bounded⟩
          · exact hpieces single hsingle
        · rw [List.forall_mem_cons, hbalanced]
          refine ⟨fun h => ?_, fun h => ⟨heven, ?_⟩⟩
          · have hlater := h.2
            rw [Nat.even_iff] at hparity hlater ⊢
            omega
          · rw [Nat.even_iff] at hparity h ⊢
            omega

/-! ## Markers that no cut breaks -/

/-- A fence that is reopened is not closed at once: its closing marker was consumed. -/
def Reopens (opened : FenceState) (rest : JsString) : Prop :=
  opened.isSome = true → ¬ FENCE <+: rest

theorem Reopens.first (rest : JsString) : Reopens none rest := fun h => absurd h Bool.false_ne_true

theorem Reopens.next (maxLen : ℕ) (opened : FenceState) (rest : JsString) :
    Reopens (nextPiece maxLen opened rest).after
      (rest.drop (nextPiece maxLen opened rest).kept.length) := by
  intro hsome hfence
  unfold nextPiece at hsome hfence
  dsimp only at hsome hfence
  generalize protectRun rest _ = cut at hsome hfence
  unfold Piece.after at hsome
  dsimp only at hsome
  split at hsome
  · exact absurd hsome Bool.false_ne_true
  · rename_i hconsumed
    unfold Piece.kept at hfence
    dsimp only at hfence
    rw [if_neg hconsumed, List.append_nil, List.length_take] at hfence
    have hdrop : rest.drop (min cut rest.length) = rest.drop cut := by
      rcases le_total cut rest.length with hle | hle
      · rw [Nat.min_eq_left hle]
      · rw [Nat.min_eq_right hle, List.drop_length, List.drop_eq_nil_of_le hle]
    rw [hdrop] at hfence
    rw [hsome, List.isPrefixOf_iff_prefix.mpr hfence] at hconsumed
    exact hconsumed rfl

theorem brokenMarkersFrom_eq_zero (fuel : ℕ) (opened : FenceState) (rest : JsString)
    (hreopens : Reopens opened rest)
    (h : ∀ state suffix, suffix <:+ rest → Reopens state suffix →
      maxLen < (reopening state).length + suffix.length →
      Markers.breaks BACKTICK (nextPiece maxLen state suffix).body
        (suffix.drop (nextPiece maxLen state suffix).body.length) = false) :
    brokenMarkersFrom maxLen fuel opened rest = 0 := by
  induction fuel generalizing opened rest with
  | zero => rfl
  | succ fuel ih =>
    rw [brokenMarkersFrom]
    split
    · rfl
    · rename_i hlong
      dsimp only
      rw [h opened rest (List.suffix_refl rest) hreopens (not_le.mp hlong), Bool.toNat_false,
        Nat.zero_add]
      split
      · rfl
      · refine ih _ _ (Reopens.next maxLen opened rest) fun state suffix hsuffix => ?_
        exact h state suffix (hsuffix.trans (List.drop_suffix _ rest))

theorem brokenMarkers_of_plain {text : JsString} (h : ¬ FENCE <:+: text) :
    brokenMarkers text maxLen = 0 := by
  refine brokenMarkersFrom_eq_zero _ _ _ (.first text) fun state suffix hsuffix _ _ => ?_
  have hzero : ∀ part, part <:+: suffix → Markers.count BACKTICK part = 0 := fun part hpart =>
    Markers.count_eq_zero h (hpart.trans hsuffix.isInfix)
  generalize hbody : (nextPiece maxLen state suffix).body = body
  have hprefix : body <+: suffix := hbody ▸ List.take_prefix _ suffix
  have hsplit := List.prefix_iff_eq_append.mp hprefix
  unfold Markers.breaks
  rw [hsplit, hzero suffix (List.infix_refl suffix), hzero body hprefix.isInfix,
    hzero _ (List.drop_suffix _ suffix).isInfix]
  rfl

/-- A cut between two backticks fills the piece with them. -/
theorem fills_of_between {limit : ℕ} {suffix : JsString} (hlen : limit < suffix.length)
    (hlast : (suffix.take (protectRun suffix (chooseCut suffix limit))).getLast? = some BACKTICK)
    (hhead : (suffix.drop (protectRun suffix (chooseCut suffix limit))).head? = some BACKTICK) :
    protectRun suffix (chooseCut suffix limit) = limit ∧
      suffix.take (limit + 1) = List.replicate (limit + 1) BACKTICK := by
  have hle := (protectRun_le suffix _).trans (chooseCut_le suffix limit)
  have hpos : 0 < protectRun suffix (chooseCut suffix limit) := by
    by_contra hzero
    have hnil : suffix.take (protectRun suffix (chooseCut suffix limit)) = [] := by
      rw [Nat.eq_zero_of_not_pos hzero]
      rfl
    rw [hnil] at hlast
    exact absurd hlast (by simp)
  have hbodyLength : (suffix.take (protectRun suffix (chooseCut suffix limit))).length =
      protectRun suffix (chooseCut suffix limit) := by
    rw [List.length_take]
    omega
  rw [List.getLast?_eq_getElem?, hbodyLength, List.getElem?_take_of_lt (by omega)] at hlast
  rw [List.head?_drop] at hhead
  have hcutPos : 0 < chooseCut suffix limit := hpos.trans_le (protectRun_le suffix _)
  have hcutLe := chooseCut_le suffix limit
  obtain ⟨hsame, hrun⟩ := protectRun_between hlast hhead hcutPos (by omega)
  rw [hsame] at hlast hhead ⊢
  rcases chooseCut_cases suffix limit with hcut | hcut
  · rw [hcut] at hrun hhead
    refine ⟨hcut, ?_⟩
    rw [List.take_add_one, hrun, hhead, List.replicate_succ', Option.toList_some]
  · exact absurd hlast hcut.2.2

/-- A cut breaks no marker when a piece of backticks is one of whole markers, or when no run of
backticks is longer than a piece. -/
theorem brokenMarkers_eq_zero {text : JsString} (hmax : 64 ≤ maxLen)
    (h : maxLen % 3 = 1 ∨ ∀ n, List.replicate n BACKTICK <:+: text → n + 4 ≤ maxLen) :
    brokenMarkers text maxLen = 0 := by
  refine brokenMarkersFrom_eq_zero _ _ _ (.first text) fun state suffix hsuffix hreopens hlong => ?_
  have hreopening := length_reopening_le state
  have hreserve : FENCE_CLOSER_RESERVE = 4 := rfl
  generalize hlimit : maxLen - (reopening state).length - FENCE_CLOSER_RESERVE = limit
  have hbody : (nextPiece maxLen state suffix).body =
      suffix.take (protectRun suffix (chooseCut suffix limit)) := by
    rw [← hlimit]
    rfl
  have hle := (protectRun_le suffix _).trans (chooseCut_le suffix limit)
  have hbodyLength : (suffix.take (protectRun suffix (chooseCut suffix limit))).length =
      protectRun suffix (chooseCut suffix limit) := by
    rw [List.length_take]
    omega
  rw [hbody, hbodyLength]
  by_cases hbetween : (suffix.take (protectRun suffix (chooseCut suffix limit))).getLast? =
      some BACKTICK ∧ (suffix.drop (protectRun suffix (chooseCut suffix limit))).head? = some BACKTICK
  · obtain ⟨hcut, hrun⟩ := fills_of_between (by omega) hbetween.1 hbetween.2
    have hfence : FENCE <+: suffix := by
      refine List.IsPrefix.trans ?_ (hrun ▸ List.take_prefix (limit + 1) suffix)
      exact ⟨List.replicate (limit + 1 - 3) BACKTICK, by
        show List.replicate 3 BACKTICK ++ _ = _
        rw [List.replicate_append_replicate]
        congr 1
        omega⟩
    have hnone : state = none := by
      cases state with
      | none => rfl
      | some tag => exact absurd hfence (hreopens rfl)
    rw [hnone, reopening, List.length_nil] at hlimit
    rcases h with hthree | hshort
    · obtain ⟨n, hn⟩ : ∃ n, limit = 3 * n := ⟨limit / 3, by omega⟩
      have htake : suffix.take limit = List.replicate limit BACKTICK := by
        have hshorter := congrArg (List.take limit) hrun
        rwa [List.take_take, List.take_replicate, Nat.min_eq_left (Nat.le_succ limit)] at hshorter
      rw [hcut, htake, hn]
      exact Markers.breaks_markers n _
    · have hbound := hshort _ (hrun ▸ (List.take_prefix _ suffix).isInfix.trans hsuffix.isInfix)
      omega
  · refine Markers.breaks_eq_false ?_
    rwa [← not_and_or]

/-! ## The messages of a text -/

structure WellDelivered (text : JsString) (maxLen : ℕ) (chunks : List JsString) : Prop where
  bounded : ∀ chunk ∈ chunks, chunk ≠ [] ∧ chunk.length ≤ maxLen
  lossless : Lossless text chunks
  balanced : Even (fenceCount text) → ∀ chunk ∈ chunks, Even (fenceCount chunk)

/-- All but the balance holds of every text, and the balance is decided by the broken markers. -/
theorem chunkText_spec (text : JsString) (hmax : 64 ≤ maxLen) :
    ∃ chunks, chunkText text maxLen = some chunks ∧
      (∀ chunk ∈ chunks, chunk ≠ [] ∧ chunk.length ≤ maxLen) ∧ Lossless text chunks ∧
      ((∀ chunk ∈ chunks, Even (fenceCount chunk)) ↔
        Even (fenceCount text + brokenMarkers text maxLen)) := by
  unfold chunkText
  split
  · rename_i hempty
    have hnil := List.length_eq_zero_iff.mp hempty
    refine ⟨[], rfl, fun chunk hchunk => absurd hchunk List.not_mem_nil, ⟨[], trivial, rfl, hnil⟩, ?_⟩
    have hbroken : brokenMarkers text maxLen = 0 := by
      unfold brokenMarkers
      rw [brokenMarkersFrom, if_pos]
      simp [hnil, reopening]
    rw [hbroken, hnil]
    simp [fenceCount]
  · rename_i hne
    split
    · rename_i hshort
      have hbroken : brokenMarkers text maxLen = 0 := by
        unfold brokenMarkers
        rw [brokenMarkersFrom, if_pos]
        rwa [reopening, List.length_nil, Nat.zero_add]
      refine ⟨[text], rfl, ?_, ⟨[Piece.whole none text], linked_whole text, ?_, by simp⟩, ?_⟩
      · rw [List.forall_mem_singleton]
        exact ⟨fun hnil => hne (hnil ▸ rfl), hshort⟩
      · simp [reopening]
      · rw [List.forall_mem_singleton, hbroken, Nat.add_zero]
    · split
      · rename_i hlong hplain
        have hfence : ¬ FENCE <:+: text := hplain.resolve_left (not_lt.mpr hmax)
        have hzero : ∀ part, part <:+: text → fenceCount part = 0 := fun part hpart =>
          Markers.count_eq_zero hfence hpart
        obtain ⟨pieces, hrun, hlinked, hflat, hpieces⟩ :=
          chunkPlain_spec (Nat.lt_of_lt_of_le (by decide) hmax) (text.length + 1) text (Nat.lt_succ_self _) hzero
        refine ⟨_, hrun, ?_, ⟨pieces, hlinked, rfl, hflat⟩, ?_⟩
        · intro chunk hchunk
          obtain ⟨piece, hpiece, rfl⟩ := List.mem_map.mp hchunk
          exact ⟨(hpieces piece hpiece).1, (hpieces piece hpiece).2.1⟩
        · rw [brokenMarkers_of_plain hfence, hzero text (List.infix_refl text)]
          refine ⟨fun _ => Even.zero, fun _ chunk hchunk => ?_⟩
          obtain ⟨piece, hpiece, rfl⟩ := List.mem_map.mp hchunk
          rw [(hpieces piece hpiece).2.2]
          exact Even.zero
      · have htext : text ≠ [] := fun hnil => hne (hnil ▸ rfl)
        obtain ⟨pieces, hrun, hlinked, hflat, hpieces, hbalanced⟩ :=
          chunkFenceAware_spec hmax (text.length + 1) none text (Nat.lt_succ_self _) htext
        refine ⟨_, hrun, ?_, ⟨pieces, hlinked, rfl, hflat⟩, ?_⟩
        · rw [List.forall_mem_map]
          exact hpieces
        · rw [List.forall_mem_map, hbalanced, Option.isSome_none, Bool.toNat_false, Nat.zero_add]
          rfl

/-- A text is delivered whole, within the limit and balanced exactly when its own markers are odd in
number or the cuts break an even number of them. No cut breaks one when three divides what a piece
holds, or when no run of backticks is longer. -/
theorem chunkText_wellDelivered_iff (text : JsString) (hmax : 64 ≤ maxLen) :
    ((∃ chunks, chunkText text maxLen = some chunks ∧ WellDelivered text maxLen chunks) ↔
      (Even (fenceCount text) → Even (brokenMarkers text maxLen))) ∧
    (maxLen % 3 = 1 ∨ (∀ n, List.replicate n BACKTICK <:+: text → n + 4 ≤ maxLen) →
      brokenMarkers text maxLen = 0) := by
  refine ⟨?_, brokenMarkers_eq_zero hmax⟩
  obtain ⟨chunks, hrun, hbounded, hlossless, hbalanced⟩ := chunkText_spec text hmax
  constructor
  · rintro ⟨others, hothers, hdelivered⟩ heven
    have hsame : others = chunks := Option.some.inj (hothers.symm.trans hrun)
    subst hsame
    exact (Nat.even_add.mp (hbalanced.mp (hdelivered.balanced heven))).mp heven
  · intro h
    refine ⟨chunks, hrun, hbounded, hlossless, fun heven => ?_⟩
    exact hbalanced.mpr (heven.add (h heven))

/-- A fenced text at the limit of Discord's messages, where no cut breaks a marker. -/
theorem chunkText_wellDelivered_fenced :
    ∃ chunks, chunkText (FENCE ++ List.replicate 2000 0x61 ++ [NEWLINE] ++ FENCE) 1900 = some chunks ∧
      WellDelivered (FENCE ++ List.replicate 2000 0x61 ++ [NEWLINE] ++ FENCE) 1900 chunks := by
  have h := @chunkText_wellDelivered_iff 1900
    (FENCE ++ List.replicate 2000 0x61 ++ [NEWLINE] ++ FENCE) (by decide)
  refine h.1.mpr fun _ => ?_
  rw [h.2 (.inl (by decide))]
  exact Even.zero

/-- Sixty-six backticks are twenty-two markers; cut after the sixty-first, they are twenty and one. -/
theorem backtickRun_unbalanced :
    ¬ ∃ chunks, chunkText (List.replicate 66 BACKTICK) 65 = some chunks ∧
      WellDelivered (List.replicate 66 BACKTICK) 65 chunks := by
  rintro ⟨chunks, hrun, hdelivered⟩
  have hchunks : chunkText (List.replicate 66 BACKTICK) 65 =
      some [List.replicate 61 BACKTICK, List.replicate 5 BACKTICK] := by decide +kernel
  rw [hchunks, Option.some.injEq] at hrun
  subst hrun
  have heven : Even (fenceCount (List.replicate 66 BACKTICK)) := by decide +kernel
  have hlast := hdelivered.balanced heven (List.replicate 5 BACKTICK) (by simp)
  exact absurd hlast (by decide +kernel)

end QuokyPlatform.Delivery
