import QuokyPlatform.Foundations.Occurrences
import QuokyPlatform.CodeWork.Porcelain

/-!
# The header of a status, read

The branch, the upstream and the counts are read from the header as they are, unless the header has
white space at an end, an unborn branch has an upstream or the upstream is gone.
-/

namespace QuokyPlatform.CodeWork
open Chunking Separators
set_option autoImplicit false
set_option maxHeartbeats 250000

/-! ## Trimmed texts -/

section Trimmed

theorem head_trim {text : JsString} {unit : CodeUnit} (h : (trim text).head? = some unit) :
    isWhiteSpace unit = false := by
  obtain ⟨rest, hrest⟩ := List.rdropWhile_prefix isWhiteSpace (l := text.dropWhile isWhiteSpace)
  have hhead : (text.dropWhile isWhiteSpace).head? = some unit := by
    rw [← hrest, List.head?_append]
    exact Option.or_eq_some_iff.mpr (.inl h)
  have hnot := List.head?_dropWhile_not isWhiteSpace text
  rw [hhead] at hnot
  exact hnot

theorem last_trim {text : JsString} {unit : CodeUnit} (h : (trim text).getLast? = some unit) :
    isWhiteSpace unit = false := by
  have hne : trim text ≠ [] := by
    intro hnil
    rw [hnil] at h
    cases h
  have hlast := List.rdropWhile_last_not isWhiteSpace (text.dropWhile isWhiteSpace) hne
  rw [List.getLast?_eq_some_getLast hne] at h
  rw [← Option.some.inj h]
  exact Bool.eq_false_iff.mpr hlast

theorem trim_eq_self {text : JsString} (hhead : ∀ unit, text.head? = some unit → isWhiteSpace unit = false)
    (hlast : ∀ unit, text.getLast? = some unit → isWhiteSpace unit = false) : trim text = text := by
  have hdrop : text.dropWhile isWhiteSpace = text := by
    cases text with
    | nil => rfl
    | cons first rest => rw [List.dropWhile_cons_of_neg (Bool.eq_false_iff.mp (hhead first rfl))]
  unfold trim
  rw [hdrop, List.rdropWhile_eq_self_iff]
  exact fun hne => Bool.eq_false_iff.mp (hlast _ (List.getLast?_eq_some_getLast hne))

theorem trim_trim (text : JsString) : trim (trim text) = trim text :=
  trim_eq_self (fun _ => head_trim) (fun _ => last_trim)

theorem trim_occurs (text : JsString) : trim text <:+: text :=
  (List.rdropWhile_prefix _ _).isInfix.trans (List.dropWhile_suffix _).isInfix

end Trimmed

/-! ## Names and counts -/

section Texts

/-- A lead whose second word has a unit that the text behind the first space has not. -/
theorem not_lead {name rest word others : JsString} {unit : CodeUnit} (hname : (0x20 : CodeUnit) ∉ name)
    (hunit : unit ∈ others) (hrest : unit ∉ rest) : ¬ word ++ 0x20 :: others <:+: name ++ rest := by
  rintro ⟨start, stop, heq⟩
  have hsplit : (start ++ word) ++ 0x20 :: (others ++ stop) = name ++ rest := by
    rw [← heq]
    simp only [List.append_assoc, List.cons_append]
  have hmem : unit ∈ others ++ stop := List.mem_append_left stop hunit
  rcases List.append_eq_append_iff.mp hsplit with ⟨between, hbefore, hafter⟩ | ⟨between, hbefore, hafter⟩
  · cases between with
    | nil =>
      rw [List.nil_append] at hafter
      exact hrest (hafter ▸ List.mem_cons_of_mem _ hmem)
    | cons first between =>
      have hfirst := (List.cons.inj hafter).1
      refine hname ?_
      rw [hbefore, ← hfirst]
      exact List.mem_append_right _ List.mem_cons_self
  · refine hrest ?_
    rw [hafter]
    exact List.mem_append_right _ (List.mem_cons_of_mem _ hmem)

theorem RefName.no_space (name : RefName) : (0x20 : CodeUnit) ∉ name.text := fun h =>
  absurd (name.visible _ h) (by decide)

/-- The first `...` behind a name is the one that ends it. -/
theorem RefName.noEarlier (name : RefName) : NoEarlier dots name.text := by
  intro suffix hne hsuffix hbegins
  obtain ⟨start, hstart⟩ := hsuffix
  cases suffix with
  | nil => exact hne rfl
  | cons first suffix =>
    have hfirst := List.cons_prefix_cons.mp (show 0x2E :: [0x2E, 0x2E] <+: first :: (suffix ++ dots) from hbegins)
    cases suffix with
    | nil =>
      apply name.noDotAtEnd
      rw [← hstart, List.getLast?_concat, hfirst.1]
    | cons second suffix =>
      have hsecond := List.cons_prefix_cons.mp hfirst.2
      apply name.noDots
      rw [← hstart, ← hfirst.1, ← hsecond.1]
      exact ⟨start, suffix, by rw [List.append_assoc]; rfl⟩

theorem digit_range {c : Char} (h : c.isDigit = true) : 48 ≤ c.toNat ∧ c.toNat ≤ 57 :=
  Char.isDigit_iff_toNat.mp h

theorem numberOf_map (digits : List Char) (h : ∀ c ∈ digits, c.isDigit = true) (n : ℕ) :
    (digits.map fun c => UInt16.ofNat c.toNat).foldl (fun n unit => 10 * n + (unit.toNat - 0x30)) n =
      Nat.ofDigitChars 10 digits n := by
  induction digits generalizing n with
  | nil => rfl
  | cons first rest ih =>
    have hfirst := h first List.mem_cons_self
    have hrange := digit_range hfirst
    have hunit : (UInt16.ofNat first.toNat).toNat = first.toNat := by
      rw [UInt16.toNat_ofNat']
      omega
    rw [List.map_cons, List.foldl_cons, Nat.ofDigitChars_cons, hunit]
    exact ih (fun c hc => h c (List.mem_cons_of_mem first hc)) _

theorem units_toString (n : ℕ) :
    units (toString n) = (Nat.toDigits 10 n).map fun c => UInt16.ofNat c.toNat := by
  show (Nat.repr n).toList.map _ = _
  rw [Nat.toList_repr]

theorem numberOf_toString (n : ℕ) : numberOf (units (toString n)) = n := by
  unfold numberOf
  rw [units_toString, numberOf_map _ fun c hc => Nat.isDigit_of_mem_toDigits (by omega) (by omega) hc]
  exact Nat.ofDigitChars_ten_toDigits

theorem isDigitUnit_toString {n : ℕ} {unit : CodeUnit} (h : unit ∈ units (toString n)) :
    isDigitUnit unit = true := by
  rw [units_toString] at h
  obtain ⟨c, hc, rfl⟩ := List.mem_map.mp h
  have hrange := digit_range (Nat.isDigit_of_mem_toDigits (by omega) (by omega) hc)
  have hunit : (UInt16.ofNat c.toNat).toNat = c.toNat := by
    rw [UInt16.toNat_ofNat']
    omega
  unfold isDigitUnit
  rw [Bool.and_eq_true, decide_eq_true_eq, decide_eq_true_eq, UInt16.le_iff_toNat_le,
    UInt16.le_iff_toNat_le, hunit]
  exact hrange

theorem matchCount_found {label before digits rest : JsString} (hlabel : label ≠ [])
    (hearlier : NoEarlier label before) (hne : digits ≠ [])
    (hdigits : ∀ unit ∈ digits, isDigitUnit unit = true)
    (hrest : ∀ unit, rest.head? = some unit → isDigitUnit unit = false) :
    matchCount label (before ++ (label ++ (digits ++ rest))) = some (numberOf digits) := by
  induction before with
  | nil =>
    have hdrop : (label ++ (digits ++ rest)).drop label.length = digits ++ rest := List.drop_left
    have htake : (digits ++ rest).takeWhile isDigitUnit = digits := by
      rw [List.takeWhile_append_of_pos hdigits]
      cases rest with
      | nil => rw [List.takeWhile_nil, List.append_nil]
      | cons first rest =>
        rw [List.takeWhile_cons_of_neg (Bool.eq_false_iff.mp (hrest first rfl)), List.append_nil]
    have hbegins : label <+: label ++ (digits ++ rest) := List.prefix_append _ _
    rw [List.nil_append]
    revert hdrop hbegins
    cases htext : label ++ (digits ++ rest) with
    | nil => exact absurd (List.append_eq_nil_iff.mp htext).1 hlabel
    | cons first others =>
      intro hdrop hbegins
      unfold matchCount
      rw [hdrop, htake]
      exact if_pos ⟨hbegins, hne⟩
  | cons first before ih =>
    have hfirst := hearlier (first :: before) (List.cons_ne_nil _ _) (List.suffix_refl _)
    rw [← @prefix_behind _ _ _ (digits ++ rest), List.cons_append] at hfirst
    rw [List.cons_append]
    unfold matchCount
    rw [if_neg fun h => hfirst h.1]
    exact ih fun suffix hne hsuffix => hearlier suffix hne (hsuffix.trans (List.suffix_cons first before))

theorem matchCount_none {label text : JsString} {unit : CodeUnit} (hlabel : unit ∈ label)
    (htext : unit ∉ text) : matchCount label text = none := by
  induction text with
  | nil => rfl
  | cons first rest ih =>
    unfold matchCount
    rw [if_neg fun h => htext (h.1.subset hlabel)]
    exact ih fun h => htext (List.mem_cons_of_mem first h)

theorem not_mem_toString {n : ℕ} {unit : CodeUnit} (h : isDigitUnit unit = false) :
    unit ∉ units (toString n) := fun hmem =>
  Bool.false_ne_true (h.symm.trans (isDigitUnit_toString hmem))

theorem toString_ne_nil (n : ℕ) : units (toString n) ≠ [] := by
  rw [units_toString]
  exact fun h => Nat.toDigits_ne_nil (List.map_eq_nil_iff.mp h)

/-- A count stands behind its label, with no digit after it. -/
theorem matchCount_toString {label before rest : JsString} (n : ℕ) (hlabel : label ≠ [])
    (hearlier : NoEarlier label before)
    (hrest : ∀ unit, rest.head? = some unit → isDigitUnit unit = false) :
    matchCount label (before ++ (label ++ (units (toString n) ++ rest))) = some n := by
  rw [matchCount_found hlabel hearlier (toString_ne_nil n) (fun _ => isDigitUnit_toString) hrest,
    numberOf_toString]

end Texts

/-! ## The counts of a header -/

section Counts

theorem Track.ahead_read (track : Track) :
    (matchCount (units "ahead ") track.text).getD 0 = track.aheadCount.getD 0 := by
  have hother : ∀ n : ℕ, (0x61 : CodeUnit) ∉ units (toString n) := fun n => not_mem_toString rfl
  cases track with
  | inSync => rfl
  | gone => rfl
  | ahead count =>
    have hcount := @matchCount_toString (units "ahead ") (units " [") (units "]") count (by decide)
      (noEarlier_of_head (by decide)) (by intro unit h; cases h; rfl)
    rw [show (Track.ahead count).text = units " [" ++ (units "ahead " ++ (units (toString count) ++
      units "]")) from rfl, hcount]
    rfl
  | behind count =>
    have htext : (0x61 : CodeUnit) ∉ (Track.behind count).text := by
      intro hmem
      rcases List.mem_append.mp hmem with hmem | hmem
      · exact absurd hmem (by decide)
      · rcases List.mem_append.mp hmem with hmem | hmem
        · exact hother count hmem
        · exact absurd hmem (by decide)
    rw [matchCount_none (by decide) htext]
    rfl
  | diverged ours theirs =>
    have hcount := @matchCount_toString (units "ahead ") (units " [")
      (units ", behind " ++ (units (toString theirs) ++ units "]")) ours (by decide)
      (noEarlier_of_head (by decide)) (by intro unit h; cases h; rfl)
    rw [show (Track.diverged ours theirs).text = units " [" ++ (units "ahead " ++
      (units (toString ours) ++ (units ", behind " ++ (units (toString theirs) ++ units "]")))) from rfl,
      hcount]
    rfl

theorem Track.behind_read (track : Track) :
    (matchCount (units "behind ") track.text).getD 0 = track.behindCount.getD 0 := by
  have hother : ∀ n : ℕ, (0x62 : CodeUnit) ∉ units (toString n) := fun n => not_mem_toString rfl
  cases track with
  | inSync => rfl
  | gone => rfl
  | ahead count =>
    have htext : (0x62 : CodeUnit) ∉ (Track.ahead count).text := by
      intro hmem
      rcases List.mem_append.mp hmem with hmem | hmem
      · exact absurd hmem (by decide)
      · rcases List.mem_append.mp hmem with hmem | hmem
        · exact hother count hmem
        · exact absurd hmem (by decide)
    rw [matchCount_none (by decide) htext]
    rfl
  | behind count =>
    have hcount := @matchCount_toString (units "behind ") (units " [") (units "]") count (by decide)
      (noEarlier_of_head (by decide)) (by intro unit h; cases h; rfl)
    rw [show (Track.behind count).text = units " [" ++ (units "behind " ++ (units (toString count) ++
      units "]")) from rfl, hcount]
    rfl
  | diverged ours theirs =>
    have hbefore : (0x62 : CodeUnit) ∉ units " [ahead " ++ (units (toString ours) ++ units ", ") := by
      intro hmem
      rcases List.mem_append.mp hmem with hmem | hmem
      · exact absurd hmem (by decide)
      · rcases List.mem_append.mp hmem with hmem | hmem
        · exact hother ours hmem
        · exact absurd hmem (by decide)
    have hcount := @matchCount_toString (units "behind ")
      (units " [ahead " ++ (units (toString ours) ++ units ", ")) (units "]") theirs (by decide)
      (noEarlier_of_head hbefore) (by intro unit h; cases h; rfl)
    rw [show (Track.diverged ours theirs).text = (units " [ahead " ++ (units (toString ours) ++
      units ", ")) ++ (units "behind " ++ (units (toString theirs) ++ units "]")) by
        simp only [List.append_assoc]; rfl, hcount]
    rfl

/-- Behind the upstream, a header has no letters but those of the counts. -/
theorem Track.text_units (track : Track) : ∀ unit ∈ track.text,
    isDigitUnit unit = true ∨ unit ∈ units " [ahead, behind, gone]" := by
  have hword : ∀ word : JsString, word ⊆ units " [ahead, behind, gone]" →
      ∀ unit ∈ word, isDigitUnit unit = true ∨ unit ∈ units " [ahead, behind, gone]" :=
    fun word hsubset unit hunit => .inr (hsubset hunit)
  have hcount : ∀ n : ℕ, ∀ unit ∈ units (toString n),
      isDigitUnit unit = true ∨ unit ∈ units " [ahead, behind, gone]" :=
    fun n unit hunit => .inl (isDigitUnit_toString hunit)
  cases track with
  | inSync => exact fun unit hunit => absurd hunit List.not_mem_nil
  | gone => exact hword _ (by decide)
  | ahead count =>
    exact List.forall_mem_append.mpr ⟨hword _ (by decide),
      List.forall_mem_append.mpr ⟨hcount count, hword _ (by decide)⟩⟩
  | behind count =>
    exact List.forall_mem_append.mpr ⟨hword _ (by decide),
      List.forall_mem_append.mpr ⟨hcount count, hword _ (by decide)⟩⟩
  | diverged ours theirs =>
    exact List.forall_mem_append.mpr ⟨hword _ (by decide),
      List.forall_mem_append.mpr ⟨hcount ours,
        List.forall_mem_append.mpr ⟨hword _ (by decide),
          List.forall_mem_append.mpr ⟨hcount theirs, hword _ (by decide)⟩⟩⟩⟩

theorem Track.not_mem (track : Track) {unit : CodeUnit} (hdigit : isDigitUnit unit = false)
    (hword : unit ∉ units " [ahead, behind, gone]") : unit ∉ track.text := by
  intro hmem
  rcases track.text_units unit hmem with h | h
  · exact Bool.false_ne_true (hdigit.symm.trans h)
  · exact hword h

theorem Track.text_bracket {track : Track} (h : track ≠ .inSync) :
    ∃ rest, track.text = units " [" ++ rest := by
  cases track with
  | inSync => exact absurd rfl h
  | ahead count => exact ⟨units "ahead " ++ _, rfl⟩
  | behind count => exact ⟨units "behind " ++ _, rfl⟩
  | diverged ours theirs => exact ⟨units "ahead " ++ _, rfl⟩
  | gone => exact ⟨units "gone]", rfl⟩

theorem not_infix_of_head {first : CodeUnit} {others text : JsString} (h : first ∉ text) :
    ¬ first :: others <:+: text := fun hoccurs => h (hoccurs.subset List.mem_cons_self)

theorem readTracking_text {upstream : RefName} (track : Track) (h : trim upstream.text = upstream.text) :
    readTracking (upstream.text ++ track.text) =
      ⟨some upstream.text, some (track.aheadCount.getD 0), some (track.behindCount.getD 0)⟩ := by
  have hlength : (trim upstream.text).length ≠ 0 := by
    rw [h]
    exact fun hzero => upstream.nonempty (List.eq_nil_of_length_eq_zero hzero)
  by_cases hsync : track = .inSync
  · subst hsync
    have hbreak : breakAt (units " [") upstream.text = none :=
      breakAt_eq_none.mpr (not_infix_of_head upstream.no_space)
    rw [show upstream.text ++ Track.inSync.text = upstream.text from List.append_nil _, readTracking,
      hbreak]
    simp only []
    rw [if_neg hlength, h]
    rfl
  · obtain ⟨rest, hrest⟩ := Track.text_bracket hsync
    have hbreak : breakAt (units " [") (upstream.text ++ (units " [" ++ rest)) =
        some (upstream.text, rest) := breakAt_eq_some (noEarlier_of_head upstream.no_space)
    rw [hrest, readTracking, hbreak]
    simp only []
    rw [if_neg hlength, h, ← hrest, track.ahead_read, track.behind_read]

theorem readTracking_cases (afterSep : JsString) : readTracking afterSep = .absent ∨
    ∃ upstream ahead behind, readTracking afterSep = ⟨some (trim upstream), some ahead, some behind⟩ := by
  unfold readTracking
  split
  · split
    · exact .inl rfl
    · exact .inr ⟨_, _, _, rfl⟩
  · simp only []
    split
    · exact .inl rfl
    · exact .inr ⟨_, _, _, rfl⟩

end Counts

/-! ## The branch -/

section Branch

theorem head_splitText_begins {separator : JsString} (hne : separator ≠ []) (text : JsString) :
    (splitText separator text).head?.getD text <+: text := by
  obtain ⟨piece, hpiece, -, hbegins⟩ := head_splitText hne text
  rw [hpiece]
  exact hbegins

theorem branchOf_begins (b : JsString) : branchOf b <+: b :=
  (head_splitText_begins (by decide) _).trans (head_splitText_begins (by decide) b)

theorem branchOf_named (name : RefName) (upstream : Option (RefName × Track)) :
    branchOf (name.text ++ upstreamText upstream) = name.text := by
  have hsplit : (splitText dots (name.text ++ upstreamText upstream)).head?.getD
      (name.text ++ upstreamText upstream) = name.text := by
    cases upstream with
    | none =>
      have hoccurs : ¬ dots <:+: name.text := fun h =>
        name.noDots (List.IsInfix.trans ⟨[], units ".", rfl⟩ h)
      rw [upstreamText, List.append_nil, splitText_of_none hoccurs]
      rfl
    | some found =>
      rw [upstreamText, splitText_append (by decide) name.noEarlier]
      rfl
  unfold branchOf
  simp only []
  have hspace : splitText (units " ") name.text = [name.text] :=
    splitText_of_none (not_infix_of_head name.no_space)
  rw [hsplit, hspace]
  rfl

/-- The words before a branch do not occur in its name and upstream. -/
theorem no_leads {name : RefName} {upstream : Option (RefName × Track)} {text : JsString}
    (h : text <:+: name.text ++ upstreamText upstream) :
    ¬ units "No commits yet on " <+: text ∧ ¬ units "Initial commit on " <+: text ∧
      ¬ units "HEAD (no branch)" <+: text := by
  obtain ⟨front, track, htext, hfront⟩ : ∃ front track, name.text ++ upstreamText upstream =
      front ++ Track.text track ∧ (0x20 : CodeUnit) ∉ front := by
    cases upstream with
    | none => exact ⟨name.text, .inSync, rfl, name.no_space⟩
    | some found =>
      obtain ⟨up, track⟩ := found
      refine ⟨name.text ++ (dots ++ up.text), track, ?_, ?_⟩
      · rw [upstreamText, List.append_assoc, List.append_assoc]
      · intro hmem
        rcases List.mem_append.mp hmem with hmem | hmem
        · exact name.no_space hmem
        · rcases List.mem_append.mp hmem with hmem | hmem
          · exact absurd hmem (by decide)
          · exact up.no_space hmem
  rw [htext] at h
  have hc : (0x63 : CodeUnit) ∉ track.text := track.not_mem rfl (by decide)
  have hparen : (0x28 : CodeUnit) ∉ track.text := track.not_mem rfl (by decide)
  refine ⟨fun hlead => ?_, fun hlead => ?_, fun hlead => ?_⟩
  · exact @not_lead front track.text (units "No") (units "commits yet on ") 0x63 hfront (by decide) hc
      (hlead.isInfix.trans h)
  · exact @not_lead front track.text (units "Initial") (units "commit on ") 0x63 hfront (by decide) hc
      (hlead.isInfix.trans h)
  · exact @not_lead front track.text (units "HEAD") (units "(no branch)") 0x28 hfront (by decide) hparen
      (hlead.isInfix.trans h)

theorem dropLead_append (lead rest : JsString) : dropLead lead (lead ++ rest) = rest := by
  unfold dropLead
  rw [if_pos (List.prefix_append _ _), List.drop_left]

theorem dropLead_of_not {lead text : JsString} (h : ¬ lead <+: text) : dropLead lead text = text :=
  if_neg h

theorem line_drop (header : Header) : header.line.drop 3 = header.body := rfl

variable {name : RefName} {upstream : Option (RefName × Track)}

theorem parseBranchLine_born : parseBranchLine (Header.onBranch false name upstream).line =
    branchOf (trim (name.text ++ upstreamText upstream)) := by
  obtain ⟨hno, hinitial, hhead⟩ := no_leads (trim_occurs (name.text ++ upstreamText upstream))
  unfold parseBranchLine
  simp only []
  rw [line_drop, show (Header.onBranch false name upstream).body =
    name.text ++ upstreamText upstream from rfl, dropLead_of_not hno, dropLead_of_not hinitial, if_neg hhead]

theorem parseBranchLine_unborn {text : JsString} (hoccurs : text <:+: name.text ++ upstreamText upstream)
    (h : trim (Header.onBranch true name upstream).body = units "No commits yet on " ++ text) :
    parseBranchLine (Header.onBranch true name upstream).line = branchOf text := by
  obtain ⟨-, hinitial, hhead⟩ := no_leads hoccurs
  unfold parseBranchLine
  simp only []
  rw [line_drop, h, dropLead_append, dropLead_of_not hinitial, if_neg hhead]

end Branch

/-! ## The header -/

/-- The header has no white space at its ends; an upstream is there, of a born branch, and has none. -/
def HeaderRead (header : Header) : Prop :=
  match header with
  | .detached => True
  | .onBranch unborn _ upstream =>
    trim header.body = header.body ∧ ∀ found track, upstream = some (found, track) →
      unborn = false ∧ track ≠ .gone ∧ trim found.text = found.text

section Headers

variable {name : RefName} {upstream : Option (RefName × Track)}

theorem parseBranchLine_of_trimmed {unborn : Bool}
    (h : trim (Header.onBranch unborn name upstream).body = (Header.onBranch unborn name upstream).body) :
    parseBranchLine (Header.onBranch unborn name upstream).line = name.text := by
  cases unborn with
  | false =>
    rw [parseBranchLine_born]
    exact (congrArg branchOf h).trans (branchOf_named name upstream)
  | true =>
    rw [parseBranchLine_unborn (List.infix_refl _) h]
    exact branchOf_named name upstream

theorem parseBranchTracking_born : parseBranchTracking (Header.onBranch false name upstream).line =
    match breakAt dots (trim (name.text ++ upstreamText upstream)) with
    | none => .absent
    | some (_, afterSep) => readTracking afterSep := by
  obtain ⟨hno, -, hhead⟩ := no_leads (trim_occurs (name.text ++ upstreamText upstream))
  unfold parseBranchTracking
  simp only []
  rw [line_drop, show (Header.onBranch false name upstream).body =
    name.text ++ upstreamText upstream from rfl]
  exact if_neg fun h => h.elim hhead hno

theorem header_read {header : Header} (h : HeaderRead header) :
    parseBranchLine header.line = header.branch ∧
      parseBranchTracking header.line = header.tracking := by
  cases header with
  | detached => exact ⟨by decide, rfl⟩
  | onBranch unborn name upstream =>
    refine ⟨parseBranchLine_of_trimmed h.1, ?_⟩
    cases upstream with
    | none =>
      cases unborn with
      | false =>
        have hoccurs : ¬ dots <:+: name.text ++ upstreamText none := by
          rw [upstreamText, List.append_nil]
          exact fun hdots => name.noDots (List.IsInfix.trans ⟨[], units ".", rfl⟩ hdots)
        rw [parseBranchTracking_born, show trim (name.text ++ upstreamText none) =
          name.text ++ upstreamText none from h.1, breakAt_eq_none.mpr hoccurs]
        rfl
      | true =>
        unfold parseBranchTracking
        simp only []
        rw [line_drop, h.1, if_pos (.inr (List.prefix_append _ _))]
        rfl
    | some found =>
      obtain ⟨up, track⟩ := found
      obtain ⟨rfl, hgone, hup⟩ := h.2 up track rfl
      have hbreak : breakAt dots (name.text ++ upstreamText (some (up, track))) =
          some (name.text, up.text ++ track.text) := breakAt_eq_some name.noEarlier
      rw [parseBranchTracking_born, show trim (name.text ++ upstreamText (some (up, track))) =
        name.text ++ upstreamText (some (up, track)) from h.1, hbreak]
      simp only []
      rw [readTracking_text track hup]
      cases track with
      | gone => exact absurd rfl hgone
      | inSync => rfl
      | ahead count => rfl
      | behind count => rfl
      | diverged ours theirs => rfl

/-! ## What a header that is read must be -/

/-- White space behind an unborn branch is cut off, and no word before it. -/
theorem trim_unborn (text : JsString) : trim (units "No commits yet on " ++ text) =
    if text.rdropWhile isWhiteSpace = [] then units "No commits yet on"
    else units "No commits yet on " ++ text.rdropWhile isWhiteSpace := by
  have hdrop : (units "No commits yet on " ++ text).dropWhile isWhiteSpace =
      units "No commits yet on " ++ text := rfl
  unfold trim
  rw [hdrop, rdropWhile_append]
  rfl

theorem last_of_rdropWhile {text : JsString} (h : text.rdropWhile isWhiteSpace = text) {unit : CodeUnit}
    (hunit : text.getLast? = some unit) : isWhiteSpace unit = false := by
  have hne : text ≠ [] := by
    rintro rfl
    cases hunit
  rw [List.getLast?_eq_some_getLast hne] at hunit
  rw [← Option.some.inj hunit]
  exact Bool.eq_false_iff.mpr (List.rdropWhile_eq_self_iff.mp h hne)

theorem upstream_read {unborn : Bool} {up : RefName} {track : Track}
    (h : parseBranchTracking (Header.onBranch unborn name (some (up, track))).line =
      (Header.onBranch unborn name (some (up, track))).tracking) :
    unborn = false ∧ track ≠ .gone ∧ trim up.text = up.text := by
  have habsent : Tracking.absent ≠ (Header.onBranch unborn name (some (up, track))).tracking :=
    fun heq => by cases congrArg Tracking.upstream heq
  cases unborn with
  | true =>
    have hdot : ((name.text ++ upstreamText (some (up, track))).rdropWhile isWhiteSpace) ≠ [] := by
      rw [Ne, List.rdropWhile_eq_nil_iff]
      exact fun hall => absurd (hall 0x2E (List.mem_append_right _ List.mem_cons_self)) (by decide)
    have hlead : units "No commits yet on " <+: trim (Header.onBranch true name (some (up, track))).body := by
      rw [show (Header.onBranch true name (some (up, track))).body = units "No commits yet on " ++
        (name.text ++ upstreamText (some (up, track))) from rfl, trim_unborn, if_neg hdot]
      exact List.prefix_append _ _
    unfold parseBranchTracking at h
    simp only [] at h
    rw [line_drop, if_pos (.inr hlead)] at h
    exact absurd h habsent
  | false =>
    refine ⟨rfl, ?_⟩
    rw [parseBranchTracking_born] at h
    split at h
    · exact absurd h habsent
    · rename_i afterSep hbreak
      rcases readTracking_cases afterSep with hcase | ⟨text, ours, theirs, hcase⟩
      · rw [hcase] at h
        exact absurd h habsent
      · rw [hcase] at h
        have hup : trim text = up.text := Option.some.inj (congrArg Tracking.upstream h)
        refine ⟨?_, by rw [← hup, trim_trim]⟩
        rintro rfl
        cases congrArg Tracking.ahead h

theorem name_last {unborn : Bool} (h : parseBranchLine (Header.onBranch unborn name none).line = name.text)
    {unit : CodeUnit} (hunit : name.text.getLast? = some unit) : isWhiteSpace unit = false := by
  cases unborn with
  | false =>
    rw [parseBranchLine_born, upstreamText, List.append_nil] at h
    have hbegins := branchOf_begins (trim name.text)
    rw [h] at hbegins
    have hsame : trim name.text = name.text :=
      (trim_occurs name.text).eq_of_length_le hbegins.length_le
    exact last_trim (hsame.symm ▸ hunit)
  | true =>
    have hbody : (Header.onBranch true name none).body = units "No commits yet on " ++ name.text :=
      congrArg (units "No commits yet on " ++ ·) (List.append_nil name.text)
    have htrim := trim_unborn name.text
    rw [← hbody] at htrim
    by_cases hblank : name.text.rdropWhile isWhiteSpace = []
    · rw [if_pos hblank] at htrim
      have hno : parseBranchLine (Header.onBranch true name none).line = units "No" := by
        unfold parseBranchLine
        simp only []
        rw [line_drop, htrim]
        decide
      have hall := List.rdropWhile_eq_nil_iff.mp hblank
      rw [← h, hno] at hall
      exact absurd (hall 0x4E List.mem_cons_self) (by decide)
    · rw [if_neg hblank] at htrim
      have hoccurs : name.text.rdropWhile isWhiteSpace <:+: name.text ++ upstreamText none :=
        (List.rdropWhile_prefix _ _).isInfix.trans (List.prefix_append _ _).isInfix
      rw [parseBranchLine_unborn hoccurs htrim] at h
      have hbegins := branchOf_begins (name.text.rdropWhile isWhiteSpace)
      rw [h] at hbegins
      exact last_of_rdropWhile ((List.rdropWhile_prefix _ _).eq_of_length_le hbegins.length_le) hunit

theorem Track.text_last {track : Track} (h : track ≠ .inSync) : track.text.getLast? = some 0x5D := by
  have hbracket : ∀ front : JsString, (front ++ units "]").getLast? = some 0x5D := fun front =>
    List.getLast?_concat
  cases track with
  | inSync => exact absurd rfl h
  | gone => rfl
  | ahead count =>
    rw [Track.text, ← List.append_assoc]
    exact hbracket _
  | behind count =>
    rw [Track.text, ← List.append_assoc]
    exact hbracket _
  | diverged ours theirs =>
    rw [Track.text, ← List.append_assoc, ← List.append_assoc, ← List.append_assoc]
    exact hbracket _

theorem headerRead_of_read {header : Header} (hbranch : parseBranchLine header.line = header.branch)
    (htracking : parseBranchTracking header.line = header.tracking) : HeaderRead header := by
  cases header with
  | detached => trivial
  | onBranch unborn name upstream =>
    have hupstream : ∀ found track, upstream = some (found, track) →
        unborn = false ∧ track ≠ .gone ∧ trim found.text = found.text := by
      rintro found track rfl
      exact upstream_read htracking
    refine ⟨trim_eq_self (fun unit hunit => ?_) (fun unit hunit => ?_), hupstream⟩
    · cases unborn with
      | true =>
        cases hunit
        rfl
      | false =>
        have hbegins := branchOf_begins (trim (name.text ++ upstreamText upstream))
        rw [← parseBranchLine_born, hbranch] at hbegins
        obtain ⟨rest, hrest⟩ := hbegins
        obtain ⟨first, others, hname⟩ := List.exists_cons_of_ne_nil name.nonempty
        have hfirst : first = unit := by
          rw [show (Header.onBranch false name upstream).body = name.text ++ upstreamText upstream from
            rfl, hname] at hunit
          exact Option.some.inj hunit
        refine @head_trim (name.text ++ upstreamText upstream) unit ?_
        rw [← hrest, ← hfirst]
        show (name.text ++ rest).head? = some first
        rw [hname]
        rfl
    · cases upstream with
      | none =>
        rw [show (Header.onBranch unborn name none).body =
          (if unborn then units "No commits yet on " else []) ++ (name.text ++ []) from rfl,
          List.append_nil, List.getLast?_append_of_ne_nil _ name.nonempty] at hunit
        exact name_last hbranch hunit
      | some found =>
        obtain ⟨up, track⟩ := found
        obtain ⟨rfl, -, hup⟩ := hupstream up track rfl
        have hbody : (Header.onBranch false name (some (up, track))).body =
            (name.text ++ (dots ++ up.text)) ++ track.text := by
          rw [List.append_assoc, List.append_assoc]
          rfl
        rw [hbody] at hunit
        by_cases hsync : track = .inSync
        · subst hsync
          rw [show Track.inSync.text = [] from rfl, List.append_nil, ← List.append_assoc,
            List.getLast?_append_of_ne_nil _ up.nonempty, ← hup] at hunit
          exact last_trim hunit
        · have hlast := Track.text_last hsync
          have hne : track.text ≠ [] := by
            intro hnil
            rw [hnil] at hlast
            cases hlast
          rw [List.getLast?_append_of_ne_nil _ hne, hlast] at hunit
          rw [← Option.some.inj hunit]
          rfl

/-- The header is read as it is exactly when it has no white space at its ends, and its upstream, if it
has one, is there, belongs to a born branch and has none. -/
theorem header_read_iff (header : Header) :
    (parseBranchLine header.line = header.branch ∧
      parseBranchTracking header.line = header.tracking) ↔ HeaderRead header :=
  ⟨fun h => headerRead_of_read h.1 h.2, header_read⟩

end Headers

end QuokyPlatform.CodeWork
