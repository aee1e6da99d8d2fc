import QuokyPlatform.Foundations.Tiling

/-!
# UTF-16 offsets and code-point offsets

A text is its UTF-16 code units, as the language stores it; a lone surrogate is a code point of
its own. `CodePointIndex` is the table the chunker builds once per text. Its two maps are inverse
to each other between the code-point offsets and the positions that do not split a pair.
-/

namespace QuokyPlatform.Chunking
set_option autoImplicit false
set_option maxHeartbeats 250000

abbrev CodeUnit := UInt16

abbrev JsString := List CodeUnit

instance : LawfulBEq JsString := inferInstance

/-- The units of a text without characters beyond the basic plane. -/
def units (text : String) : JsString := text.toList.map fun c => UInt16.ofNat c.toNat

def isHighSurrogate (unit : CodeUnit) : Bool := 0xD800 ≤ unit && unit ≤ 0xDBFF

def isLowSurrogate (unit : CodeUnit) : Bool := 0xDC00 ≤ unit && unit ≤ 0xDFFF

/-- The two units are one code point above `0xffff`. -/
def isPair (first second : CodeUnit) : Bool := isHighSurrogate first && isLowSurrogate second

/-- The code points of a text, as the iteration over a string yields them. -/
def codePoints : JsString → List JsString
  | [] => []
  | [unit] => [[unit]]
  | first :: second :: rest =>
    if isPair first second then [first, second] :: codePoints rest
    else [first] :: codePoints (second :: rest)

/-- Code points in a string. -/
def codePointLength : JsString → ℕ
  | [] => 0
  | [_] => 1
  | first :: second :: rest =>
    if isPair first second then codePointLength rest + 1
    else codePointLength (second :: rest) + 1

/-! ## The index -/

structure CodePointIndex where
  text : JsString
  length : ℕ
  /-- Code-point offset to UTF-16 offset (`length + 1` entries). -/
  units : Option (List ℕ)
  /-- UTF-16 offset to code-point offset (`text.length + 1` entries). -/
  points : Option (List ℕ)

/-- The UTF-16 offset of every code point from `position` on, and the end. -/
def unitEntries (position : ℕ) : JsString → List ℕ
  | [] => [position]
  | [_] => [position, position + 1]
  | first :: second :: rest =>
    if isPair first second then position :: unitEntries (position + 2) rest
    else position :: unitEntries (position + 1) (second :: rest)

/-- The code-point offset of every UTF-16 offset, `count` code points being before the text. -/
def pointEntries (count : ℕ) : JsString → List ℕ
  | [] => [count]
  | [_] => [count, count + 1]
  | first :: second :: rest =>
    if isPair first second then count :: count :: pointEntries (count + 1) rest
    else count :: pointEntries (count + 1) (second :: rest)

namespace CodePointIndex

def of (text : JsString) : CodePointIndex :=
  if text.any isHighSurrogate then
    { text, length := (unitEntries 0 text).length - 1
      units := some (unitEntries 0 text), points := some (pointEntries 0 text) }
  else { text, length := text.length, units := none, points := none }

/-- The UTF-16 offset of a code-point offset. -/
def toUnit (index : CodePointIndex) (point : ℕ) : ℕ :=
  match index.units with
  | none => point
  | some units => units.getD point index.text.length

/-- The code-point offset of a UTF-16 offset. -/
def toPoint (index : CodePointIndex) (unit : ℕ) : ℕ :=
  match index.points with
  | none => unit
  | some points => points.getD unit index.length

/-- Code points between two UTF-16 offsets. -/
def countUnits (index : CodePointIndex) (startUnit endUnit : ℕ) : ℕ :=
  index.toPoint endUnit - index.toPoint startUnit

/-- The text of a code-point range. -/
def slice (index : CodePointIndex) (start stop : ℕ) : JsString :=
  Range.slice ⟨index.toUnit start, index.toUnit stop⟩ index.text

end CodePointIndex

/-! ## Positions between two code points -/

/-- The position lies inside a surrogate pair. -/
def splitsPair (text : JsString) : ℕ → Bool
  | 0 => false
  | before + 1 =>
    match text[before]?, text[before + 1]? with
    | some first, some second => isPair first second
    | _, _ => false

/-- The position is an offset of the text at which no code point is cut. -/
structure IsBoundary (text : JsString) (position : ℕ) : Prop where
  inside : position ≤ text.length
  whole : splitsPair text position = false

theorem isBoundary_zero (text : JsString) : IsBoundary text 0 := ⟨Nat.zero_le _, rfl⟩

theorem isBoundary_length (text : JsString) : IsBoundary text text.length := by
  refine ⟨le_refl _, ?_⟩
  cases text with
  | nil => rfl
  | cons unit rest => simp [splitsPair]

/-- A cut right after a unit that is no high surrogate splits nothing. -/
theorem isBoundary_after {text : JsString} {position : ℕ} {unit : CodeUnit}
    (hunit : text[position]? = some unit) (hlow : isHighSurrogate unit = false) :
    IsBoundary text (position + 1) := by
  refine ⟨?_, ?_⟩
  · exact (List.getElem?_eq_some_iff.mp hunit).1
  · rw [splitsPair, hunit]
    cases text[position + 1]? with
    | none => rfl
    | some second => simp [isPair, hlow]

/-- A boundary of a slice between two boundaries is a boundary of the text. -/
theorem IsBoundary.of_slice {text : JsString} {range : Range} {position : ℕ}
    (hstart : IsBoundary text range.start) (hstop : IsBoundary text range.stop)
    (hle : range.start ≤ range.stop) (h : IsBoundary (range.slice text) position) :
    IsBoundary text (range.start + position) := by
  have hlength : (range.slice text).length = range.stop - range.start := by
    have hinside := hstop.inside
    simp only [Range.slice, List.length_take, List.length_drop]
    omega
  have hinside : position ≤ range.stop - range.start := hlength ▸ h.inside
  by_cases hlast : position = range.stop - range.start
  · rw [hlast, Nat.add_sub_cancel' hle]
    exact hstop
  · refine ⟨by have := hstop.inside; omega, ?_⟩
    cases position with
    | zero => exact hstart.whole
    | succ before =>
      have hget : ∀ k, k < range.stop - range.start →
          (range.slice text)[k]? = text[range.start + k]? := by
        intro k hk
        simp [Range.slice, hk]
      have hwhole := h.whole
      rw [splitsPair, hget before (by omega), hget (before + 1) (by omega)] at hwhole
      exact hwhole

theorem isHighSurrogate_of_isLowSurrogate {unit : CodeUnit} (h : isLowSurrogate unit = true) :
    isHighSurrogate unit = false := by
  simp only [isLowSurrogate, isHighSurrogate, Bool.and_eq_true, decide_eq_true_eq,
    UInt16.le_iff_toNat_le] at *
  simp only [Bool.and_eq_false_iff, decide_eq_false_iff_not]
  right
  have hlow : 0xDC00 ≤ unit.toNat := h.1
  intro hhigh
  have hle : unit.toNat ≤ 0xDBFF := hhigh
  omega

theorem isBoundary_cons_single {first : CodeUnit} {rest : JsString} {position : ℕ}
    (hpair : ∀ second, rest.head? = some second → isPair first second = false) :
    IsBoundary (first :: rest) (position + 1) ↔ IsBoundary rest position := by
  have hwhole : splitsPair (first :: rest) (position + 1) = splitsPair rest position := by
    cases position with
    | zero =>
      cases rest with
      | nil => rfl
      | cons second rest => exact hpair second rfl
    | succ before => simp [splitsPair]
  constructor
  · intro h
    exact ⟨by have := h.inside; simpa using this, hwhole ▸ h.whole⟩
  · intro h
    exact ⟨by have := h.inside; simpa using this, hwhole.trans h.whole⟩

theorem isBoundary_cons_pair {first second : CodeUnit} {rest : JsString} {position : ℕ}
    (hpair : isPair first second = true) :
    IsBoundary (first :: second :: rest) (position + 2) ↔ IsBoundary rest position := by
  have hlow : isHighSurrogate second = false := by
    apply isHighSurrogate_of_isLowSurrogate
    simp only [isPair, Bool.and_eq_true] at hpair
    exact hpair.2
  have hwhole : splitsPair (first :: second :: rest) (position + 2) = splitsPair rest position := by
    cases position with
    | zero =>
      cases rest with
      | nil => rfl
      | cons third rest => simp [splitsPair, isPair, hlow]
    | succ before => simp [splitsPair]
  constructor
  · intro h
    exact ⟨by have := h.inside; simpa using this, hwhole ▸ h.whole⟩
  · intro h
    exact ⟨by have := h.inside; simpa using this, hwhole.trans h.whole⟩

theorem not_isBoundary_inside {first second : CodeUnit} {rest : JsString}
    (hpair : isPair first second = true) : ¬ IsBoundary (first :: second :: rest) 1 := by
  intro h
  have hwhole := h.whole
  simp [splitsPair, hpair] at hwhole

/-! ## The two maps are inverse -/

/-- The entries that the loop of the index writes for a position and the code point that starts
there. -/
def Linked (position count : ℕ) (text : JsString) (unit point : ℕ) : Prop :=
  (unitEntries position text)[point]? = some (position + unit) ∧
    (pointEntries count text)[unit]? = some (count + point)

theorem linked_zero (position count : ℕ) (text : JsString) : Linked position count text 0 0 := by
  fun_cases codePoints text <;> simp [Linked, unitEntries, pointEntries, *]

theorem Linked.cons_pair {first second : CodeUnit} {rest : JsString} {position count k p : ℕ}
    (hpair : isPair first second = true) (h : Linked (position + 2) (count + 1) rest k p) :
    Linked position count (first :: second :: rest) (k + 2) (p + 1) := by
  obtain ⟨hunit, hpoint⟩ := h
  simp only [Linked, unitEntries, pointEntries, hpair, if_true, List.getElem?_cons_succ]
  rw [hunit, hpoint]
  constructor <;> congr 1 <;> omega

theorem Linked.cons_single {first second : CodeUnit} {rest : JsString} {position count k p : ℕ}
    (hpair : isPair first second = false)
    (h : Linked (position + 1) (count + 1) (second :: rest) k p) :
    Linked position count (first :: second :: rest) (k + 1) (p + 1) := by
  obtain ⟨hunit, hpoint⟩ := h
  simp only [Linked, unitEntries, pointEntries, hpair, Bool.false_eq_true, if_false,
    List.getElem?_cons_succ]
  rw [hunit, hpoint]
  constructor <;> congr 1 <;> omega

/-- Every boundary is the start of a code point, or the end. -/
theorem linked_of_isBoundary {text : JsString} (position count : ℕ) {k : ℕ}
    (h : IsBoundary text k) : ∃ p, Linked position count text k p := by
  induction text using codePoints.induct generalizing position count k with
  | case1 =>
    have hk : k = 0 := by simpa using h.inside
    subst hk
    exact ⟨0, linked_zero position count _⟩
  | case2 unit =>
    have hk : k ≤ 1 := by simpa using h.inside
    cases Nat.le_one_iff_eq_zero_or_eq_one.mp hk with
    | inl hzero =>
      subst hzero
      exact ⟨0, linked_zero position count _⟩
    | inr hone => exact ⟨1, by simp [Linked, unitEntries, pointEntries, hone]⟩
  | case3 first second rest hpair ih =>
    match k, h with
    | 0, _ => exact ⟨0, linked_zero position count _⟩
    | 1, h => exact absurd h (not_isBoundary_inside hpair)
    | k + 2, h =>
      obtain ⟨p, hlinked⟩ := ih (position + 2) (count + 1) ((isBoundary_cons_pair hpair).mp h)
      exact ⟨p + 1, hlinked.cons_pair hpair⟩
  | case4 first second rest hpair ih =>
    have hsingle : isPair first second = false := by simpa using hpair
    cases k with
    | zero => exact ⟨0, linked_zero position count _⟩
    | succ k =>
      have hrest : IsBoundary (second :: rest) k :=
        (isBoundary_cons_single fun _ heq => by cases heq; exact hsingle).mp h
      obtain ⟨p, hlinked⟩ := ih (position + 1) (count + 1) hrest
      exact ⟨p + 1, hlinked.cons_single hsingle⟩

/-- Every code-point offset has its boundary. -/
theorem linked_of_le {text : JsString} (position count : ℕ) {p : ℕ}
    (h : p ≤ codePointLength text) : ∃ k, IsBoundary text k ∧ Linked position count text k p := by
  induction text using codePoints.induct generalizing position count p with
  | case1 =>
    have hp : p = 0 := by simpa [codePointLength] using h
    subst hp
    exact ⟨0, isBoundary_zero _, linked_zero position count _⟩
  | case2 unit =>
    cases Nat.le_one_iff_eq_zero_or_eq_one.mp h with
    | inl hzero =>
      subst hzero
      exact ⟨0, isBoundary_zero _, linked_zero position count _⟩
    | inr hone =>
      refine ⟨1, isBoundary_length [unit], ?_⟩
      simp [Linked, unitEntries, pointEntries, hone]
  | case3 first second rest hpair ih =>
    cases p with
    | zero => exact ⟨0, isBoundary_zero _, linked_zero position count _⟩
    | succ p =>
      have hp : p ≤ codePointLength rest := by simpa [codePointLength, hpair] using h
      obtain ⟨k, hk, hlinked⟩ := ih (position + 2) (count + 1) hp
      exact ⟨k + 2, (isBoundary_cons_pair hpair).mpr hk, hlinked.cons_pair hpair⟩
  | case4 first second rest hpair ih =>
    have hsingle : isPair first second = false := by simpa using hpair
    cases p with
    | zero => exact ⟨0, isBoundary_zero _, linked_zero position count _⟩
    | succ p =>
      have hp : p ≤ codePointLength (second :: rest) := by
        simpa [codePointLength, hsingle] using h
      obtain ⟨k, hk, hlinked⟩ := ih (position + 1) (count + 1) hp
      refine ⟨k + 1, (isBoundary_cons_single fun _ heq => ?_).mpr hk, hlinked.cons_single hsingle⟩
      cases heq
      exact hsingle

theorem unitEntries_length (position : ℕ) (text : JsString) :
    (unitEntries position text).length = codePointLength text + 1 := by
  fun_induction unitEntries position text <;> simp [codePointLength, *]

theorem le_of_mem_pointEntries {count value : ℕ} {text : JsString}
    (h : value ∈ pointEntries count text) : count ≤ value := by
  fun_induction pointEntries count text with
  | case1 | case2 => simp at h; omega
  | case3 count first second rest hpair ih =>
    simp only [List.mem_cons] at h
    obtain rfl | rfl | h := h
    · exact le_refl _
    · exact le_refl _
    · have := ih h
      omega
  | case4 count first second rest hpair ih =>
    cases List.mem_cons.mp h with
    | inl heq => exact heq.ge
    | inr hmem =>
      have := ih hmem
      omega

theorem pointEntries_sorted (count : ℕ) (text : JsString) :
    (pointEntries count text).Pairwise (· ≤ ·) := by
  fun_induction pointEntries count text with
  | case1 | case2 => simp
  | case3 count first second rest hpair ih =>
    have hle : ∀ value ∈ pointEntries (count + 1) rest, count ≤ value := fun _ hmem =>
      (Nat.le_succ count).trans (le_of_mem_pointEntries hmem)
    simp only [List.pairwise_cons, List.mem_cons, forall_eq_or_imp]
    exact ⟨⟨le_refl _, hle⟩, hle, ih⟩
  | case4 count first second rest hpair ih =>
    simp only [List.pairwise_cons]
    exact ⟨fun _ hmem => (Nat.le_succ count).trans (le_of_mem_pointEntries hmem), ih⟩

theorem codePointLength_of_no_high {text : JsString} (h : text.any isHighSurrogate = false) :
    codePointLength text = text.length := by
  fun_induction codePointLength text with
  | case1 | case2 => rfl
  | case3 first second rest hpair ih =>
    simp only [isPair, Bool.and_eq_true] at hpair
    simp [hpair.1] at h
  | case4 first second rest hpair ih =>
    simp only [List.any_cons, Bool.or_eq_false_iff] at h ih
    simpa using ih h.2

/-! ## Counting between boundaries -/

@[simp] theorem codePointLength_nil : codePointLength [] = 0 := rfl

theorem codePointLength_le_append (text more : JsString) :
    codePointLength text ≤ codePointLength (text ++ more) := by
  fun_induction codePointLength text with
  | case1 => exact Nat.zero_le _
  | case2 unit =>
    cases more with
    | nil => exact le_refl _
    | cons second rest =>
      simp only [List.cons_append, List.nil_append, codePointLength]
      split <;> omega
  | case3 first second rest hpair ih =>
    simpa [codePointLength, hpair] using ih
  | case4 first second rest hpair ih =>
    simpa [codePointLength, hpair] using ih

theorem codePointLength_cons_single {first : CodeUnit} {rest : JsString}
    (hpair : ∀ second, rest.head? = some second → isPair first second = false) :
    codePointLength (first :: rest) = codePointLength rest + 1 := by
  cases rest with
  | nil => rfl
  | cons second rest => simp [codePointLength, hpair second rfl]

theorem codePointLength_take_cons {first second : CodeUnit} {rest : JsString}
    (hsingle : isPair first second = false) (k : ℕ) :
    codePointLength ((first :: second :: rest).take (k + 1)) =
      codePointLength ((second :: rest).take k) + 1 := by
  apply codePointLength_cons_single
  intro third hthird
  cases k with
  | zero => cases hthird
  | succ k =>
    cases hthird
    exact hsingle

/-- The entry of a boundary counts the code points before it. -/
theorem linked_take {text : JsString} (position count : ℕ) {k : ℕ} (h : IsBoundary text k) :
    Linked position count text k (codePointLength (text.take k)) := by
  induction text using codePoints.induct generalizing position count k with
  | case1 =>
    have hk : k = 0 := by simpa using h.inside
    simpa [hk] using linked_zero position count []
  | case2 unit =>
    have hk : k ≤ 1 := by simpa using h.inside
    cases Nat.le_one_iff_eq_zero_or_eq_one.mp hk with
    | inl hzero => simpa [hzero] using linked_zero position count [unit]
    | inr hone => simp [Linked, unitEntries, pointEntries, hone, codePointLength]
  | case3 first second rest hpair ih =>
    match k, h with
    | 0, _ => simpa using linked_zero position count (first :: second :: rest)
    | 1, h => exact absurd h (not_isBoundary_inside hpair)
    | k + 2, h =>
      have hrest := ih (position + 2) (count + 1) ((isBoundary_cons_pair hpair).mp h)
      simpa [codePointLength, hpair] using hrest.cons_pair hpair
  | case4 first second rest hpair ih =>
    have hsingle : isPair first second = false := by simpa using hpair
    cases k with
    | zero => simpa using linked_zero position count (first :: second :: rest)
    | succ k =>
      have hboundary : IsBoundary (second :: rest) k :=
        (isBoundary_cons_single fun _ heq => by cases heq; exact hsingle).mp h
      have hrest := (ih (position + 1) (count + 1) hboundary).cons_single hsingle
      rw [codePointLength_take_cons hsingle k]
      exact hrest

namespace CodePointIndex
variable {text : JsString}

@[simp] theorem of_text : (of text).text = text := by
  unfold of
  split <;> rfl

theorem of_length : (of text).length = codePointLength text := by
  unfold of
  split
  · simp [unitEntries_length]
  · rename_i hnone
    exact (codePointLength_of_no_high (by simpa using hnone)).symm

/-- What the two tables of a text say about a position between two code points. -/
theorem linked {k p : ℕ} (h : Linked 0 0 text k p) (hany : text.any isHighSurrogate = true) :
    (of text).toPoint k = p ∧ (of text).toUnit p = k := by
  obtain ⟨hunit, hpoint⟩ := h
  simp [of, hany, toPoint, toUnit, List.getD_eq_getElem?_getD, hunit, hpoint]

theorem exists_point {k : ℕ} (h : IsBoundary text k) :
    ∃ p, p ≤ (of text).length ∧ (of text).toPoint k = p ∧ (of text).toUnit p = k := by
  by_cases hany : text.any isHighSurrogate = true
  · obtain ⟨p, hlinked⟩ := linked_of_isBoundary 0 0 h
    have hp : p < (unitEntries 0 text).length := (List.getElem?_eq_some_iff.mp hlinked.1).1
    rw [unitEntries_length] at hp
    exact ⟨p, by rw [of_length]; omega, linked hlinked hany⟩
  · exact ⟨k, by simpa [of, hany] using h.inside, by simp [of, hany, toPoint, toUnit]⟩

theorem exists_unit {p : ℕ} (h : p ≤ (of text).length) :
    ∃ k, IsBoundary text k ∧ (of text).toPoint k = p ∧ (of text).toUnit p = k := by
  rw [of_length] at h
  obtain ⟨k, hk, hlinked⟩ := linked_of_le 0 0 h
  by_cases hany : text.any isHighSurrogate = true
  · exact ⟨k, hk, linked hlinked hany⟩
  · rw [codePointLength_of_no_high (by simpa using hany)] at h
    refine ⟨p, ⟨h, ?_⟩, by simp [of, hany, toPoint, toUnit]⟩
    cases p with
    | zero => rfl
    | succ before =>
      have hlow : isHighSurrogate text[before] = false := by
        simp only [List.any_eq_true, not_exists, not_and, Bool.not_eq_true] at hany
        exact hany _ (List.getElem_mem _)
      exact (isBoundary_after (List.getElem?_eq_getElem h) hlow).whole

theorem toUnit_toPoint {k : ℕ} (h : IsBoundary text k) :
    (of text).toUnit ((of text).toPoint k) = k := by
  obtain ⟨p, -, hpoint, hunit⟩ := exists_point h
  rw [hpoint, hunit]

theorem toPoint_toUnit {p : ℕ} (h : p ≤ (of text).length) :
    (of text).toPoint ((of text).toUnit p) = p := by
  obtain ⟨k, -, hpoint, hunit⟩ := exists_unit h
  rw [hunit, hpoint]

theorem toUnit_isBoundary {p : ℕ} (h : p ≤ (of text).length) :
    IsBoundary text ((of text).toUnit p) := by
  obtain ⟨k, hk, -, hunit⟩ := exists_unit h
  exact hunit ▸ hk

theorem toPoint_le {k : ℕ} (h : IsBoundary text k) :
    (of text).toPoint k ≤ (of text).length := by
  obtain ⟨p, hp, hpoint, -⟩ := exists_point h
  exact hpoint ▸ hp

theorem toPoint_mono {k l : ℕ} (hk : IsBoundary text k) (hl : IsBoundary text l) (h : k ≤ l) :
    (of text).toPoint k ≤ (of text).toPoint l := by
  by_cases hany : text.any isHighSurrogate = true
  · obtain ⟨p, hp⟩ := linked_of_isBoundary 0 0 hk
    obtain ⟨q, hq⟩ := linked_of_isBoundary 0 0 hl
    rw [(linked hp hany).1, (linked hq hany).1]
    obtain ⟨hklt, hkp⟩ := List.getElem?_eq_some_iff.mp hp.2
    obtain ⟨hllt, hlq⟩ := List.getElem?_eq_some_iff.mp hq.2
    obtain rfl | hlt := Nat.eq_or_lt_of_le h
    · omega
    · have hsorted := List.pairwise_iff_getElem.mp (pointEntries_sorted 0 text) k l hklt hllt hlt
      omega
  · simpa [of, hany, toPoint] using h

/-- The code-point offsets are strictly increasing along the boundaries. -/
theorem toPoint_lt {k l : ℕ} (hk : IsBoundary text k) (hl : IsBoundary text l) (h : k < l) :
    (of text).toPoint k < (of text).toPoint l := by
  have hle := toPoint_mono hk hl h.le
  have hne : (of text).toPoint k ≠ (of text).toPoint l := by
    intro heq
    have hunits := congrArg (of text).toUnit heq
    rw [toUnit_toPoint hk, toUnit_toPoint hl] at hunits
    omega
  omega

theorem toUnit_mono {p q : ℕ} (hq : q ≤ (of text).length) (h : p ≤ q) :
    (of text).toUnit p ≤ (of text).toUnit q := by
  by_contra hlt
  have hpoints := toPoint_mono (toUnit_isBoundary hq) (toUnit_isBoundary (h.trans hq))
    (Nat.le_of_not_le hlt)
  rw [toPoint_toUnit hq, toPoint_toUnit (h.trans hq)] at hpoints
  have heq : p = q := by omega
  exact hlt (heq ▸ le_refl _)

theorem toPoint_zero : (of text).toPoint 0 = 0 := by
  by_cases hany : text.any isHighSurrogate = true
  · exact (linked (linked_zero 0 0 text) hany).1
  · simp [of, hany, toPoint]

theorem toUnit_zero : (of text).toUnit 0 = 0 := by
  have h := toUnit_toPoint (isBoundary_zero text)
  rwa [toPoint_zero] at h

/-- The last boundary is the end of the text. -/
theorem toUnit_length : (of text).toUnit (of text).length = text.length := by
  obtain ⟨p, hp, -, hunit⟩ := exists_point (isBoundary_length text)
  have hle := toUnit_mono (le_refl _) hp
  have hinside : (of text).toUnit (of text).length ≤ text.length :=
    (toUnit_isBoundary (le_refl _)).inside
  omega

theorem toPoint_length : (of text).toPoint text.length = (of text).length := by
  rw [← toUnit_length]
  exact toPoint_toUnit (le_refl _)

/-- The code-point offset of a boundary counts the code points before it. -/
theorem toPoint_eq_take {k : ℕ} (h : IsBoundary text k) :
    (of text).toPoint k = codePointLength (text.take k) := by
  by_cases hany : text.any isHighSurrogate = true
  · exact (linked (linked_take 0 0 h) hany).1
  · have hnone : (text.take k).any isHighSurrogate = false := by
      simp only [Bool.not_eq_true, List.any_eq_false] at hany ⊢
      exact fun unit hunit => hany unit (List.mem_of_mem_take hunit)
    have hinside := h.inside
    rw [codePointLength_of_no_high hnone, List.length_take, Nat.min_eq_left hinside]
    simp [of, hany, toPoint]

/-- The code points before a boundary and those after it are all the code points. -/
theorem codePointLength_split {k : ℕ} (h : IsBoundary text k) :
    codePointLength text = codePointLength (text.take k) + codePointLength (text.drop k) := by
  induction text using codePoints.induct generalizing k with
  | case1 => simp [codePointLength]
  | case2 unit =>
    have hk : k ≤ 1 := by simpa using h.inside
    cases Nat.le_one_iff_eq_zero_or_eq_one.mp hk with
    | inl hzero => simp [hzero, codePointLength]
    | inr hone => simp [hone, codePointLength]
  | case3 first second rest hpair ih =>
    match k, h with
    | 0, _ => simp [codePointLength]
    | 1, h => exact absurd h (not_isBoundary_inside hpair)
    | k + 2, h =>
      have hrest := ih ((isBoundary_cons_pair hpair).mp h)
      simp only [List.take_succ_cons, List.drop_succ_cons, codePointLength, hpair, if_true]
      omega
  | case4 first second rest hpair ih =>
    have hsingle : isPair first second = false := by simpa using hpair
    cases k with
    | zero => simp [codePointLength]
    | succ k =>
      have hboundary : IsBoundary (second :: rest) k :=
        (isBoundary_cons_single fun _ heq => by cases heq; exact hsingle).mp h
      have hrest := ih hboundary
      rw [codePointLength_take_cons hsingle k, List.drop_succ_cons]
      simp only [codePointLength, hsingle, Bool.false_eq_true, if_false]
      omega

end CodePointIndex

end QuokyPlatform.Chunking
