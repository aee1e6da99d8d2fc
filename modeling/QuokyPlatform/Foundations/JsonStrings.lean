import Mathlib.Tactic.Common

/-! # JSON strings over UTF-16

A string is its UTF-16 code units. The writer escapes a quotation mark, a backslash, the control
characters and every surrogate that is not half of a pair; everything else stands for itself. What it
writes is read back unit by unit, whatever follows the closing mark, and holds no control character. -/

namespace QuokyPlatform.JsonStrings

set_option autoImplicit false
set_option maxHeartbeats 250000

abbrev Unit16 := UInt16

/-! ## Writing -/

def isHigh (unit : Unit16) : Bool := 0xD800 ≤ unit && unit ≤ 0xDBFF

def isLow (unit : Unit16) : Bool := 0xDC00 ≤ unit && unit ≤ 0xDFFF

def hexDigit (value : ℕ) : Unit16 :=
  if value < 10 then UInt16.ofNat (0x30 + value) else UInt16.ofNat (0x57 + value)

/-- `\u` and four hexadecimal digits. -/
def longEscape (unit : Unit16) : List Unit16 :=
  [0x5C, 0x75, hexDigit (unit.toNat / 4096), hexDigit (unit.toNat / 256 % 16),
    hexDigit (unit.toNat / 16 % 16), hexDigit (unit.toNat % 16)]

/-- The escapes of one letter, with the letter. -/
def shortEscapes : List (Unit16 × Unit16) :=
  [(0x22, 0x22), (0x5C, 0x5C), (0x08, 0x62), (0x0C, 0x66), (0x0A, 0x6E), (0x0D, 0x72), (0x09, 0x74)]

/-- A unit that is not written as half of a pair. -/
def writeUnit (unit : Unit16) : List Unit16 :=
  match shortEscapes.lookup unit with
  | some letter => [0x5C, letter]
  | none => if unit < 0x20 || isHigh unit || isLow unit then longEscape unit else [unit]

def escape : List Unit16 → List Unit16
  | [] => []
  | [unit] => writeUnit unit
  | first :: second :: rest =>
    if isHigh first && isLow second then first :: second :: escape rest
    else writeUnit first ++ escape (second :: rest)

/-- The string between quotation marks. -/
def quote (text : List Unit16) : List Unit16 := 0x22 :: (escape text ++ [0x22])

/-! ## Reading -/

def hexValue (unit : Unit16) : ℕ := if unit < 0x3A then unit.toNat - 0x30 else unit.toNat - 0x57

/-- The unit a short escape stands for. -/
def unescape (letter : Unit16) : Unit16 :=
  ((shortEscapes.map Prod.swap).lookup letter).getD letter

def hexUnit (a b c d : Unit16) : Unit16 :=
  UInt16.ofNat (hexValue a * 4096 + hexValue b * 256 + hexValue c * 16 + hexValue d)

/-- What is left of a string of which a mark was read: its units up to the closing mark, and what
follows that. -/
def readString : List Unit16 → Option (List Unit16 × List Unit16)
  | [] => none
  | unit :: rest =>
    if unit = 0x22 then some ([], rest)
    else if unit ≠ 0x5C then (readString rest).map fun text => (unit :: text.1, text.2)
    else
      match rest with
      | [] => none
      | letter :: rest =>
        if letter ≠ 0x75 then (readString rest).map fun text => (unescape letter :: text.1, text.2)
        else
          match rest with
          | a :: b :: c :: d :: rest =>
            (readString rest).map fun text => (hexUnit a b c d :: text.1, text.2)
          | _ => none

/-! ## Reading what was written -/

theorem hexValue_hexDigit {value : ℕ} (h : value < 16) : hexValue (hexDigit value) = value := by
  have hall : ∀ value < 16, hexValue (hexDigit value) = value := by decide
  exact hall value h

theorem hexUnit_digits (unit : Unit16) :
    hexUnit (hexDigit (unit.toNat / 4096)) (hexDigit (unit.toNat / 256 % 16))
      (hexDigit (unit.toNat / 16 % 16)) (hexDigit (unit.toNat % 16)) = unit := by
  have hbound := unit.toNat_lt
  rw [hexUnit, hexValue_hexDigit (by omega), hexValue_hexDigit (by omega), hexValue_hexDigit (by omega),
    hexValue_hexDigit (by omega)]
  have hvalue : unit.toNat / 4096 * 4096 + unit.toNat / 256 % 16 * 256 + unit.toNat / 16 % 16 * 16 +
      unit.toNat % 16 = unit.toNat := by omega
  rw [hvalue, UInt16.ofNat_toNat]

theorem readString_mark (rest : List Unit16) : readString (0x22 :: rest) = some ([], rest) := by
  rw [readString.eq_def]
  rfl

theorem readString_long (unit : Unit16) (rest : List Unit16) :
    readString (longEscape unit ++ rest) = (readString rest).map fun text => (unit :: text.1, text.2) := by
  rw [readString.eq_def]
  simp only [longEscape, List.cons_append, List.nil_append, hexUnit_digits]
  rfl

/-- A unit that stands for itself. -/
theorem readString_plain {unit : Unit16} (rest : List Unit16) (hmark : unit ≠ 0x22) (hback : unit ≠ 0x5C) :
    readString (unit :: rest) = (readString rest).map fun text => (unit :: text.1, text.2) := by
  rw [readString.eq_def]
  simp only [if_neg hmark, if_pos hback]

theorem readString_short {letter : Unit16} (rest : List Unit16) (hne : letter ≠ 0x75) :
    readString (0x5C :: letter :: rest) =
      (readString rest).map fun text => (unescape letter :: text.1, text.2) := by
  rw [readString.eq_def]
  simp only [if_pos hne]
  rfl

theorem mem_of_lookup {unit letter : Unit16} {entries : List (Unit16 × Unit16)}
    (h : entries.lookup unit = some letter) : (unit, letter) ∈ entries := by
  obtain ⟨before, after, rfl, -⟩ := List.lookup_eq_some_iff.mp h
  exact List.mem_append_right _ List.mem_cons_self

theorem unescape_of_lookup {unit letter : Unit16} (h : shortEscapes.lookup unit = some letter) :
    unescape letter = unit ∧ letter ≠ 0x75 := by
  have hmem : (unit, letter) ∈ shortEscapes := mem_of_lookup h
  simp only [shortEscapes, List.mem_cons, Prod.mk.injEq, List.not_mem_nil, or_false] at hmem
  rcases hmem with ⟨rfl, rfl⟩ | ⟨rfl, rfl⟩ | ⟨rfl, rfl⟩ | ⟨rfl, rfl⟩ | ⟨rfl, rfl⟩ | ⟨rfl, rfl⟩ | ⟨rfl, rfl⟩ <;>
    decide

theorem letter_printed {unit letter : Unit16} (h : shortEscapes.lookup unit = some letter) : 0x20 ≤ letter := by
  have hmem : (unit, letter) ∈ shortEscapes := mem_of_lookup h
  simp only [shortEscapes, List.mem_cons, Prod.mk.injEq, List.not_mem_nil, or_false] at hmem
  rcases hmem with ⟨rfl, rfl⟩ | ⟨rfl, rfl⟩ | ⟨rfl, rfl⟩ | ⟨rfl, rfl⟩ | ⟨rfl, rfl⟩ | ⟨rfl, rfl⟩ | ⟨rfl, rfl⟩ <;>
    decide

theorem ne_of_lookup {unit : Unit16} (h : shortEscapes.lookup unit = none) : unit ≠ 0x22 ∧ unit ≠ 0x5C := by
  constructor <;>
  · rintro rfl
    cases h

theorem readString_writeUnit (unit : Unit16) (rest : List Unit16) :
    readString (writeUnit unit ++ rest) = (readString rest).map fun text => (unit :: text.1, text.2) := by
  unfold writeUnit
  cases hshort : shortEscapes.lookup unit with
  | some letter =>
    obtain ⟨hletter, hne⟩ := unescape_of_lookup hshort
    simp only [List.cons_append, List.nil_append]
    rw [readString_short rest hne, hletter]
  | none =>
    obtain ⟨hmark, hback⟩ := ne_of_lookup hshort
    dsimp only
    split
    · exact readString_long unit rest
    · exact readString_plain rest hmark hback

theorem ne_mark_of_surrogate {unit : Unit16} (h : 0xD800 ≤ unit) : unit ≠ 0x22 ∧ unit ≠ 0x5C := by
  constructor <;>
  · rintro rfl
    exact absurd h (by decide)

theorem ne_mark_of_pair {first second : Unit16} (h : (isHigh first && isLow second) = true) :
    (first ≠ 0x22 ∧ first ≠ 0x5C) ∧ second ≠ 0x22 ∧ second ≠ 0x5C := by
  simp only [isHigh, isLow, Bool.and_eq_true, decide_eq_true_eq] at h
  exact ⟨ne_mark_of_surrogate h.1.1, ne_mark_of_surrogate (UInt16.le_trans (by decide) h.2.1)⟩

/-- The string is read back, whatever follows its closing mark. -/
theorem readString_escape (text rest : List Unit16) :
    readString (escape text ++ 0x22 :: rest) = some (text, rest) := by
  induction text using escape.induct with
  | case1 => exact readString_mark rest
  | case2 unit =>
    rw [escape, readString_writeUnit, readString_mark]
    rfl
  | case3 first second text hpair ih =>
    obtain ⟨⟨hmark, hback⟩, hmark', hback'⟩ := ne_mark_of_pair hpair
    rw [escape, if_pos hpair, List.cons_append, List.cons_append, readString_plain _ hmark hback,
      readString_plain _ hmark' hback', ih]
    rfl
  | case4 first second text hpair ih =>
    rw [escape, if_neg hpair, List.append_assoc, readString_writeUnit, ih]
    rfl

/-- A written string is told apart from what follows it. -/
theorem quote_append_inj {text text' rest rest' : List Unit16}
    (h : quote text ++ rest = quote text' ++ rest') : text = text' ∧ rest = rest' := by
  simp only [quote, List.cons_append, List.append_assoc, List.nil_append, List.cons.injEq, true_and] at h
  have hread := congrArg readString h
  rw [readString_escape, readString_escape] at hread
  exact Prod.ext_iff.mp (Option.some.inj hread)

/-! ## No control character -/

theorem longEscape_printed (unit : Unit16) : ∀ written ∈ longEscape unit, 0x20 ≤ written := by
  have hdigit : ∀ value < 16, 0x20 ≤ hexDigit value := by decide
  have hbound := unit.toNat_lt
  intro written hmem
  simp only [longEscape, List.mem_cons, List.not_mem_nil, or_false] at hmem
  rcases hmem with rfl | rfl | rfl | rfl | rfl | rfl
  · decide
  · decide
  · exact hdigit _ (by omega)
  · exact hdigit _ (by omega)
  · exact hdigit _ (by omega)
  · exact hdigit _ (by omega)

theorem writeUnit_printed (unit : Unit16) : ∀ written ∈ writeUnit unit, 0x20 ≤ written := by
  intro written hmem
  unfold writeUnit at hmem
  cases hshort : shortEscapes.lookup unit with
  | some letter =>
    have hletter := letter_printed hshort
    rw [hshort] at hmem
    rcases List.mem_cons.mp hmem with rfl | hmem
    · decide
    · rw [List.mem_singleton.mp hmem]
      exact hletter
  | none =>
    rw [hshort] at hmem
    dsimp only at hmem
    split at hmem
    · exact longEscape_printed unit written hmem
    · rename_i hplain
      rw [List.mem_singleton.mp hmem]
      simp only [Bool.or_eq_true, decide_eq_true_eq, not_or] at hplain
      exact UInt16.not_lt.mp hplain.1.1

theorem escape_printed (text : List Unit16) : ∀ written ∈ escape text, 0x20 ≤ written := by
  induction text using escape.induct with
  | case1 => exact fun _ h => nomatch h
  | case2 unit => exact writeUnit_printed unit
  | case3 first second text hpair ih =>
    rw [escape, if_pos hpair]
    simp only [isHigh, isLow, Bool.and_eq_true, decide_eq_true_eq] at hpair
    intro written hmem
    rcases List.mem_cons.mp hmem with rfl | hmem
    · exact UInt16.le_trans (by decide) hpair.1.1
    · rcases List.mem_cons.mp hmem with rfl | hmem
      · exact UInt16.le_trans (by decide) hpair.2.1
      · exact ih written hmem
  | case4 first second text hpair ih =>
    rw [escape, if_neg hpair]
    intro written hmem
    rcases List.mem_append.mp hmem with hfirst | hrest
    · exact writeUnit_printed first written hfirst
    · exact ih written hrest

theorem quote_printed (text : List Unit16) : ∀ written ∈ quote text, 0x20 ≤ written := by
  intro written hmem
  rcases List.mem_cons.mp hmem with rfl | hmem
  · decide
  · rcases List.mem_append.mp hmem with hmem | hmem
    · exact escape_printed text written hmem
    · rw [List.mem_singleton.mp hmem]
      decide

end QuokyPlatform.JsonStrings
