import Mathlib.Data.List.Basic

/-!
# UTF-8 read as UTF-16

Bytes are decoded one after another. What is no character becomes the replacement character, and the
byte that ended it is read anew. A byte of ASCII always stands for itself, and no text is longer than
its bytes.
-/

namespace QuokyPlatform.Utf8
set_option autoImplicit false
set_option maxHeartbeats 250000

/-- A character of which `needed` bytes are missing; the next one is between the bounds. -/
structure Pending where
  needed : ℕ
  codePoint : ℕ
  lower : UInt8
  upper : UInt8
  continues : 0x80 ≤ lower

def replacement : UInt16 := 0xFFFD

/-- A code point as one unit or a surrogate pair. -/
def utf16 (codePoint : ℕ) : List UInt16 :=
  if codePoint < 0x10000 then [UInt16.ofNat codePoint]
  else
    [UInt16.ofNat (0xD800 + (codePoint - 0x10000) / 0x400),
      UInt16.ofNat (0xDC00 + (codePoint - 0x10000) % 0x400)]

/-- The first byte of a character. -/
def start (byte : UInt8) : List UInt16 × Option Pending :=
  if byte < 0x80 then ([byte.toUInt16], none)
  else if 0xC2 ≤ byte ∧ byte ≤ 0xDF then ([], some ⟨1, byte.toNat % 0x20, 0x80, 0xBF, by decide⟩)
  else if byte = 0xE0 then ([], some ⟨2, byte.toNat % 0x10, 0xA0, 0xBF, by decide⟩)
  else if byte = 0xED then ([], some ⟨2, byte.toNat % 0x10, 0x80, 0x9F, by decide⟩)
  else if 0xE1 ≤ byte ∧ byte ≤ 0xEF then ([], some ⟨2, byte.toNat % 0x10, 0x80, 0xBF, by decide⟩)
  else if byte = 0xF0 then ([], some ⟨3, byte.toNat % 0x08, 0x90, 0xBF, by decide⟩)
  else if 0xF1 ≤ byte ∧ byte ≤ 0xF3 then ([], some ⟨3, byte.toNat % 0x08, 0x80, 0xBF, by decide⟩)
  else if byte = 0xF4 then ([], some ⟨3, byte.toNat % 0x08, 0x80, 0x8F, by decide⟩)
  else ([replacement], none)

/-- A byte that continues a character. -/
def proceed (pending : Pending) (byte : UInt8) : List UInt16 × Option Pending :=
  let codePoint := pending.codePoint * 0x40 + byte.toNat % 0x40
  if pending.needed ≤ 1 then (utf16 codePoint, none)
  else ([], some ⟨pending.needed - 1, codePoint, 0x80, 0xBF, by decide⟩)

/-- One byte: the units it completes, and the character it leaves open. -/
def step : Option Pending → UInt8 → List UInt16 × Option Pending
  | none, byte => start byte
  | some pending, byte =>
    if pending.lower ≤ byte ∧ byte ≤ pending.upper then proceed pending byte
    else (replacement :: (start byte).1, (start byte).2)

/-- What an open character becomes when no byte continues it. -/
def flush : Option Pending → List UInt16
  | none => []
  | some _ => [replacement]

def decodeFrom : Option Pending → List UInt8 → List UInt16
  | pending, [] => flush pending
  | pending, byte :: rest => (step pending byte).1 ++ decodeFrom (step pending byte).2 rest

def decode (bytes : List UInt8) : List UInt16 := decodeFrom none bytes

/-! ## ASCII -/

theorem start_ascii {byte : UInt8} (h : byte < 0x80) : start byte = ([byte.toUInt16], none) := if_pos h

theorem step_ascii (pending : Option Pending) {byte : UInt8} (hbyte : byte < 0x80) :
    step pending byte = (flush pending ++ [byte.toUInt16], none) := by
  cases pending with
  | none => exact start_ascii hbyte
  | some found =>
    have hnot : ¬ (found.lower ≤ byte ∧ byte ≤ found.upper) := fun hrange =>
      UInt8.not_le.mpr hbyte (UInt8.le_trans found.continues hrange.1)
    rw [step, if_neg hnot, start_ascii hbyte]
    rfl

theorem decodeFrom_append_ascii (pending : Option Pending) (before : List UInt8) {byte : UInt8}
    (hbyte : byte < 0x80) (rest : List UInt8) :
    decodeFrom pending (before ++ byte :: rest) =
      decodeFrom pending before ++ byte.toUInt16 :: decode rest := by
  induction before generalizing pending with
  | nil =>
    show (step pending byte).1 ++ decodeFrom (step pending byte).2 rest = _
    rw [step_ascii pending hbyte]
    exact List.append_assoc _ _ _
  | cons first before ih =>
    rw [List.cons_append, decodeFrom, decodeFrom, ih, List.append_assoc]

theorem decode_ascii {ascii : List UInt8} (h : ∀ byte ∈ ascii, byte < 0x80) :
    decode ascii = ascii.map UInt8.toUInt16 := by
  induction ascii with
  | nil => rfl
  | cons byte ascii ih =>
    have hrest := decodeFrom_append_ascii none [] (h byte List.mem_cons_self) ascii
    rw [ih fun other hother => h other (List.mem_cons_of_mem _ hother)] at hrest
    exact hrest

/-- ASCII stands for itself, whatever stands around it. -/
theorem decode_append_ascii (before : List UInt8) {ascii : List UInt8}
    (hascii : ∀ byte ∈ ascii, byte < 0x80) (hne : ascii ≠ []) (rest : List UInt8) :
    decode (before ++ (ascii ++ rest)) = decode before ++ (ascii.map UInt8.toUInt16 ++ decode rest) := by
  induction ascii generalizing before with
  | nil => exact absurd rfl hne
  | cons byte ascii ih =>
    have hbyte := hascii byte List.mem_cons_self
    have hother : ∀ other ∈ ascii, other < 0x80 := fun other hmem =>
      hascii other (List.mem_cons_of_mem _ hmem)
    have hhead := decodeFrom_append_ascii none before hbyte (ascii ++ rest)
    rw [List.cons_append, decode, hhead]
    cases ascii with
    | nil => rfl
    | cons second ascii =>
      have htail := ih [] hother (List.cons_ne_nil _ _)
      rw [List.nil_append] at htail
      rw [htail]
      rfl

/-! ## Length -/

/-- An open character counts as one unit. -/
theorem length_start (byte : UInt8) :
    (start byte).1.length + (flush (start byte).2).length = 1 := by
  unfold start
  repeat' split
  all_goals rfl

theorem length_utf16 (codePoint : ℕ) : (utf16 codePoint).length ≤ 2 := by
  unfold utf16
  split
  · exact Nat.le_succ 1
  · exact Nat.le_refl 2

theorem length_proceed (pending : Pending) (byte : UInt8) :
    (proceed pending byte).1.length + (flush (proceed pending byte).2).length ≤ 2 := by
  unfold proceed
  simp only []
  split
  · exact length_utf16 _
  · exact Nat.le_succ 1

theorem length_step (pending : Option Pending) (byte : UInt8) :
    (step pending byte).1.length + (flush (step pending byte).2).length ≤
      (flush pending).length + 1 := by
  have hstart := length_start byte
  cases pending with
  | none => exact Nat.le_of_eq hstart
  | some found =>
    rw [step]
    split
    · exact length_proceed found byte
    · show (start byte).1.length + 1 + (flush (start byte).2).length ≤ 1 + 1
      omega

theorem length_decodeFrom (pending : Option Pending) (bytes : List UInt8) :
    (decodeFrom pending bytes).length ≤ (flush pending).length + bytes.length := by
  induction bytes generalizing pending with
  | nil => exact Nat.le_refl _
  | cons byte rest ih =>
    have hstep := length_step pending byte
    have hrest := ih (step pending byte).2
    rw [decodeFrom, List.length_append, List.length_cons]
    omega

theorem length_decode (bytes : List UInt8) : (decode bytes).length ≤ bytes.length := by
  have h := length_decodeFrom none bytes
  simp only [flush, List.length_nil, Nat.zero_add] at h
  exact h

end QuokyPlatform.Utf8
