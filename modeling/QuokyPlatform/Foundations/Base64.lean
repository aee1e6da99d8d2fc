import Mathlib.Data.List.Basic
import Mathlib.Data.Nat.Notation
import Mathlib.Tactic.Common

/-! # Base64

Three bytes as four letters of an alphabet of sixty-four, the last group padded. Reading skips what
is not a letter, the padding included, and reads the two letters of the URL alphabet as well; bits
that fill no byte are dropped. -/

namespace QuokyPlatform.Base64

set_option autoImplicit false
set_option maxHeartbeats 250000

def alphabet : List Char :=
  "ABCDEFGHIJKLMNOPQRSTUVWXYZabcdefghijklmnopqrstuvwxyz0123456789+/".toList

def letter (sextet : ℕ) : Char := alphabet.getD sextet '='

def sextet (c : Char) : Option ℕ :=
  if c.isUpper then some (c.toNat - 65)
  else if c.isLower then some (c.toNat - 71)
  else if c.isDigit then some (c.toNat + 4)
  else if c = '+' ∨ c = '-' then some 62
  else if c = '/' ∨ c = '_' then some 63
  else none

/-- The letters of three bytes, as one number of twenty-four bits. -/
def letters (n : ℕ) : List Char :=
  [letter (n / 262144), letter (n / 4096 % 64), letter (n / 64 % 64), letter (n % 64)]

def encode : List UInt8 → List Char
  | a :: b :: c :: rest => letters (a.toNat * 65536 + b.toNat * 256 + c.toNat) ++ encode rest
  | [a, b] => (letters (a.toNat * 65536 + b.toNat * 256)).take 3 ++ ['=']
  | [a] => (letters (a.toNat * 65536)).take 2 ++ ['=', '=']
  | [] => []

def bytesOf : List ℕ → List UInt8
  | p :: q :: r :: s :: rest =>
    UInt8.ofNat (p * 4 + q / 16) :: UInt8.ofNat (q % 16 * 16 + r / 4) ::
      UInt8.ofNat (r % 4 * 64 + s) :: bytesOf rest
  | [p, q, r] => [UInt8.ofNat (p * 4 + q / 16), UInt8.ofNat (q % 16 * 16 + r / 4)]
  | [p, q] => [UInt8.ofNat (p * 4 + q / 16)]
  | _ => []

def decode (text : List Char) : List UInt8 := bytesOf (text.filterMap sextet)

/-! ## Reading back -/

theorem sextet_letter : ∀ n < 64, sextet (letter n) = some n := by
  decide +kernel

theorem ofNat_eq {byte : UInt8} {n : ℕ} (h : n = byte.toNat) : UInt8.ofNat n = byte := by
  rw [h, UInt8.ofNat_toNat]

theorem sextets_letters {n : ℕ} (h : n < 16777216) (rest : List Char) :
    (letters n ++ rest).filterMap sextet =
      n / 262144 :: n / 4096 % 64 :: n / 64 % 64 :: n % 64 :: rest.filterMap sextet := by
  simp only [letters, List.cons_append, List.nil_append]
  rw [List.filterMap_cons_some (sextet_letter _ (by omega)),
    List.filterMap_cons_some (sextet_letter _ (by omega)),
    List.filterMap_cons_some (sextet_letter _ (by omega)),
    List.filterMap_cons_some (sextet_letter _ (by omega))]

/-- What was written is read back. -/
theorem decode_encode : ∀ bytes : List UInt8, decode (encode bytes) = bytes
  | [] => rfl
  | [a] => by
    have ha := a.toNat_lt
    have hpad : [('=' : Char), '='].filterMap sextet = [] := by decide +kernel
    simp only [decode, encode, letters, List.take_succ_cons, List.take_zero, List.cons_append,
      List.nil_append]
    rw [List.filterMap_cons_some (sextet_letter _ (by omega)),
      List.filterMap_cons_some (sextet_letter _ (by omega)), hpad]
    simp only [bytesOf, List.cons.injEq, and_true]
    exact ofNat_eq (by omega)
  | [a, b] => by
    have ha := a.toNat_lt
    have hb := b.toNat_lt
    have hpad : [('=' : Char)].filterMap sextet = [] := by decide +kernel
    simp only [decode, encode, letters, List.take_succ_cons, List.take_zero, List.cons_append,
      List.nil_append]
    rw [List.filterMap_cons_some (sextet_letter _ (by omega)),
      List.filterMap_cons_some (sextet_letter _ (by omega)),
      List.filterMap_cons_some (sextet_letter _ (by omega)), hpad]
    simp only [bytesOf, List.cons.injEq, and_true]
    exact ⟨ofNat_eq (by omega), ofNat_eq (by omega)⟩
  | a :: b :: c :: rest => by
    have ha := a.toNat_lt
    have hb := b.toNat_lt
    have hc := c.toNat_lt
    have ih := decode_encode rest
    rw [decode] at ih ⊢
    rw [encode, sextets_letters (by omega), bytesOf, ih]
    congr 1
    · exact ofNat_eq (by omega)
    · congr 1
      · exact ofNat_eq (by omega)
      · congr 1
        exact ofNat_eq (by omega)

end QuokyPlatform.Base64
