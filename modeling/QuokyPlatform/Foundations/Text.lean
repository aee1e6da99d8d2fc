import Mathlib.Algebra.Order.Ring.Nat
import Mathlib.Data.Nat.Notation
import Mathlib.Tactic.Basic

/-! # Texts

What the programs ask of a text of their host: its length, and which characters of it count as
white space, control characters or digits. -/

namespace QuokyPlatform

set_option autoImplicit false
set_option maxHeartbeats 250000

/-- An opaque identifier. -/
abbrev Id := String

/-- `String.prototype.length`: UTF-16 code units. -/
def utf16Length (s : String) : ℕ :=
  (s.toList.map fun c => if 0x10000 ≤ c.toNat then 2 else 1).sum

/-- White space and line terminators, as `trim` removes them. -/
def isTrimmed (c : Char) : Bool :=
  let n := c.toNat
  (0x9 ≤ n && n ≤ 0xd) || n == 0x20 || n == 0xa0 || n == 0x1680 || (0x2000 ≤ n && n ≤ 0x200a) ||
    n == 0x2028 || n == 0x2029 || n == 0x202f || n == 0x205f || n == 0x3000 || n == 0xfeff

def isControl (c : Char) : Bool :=
  c.toNat ≤ 0x1f || (0x7f ≤ c.toNat && c.toNat ≤ 0x9f)

def isLowerAscii (c : Char) : Bool := 'a' ≤ c && c ≤ 'z'

def isUpperAscii (c : Char) : Bool := 'A' ≤ c && c ≤ 'Z'

def isDigitAscii (c : Char) : Bool := '0' ≤ c && c ≤ '9'

/-- Whether the text matches `^[first][rest]{low,high}$`. -/
def matchesShape (first rest : Char → Bool) (low high : ℕ) (s : String) : Bool :=
  match s.toList with
  | [] => false
  | c :: cs => first c && cs.all rest && low ≤ cs.length && cs.length ≤ high

/-- `^[0-9a-f]{64}$` -/
def isSha256Hex (s : String) : Bool :=
  let hex (c : Char) := isDigitAscii c || ('a' ≤ c && c ≤ 'f')
  matchesShape hex hex 63 63 s

end QuokyPlatform
