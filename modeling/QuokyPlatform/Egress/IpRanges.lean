import Mathlib.Data.List.DropRight
import QuokyPlatform.Foundations.Text

/-! # Address ranges

The deny ranges of the check on resolved addresses: the two address parsers and the ordered prefix
tests. `isIP` of `node:net` is a parameter. A text is its characters. -/

namespace QuokyPlatform.Egress

set_option autoImplicit false
set_option maxHeartbeats 250000

abbrev Text := List Char

/-- Why an address is refused. -/
inductive DenyCategory
  | unspecified
  | loopback
  | private'
  | linkLocal
  | metadata
  | cgnat
  | ula
  | multicast
  | documentation
  | benchmark
  | reserved
  | invalid
deriving DecidableEq, Repr

/-! ## IPv4 -/

/-- `^(?:0|[1-9][0-9]{0,2})$` -/
def isOctetText (part : Text) : Bool :=
  match part with
  | [] => false
  | first :: rest =>
    part == ['0'] || ('1' ≤ first && first ≤ '9' && rest.all isDigitAscii && rest.length ≤ 2)

/-- `Number` of a text of decimal digits. -/
def decimalOf (digits : Text) : ℕ := digits.foldl (fun n c => 10 * n + (c.toNat - 48)) 0

/-- Dotted-quad decimal only. -/
def parseIpv4 (text : Text) : Option ℕ :=
  let parts := text.splitOn '.'
  if parts.length ≠ 4 then none
  else if parts.all fun part => isOctetText part && decimalOf part ≤ 255 then
    some (parts.foldl (fun value part => value * 256 + decimalOf part) 0)
  else none

structure Ipv4Rule where
  base : ℕ
  bits : ℕ
  category : DenyCategory

def rule4 (address : String) (bits : ℕ) (category : DenyCategory) : Ipv4Rule :=
  { base := (parseIpv4 address.toList).getD 0, bits, category }

/-- Ordered most specific first (the metadata /32 before link-local /16). -/
def IPV4_RULES : List Ipv4Rule :=
  [ rule4 "169.254.169.254" 32 .metadata,
    rule4 "0.0.0.0" 8 .unspecified,
    rule4 "10.0.0.0" 8 .private',
    rule4 "100.64.0.0" 10 .cgnat,
    rule4 "127.0.0.0" 8 .loopback,
    rule4 "169.254.0.0" 16 .linkLocal,
    rule4 "172.16.0.0" 12 .private',
    rule4 "192.0.0.0" 24 .reserved,
    rule4 "192.0.2.0" 24 .documentation,
    rule4 "192.88.99.0" 24 .reserved,
    rule4 "192.168.0.0" 16 .private',
    rule4 "198.18.0.0" 15 .benchmark,
    rule4 "198.51.100.0" 24 .documentation,
    rule4 "203.0.113.0" 24 .documentation,
    rule4 "224.0.0.0" 4 .multicast,
    rule4 "240.0.0.0" 4 .reserved ]

def inIpv4Range (value base bits : ℕ) : Bool :=
  if bits = 0 then true
  else
    let size := 2 ^ (32 - bits)
    value / size == base / size

def classifyIpv4 (value : ℕ) : Option DenyCategory :=
  (IPV4_RULES.find? fun entry => inIpv4Range value entry.base entry.bits).map (·.category)

/-! ## IPv6 -/

/-- The value of a hexadecimal digit. -/
def hexDigit (c : Char) : ℕ :=
  if c ≤ '9' then c.toNat - 48 else if c ≤ 'F' then c.toNat - 55 else c.toNat - 87

/-- `parseInt(text, 16)` of hexadecimal digits. -/
def hexOf (digits : Text) : ℕ := digits.foldl (fun n c => 16 * n + hexDigit c) 0

def isLowerHex (c : Char) : Bool := isDigitAscii c || ('a' ≤ c && c ≤ 'f')

/-- The positions at which a text holds `::`. -/
def doubleColons (text : Text) : List ℕ :=
  (List.range text.length).filter fun i => [':', ':'].isPrefixOf (text.drop i)

def parseGroups (part : Text) : Option (List ℕ) :=
  if part = [] then some []
  else
    let groups := part.splitOn ':'
    if groups.all fun group => group.all isLowerHex && 1 ≤ group.length && group.length ≤ 4 then
      some (groups.map hexOf)
    else none

/-- The groups before the dotted tail, which stand for `8 - tail.length` groups. -/
def parseHead (head : Text) (tail : List ℕ) : Option (List ℕ) :=
  match doubleColons head with
  | [] => (parseGroups head).map (· ++ tail)
  | [doubleColon] => do
    let left ← parseGroups (head.take doubleColon)
    let right ← parseGroups (head.drop (doubleColon + 2))
    let present := left.length + right.length + tail.length
    if 8 - present < 1 then none
    else some (left ++ List.replicate (8 - present) 0 ++ right ++ tail)
  | _ => none

/-- The groups of an address in lower case, before they are counted. -/
def parseLower (address : Text) : Option (List ℕ) :=
  if '.' ∈ address then do
    let v4 ← parseIpv4 (address.rtakeWhile (· ≠ ':'))
    let head := address.rdropWhile (· ≠ ':')
    -- the colon before the tail goes, unless it is part of a double colon
    let head := if [':', ':'].isSuffixOf head then head else head.take (head.length - 1)
    parseHead head [v4 / 65536, v4 % 65536]
  else parseHead address []

/-- Parses an IPv6 address (with `::`, an embedded dotted IPv4 tail and an optional `%zone`) into 8
groups. Only letters of ASCII have a lower case among the characters allowed here. -/
def parseIpv6 (text : Text) : Option (List ℕ) :=
  let address := (text.takeWhile (· ≠ '%')).map Char.toLower
  if address = [] ∨ ¬ address.all fun c => isLowerHex c || c == ':' || c == '.' then none
  else (parseLower address).filter (·.length = 8)

def embeddedIpv4 (groups : List ℕ) (index : ℕ) : ℕ :=
  groups.getD index 0 * 65536 + groups.getD (index + 1) 0

def startsWith : List ℕ → List ℕ → Bool
  | _, [] => true
  | [], _ :: _ => false
  | group :: groups, value :: rest => group == value && startsWith groups rest

/-- The mask of the first `take` bits of a group. -/
def groupMask (take : ℕ) : ℕ := if take = 16 then 0xffff else (0xffff <<< (16 - take)) &&& 0xffff

/-- The loop of `inIpv6Range` over the groups that are left, absent ones reading as 0. -/
def matchGroups : ℕ → List ℕ → List ℕ → ℕ → Bool
  | 0, _, _, _ => true
  | left + 1, groups, prefix', bits =>
    if bits = 0 then true
    else
      let mask := groupMask (min 16 bits)
      if groups.headD 0 &&& mask ≠ prefix'.headD 0 &&& mask then false
      else matchGroups left groups.tail prefix'.tail (bits - min 16 bits)

/-- Matches the first `bits` bits of `groups` against `prefix'`. -/
def inIpv6Range (groups prefix' : List ℕ) (bits : ℕ) : Bool := matchGroups 8 groups prefix' bits

def classifyIpv6 (groups : List ℕ) : Option DenyCategory :=
  let zeroUpTo (n : ℕ) : Bool := (groups.take n).all (· == 0)
  let embedded (index : ℕ) : DenyCategory :=
    (classifyIpv4 (embeddedIpv4 groups index)).getD .reserved
  if zeroUpTo 8 then some .unspecified
  else if zeroUpTo 7 ∧ groups.getD 7 0 = 1 then some .loopback
  else if zeroUpTo 5 ∧ groups.getD 5 0 = 0xffff then some (embedded 6)
  else if zeroUpTo 6 then some (embedded 6)
  else if startsWith groups [0x64, 0xff9b, 0, 0, 0, 0] then classifyIpv4 (embeddedIpv4 groups 6)
  else if inIpv6Range groups [0x64, 0xff9b, 1] 48 then some .reserved
  else if inIpv6Range groups [0x0100, 0, 0, 0] 64 then some .reserved
  else if inIpv6Range groups [0x0100, 0, 0, 1] 64 then some .reserved
  else if inIpv6Range groups [0x2001, 0x0db8] 32 then some .documentation
  else if inIpv6Range groups [0x2001, 0x0002, 0] 48 then some .benchmark
  else if inIpv6Range groups [0x2001] 23 then some .reserved
  else if groups.getD 0 0 = 0x2002 then some (embedded 1)
  else if inIpv6Range groups [0x3fff] 20 then some .documentation
  else if inIpv6Range groups [0x5f00] 16 then some .reserved
  else if startsWith groups [0xfd00, 0x0ec2, 0, 0, 0, 0, 0, 0x0254] then some .metadata
  else if inIpv6Range groups [0xfc00] 7 then some .ula
  else if inIpv6Range groups [0xfe80] 10 then some .linkLocal
  else if inIpv6Range groups [0xfec0] 10 then some .reserved
  else if inIpv6Range groups [0xff00] 8 then some .multicast
  else if ¬ inIpv6Range groups [0x2000] 3 then some .reserved
  else none

/-! ## Addresses -/

/-- The text without the brackets around it. -/
def bareText (address : Text) : Text :=
  if ['['].isPrefixOf address ∧ [']'].isSuffixOf address then
    (address.drop 1).take (address.length - 2)
  else address

/-- The deny category of an address, or `none` for a public unicast address. -/
def classifyAddress (isIP : Text → ℕ) (address : Text) : Option DenyCategory :=
  let bare := bareText address
  let family := isIP (bare.takeWhile (· ≠ '%'))
  if family = 4 then
    match parseIpv4 bare with
    | none => some .invalid
    | some value => classifyIpv4 value
  else if family = 6 then
    match parseIpv6 bare with
    | none => some .invalid
    | some groups => classifyIpv6 groups
  else some .invalid

example : parseIpv6 "::ffff:10.0.0.1".toList = some [0, 0, 0, 0, 0, 0xffff, 0xa00, 1] := by
  decide +kernel

end QuokyPlatform.Egress
