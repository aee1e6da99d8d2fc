import QuokyPlatform.Foundations.Prefixes
import QuokyPlatform.Egress.IpRanges

/-! # Classes of addresses

An IPv6 address as a number of 128 bits. Each prefix test of the classification compares the first
bits of that number, so the addresses that pass are a union of blocks. -/

namespace QuokyPlatform.Egress

set_option autoImplicit false
set_option maxHeartbeats 250000

open Prefixes (valueOf)

/-! ## Addresses and blocks -/

/-- An IPv6 address: eight groups of 16 bits. -/
structure Ipv6Address where
  groups : List ℕ
  size : groups.length = 8
  bounded : ∀ group ∈ groups, group < 2 ^ 16

namespace Ipv6Address

/-- The 128 bits of an address. -/
def value (a : Ipv6Address) : ℕ := valueOf 16 a.groups

theorem value_lt (a : Ipv6Address) : a.value < 2 ^ 128 := by
  have h := Prefixes.valueOf_lt a.bounded
  rwa [a.size] at h

end Ipv6Address

/-- The groups of a prefix, filled up with zeros. -/
def filled (left : ℕ) (prefix' : List ℕ) : List ℕ :=
  prefix' ++ List.replicate (left - prefix'.length) 0

/-- `start/bits`: the addresses whose first `bits` bits are those of `start`. -/
def InBlock (a : Ipv6Address) (start : List ℕ) (bits : ℕ) : Prop :=
  a.value / 2 ^ (128 - bits) = valueOf 16 (filled 8 start) / 2 ^ (128 - bits)

instance (a : Ipv6Address) (start : List ℕ) (bits : ℕ) : Decidable (InBlock a start bits) :=
  inferInstanceAs (Decidable (_ = _))

theorem filled_cons (left : ℕ) (prefix' : List ℕ) (h : prefix'.length ≤ left + 1) :
    filled (left + 1) prefix' = prefix'.headD 0 :: filled left prefix'.tail := by
  cases prefix' with
  | nil =>
    rw [filled, filled, List.nil_append, List.length_nil, Nat.sub_zero, List.replicate_succ]
    rfl
  | cons first rest =>
    show first :: rest ++ List.replicate (left + 1 - (rest.length + 1)) 0 = _
    rw [Nat.add_sub_add_right]
    rfl

theorem groupMask_eq {x y take : ℕ} (hx : x < 2 ^ 16) (hy : y < 2 ^ 16) :
    x &&& groupMask take = y &&& groupMask take ↔ x / 2 ^ (16 - take) = y / 2 ^ (16 - take) := by
  have hmask : groupMask take = ((2 ^ 16 - 1) <<< (16 - take)) &&& (2 ^ 16 - 1) := by
    unfold groupMask
    split
    · rename_i hfull
      rw [hfull]
      rfl
    · rfl
  rw [hmask]
  exact Prefixes.land_mask_eq_iff hx hy

theorem length_filled {left : ℕ} {prefix' : List ℕ} (h : prefix'.length ≤ left) :
    (filled left prefix').length = left := by
  rw [filled, List.length_append, List.length_replicate, Nat.add_sub_cancel' h]

theorem filled_bounded {left : ℕ} {prefix' : List ℕ} (h : ∀ group ∈ prefix', group < 2 ^ 16) :
    ∀ group ∈ filled left prefix', group < 2 ^ 16 := by
  intro group hgroup
  rcases List.mem_append.mp hgroup with hgroup | hgroup
  · exact h group hgroup
  · rw [List.eq_of_mem_replicate hgroup]
    exact Nat.two_pow_pos 16

/-- The loop over the groups compares the first bits. -/
theorem matchGroups_iff (left : ℕ) {groups prefix' : List ℕ} {bits : ℕ}
    (hlength : groups.length = left) (hgroups : ∀ group ∈ groups, group < 2 ^ 16)
    (hbegins : ∀ group ∈ prefix', group < 2 ^ 16) (hshort : prefix'.length ≤ left)
    (hbits : bits ≤ 16 * left) :
    matchGroups left groups prefix' bits = true ↔
      valueOf 16 groups / 2 ^ (16 * left - bits) =
        valueOf 16 (filled left prefix') / 2 ^ (16 * left - bits) := by
  induction left generalizing groups prefix' bits with
  | zero =>
    have hnil : groups = [] := List.length_eq_zero_iff.mp hlength
    have hnil' : prefix' = [] := List.length_eq_zero_iff.mp (Nat.le_zero.mp hshort)
    rw [hnil, hnil']
    exact ⟨fun _ => rfl, fun _ => rfl⟩
  | succ left ih =>
    obtain ⟨group, rest, rfl⟩ := List.exists_cons_of_length_eq_add_one hlength
    have hrest : rest.length = left := Nat.succ.inj hlength
    have hgroup : group < 2 ^ 16 := hgroups group List.mem_cons_self
    have hbounded : ∀ other ∈ rest, other < 2 ^ 16 := fun other hother =>
      hgroups other (List.mem_cons_of_mem _ hother)
    have hhead : prefix'.headD 0 < 2 ^ 16 := by
      cases prefix' with
      | nil => exact Nat.two_pow_pos 16
      | cons first others => exact hbegins first List.mem_cons_self
    have htail : ∀ other ∈ prefix'.tail, other < 2 ^ 16 := fun other hother =>
      hbegins other (List.mem_of_mem_tail hother)
    have hshort' : prefix'.tail.length ≤ left := by
      rw [List.length_tail]
      omega
    have hvalue : valueOf 16 rest < 2 ^ (16 * left) := by
      have h := Prefixes.valueOf_lt hbounded
      rwa [hrest] at h
    have hfilled : valueOf 16 (filled left prefix'.tail) < 2 ^ (16 * left) := by
      have h := Prefixes.valueOf_lt (@filled_bounded left _ htail)
      rwa [length_filled hshort'] at h
    rw [filled_cons left prefix' hshort, valueOf, valueOf, hrest, length_filled hshort', matchGroups]
    by_cases hzero : bits = 0
    · have hsub : 16 * (left + 1) - 0 = 16 * left + 16 := by omega
      rw [if_pos hzero, hzero, hsub, Prefixes.div_first hvalue, Prefixes.div_first hfilled,
        Nat.div_eq_of_lt hgroup, Nat.div_eq_of_lt hhead]
      exact ⟨fun _ => rfl, fun _ => rfl⟩
    · rw [if_neg hzero]
      show (if group &&& groupMask (min 16 bits) ≠ prefix'.headD 0 &&& groupMask (min 16 bits) then
        false else matchGroups left rest prefix'.tail (bits - min 16 bits)) = true ↔ _
      by_cases hfirst : bits ≤ 16
      · have hsub : 16 * (left + 1) - bits = 16 * left + (16 - bits) := by omega
        have hdone : matchGroups left rest prefix'.tail (bits - bits) = true := by
          rw [Nat.sub_self]
          cases left with
          | zero => rfl
          | succ left => rfl
        rw [Nat.min_eq_right hfirst, hsub, Prefixes.div_first hvalue, Prefixes.div_first hfilled,
          ← groupMask_eq hgroup hhead, hdone]
        split
        · rename_i hne
          exact ⟨fun h => absurd h Bool.false_ne_true, fun h => absurd h hne⟩
        · rename_i heq
          exact ⟨fun _ => not_not.mp heq, fun _ => rfl⟩
      · have hfull : 16 ≤ bits := by omega
        have hsub : 16 * (left + 1) - bits = 16 * left - (bits - 16) := by omega
        have hwhole := @groupMask_eq _ _ 16 hgroup hhead
        rw [Nat.sub_self, Nat.pow_zero, Nat.div_one, Nat.div_one] at hwhole
        rw [Nat.min_eq_left hfull, hsub, Prefixes.div_rest hvalue hfilled (by omega),
          ← ih hrest hbounded htail hshort' (by omega), ← hwhole]
        split
        · rename_i hne
          exact ⟨fun h => absurd h Bool.false_ne_true, fun h => absurd h.1 hne⟩
        · rename_i heq
          exact ⟨fun h => ⟨not_not.mp heq, h⟩, fun h => h.2⟩

theorem inIpv6Range_iff (a : Ipv6Address) {start : List ℕ} {bits : ℕ}
    (hstart : ∀ group ∈ start, group < 2 ^ 16) (hshort : start.length ≤ 8) (hbits : bits ≤ 128) :
    inIpv6Range a.groups start bits = true ↔ InBlock a start bits :=
  matchGroups_iff 8 a.size a.bounded hstart hshort hbits

theorem startsWith_nil (prefix' : List ℕ) : startsWith [] prefix' = true ↔ prefix' = [] := by
  cases prefix' with
  | nil => exact ⟨fun _ => rfl, fun _ => rfl⟩
  | cons first rest => exact ⟨fun h => absurd h Bool.false_ne_true, fun h => nomatch h⟩

theorem startsWith_eq_matchGroups (left : ℕ) {groups prefix' : List ℕ}
    (hlength : groups.length = left) (hgroups : ∀ group ∈ groups, group < 2 ^ 16)
    (hbegins : ∀ group ∈ prefix', group < 2 ^ 16) (hshort : prefix'.length ≤ left) :
    startsWith groups prefix' = matchGroups left groups prefix' (16 * prefix'.length) := by
  induction left generalizing groups prefix' with
  | zero =>
    have hnil : prefix' = [] := List.length_eq_zero_iff.mp (Nat.le_zero.mp hshort)
    rw [hnil]
    cases groups with
    | nil => rfl
    | cons group rest => rfl
  | succ left ih =>
    obtain ⟨group, rest, rfl⟩ := List.exists_cons_of_length_eq_add_one hlength
    cases prefix' with
    | nil => rfl
    | cons first others =>
      have hgroup : group < 2 ^ 16 := hgroups group List.mem_cons_self
      have hfirst : first < 2 ^ 16 := hbegins first List.mem_cons_self
      have hwhole := @groupMask_eq _ _ 16 hgroup hfirst
      rw [Nat.sub_self, Nat.pow_zero, Nat.div_one, Nat.div_one] at hwhole
      have hbits : 16 * (first :: others).length = 16 * others.length + 16 := by
        rw [List.length_cons]
        omega
      have hmin : min 16 (16 * others.length + 16) = 16 := by omega
      have hrest := ih (Nat.succ.inj hlength)
        (fun other hother => hgroups other (List.mem_cons_of_mem _ hother))
        (fun other hother => hbegins other (List.mem_cons_of_mem _ hother))
        (Nat.le_of_succ_le_succ hshort)
      rw [hbits, startsWith, matchGroups, if_neg (by omega), hmin, Nat.add_sub_cancel, hrest]
      show _ = if group &&& groupMask 16 ≠ first &&& groupMask 16 then false else
        matchGroups left rest others (16 * others.length)
      split
      · rename_i hne
        rw [beq_eq_false_iff_ne.mpr fun heq => hne (hwhole.mpr heq), Bool.false_and]
      · rename_i heq
        rw [hwhole.mp (not_not.mp heq), BEq.rfl, Bool.true_and]

theorem startsWith_iff (a : Ipv6Address) {start : List ℕ} (hstart : ∀ group ∈ start, group < 2 ^ 16)
    (hshort : start.length ≤ 8) :
    startsWith a.groups start = true ↔ InBlock a start (16 * start.length) := by
  rw [startsWith_eq_matchGroups 8 a.size a.bounded hstart hshort]
  exact matchGroups_iff 8 a.size a.bounded hstart hshort (by omega)

theorem zeroUpTo_eq (n : ℕ) {groups : List ℕ} (h : n ≤ groups.length) :
    (groups.take n).all (· == 0) = startsWith groups (List.replicate n 0) := by
  induction n generalizing groups with
  | zero =>
    cases groups with
    | nil => rfl
    | cons group rest => rfl
  | succ n ih =>
    cases groups with
    | nil => exact absurd h (Nat.not_succ_le_zero n)
    | cons group rest =>
      rw [List.take_succ_cons, List.all_cons, List.replicate_succ, startsWith,
        ih (Nat.le_of_succ_le_succ h)]

/-- A block as the numbers with one quotient. -/
theorem inBlock_eq {a : Ipv6Address} {start : List ℕ} {bits k c : ℕ} (hk : 128 - bits = k)
    (hc : valueOf 16 (filled 8 start) / 2 ^ k = c) : InBlock a start bits ↔ a.value / 2 ^ k = c := by
  unfold InBlock
  rw [hk, hc]

/-- An address is in the wider block with the same start. -/
theorem InBlock.wider {a : Ipv6Address} {start : List ℕ} {bits fewer : ℕ}
    (h : InBlock a start bits) (hle : fewer ≤ bits) (hbits : bits ≤ 128) :
    InBlock a start fewer := by
  unfold InBlock at h ⊢
  have hsplit : 128 - fewer = 128 - bits + (bits - fewer) := by omega
  rw [hsplit, Nat.pow_add, ← Nat.div_div_eq_div_mul, ← Nat.div_div_eq_div_mul, h]

/-- Blocks with an address in common agree on their common bits. -/
theorem InBlock.agree {a : Ipv6Address} {start start' : List ℕ} {bits bits' : ℕ}
    (h : InBlock a start bits) (h' : InBlock a start' bits') (hle : bits' ≤ bits)
    (hbits : bits ≤ 128) : valueOf 16 (filled 8 start) / 2 ^ (128 - bits') =
      valueOf 16 (filled 8 start') / 2 ^ (128 - bits') :=
  (h.wider hle hbits).symm.trans h'

/-! ## The addresses that pass -/

section Passed

variable (a : Ipv6Address)

theorem zeroUpTo_iff (n : ℕ) (hn : n ≤ 8) :
    (a.groups.take n).all (· == 0) = true ↔ a.value < 2 ^ (128 - 16 * n) := by
  have hzero : ∀ group ∈ List.replicate n 0, group < 2 ^ 16 := fun group hgroup => by
    rw [List.eq_of_mem_replicate hgroup]
    exact Nat.two_pow_pos 16
  have hfilled : filled 8 (List.replicate n 0) = List.replicate 8 0 := by
    rw [filled, List.length_replicate, List.replicate_append_replicate, Nat.add_sub_cancel' hn]
  rw [zeroUpTo_eq n (a.size.symm ▸ hn), startsWith_iff a hzero (by rw [List.length_replicate]; omega),
    InBlock, hfilled, Prefixes.valueOf_replicate_zero, Nat.zero_div, List.length_replicate]
  exact Nat.div_eq_zero_iff_lt (Nat.two_pow_pos _)

theorem first_group_iff (x : ℕ) (hx : x < 2 ^ 16) :
    a.groups.getD 0 0 = x ↔ InBlock a [x] 16 := by
  have hstarts : startsWith a.groups [x] = true ↔ InBlock a [x] 16 :=
    startsWith_iff a (fun group hgroup => by rwa [List.mem_singleton.mp hgroup])
      (Nat.succ_le_succ (Nat.zero_le 7))
  rw [← hstarts]
  obtain ⟨group, rest, hgroups⟩ := List.exists_cons_of_length_eq_add_one a.size
  rw [hgroups]
  show group = x ↔ (group == x && startsWith rest []) = true
  rw [Bool.and_eq_true, beq_iff_eq, startsWith]
  exact ⟨fun h => ⟨h, rfl⟩, fun h => h.1⟩

/-- The last two groups are the last 32 bits. -/
theorem embedded_last : embeddedIpv4 a.groups 6 = a.value % 2 ^ 32 := by
  obtain ⟨groups, hsize, hbounded⟩ := a
  match groups, hsize with
  | [g0, g1, g2, g3, g4, g5, g6, g7], _ =>
    have h6 : g6 < 2 ^ 16 := hbounded g6 (by simp)
    have h7 : g7 < 2 ^ 16 := hbounded g7 (by simp)
    show g6 * 65536 + g7 = valueOf 16 [g0, g1, g2, g3, g4, g5, g6, g7] % 2 ^ 32
    simp only [valueOf, List.length_cons, List.length_nil]
    omega

theorem some_ite_eq_none {α : Type} {p : Prop} [Decidable p] {x : α} {y : Option α} :
    (if p then some x else y) = none ↔ ¬ p ∧ y = none := by
  split
  · rename_i h
    exact ⟨fun h => (Option.some_ne_none _ h).elim, fun hnot => absurd h hnot.1⟩
  · rename_i h
    exact ⟨fun hy => ⟨h, hy⟩, fun hy => hy.2⟩

/-- The addresses that pass: those of NAT64 whose IPv4 address passes, and those of global unicast
outside four blocks. -/
theorem classifyIpv6_eq_none :
    classifyIpv6 a.groups = none ↔
      (InBlock a [0x64, 0xff9b] 96 ∧ classifyIpv4 (a.value % 2 ^ 32) = none) ∨
      (InBlock a [0x2000] 3 ∧ ¬ InBlock a [0x2001] 23 ∧ ¬ InBlock a [0x2001, 0xdb8] 32 ∧
        ¬ InBlock a [0x2002] 16 ∧ ¬ InBlock a [0x3fff] 20) := by
  have bounded : ∀ start : List ℕ, start.all (· < 2 ^ 16) = true → ∀ group ∈ start, group < 2 ^ 16 :=
    fun start hall group hgroup => of_decide_eq_true (List.all_eq_true.mp hall group hgroup)
  have hrange : ∀ (start : List ℕ) (bits : ℕ), start.all (· < 2 ^ 16) = true → start.length ≤ 8 →
      bits ≤ 128 → (inIpv6Range a.groups start bits = true ↔ InBlock a start bits) :=
    fun start bits hall hshort hbits => inIpv6Range_iff a (bounded start hall) hshort hbits
  have hnat64 : startsWith a.groups [0x64, 0xff9b, 0, 0, 0, 0] = true ↔
      InBlock a [0x64, 0xff9b] 96 :=
    startsWith_iff a (bounded _ (by decide)) (by decide)
  have hmetadata : startsWith a.groups [0xfd00, 0x0ec2, 0, 0, 0, 0, 0, 0x0254] = true ↔
      InBlock a [0xfd00, 0x0ec2, 0, 0, 0, 0, 0, 0x0254] 128 :=
    startsWith_iff a (bounded _ (by decide)) (by decide)
  unfold classifyIpv6
  simp only [zeroUpTo_iff a 8 (by decide), zeroUpTo_iff a 7 (by decide), zeroUpTo_iff a 6 (by decide),
    zeroUpTo_iff a 5 (by decide), embedded_last, first_group_iff a 0x2002 (by decide), hnat64,
    hmetadata, some_ite_eq_none,
    hrange [0x64, 0xff9b, 1] 48 (by decide) (by decide) (by decide),
    hrange [0x0100, 0, 0, 0] 64 (by decide) (by decide) (by decide),
    hrange [0x0100, 0, 0, 1] 64 (by decide) (by decide) (by decide),
    hrange [0x2001, 0x0db8] 32 (by decide) (by decide) (by decide),
    hrange [0x2001, 0x0002, 0] 48 (by decide) (by decide) (by decide),
    hrange [0x2001] 23 (by decide) (by decide) (by decide),
    hrange [0x3fff] 20 (by decide) (by decide) (by decide),
    hrange [0x5f00] 16 (by decide) (by decide) (by decide),
    hrange [0xfc00] 7 (by decide) (by decide) (by decide),
    hrange [0xfe80] 10 (by decide) (by decide) (by decide),
    hrange [0xfec0] 10 (by decide) (by decide) (by decide),
    hrange [0xff00] 8 (by decide) (by decide) (by decide),
    hrange [0x2000] 3 (by decide) (by decide) (by decide)]
  by_cases h64 : InBlock a [0x64, 0xff9b] 96
  · have hlarge := (inBlock_eq (c := 0x64ff9b0000000000000000) (k := 32) rfl rfl).mp h64
    have hzero : ∀ n, 5 ≤ n → ¬ a.value < 2 ^ (128 - 16 * n) := by
      intro n hn hlt
      have hpow : 2 ^ (128 - 16 * n) ≤ 2 ^ 48 := Nat.pow_le_pow_right (by decide) (by omega)
      omega
    have hnot : ¬ InBlock a [0x2000] 3 := fun h =>
      absurd (h64.agree h (by decide) (by decide)) (by decide)
    simp only [hzero 8 (by decide), hzero 7 (by decide), hzero 6 (by decide), hzero 5 (by decide),
      not_false_eq_true, false_and, true_and, h64, if_true, hnot, or_false]
  · simp only [some_ite_eq_none, h64, if_false, false_and, false_or, not_not, and_true]
    constructor
    · rintro ⟨-, -, -, -, -, -, -, h2001db8, -, h2001, h2002, h3fff, -, -, -, -, -, -, hunicast⟩
      exact ⟨hunicast, h2001, h2001db8, h2002, h3fff⟩
    · rintro ⟨hunicast, h2001, h2001db8, h2002, h3fff⟩
      have hlarge := (inBlock_eq (c := 1) (k := 125) rfl rfl).mp hunicast
      have hzero : ∀ n, 5 ≤ n → ¬ a.value < 2 ^ (128 - 16 * n) := by
        intro n hn hlt
        have hpow : 2 ^ (128 - 16 * n) ≤ 2 ^ 48 := Nat.pow_le_pow_right (by decide) (by omega)
        omega
      -- a block outside 2000::/3 has no address in common with it
      have outside : ∀ (start : List ℕ) (bits : ℕ), 3 ≤ bits → bits ≤ 128 →
          valueOf 16 (filled 8 start) / 2 ^ 125 ≠ 1 → ¬ InBlock a start bits :=
        fun start bits hle hbits hne h => hne (h.agree hunicast hle hbits)
      refine ⟨hzero 8 (by decide), fun h => hzero 7 (by decide) h.1,
        fun h => hzero 5 (by decide) h.1, hzero 6 (by decide),
        outside _ _ (by decide) (by decide) (by decide),
        outside _ _ (by decide) (by decide) (by decide),
        outside _ _ (by decide) (by decide) (by decide), h2001db8, fun h => ?_, h2001, h2002, h3fff,
        outside _ _ (by decide) (by decide) (by decide),
        outside _ _ (by decide) (by decide) (by decide),
        outside _ _ (by decide) (by decide) (by decide),
        outside _ _ (by decide) (by decide) (by decide),
        outside _ _ (by decide) (by decide) (by decide),
        outside _ _ (by decide) (by decide) (by decide), hunicast⟩
      exact h2001 ((inBlock_eq rfl rfl).mpr ((inBlock_eq rfl rfl).mp
        (h.wider (by decide : 23 ≤ 48) (by decide))))

end Passed

/-! ## IPv4 -/

/-- Outside every IPv4 rule. -/
def OutsideIpv4Rules (value : ℕ) : Prop :=
  ∀ entry ∈ IPV4_RULES, value / 2 ^ (32 - entry.bits) ≠ entry.base / 2 ^ (32 - entry.bits)

theorem rule_starts : IPV4_RULES.map (fun entry => (entry.base, entry.bits)) =
    [(0xa9fea9fe, 32), (0, 8), (0x0a000000, 8), (0x64400000, 10), (0x7f000000, 8), (0xa9fe0000, 16),
      (0xac100000, 12), (0xc0000000, 24), (0xc0000200, 24), (0xc0586300, 24), (0xc0a80000, 16),
      (0xc6120000, 15), (0xc6336400, 24), (0xcb007100, 24), (0xe0000000, 4), (0xf0000000, 4)] := by
  decide +kernel

theorem rule_of_start {base bits : ℕ}
    (h : (base, bits) ∈ IPV4_RULES.map fun entry => (entry.base, entry.bits)) :
    ∃ entry ∈ IPV4_RULES, entry.base = base ∧ entry.bits = bits := by
  obtain ⟨entry, hentry, heq⟩ := List.mem_map.mp h
  exact ⟨entry, hentry, (Prod.mk.inj heq).1, (Prod.mk.inj heq).2⟩

theorem classifyIpv4_eq_none (value : ℕ) : classifyIpv4 value = none ↔ OutsideIpv4Rules value := by
  have hbits : ∀ entry ∈ IPV4_RULES, entry.bits ≠ 0 := by
    intro entry hentry hzero
    have hmem : (entry.base, entry.bits) ∈ IPV4_RULES.map fun entry => (entry.base, entry.bits) :=
      List.mem_map_of_mem hentry
    rw [rule_starts, hzero] at hmem
    simp at hmem
  unfold classifyIpv4 OutsideIpv4Rules
  rw [Option.map_eq_none_iff, List.find?_eq_none]
  refine forall₂_congr fun entry hentry => not_congr ?_
  rw [inIpv4Range, if_neg (hbits entry hentry)]
  exact beq_iff_eq

/-- Loopback, private, link-local and metadata addresses. -/
def IsInternal (value : ℕ) : Prop :=
  value / 2 ^ 24 = 127 ∨ value / 2 ^ 24 = 10 ∨ value / 2 ^ 20 = 172 * 16 + 1 ∨
    value / 2 ^ 16 = 192 * 256 + 168 ∨ value / 2 ^ 16 = 169 * 256 + 254

theorem internal_refused {value : ℕ} (h : IsInternal value) : classifyIpv4 value ≠ none := by
  rw [Ne, classifyIpv4_eq_none]
  intro hout
  have outside : ∀ base bits : ℕ,
      (base, bits) ∈ IPV4_RULES.map (fun entry => (entry.base, entry.bits)) →
      value / 2 ^ (32 - bits) ≠ base / 2 ^ (32 - bits) := by
    intro base bits hmem
    obtain ⟨entry, hentry, rfl, rfl⟩ := rule_of_start hmem
    exact hout entry hentry
  rw [rule_starts] at outside
  rcases h with h | h | h | h | h
  · exact outside 0x7f000000 8 (by decide) h
  · exact outside 0x0a000000 8 (by decide) h
  · exact outside 0xac100000 12 (by decide) h
  · exact outside 0xc0a80000 16 (by decide) h
  · exact outside 0xa9fe0000 16 (by decide) h

end QuokyPlatform.Egress
