import QuokyPlatform.Egress.AddressTexts

/-! # Classification by the address

`isIP` accepts the texts of addresses, so the classification answers for the address a text is of:
every text of one address gets one answer, and what passes is a union of blocks. -/

namespace QuokyPlatform.Egress

set_option autoImplicit false
set_option maxHeartbeats 250000

/-! ## What isIP accepts -/

/-- What is documented of `isIP`: 4 for dotted IPv4 addresses, 6 for IPv6 addresses, which may have
a zone. -/
structure IsIp (isIP : Text → ℕ) : Prop where
  four : ∀ text, isIP text = 4 ↔ ∃ value < 2 ^ 32, text = dottedText value
  six : ∀ (a : Ipv6Address) (text : Text), Ipv6Text a text → isIP text = 6
  onlySix : ∀ text, isIP text = 6 → ∃ a plain, Ipv6Text a plain ∧ Zoned plain text

/-- The texts of an IPv6 address: with or without a zone, with or without brackets. -/
inductive AddressText (a : Ipv6Address) : Text → Prop
  | bare {plain text : Text} (h : Ipv6Text a plain) (hzoned : Zoned plain text) : AddressText a text
  | brackets {plain text : Text} (h : Ipv6Text a plain) (hzoned : Zoned plain text) :
      AddressText a ('[' :: text ++ [']'])

theorem bareText_brackets (text : Text) : bareText ('[' :: text ++ [']']) = text := by
  have hlength : ('[' :: text ++ [']']).length - 2 = text.length := by
    rw [List.length_append, List.length_cons]
    rfl
  have hsuffix : [']'].isSuffixOf ('[' :: text ++ [']']) = true :=
    List.isSuffixOf_iff_suffix.mpr (List.suffix_append _ _)
  have hbegins : ['['].isPrefixOf ('[' :: text ++ [']']) = true := rfl
  rw [bareText, if_pos ⟨hbegins, hsuffix⟩, hlength]
  exact List.take_left

theorem bareText_of_head {text : Text} (h : text.head? ≠ some '[') : bareText text = text := by
  refine if_neg fun hbrackets => h ?_
  cases text with
  | nil => exact absurd hbrackets.1 Bool.false_ne_true
  | cons c rest =>
    have hc : (('[' == c) && _) = true := hbrackets.1
    rw [Bool.and_eq_true, beq_iff_eq] at hc
    rw [← hc.1]
    rfl

/-- Neither kind of text starts with a bracket. -/
theorem dottedText_head {value : ℕ} (h : value < 2 ^ 32) : (dottedText value).head? ≠ some '[' := by
  intro hhead
  have hmem := List.mem_of_mem_head? hhead
  exact absurd ((dottedText_clean h).2.2.2.2 _ hmem) (by decide)

theorem zoned_head {a : Ipv6Address} {plain text : Text} (h : Ipv6Text a plain)
    (hzoned : Zoned plain text) : text.head? ≠ some '[' := by
  have hmade := h.read.2.2
  have hfirst : ∀ c ∈ plain, c ≠ '[' := by
    rintro c hc rfl
    exact absurd (hmade '[' (List.mem_map.mpr ⟨'[', hc, rfl⟩)) (by decide)
  intro hhead
  cases hzoned with
  | without => exact hfirst _ (List.mem_of_mem_head? hhead) rfl
  | zone name =>
    cases plain with
    | nil =>
      have hpercent : '%' = '[' := Option.some.inj hhead
      exact absurd hpercent (by decide)
    | cons c rest => exact hfirst c List.mem_cons_self (Option.some.inj hhead)

/-! ## The answer for an address -/

section Classified

variable {isIP : Text → ℕ} (hisIP : IsIp isIP)

include hisIP

theorem classify_zoned {a : Ipv6Address} {plain text bracketed : Text} (h : Ipv6Text a plain)
    (hzoned : Zoned plain text) (hbare : bareText bracketed = text) :
    classifyAddress isIP bracketed = classifyIpv6 a.groups := by
  unfold classifyAddress
  simp only [hbare, hzoned.plain_eq h.read.1, hisIP.six a plain h, parseIpv6_text h hzoned]
  rfl

/-- Every text of an IPv6 address gets the answer of its groups. -/
theorem classify_ipv6 {a : Ipv6Address} {text : Text} (h : AddressText a text) :
    classifyAddress isIP text = classifyIpv6 a.groups := by
  cases h with
  | bare h hzoned => exact classify_zoned hisIP h hzoned (bareText_of_head (zoned_head h hzoned))
  | brackets h hzoned => exact classify_zoned hisIP h hzoned (bareText_brackets _)

theorem classify_ipv4 {value : ℕ} (h : value < 2 ^ 32) {text : Text}
    (htext : bareText text = dottedText value) :
    classifyAddress isIP text = classifyIpv4 value := by
  have hall : (dottedText value).takeWhile (· ≠ '%') = dottedText value :=
    List.takeWhile_eq_self_iff.mpr fun c hc =>
      decide_eq_true fun heq => (dottedText_clean h).2.1 (heq ▸ hc)
  have hfour : isIP (dottedText value) = 4 := (hisIP.four _).mpr ⟨value, h, rfl⟩
  unfold classifyAddress
  simp only [htext, hall, hfour, parseIpv4_dottedText h]
  rfl

theorem classify_dotted {value : ℕ} (h : value < 2 ^ 32) :
    classifyAddress isIP (dottedText value) = classifyIpv4 value :=
  classify_ipv4 hisIP h (bareText_of_head (dottedText_head h))

end Classified

/-! ## What passes -/

/-- The IPv6 addresses that pass: NAT64 of an IPv4 address outside the rules, and global unicast
outside the blocks that are not globally reachable. -/
def Passes (a : Ipv6Address) : Prop :=
  (InBlock a [0x64, 0xff9b] 96 ∧ OutsideIpv4Rules (a.value % 2 ^ 32)) ∨
    (InBlock a [0x2000] 3 ∧ ¬ InBlock a [0x2001] 23 ∧ ¬ InBlock a [0x2001, 0xdb8] 32 ∧
      ¬ InBlock a [0x2002] 16 ∧ ¬ InBlock a [0x3fff] 20)

theorem passes_iff (a : Ipv6Address) : classifyIpv6 a.groups = none ↔ Passes a := by
  rw [classifyIpv6_eq_none, classifyIpv4_eq_none]
  exact Iff.rfl

/-- The IPv6 addresses that embed an IPv4 address: `::ffff:0:0/96`, `::/96`, `64:ff9b::/96` and
`2002::/16`. -/
inductive Embeds (a : Ipv6Address) (value : ℕ) : Prop
  | mapped (h : a.value = 0xffff * 2 ^ 32 + value)
  | compatible (h : a.value = value)
  | nat64 (h : InBlock a [0x64, 0xff9b] 96) (hvalue : a.value % 2 ^ 32 = value)
  | sixToFour (h : InBlock a [0x2002] 16) (hvalue : a.value / 2 ^ 80 % 2 ^ 32 = value)

theorem small_not_passes {a : Ipv6Address} (h : a.value < 2 ^ 48) : ¬ Passes a := by
  rintro (⟨hnat64, -⟩ | ⟨hunicast, -⟩)
  · have hvalue := (inBlock_eq (c := 0x64ff9b0000000000000000) (k := 32) rfl rfl).mp hnat64
    omega
  · have hvalue := (inBlock_eq (c := 1) (k := 125) rfl rfl).mp hunicast
    omega

/-- An address that embeds a refused IPv4 address does not pass. -/
theorem embedded_not_passes {a : Ipv6Address} {value : ℕ} (hvalue : value < 2 ^ 32)
    (h : Embeds a value) (hrefused : classifyIpv4 value ≠ none) : ¬ Passes a := by
  rw [Ne, classifyIpv4_eq_none] at hrefused
  cases h with
  | mapped h => exact small_not_passes (by omega)
  | compatible h => exact small_not_passes (by omega)
  | nat64 h hlast =>
    rintro (⟨-, hout⟩ | ⟨hunicast, -⟩)
    · rw [hlast] at hout
      exact hrefused hout
    · exact absurd (h.agree hunicast (by decide) (by decide)) (by decide)
  | sixToFour h _ =>
    rintro (⟨hnat64, -⟩ | ⟨-, -, -, hnot, -⟩)
    · exact absurd (hnat64.agree h (by decide) (by decide)) (by decide)
    · exact hnot h

/-- `::1` -/
def loopbackAddress : Ipv6Address :=
  { groups := [0, 0, 0, 0, 0, 0, 0, 1], size := rfl, bounded := by decide }

theorem loopback_text : Ipv6Text loopbackAddress "::1".toList :=
  .compressed .nil (.group ⟨by decide, by decide, by decide⟩ .nil : Pieces [1] ["1".toList])
    (by decide : 1 ≤ 7) rfl

/-- The parser itself does not take brackets off: `[::1]` is left to the classification. -/
theorem parseIpv6_refuses_brackets :
    ¬ ∀ (a : Ipv6Address) (text : Text), AddressText a text → parseIpv6 text = some a.groups := by
  intro h
  have hnone : parseIpv6 ('[' :: "::1".toList ++ [']']) = none := by decide +kernel
  have hsome := h loopbackAddress _ (.brackets loopback_text .without)
  rw [hnone] at hsome
  cases hsome

/-- The answer depends on the address alone: the parser reads every text of an IPv6 address,
every text of one address gets one answer, a text that `isIP` accepts passes exactly when its
address does, and no text of an internal IPv4 address or of an address that embeds one passes. -/
theorem classified_by_address {isIP : Text → ℕ} (hisIP : IsIp isIP) :
    (∀ (a : Ipv6Address) (plain text : Text), Ipv6Text a plain → Zoned plain text →
      parseIpv6 text = some a.groups) ∧
    (∀ (a : Ipv6Address) (text text' : Text), AddressText a text → AddressText a text' →
      classifyAddress isIP text = classifyAddress isIP text') ∧
    (∀ value < 2 ^ 32, classifyAddress isIP ('[' :: dottedText value ++ [']']) =
      classifyAddress isIP (dottedText value)) ∧
    (∀ text, isIP text = 4 ∨ isIP text = 6 → (classifyAddress isIP text = none ↔
      (∃ value < 2 ^ 32, text = dottedText value ∧ OutsideIpv4Rules value) ∨
        ∃ a, AddressText a text ∧ Passes a)) ∧
    ∀ value < 2 ^ 32, IsInternal value → ∀ text,
      (text = dottedText value ∨ text = '[' :: dottedText value ++ [']'] ∨
        ∃ a, AddressText a text ∧ Embeds a value) → classifyAddress isIP text ≠ none := by
  have hbrackets : ∀ value < 2 ^ 32, classifyAddress isIP ('[' :: dottedText value ++ [']']) =
      classifyIpv4 value := fun value h => classify_ipv4 hisIP h (bareText_brackets _)
  refine ⟨fun a plain text h hzoned => parseIpv6_text h hzoned, fun a text text' h h' => ?_,
    fun value h => ?_, fun text haccepted => ?_, fun value hvalue hinternal text htext => ?_⟩
  · rw [classify_ipv6 hisIP h, classify_ipv6 hisIP h']
  · rw [hbrackets value h, classify_dotted hisIP h]
  · rcases haccepted with hfour | hsix
    · obtain ⟨value, hvalue, rfl⟩ := (hisIP.four text).mp hfour
      rw [classify_dotted hisIP hvalue, classifyIpv4_eq_none]
      constructor
      · exact fun hout => .inl ⟨value, hvalue, rfl, hout⟩
      · rintro (⟨other, hother, htext, hout⟩ | ⟨a, ha, hpasses⟩)
        · have hsame := congrArg parseIpv4 htext
          rw [parseIpv4_dottedText hvalue, parseIpv4_dottedText hother] at hsame
          rwa [Option.some.inj hsame]
        · rwa [← passes_iff, ← classify_ipv6 hisIP ha, classify_dotted hisIP hvalue,
            classifyIpv4_eq_none] at hpasses
    · obtain ⟨a, plain, hplain, hzoned⟩ := hisIP.onlySix text hsix
      have ha : AddressText a text := .bare hplain hzoned
      rw [classify_ipv6 hisIP ha, passes_iff]
      constructor
      · exact fun hpasses => .inr ⟨a, ha, hpasses⟩
      · rintro (⟨value, hvalue, rfl, -⟩ | ⟨other, hother, hpasses⟩)
        · rw [(hisIP.four _).mpr ⟨value, hvalue, rfl⟩] at hsix
          cases hsix
        · rwa [← passes_iff, ← classify_ipv6 hisIP hother, classify_ipv6 hisIP ha, passes_iff]
            at hpasses
  · have hrefused := internal_refused hinternal
    rcases htext with rfl | rfl | ⟨a, ha, hembeds⟩
    · rwa [classify_dotted hisIP hvalue]
    · rwa [hbrackets value hvalue]
    · rw [classify_ipv6 hisIP ha, Ne, passes_iff]
      exact embedded_not_passes hvalue hembeds hrefused

/-- `isIP` as it is documented. -/
noncomputable def documentedIsIP (text : Text) : ℕ :=
  open Classical in
  if ∃ value < 2 ^ 32, text = dottedText value then 4
  else if ∃ a plain, Ipv6Text a plain ∧ Zoned plain text then 6
  else 0

/-- An IPv6 text has a colon, an IPv4 text has none. -/
theorem colon_mem {a : Ipv6Address} {plain : Text} (h : Ipv6Text a plain) : ':' ∈ plain := by
  cases h with
  | @full texts hpieces =>
    have hsize := a.size
    generalize a.groups = groups at hpieces hsize
    cases hpieces with
    | nil => cases hsize
    | dotted => cases hsize
    | @group group text groups texts htext rest =>
      have hne : texts ≠ [] := by
        rintro rfl
        cases rest
        cases hsize
      rw [joined_cons, if_neg hne]
      exact List.mem_append_right _ List.mem_cons_self
  | compressed =>
    rw [List.append_assoc]
    exact List.mem_append_right _ List.mem_cons_self

theorem documentedIsIP_isIp : IsIp documentedIsIP := by
  refine ⟨fun text => ?_, fun a text h => ?_, fun text h => ?_⟩
  · unfold documentedIsIP
    split
    · rename_i hdotted
      exact ⟨fun _ => hdotted, fun _ => rfl⟩
    · rename_i hdotted
      split
      · exact ⟨fun h => absurd h (by decide), fun h => absurd h hdotted⟩
      · exact ⟨fun h => absurd h (by decide), fun h => absurd h hdotted⟩
  · unfold documentedIsIP
    rw [if_neg, if_pos ⟨a, text, h, .without⟩]
    rintro ⟨value, hvalue, rfl⟩
    exact (dottedText_clean hvalue).1 (colon_mem h)
  · unfold documentedIsIP at h
    split at h
    · exact absurd h (by decide)
    · split at h
      · assumption
      · exact absurd h (by decide)

/-- `::ffff:10.0.0.1` -/
def mappedAddress : Ipv6Address :=
  { groups := [0, 0, 0, 0, 0, 0xffff, 0xa00, 1], size := rfl, bounded := by decide }

theorem mapped_refused :
    classifyAddress documentedIsIP ("::ffff:".toList ++ dottedText 0xa000001) ≠ none := by
  have hgroup : GroupText 0xffff "ffff".toList :=
    ⟨by decide, by decide, by decide⟩
  have hpieces : Pieces [0xffff, 0xa00, 1] ["ffff".toList, dottedText 0xa000001] :=
    .group hgroup (@Pieces.dotted 0xa000001 (by decide))
  have htext : Ipv6Text mappedAddress ("::ffff:".toList ++ dottedText 0xa000001) :=
    .compressed .nil hpieces (by decide : 1 ≤ 5) rfl
  exact (classified_by_address documentedIsIP_isIp).2.2.2.2 0xa000001 (by decide)
    (by unfold IsInternal; decide) _
    (.inr (.inr ⟨mappedAddress, .bare htext .without, .mapped (by decide)⟩))

end QuokyPlatform.Egress
