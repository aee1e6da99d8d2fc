import QuokyPlatform.Egress.AddressClasses

/-! # Texts of addresses

The texts an address is written as: dotted for IPv4; for IPv6 groups of one to four hexadecimal
digits, at most one run of zero groups left out, the last two groups possibly dotted, a zone, and
brackets. The parser reads every one of them. -/

namespace QuokyPlatform.Egress

set_option autoImplicit false
set_option maxHeartbeats 250000

/-! ## The texts -/

def octetText (octet : ℕ) : Text := Nat.toDigits 10 octet

/-- The text of an IPv4 address. -/
def dottedText (value : ℕ) : Text :=
  ['.'].intercalate [octetText (value / 2 ^ 24), octetText (value / 2 ^ 16 % 256),
    octetText (value / 2 ^ 8 % 256), octetText (value % 256)]

def isHex (c : Char) : Bool := isLowerHex c || ('A' ≤ c && c ≤ 'F')

/-- A text of one group. -/
structure GroupText (group : ℕ) (text : Text) : Prop where
  size : 1 ≤ text.length ∧ text.length ≤ 4
  hex : text.all isHex
  reads : hexOf text = group

/-- The texts between the colons; the last of them may be an IPv4 address. -/
inductive Pieces : List ℕ → List Text → Prop
  | nil : Pieces [] []
  | dotted {value : ℕ} (h : value < 2 ^ 32) :
      Pieces [value / 65536, value % 65536] [dottedText value]
  | group {group : ℕ} {text : Text} {groups : List ℕ} {texts : List Text}
      (h : GroupText group text) (rest : Pieces groups texts) :
      Pieces (group :: groups) (text :: texts)

def joined (texts : List Text) : Text := [':'].intercalate texts

/-- A text of an IPv6 address without a zone. -/
inductive Ipv6Text (a : Ipv6Address) : Text → Prop
  | full {texts : List Text} (h : Pieces a.groups texts) : Ipv6Text a (joined texts)
  | compressed {left right : List ℕ} {lefts rights : List Text} {n : ℕ}
      (hleft : List.Forall₂ GroupText left lefts) (hright : Pieces right rights) (hn : 1 ≤ n)
      (hgroups : a.groups = left ++ List.replicate n 0 ++ right) :
      Ipv6Text a (joined lefts ++ [':', ':'] ++ joined rights)

/-- The text with a zone after it, or without one. -/
inductive Zoned (plain : Text) : Text → Prop
  | without : Zoned plain plain
  | zone (name : Text) : Zoned plain (plain ++ '%' :: name)

/-! ## Reading IPv4 -/

theorem octet_read {octet : ℕ} (h : octet < 256) :
    isOctetText (octetText octet) = true ∧ decimalOf (octetText octet) = octet ∧
      '.' ∉ octetText octet ∧ ':' ∉ octetText octet ∧ '%' ∉ octetText octet ∧
      (octetText octet).map Char.toLower = octetText octet ∧ (octetText octet).all isLowerHex := by
  have hall : ∀ n < 256, isOctetText (octetText n) = true ∧ decimalOf (octetText n) = n ∧
      '.' ∉ octetText n ∧ ':' ∉ octetText n ∧ '%' ∉ octetText n ∧
      (octetText n).map Char.toLower = octetText n ∧ (octetText n).all isLowerHex := by
    decide +kernel
  exact hall octet h

/-- The octets of an IPv4 address. -/
def octetsOf (value : ℕ) : List ℕ :=
  [value / 2 ^ 24, value / 2 ^ 16 % 256, value / 2 ^ 8 % 256, value % 256]

theorem dottedText_eq (value : ℕ) :
    dottedText value = ['.'].intercalate ((octetsOf value).map octetText) := rfl

theorem octetsOf_lt {value : ℕ} (h : value < 2 ^ 32) : ∀ octet ∈ octetsOf value, octet < 256 := by
  intro octet hoctet
  simp only [octetsOf, List.mem_cons, List.not_mem_nil, or_false] at hoctet
  rcases hoctet with rfl | rfl | rfl | rfl
  · omega
  · exact Nat.mod_lt _ (by decide)
  · exact Nat.mod_lt _ (by decide)
  · exact Nat.mod_lt _ (by decide)

/-- An IPv4 text is read as its address. -/
theorem parseIpv4_dottedText {value : ℕ} (h : value < 2 ^ 32) :
    parseIpv4 (dottedText value) = some value := by
  have hoctets := octetsOf_lt h
  have hsplit : (dottedText value).splitOn '.' = (octetsOf value).map octetText := by
    rw [dottedText_eq]
    refine List.splitOn_intercalate '.' (fun text htext => ?_) (List.cons_ne_nil _ _)
    obtain ⟨octet, hoctet, rfl⟩ := List.mem_map.mp htext
    exact (octet_read (hoctets octet hoctet)).2.2.1
  have hall : ((octetsOf value).map octetText).all
      (fun part => isOctetText part && decide (decimalOf part ≤ 255)) = true := by
    rw [List.all_eq_true]
    intro text htext
    obtain ⟨octet, hoctet, rfl⟩ := List.mem_map.mp htext
    obtain ⟨hoctetText, hread, -⟩ := octet_read (hoctets octet hoctet)
    have hlt := hoctets octet hoctet
    rw [hoctetText, hread, Bool.true_and, decide_eq_true_eq]
    omega
  have hfold : ((octetsOf value).map octetText).foldl
      (fun n part => n * 256 + decimalOf part) 0 = value := by
    have hread : ∀ octet ∈ octetsOf value, decimalOf (octetText octet) = octet := fun octet hoctet =>
      (octet_read (hoctets octet hoctet)).2.1
    have h0 := hread (value / 2 ^ 24) (by simp [octetsOf])
    have h1 := hread (value / 2 ^ 16 % 256) (by simp [octetsOf])
    have h2 := hread (value / 2 ^ 8 % 256) (by simp [octetsOf])
    have h3 := hread (value % 256) (by simp [octetsOf])
    show (((0 * 256 + decimalOf (octetText (value / 2 ^ 24))) * 256 +
      decimalOf (octetText (value / 2 ^ 16 % 256))) * 256 +
      decimalOf (octetText (value / 2 ^ 8 % 256))) * 256 + decimalOf (octetText (value % 256)) = value
    rw [h0, h1, h2, h3]
    omega
  have hlength : ((octetsOf value).map octetText).length = 4 := rfl
  unfold parseIpv4
  rw [hsplit]
  simp only [hlength, hall, hfold, ne_eq, not_true_eq_false, if_false, if_true]

/-- What an IPv4 text is made of. -/
theorem dottedText_clean {value : ℕ} (h : value < 2 ^ 32) :
    ':' ∉ dottedText value ∧ '%' ∉ dottedText value ∧ '.' ∈ dottedText value ∧
      (dottedText value).map Char.toLower = dottedText value ∧
      ∀ c ∈ dottedText value, (isLowerHex c || c == ':' || c == '.') = true := by
  have hoctets := octetsOf_lt h
  have h0 := octet_read (hoctets (value / 2 ^ 24) (by simp [octetsOf]))
  have h1 := octet_read (hoctets (value / 2 ^ 16 % 256) (by simp [octetsOf]))
  have h2 := octet_read (hoctets (value / 2 ^ 8 % 256) (by simp [octetsOf]))
  have h3 := octet_read (hoctets (value % 256) (by simp [octetsOf]))
  have htext : dottedText value = octetText (value / 2 ^ 24) ++ '.' ::
      (octetText (value / 2 ^ 16 % 256) ++ '.' :: (octetText (value / 2 ^ 8 % 256) ++ '.' ::
        octetText (value % 256))) := by
    simp only [dottedText, List.intercalate_cons_cons, List.intercalate_singleton,
      List.append_assoc, List.cons_append, List.nil_append]
  have hmade : ∀ octet : Text, octet.all isLowerHex = true →
      ∀ c ∈ octet, (isLowerHex c || c == ':' || c == '.') = true := fun octet hall c hc => by
    rw [List.all_eq_true.mp hall c hc, Bool.true_or, Bool.true_or]
  rw [htext]
  refine ⟨?_, ?_, ?_, ?_, ?_⟩
  · simp only [List.mem_append, List.mem_cons, h0, h1, h2, h3, or_false, not_false_eq_true,
      Char.reduceEq]
  · simp only [List.mem_append, List.mem_cons, h0, h1, h2, h3, or_false, not_false_eq_true,
      Char.reduceEq]
  · exact List.mem_append_right _ List.mem_cons_self
  · simp only [List.map_append, List.map_cons, h0, h1, h2, h3, Char.reduceToLower]
  · simp only [List.forall_mem_append, List.forall_mem_cons]
    exact ⟨hmade _ h0.2.2.2.2.2.2, rfl, hmade _ h1.2.2.2.2.2.2, rfl, hmade _ h2.2.2.2.2.2.2, rfl,
      hmade _ h3.2.2.2.2.2.2⟩

/-! ## Colons -/

theorem doubleColons_cons (c : Char) (text : Text) :
    doubleColons (c :: text) =
      (if [':', ':'].isPrefixOf (c :: text) then [0] else []) ++ (doubleColons text).map (· + 1) := by
  unfold doubleColons
  rw [List.length_cons, List.range_succ_eq_map, List.filter_cons, List.filter_map]
  show (if [':', ':'].isPrefixOf (c :: text) = true then _ else _) = _
  split
  · rfl
  · rfl

/-- Text without a colon only moves the positions. -/
theorem doubleColons_append {text : Text} (h : ':' ∉ text) (rest : Text) :
    doubleColons (text ++ rest) = (doubleColons rest).map (· + text.length) := by
  induction text with
  | nil =>
    rw [List.nil_append]
    exact (List.map_id _).symm
  | cons c text ih =>
    rw [List.mem_cons, not_or] at h
    have hnot : ([':', ':'].isPrefixOf (c :: (text ++ rest))) = false := by
      rw [List.isPrefixOf, beq_eq_false_iff_ne.mpr h.1, Bool.false_and]
    rw [List.cons_append, doubleColons_cons, hnot, ih h.2, List.map_map, if_neg Bool.false_ne_true,
      List.nil_append]
    rfl

/-- A colon before something else. -/
theorem doubleColons_colon {text : Text} (h : text.head? ≠ some ':') :
    doubleColons (':' :: text) = (doubleColons text).map (· + 1) := by
  have hnot : ([':', ':'].isPrefixOf (':' :: text)) = false := by
    cases text with
    | nil => rfl
    | cons c rest =>
      have hc : (':' == c) = false := beq_eq_false_iff_ne.mpr fun heq => h (by rw [heq]; rfl)
      show ((':' == ':') && ((':' == c) && _)) = false
      rw [hc, Bool.false_and, Bool.and_false]
  rw [doubleColons_cons, hnot, if_neg Bool.false_ne_true, List.nil_append]

/-- Pieces: not empty, and no colon in them. -/
def ColonFree (texts : List Text) : Prop := ∀ text ∈ texts, text ≠ [] ∧ ':' ∉ text

theorem joined_cons (text : Text) (texts : List Text) :
    joined (text :: texts) = if texts = [] then text else text ++ ':' :: joined texts := by
  unfold joined
  split
  · rename_i hnil
    rw [hnil, List.intercalate_singleton]
  · rename_i hne
    rw [List.intercalate_cons_of_ne_nil hne, List.append_assoc]
    rfl

theorem joined_head {texts : List Text} (h : ColonFree texts) (rest : Text)
    (hrest : texts = [] → rest.head? ≠ some ':') : (joined texts ++ rest).head? ≠ some ':' := by
  cases texts with
  | nil => exact hrest rfl
  | cons text texts =>
    obtain ⟨hne, hfree⟩ := h text List.mem_cons_self
    obtain ⟨c, others, rfl⟩ := List.exists_cons_of_ne_nil hne
    rw [List.mem_cons, not_or] at hfree
    rw [joined_cons]
    split
    · exact fun heq => hfree.1 (Option.some.inj heq).symm
    · exact fun heq => hfree.1 (Option.some.inj heq).symm

/-- The positions of double colons after joined pieces. -/
theorem doubleColons_joined {texts : List Text} (h : ColonFree texts) (rest : Text) :
    doubleColons (joined texts ++ rest) = (doubleColons rest).map (· + (joined texts).length) := by
  induction texts with
  | nil => exact (List.map_id _).symm
  | cons text texts ih =>
    have hfree : ColonFree texts := fun other hother => h other (List.mem_cons_of_mem _ hother)
    have htext := (h text List.mem_cons_self).2
    rw [joined_cons]
    split
    · exact doubleColons_append htext rest
    · rename_i hne
      have hhead : (joined texts ++ rest).head? ≠ some ':' :=
        joined_head hfree rest fun hnil => absurd hnil hne
      rw [List.append_assoc, doubleColons_append htext, List.cons_append, doubleColons_colon hhead,
        ih hfree, List.map_map, List.map_map, List.length_append, List.length_cons]
      refine List.map_congr_left fun i _ => ?_
      show i + (joined texts).length + 1 + text.length = _
      omega

theorem doubleColons_plain {texts : List Text} (h : ColonFree texts) :
    doubleColons (joined texts) = [] := by
  have hpositions := doubleColons_joined h []
  rwa [List.append_nil] at hpositions

/-- Two colons between joined pieces are the only ones. -/
theorem doubleColons_between {lefts rights : List Text} (hleft : ColonFree lefts)
    (hright : ColonFree rights) :
    doubleColons (joined lefts ++ ':' :: ':' :: joined rights) = [(joined lefts).length] := by
  have hhead : (joined rights).head? ≠ some ':' := by
    have h := joined_head hright [] fun _ => by decide
    rwa [List.append_nil] at h
  rw [doubleColons_joined hleft, doubleColons_cons, doubleColons_colon hhead,
    doubleColons_plain hright]
  show [0 + (joined lefts).length] = _
  rw [Nat.zero_add]

/-! ## Reading groups -/

/-- A text of a group in lower case. -/
structure LowerText (text : Text) : Prop where
  size : 1 ≤ text.length ∧ text.length ≤ 4
  hex : text.all isLowerHex

theorem LowerText.free {text : Text} (h : LowerText text) :
    text ≠ [] ∧ ':' ∉ text ∧ '.' ∉ text := by
  refine ⟨fun hnil => ?_, fun hmem => ?_, fun hmem => ?_⟩
  · have hsize := h.size.1
    rw [hnil] at hsize
    cases hsize
  · exact absurd (List.all_eq_true.mp h.hex _ hmem) (by decide)
  · exact absurd (List.all_eq_true.mp h.hex _ hmem) (by decide)

def LowerTexts (texts : List Text) : Prop := ∀ text ∈ texts, LowerText text

theorem LowerTexts.colonFree {texts : List Text} (h : LowerTexts texts) : ColonFree texts :=
  fun text htext => ⟨(h text htext).free.1, (h text htext).free.2.1⟩

theorem parseGroups_joined {texts : List Text} (h : LowerTexts texts) :
    parseGroups (joined texts) = some (texts.map hexOf) := by
  cases texts with
  | nil => rfl
  | cons text rest =>
    have hsplit : (joined (text :: rest)).splitOn ':' = text :: rest :=
      List.splitOn_intercalate ':' (fun other hother => (h other hother).free.2.1)
        (List.cons_ne_nil _ _)
    have hne : joined (text :: rest) ≠ [] := by
      intro hnil
      rw [hnil, List.splitOn_nil] at hsplit
      exact (h text List.mem_cons_self).free.1 (List.cons.inj hsplit).1.symm
    have hall : (text :: rest).all (fun group => group.all isLowerHex && decide (1 ≤ group.length) &&
        decide (group.length ≤ 4)) = true := by
      rw [List.all_eq_true]
      intro other hother
      have hother' := h other hother
      rw [hother'.hex, decide_eq_true hother'.size.1, decide_eq_true hother'.size.2]
      rfl
    unfold parseGroups
    rw [if_neg hne]
    simp only [hsplit, hall, if_true]

theorem mem_joined {texts : List Text} {c : Char} (h : c ∈ joined texts) :
    c = ':' ∨ ∃ text ∈ texts, c ∈ text := by
  induction texts with
  | nil => cases h
  | cons text texts ih =>
    rw [joined_cons] at h
    have hfirst : c ∈ text → c = ':' ∨ ∃ other ∈ text :: texts, c ∈ other := fun hc =>
      .inr ⟨text, List.mem_cons_self, hc⟩
    split at h
    · exact hfirst h
    · rcases List.mem_append.mp h with h | h
      · exact hfirst h
      · rcases List.mem_cons.mp h with rfl | h
        · exact .inl rfl
        · rcases ih h with hcolon | ⟨other, hother, hc⟩
          · exact .inl hcolon
          · exact .inr ⟨other, List.mem_cons_of_mem _ hother, hc⟩

/-- The part before the dotted tail, without a double colon. -/
theorem parseHead_plain {texts : List Text} (h : LowerTexts texts) (tail : List ℕ) :
    parseHead (joined texts) tail = some (texts.map hexOf ++ tail) := by
  unfold parseHead
  rw [doubleColons_plain h.colonFree]
  show (parseGroups (joined texts)).map (· ++ tail) = _
  rw [parseGroups_joined h]
  rfl

/-- The part before the dotted tail, with a double colon. -/
theorem parseHead_between {lefts rights : List Text} (hleft : LowerTexts lefts)
    (hright : LowerTexts rights) {tail : List ℕ} {n : ℕ} (hn : 1 ≤ n)
    (hcount : lefts.length + n + rights.length + tail.length = 8) :
    parseHead (joined lefts ++ ':' :: ':' :: joined rights) tail =
      some (lefts.map hexOf ++ List.replicate n 0 ++ rights.map hexOf ++ tail) := by
  have htake : (joined lefts ++ ':' :: ':' :: joined rights).take (joined lefts).length =
      joined lefts := List.take_left
  have hdrop : (joined lefts ++ ':' :: ':' :: joined rights).drop ((joined lefts).length + 2) =
      joined rights := by
    rw [← List.drop_drop, List.drop_left]
    rfl
  have hmissing : 8 - (lefts.length + rights.length + tail.length) = n := by omega
  unfold parseHead
  rw [doubleColons_between hleft.colonFree hright.colonFree]
  simp only [htake, hdrop, parseGroups_joined hleft, parseGroups_joined hright, List.length_map,
    hmissing, Option.bind_eq_bind, Option.bind_some, Nat.not_lt.mpr hn, if_false]

/-! ## Lower case -/

theorem lower_hex {c : Char} (h : isHex c = true) :
    isLowerHex c.toLower = true ∧ hexDigit c.toLower = hexDigit c ∧ c ≠ '%' := by
  have hall : ∀ n < 128, isHex (Char.ofNat n) = true →
      isLowerHex (Char.ofNat n).toLower = true ∧
        hexDigit (Char.ofNat n).toLower = hexDigit (Char.ofNat n) ∧ Char.ofNat n ≠ '%' := by
    decide +kernel
  have hlt : c.toNat < 128 := by
    simp only [isHex, isLowerHex, isDigitAscii, Bool.or_eq_true, Bool.and_eq_true,
      decide_eq_true_eq, Char.le_def, UInt32.le_iff_toNat_le] at h
    have h9 : ('9' : Char).val.toNat = 57 := rfl
    have hf : ('f' : Char).val.toNat = 102 := rfl
    have hF : ('F' : Char).val.toNat = 70 := rfl
    have hc : c.toNat = c.val.toNat := rfl
    omega
  have hc := hall c.toNat hlt
  rw [Char.ofNat_toNat] at hc
  exact hc h

def lowered (text : Text) : Text := text.map Char.toLower

theorem hexOf_lowered {text : Text} (h : text.all isHex = true) : hexOf (lowered text) = hexOf text := by
  unfold hexOf lowered
  rw [List.foldl_map]
  refine List.foldl_ext _ _ _ fun n c hc => ?_
  rw [(lower_hex (List.all_eq_true.mp h c hc)).2.1]

theorem GroupText.lower {group : ℕ} {text : Text} (h : GroupText group text) :
    LowerText (lowered text) ∧ hexOf (lowered text) = group ∧ '%' ∉ text := by
  refine ⟨⟨?_, ?_⟩, ?_, fun hmem => ?_⟩
  · rw [lowered, List.length_map]
    exact h.size
  · rw [lowered, List.all_map, List.all_eq_true]
    exact fun c hc => (lower_hex (List.all_eq_true.mp h.hex c hc)).1
  · rw [hexOf_lowered h.hex, h.reads]
  · exact (lower_hex (List.all_eq_true.mp h.hex _ hmem)).2.2 rfl

theorem lowered_joined (texts : List Text) : lowered (joined texts) = joined (texts.map lowered) := by
  induction texts with
  | nil => rfl
  | cons text texts ih =>
    rw [joined_cons, List.map_cons, joined_cons]
    by_cases hnil : texts = []
    · rw [if_pos hnil, if_pos (by rw [hnil]; rfl)]
    · rw [if_neg hnil, if_neg (by rwa [List.map_eq_nil_iff]), ← ih]
      unfold lowered
      rw [List.map_append, List.map_cons]
      rfl

theorem groups_lower {groups : List ℕ} {texts : List Text}
    (h : List.Forall₂ GroupText groups texts) :
    LowerTexts (texts.map lowered) ∧ (texts.map lowered).map hexOf = groups ∧
      ∀ text ∈ texts, '%' ∉ text := by
  induction h with
  | nil => exact ⟨fun _ h => absurd h List.not_mem_nil, rfl, fun _ h => absurd h List.not_mem_nil⟩
  | cons hfirst _ ih =>
    obtain ⟨hlower, hreads, hzone⟩ := hfirst.lower
    refine ⟨List.forall_mem_cons.mpr ⟨hlower, ih.1⟩, ?_, List.forall_mem_cons.mpr ⟨hzone, ih.2.2⟩⟩
    rw [List.map_cons, List.map_cons, hreads, ih.2.1]

/-- Lowered pieces: texts of groups, then possibly an IPv4 text. -/
inductive LowerPieces (groups : List ℕ) (texts : List Text) : Prop
  | plain (h : LowerTexts texts) (hgroups : groups = texts.map hexOf)
  | dotted {front : List Text} {value : ℕ} (hvalue : value < 2 ^ 32) (h : LowerTexts front)
      (hgroups : groups = front.map hexOf ++ [value / 65536, value % 65536])
      (htexts : texts = front ++ [dottedText value])

theorem Pieces.lower {groups : List ℕ} {texts : List Text} (h : Pieces groups texts) :
    LowerPieces groups (texts.map lowered) ∧ ∀ text ∈ texts, '%' ∉ text := by
  induction h with
  | nil => exact ⟨.plain (fun _ h => absurd h List.not_mem_nil) rfl, fun _ h => absurd h List.not_mem_nil⟩
  | dotted hvalue =>
    obtain ⟨-, hzone, -, hlower, -⟩ := dottedText_clean hvalue
    refine ⟨@LowerPieces.dotted _ _ [] _ hvalue (fun _ h => absurd h List.not_mem_nil) rfl ?_,
      fun text htext => ?_⟩
    · rw [List.map_singleton, lowered, hlower, List.nil_append]
    · rw [List.mem_singleton.mp htext]
      exact hzone
  | @group group text groups texts hfirst rest ih =>
    obtain ⟨hlower, hreads, hzone⟩ := hfirst.lower
    refine ⟨?_, List.forall_mem_cons.mpr ⟨hzone, ih.2⟩⟩
    rw [List.map_cons]
    cases ih.1 with
    | plain hplain hgroups =>
      refine .plain (List.forall_mem_cons.mpr ⟨hlower, hplain⟩) ?_
      rw [List.map_cons, hreads, hgroups]
    | @dotted front value hvalue hfront hgroups htexts =>
      refine @LowerPieces.dotted _ _ (lowered text :: front) _ hvalue
        (List.forall_mem_cons.mpr ⟨hlower, hfront⟩) ?_ ?_
      · rw [List.map_cons, hreads, hgroups, List.cons_append]
      · rw [htexts, List.cons_append]

/-! ## Reading IPv6 -/

theorem joined_append_single {front : List Text} (last : Text) :
    joined (front ++ [last]) = if front = [] then last else joined front ++ ':' :: last := by
  induction front with
  | nil =>
    rw [if_pos rfl]
    exact List.intercalate_singleton
  | cons text rest ih =>
    rw [List.cons_append, joined_cons, if_neg (List.append_ne_nil_of_right_ne_nil _ (by simp)), ih,
      if_neg (List.cons_ne_nil _ _), joined_cons]
    split
    · rfl
    · rw [List.append_assoc]
      rfl

/-- Joined pieces end in something else than a colon. -/
theorem joined_last {texts : List Text} (h : ColonFree texts) (hne : texts ≠ []) (pre front : Text) :
    pre ++ joined texts ≠ front ++ [':'] := by
  obtain ⟨others, last, rfl⟩ := List.eq_nil_or_concat' texts |>.resolve_left hne
  obtain ⟨hlast, hfree⟩ := h last (List.mem_append_right _ List.mem_cons_self)
  obtain ⟨most, c, rfl⟩ := List.eq_nil_or_concat' last |>.resolve_left hlast
  have hc : c ≠ ':' := fun heq => hfree (by rw [heq]; exact List.mem_append_right _ List.mem_cons_self)
  have hend : ∃ start, pre ++ joined (others ++ [most ++ [c]]) = start ++ [c] := by
    rw [joined_append_single]
    split
    · exact ⟨pre ++ most, by rw [List.append_assoc]⟩
    · refine ⟨pre ++ joined others ++ ':' :: most, ?_⟩
      simp only [List.append_assoc, List.cons_append]
  obtain ⟨start, hstart⟩ := hend
  rw [hstart]
  exact fun heq => hc (List.cons.inj (List.append_inj_right' heq rfl)).1

theorem after_last_colon {before tail : Text} (h : ':' ∉ tail) :
    (before ++ ':' :: tail).rtakeWhile (· ≠ ':') = tail ∧
      (before ++ ':' :: tail).rdropWhile (· ≠ ':') = before ++ [':'] := by
  have hreverse : (before ++ ':' :: tail).reverse = tail.reverse ++ ':' :: before.reverse := by
    rw [List.reverse_append, List.reverse_cons, List.append_assoc]
    rfl
  have hall : ∀ c ∈ tail.reverse, decide (c ≠ ':') = true := fun c hc =>
    decide_eq_true fun heq => h (heq ▸ List.mem_reverse.mp hc)
  constructor
  · rw [List.rtakeWhile, hreverse, List.takeWhile_append_of_pos hall,
      List.takeWhile_cons_of_neg (by decide), List.append_nil, List.reverse_reverse]
  · rw [List.rdropWhile, hreverse, List.dropWhile_append_of_pos hall,
      List.dropWhile_cons_of_neg (by decide), List.reverse_cons, List.reverse_reverse]

/-- The characters of lowered pieces. -/
theorem address_char {texts : List Text} (h : LowerTexts texts) :
    ∀ c ∈ joined texts, (isLowerHex c || c == ':' || c == '.') = true ∧ c ≠ '.' := by
  intro c hc
  rcases mem_joined hc with rfl | ⟨text, htext, hmem⟩
  · exact ⟨rfl, by decide⟩
  · refine ⟨?_, fun heq => (h text htext).free.2.2 (heq ▸ hmem)⟩
    rw [List.all_eq_true.mp (h text htext).hex c hmem]
    rfl

/-- Plain pieces are read as their groups. -/
theorem parseLower_plain {address : Text} (h : '.' ∉ address) :
    parseLower address = parseHead address [] := if_neg h

/-- A dotted tail after a colon. -/
theorem parseLower_dotted {before : Text} {value : ℕ} (hvalue : value < 2 ^ 32) :
    parseLower (before ++ ':' :: dottedText value) =
      parseHead (if [':', ':'].isSuffixOf (before ++ [':']) then before ++ [':'] else before)
        [value / 65536, value % 65536] := by
  obtain ⟨hcolon, -, hdot, -, -⟩ := dottedText_clean hvalue
  obtain ⟨htail, hhead⟩ := @after_last_colon before _ hcolon
  have htake : (before ++ [':']).take ((before ++ [':']).length - 1) = before := by
    rw [List.length_append, List.length_singleton, Nat.add_sub_cancel, List.take_left]
  unfold parseLower
  rw [if_pos (List.mem_append_right _ (List.mem_cons_of_mem _ hdot)), htail, hhead,
    parseIpv4_dottedText hvalue]
  show parseHead (if [':', ':'].isSuffixOf (before ++ [':']) then before ++ [':'] else
    (before ++ [':']).take ((before ++ [':']).length - 1)) _ = _
  rw [htake]

theorem not_suffix {texts : List Text} (h : ColonFree texts) (hne : texts ≠ []) (pre : Text) :
    [':', ':'].isSuffixOf (pre ++ joined texts ++ [':']) = false := by
  rw [← Bool.not_eq_true, List.isSuffixOf_iff_suffix]
  rintro ⟨front, hfront⟩
  have hsplit : front ++ [':'] ++ [':'] = pre ++ joined texts ++ [':'] := by
    rw [← hfront, List.append_assoc]
    rfl
  exact joined_last h hne pre front (List.append_cancel_right hsplit).symm

/-- The whole address, without a double colon. -/
theorem parseLower_full {groups : List ℕ} {texts : List Text} (h : LowerPieces groups texts)
    (hsize : groups.length = 8) : parseLower (joined texts) = some groups := by
  cases h with
  | plain hlower hgroups =>
    rw [parseLower_plain fun hdot => (address_char hlower _ hdot).2 rfl, parseHead_plain hlower,
      List.append_nil, hgroups]
  | @dotted front value hvalue hlower hgroups htexts =>
    have hne : front ≠ [] := by
      rintro rfl
      rw [hgroups] at hsize
      cases hsize
    have hsuffix := not_suffix hlower.colonFree hne []
    rw [List.nil_append] at hsuffix
    rw [htexts, joined_append_single, if_neg hne, parseLower_dotted hvalue, hsuffix,
      if_neg Bool.false_ne_true, parseHead_plain hlower, hgroups]

/-- The whole address, with a double colon. -/
theorem parseLower_compressed {lefts rights : List Text} {right : List ℕ} {n : ℕ}
    (hleft : LowerTexts lefts) (hright : LowerPieces right rights) (hn : 1 ≤ n)
    (hsize : lefts.length + n + right.length = 8) :
    parseLower (joined lefts ++ ':' :: ':' :: joined rights) =
      some (lefts.map hexOf ++ List.replicate n 0 ++ right) := by
  cases hright with
  | plain hlower hgroups =>
    have hdot : '.' ∉ joined lefts ++ ':' :: ':' :: joined rights := by
      rw [List.mem_append, List.mem_cons, List.mem_cons]
      rintro (hdot | hdot | hdot | hdot)
      · exact (address_char hleft _ hdot).2 rfl
      · exact absurd hdot (by decide)
      · exact absurd hdot (by decide)
      · exact (address_char hlower _ hdot).2 rfl
    rw [parseLower_plain hdot, parseHead_between hleft hlower hn, List.append_nil, hgroups]
    rw [hgroups, List.length_map] at hsize
    exact hsize
  | @dotted front value hvalue hlower hgroups htexts =>
    rw [hgroups, List.length_append, List.length_map] at hsize
    have hcount : lefts.length + n + front.length +
        [value / 65536, value % 65536].length = 8 := by
      rw [← hsize]
      exact Nat.add_assoc _ _ _
    rw [htexts, joined_append_single, hgroups, ← List.append_assoc]
    by_cases hnil : front = []
    · have haddress : joined lefts ++ ':' :: ':' :: dottedText value =
          (joined lefts ++ [':']) ++ ':' :: dottedText value := by
        rw [List.append_assoc]
        rfl
      have hsuffix : [':', ':'].isSuffixOf (joined lefts ++ [':'] ++ [':']) = true := by
        rw [List.isSuffixOf_iff_suffix, List.append_assoc]
        exact List.suffix_append _ _
      have hhead : joined lefts ++ [':'] ++ [':'] = joined lefts ++ ':' :: ':' :: joined front := by
        rw [hnil, List.append_assoc]
        rfl
      rw [if_pos hnil, haddress, parseLower_dotted hvalue, hsuffix, if_pos rfl, hhead,
        parseHead_between hleft hlower hn hcount]
    · have haddress : joined lefts ++ ':' :: ':' :: (joined front ++ ':' :: dottedText value) =
          (joined lefts ++ ':' :: ':' :: joined front) ++ ':' :: dottedText value := by
        simp only [List.append_assoc, List.cons_append]
      have hsuffix := not_suffix hlower.colonFree hnil (joined lefts ++ [':', ':'])
      have hbefore : joined lefts ++ [':', ':'] ++ joined front =
          joined lefts ++ ':' :: ':' :: joined front := by
        rw [List.append_assoc]
        rfl
      rw [hbefore] at hsuffix
      rw [if_neg hnil, haddress, parseLower_dotted hvalue, hsuffix, if_neg Bool.false_ne_true,
        parseHead_between hleft hlower hn hcount]

theorem LowerPieces.char {groups : List ℕ} {texts : List Text} (h : LowerPieces groups texts) :
    ∀ c ∈ joined texts, (isLowerHex c || c == ':' || c == '.') = true := by
  intro c hc
  cases h with
  | plain hlower _ => exact (address_char hlower c hc).1
  | @dotted front value hvalue hlower _ htexts =>
    rcases mem_joined hc with rfl | ⟨text, htext, hmem⟩
    · rfl
    · rw [htexts, List.mem_append, List.mem_singleton] at htext
      rcases htext with htext | rfl
      · rw [List.all_eq_true.mp (hlower text htext).hex c hmem]
        rfl
      · exact (dottedText_clean hvalue).2.2.2.2 c hmem

theorem lowered_between (lefts rights : List Text) :
    lowered (joined lefts ++ [':', ':'] ++ joined rights) =
      joined (lefts.map lowered) ++ ':' :: ':' :: joined (rights.map lowered) := by
  rw [← lowered_joined, ← lowered_joined]
  unfold lowered
  rw [List.map_append, List.map_append, List.append_assoc]
  rfl

/-- What the parser needs of an address text. -/
theorem Ipv6Text.read {a : Ipv6Address} {plain : Text} (h : Ipv6Text a plain) :
    '%' ∉ plain ∧ parseLower (lowered plain) = some a.groups ∧
      ∀ c ∈ lowered plain, (isLowerHex c || c == ':' || c == '.') = true := by
  have zoneless : ∀ texts : List Text, (∀ text ∈ texts, '%' ∉ text) → '%' ∉ joined texts := by
    intro texts hfree hmem
    rcases mem_joined hmem with heq | ⟨text, htext, hc⟩
    · exact absurd heq (by decide)
    · exact hfree text htext hc
  cases h with
  | @full texts hpieces =>
    obtain ⟨hlower, hzone⟩ := hpieces.lower
    rw [lowered_joined]
    exact ⟨zoneless texts hzone, parseLower_full hlower a.size, hlower.char⟩
  | @compressed left right lefts rights n hleft hright hn hgroups =>
    obtain ⟨hlowers, hreads, hzoneLeft⟩ := groups_lower hleft
    obtain ⟨hlower, hzoneRight⟩ := hright.lower
    have hsize : (lefts.map lowered).length + n + right.length = 8 := by
      have hcount := a.size
      rw [hgroups, ← hreads] at hcount
      simpa only [List.length_append, List.length_replicate, List.length_map] using hcount
    refine ⟨?_, ?_, ?_⟩
    · rw [List.mem_append, List.mem_append]
      rintro ((hmem | hmem) | hmem)
      · exact zoneless lefts hzoneLeft hmem
      · exact absurd hmem (by decide)
      · exact zoneless rights hzoneRight hmem
    · rw [lowered_between, parseLower_compressed hlowers hlower hn hsize, hreads, hgroups]
    · rw [lowered_between]
      intro c hc
      rw [List.mem_append, List.mem_cons, List.mem_cons] at hc
      rcases hc with hc | rfl | rfl | hc
      · exact (address_char hlowers c hc).1
      · rfl
      · rfl
      · exact hlower.char c hc

theorem Zoned.plain_eq {plain text : Text} (h : Zoned plain text) (hzone : '%' ∉ plain) :
    text.takeWhile (· ≠ '%') = plain := by
  have hall : ∀ c ∈ plain, decide (c ≠ '%') = true := fun c hc =>
    decide_eq_true fun heq => hzone (heq ▸ hc)
  cases h with
  | without => exact List.takeWhile_eq_self_iff.mpr hall
  | zone name =>
    rw [List.takeWhile_append_of_pos hall, List.takeWhile_cons_of_neg (by decide), List.append_nil]

/-- The parser reads every text of an address, with and without a zone. -/
theorem parseIpv6_text {a : Ipv6Address} {plain text : Text} (h : Ipv6Text a plain)
    (hzoned : Zoned plain text) : parseIpv6 text = some a.groups := by
  obtain ⟨hzone, hparse, hchars⟩ := h.read
  have hne : lowered plain ≠ [] := by
    intro hnil
    have hempty : parseLower [] = some [] := by decide
    rw [hnil, hempty] at hparse
    have hsize := a.size
    rw [← Option.some.inj hparse] at hsize
    cases hsize
  have hall : (lowered plain).all (fun c => isLowerHex c || c == ':' || c == '.') = true :=
    List.all_eq_true.mpr hchars
  unfold parseIpv6
  rw [hzoned.plain_eq hzone]
  show (if lowered plain = [] ∨ ¬ (lowered plain).all _ = true then none
    else (parseLower (lowered plain)).filter _) = _
  rw [if_neg (not_or.mpr ⟨hne, not_not.mpr hall⟩), hparse, Option.filter_some, a.size]
  rfl

end QuokyPlatform.Egress
