import Mathlib.Data.Nat.Notation
import QuokyPlatform.Links.Neutralizer

/-!
# How many rounds a text needs

A round takes a full stop or a colon out of the text with each link it replaces, so the rounds come
to an end. The neutralizer stops after three of them. What it returns has no link left exactly when
three were enough.
-/

namespace QuokyPlatform.Links
set_option autoImplicit false
set_option maxHeartbeats 250000

section
variable (unicode : Unicode)

/-! ## What the patterns match -/

theorem same_mark {c d : CodePoint} (hd : d ∈ chars ".:") (h : same unicode d c) : c = d :=
  unicode.fold_mark c d hd (by simpa [same] using h)

theorem literal_needs {d : CodePoint} (hd : d ∈ chars ".:") :
    (literal unicode d).Needs isLinkMark := by
  have hmark : ∀ d ∈ chars ".:", isLinkMark d = true := by decide
  intro c hc
  rw [same_mark unicode hd hc]
  exact hmark d hd

theorem scheme_needs : (SCHEME_OR_WWW unicode).Needs isLinkMark := by
  refine .inl ⟨?_, ?_⟩
  · -- the colon behind the scheme
    exact .inr (.inr (.inl (literal_needs unicode (by decide))))
  · -- the full stop behind `www`
    exact .inr (.inr (.inr (.inl (literal_needs unicode (by decide)))))

theorem bareDomain_needs : (BARE_DOMAIN unicode).Needs isLinkMark := by
  have hdot : (labelAndDot unicode).Needs isLinkMark := by
    refine .inr (.inr fun c hc => ?_)
    simp [isLinkMark, hc]
  exact .inr (.inl ⟨Nat.one_pos, hdot⟩)

abbrev Neutralized : Text → Text → Prop := Regex.Replaced isLinkMark LINK_PLACEHOLDER

theorem schemes_neutralized (text : Text) : Neutralized text
    (Regex.replaceAll (same unicode) (SCHEME_OR_WWW unicode) (fun _ => LINK_PLACEHOLDER) text) :=
  Regex.replaceAll_replaced (scheme_needs unicode) (fun _ => .inl rfl) text

theorem bareDomainReplacement_eq (mode : LinkNeutralizationMode) (found : Regex.Found CodePoint) :
    bareDomainReplacement unicode mode found = LINK_PLACEHOLDER ∨
      bareDomainReplacement unicode mode found = found.matched := by
  cases mode with
  | body =>
    simp only [bareDomainReplacement]
    split_ifs <;> simp
  | display =>
    simp only [bareDomainReplacement]
    split_ifs <;> simp

theorem bareDomains_neutralized (mode : LinkNeutralizationMode) (text : Text) :
    Neutralized text (replaceBareDomains unicode text mode) :=
  Regex.replaceAll_replaced (bareDomain_needs unicode) (bareDomainReplacement_eq unicode mode) text

/-! ## Normalized texts -/

/-- A text that normalization leaves as it is. -/
structure Clean (text : Text) : Prop where
  nfkc : unicode.nfkc text = text
  format : ∀ c ∈ text, unicode.isFormat c = false

variable {unicode}

theorem clean_normalized (text : Text) : Clean unicode (normalized unicode text) where
  nfkc := unicode.nfkc_nfkc _
  format := unicode.nfkc_format fun c hc => by simpa using (List.mem_filter.mp hc).2

theorem Clean.normalized {text : Text} (h : Clean unicode text) :
    normalized unicode text = text := by
  have hfilter : text.filter (fun c => !unicode.isFormat c) = text :=
    List.filter_eq_self.mpr fun c hc => by simp [h.format c hc]
  rw [Links.normalized, hfilter, h.nfkc]

theorem Clean.swap {text part more : Text} (h : Clean unicode (text ++ (part ++ more))) :
    Clean unicode (text ++ (LINK_PLACEHOLDER ++ more)) where
  nfkc := by
    have htext := unicode.nfkc_infix (List.prefix_append text (part ++ more)).isInfix h.nfkc
    have hmore := unicode.nfkc_infix (List.suffix_append part more).isInfix
      (unicode.nfkc_infix (List.suffix_append text (part ++ more)).isInfix h.nfkc)
    have hjoin := unicode.nfkc_join htext hmore
    rwa [List.append_assoc] at hjoin
  format c hc := by
    rcases List.mem_append.mp hc with hc | hc
    · exact h.format c (List.mem_append_left _ hc)
    · rcases List.mem_append.mp hc with hc | hc
      · exact unicode.placeholder_format c hc
      · exact h.format c (List.mem_append_right _ (List.mem_append_right _ hc))

/-- Replacing parts of a normalized text by the placeholder leaves it normalized. -/
theorem Clean.neutralized {text next : Text} (h : Neutralized text next) (done : Text)
    (hclean : Clean unicode (done ++ text)) : Clean unicode (done ++ next) := by
  induction h generalizing done with
  | nil => exact hclean
  | @keep c text next _ ih =>
    have hkept : Clean unicode ((done ++ [c]) ++ text) := by simpa using hclean
    simpa using ih _ hkept
  | @swap part _ text next _ ih =>
    have hswapped : Clean unicode ((done ++ LINK_PLACEHOLDER) ++ text) := by
      rw [List.append_assoc]
      exact hclean.swap
    rw [← List.append_assoc]
    exact ih _ hswapped

theorem Clean.round {text : Text} (mode : LinkNeutralizationMode) (h : Clean unicode text) :
    Clean unicode (neutralizeRound unicode mode text) :=
  Clean.neutralized (bareDomains_neutralized unicode mode _) []
    (Clean.neutralized (schemes_neutralized unicode text) [] h)

theorem Clean.rounds {mode : LinkNeutralizationMode} {rounds : ℕ} {text : Text}
    (h : Clean unicode text) : Clean unicode (neutralizeRounds unicode mode rounds text) := by
  induction rounds generalizing text with
  | zero => exact h
  | succ rounds ih =>
    simp only [neutralizeRounds]
    split
    · exact h.round mode
    · exact ih (h.round mode)

end

/-! ## The rounds end -/

section
variable (unicode : Unicode) (mode : LinkNeutralizationMode)

theorem countP_of_neutralized {text next : Text} (h : Neutralized text next) :
    next = text ∨ next.countP isLinkMark < text.countP isLinkMark :=
  h.countP_lt (by decide)

theorem round_countP (text : Text) : neutralizeRound unicode mode text = text ∨
    (neutralizeRound unicode mode text).countP isLinkMark < text.countP isLinkMark := by
  have hschemes := countP_of_neutralized (schemes_neutralized unicode text)
  have hdomains := countP_of_neutralized (bareDomains_neutralized unicode mode
    (Regex.replaceAll (same unicode) (SCHEME_OR_WWW unicode) (fun _ => LINK_PLACEHOLDER) text))
  rcases hschemes with hschemes | hschemes
  · rw [hschemes] at hdomains
    rw [neutralizeRound, hschemes]
    exact hdomains
  · refine .inr ?_
    rcases hdomains with hdomains | hdomains
    · rw [neutralizeRound, hdomains]
      exact hschemes
    · exact Nat.lt_trans hdomains hschemes

theorem rounds_countP_le (rounds : ℕ) (text : Text) :
    (neutralizeRounds unicode mode rounds text).countP isLinkMark ≤ text.countP isLinkMark := by
  induction rounds generalizing text with
  | zero => exact Nat.le_refl _
  | succ rounds ih =>
    simp only [neutralizeRounds]
    split
    · rename_i hstable
      rw [hstable]
    · rename_i hchanged
      have hround := (round_countP unicode mode text).resolve_left hchanged
      have hrest := ih (neutralizeRound unicode mode text)
      omega

/-- The rounds until one changes nothing, without a cap. -/
def roundsNeeded (text : Text) : ℕ :=
  if neutralizeRound unicode mode text = text then 0
  else roundsNeeded (neutralizeRound unicode mode text) + 1
termination_by text.countP isLinkMark
decreasing_by
  rename_i hchanged
  exact (round_countP unicode mode text).resolve_left hchanged

/-- There are no more rounds than full stops and colons in the text. -/
theorem roundsNeeded_le_countP (text : Text) :
    roundsNeeded unicode mode text ≤ text.countP isLinkMark := by
  induction text using roundsNeeded.induct unicode mode with
  | case1 text hstable =>
    rw [roundsNeeded, if_pos hstable]
    exact Nat.zero_le _
  | case2 text hchanged ih =>
    have hround := (round_countP unicode mode text).resolve_left hchanged
    rw [roundsNeeded, if_neg hchanged]
    omega

/-- The last of some rounds leaves a text that another one leaves alone exactly when they were
enough. -/
theorem round_rounds_iff (rounds : ℕ) (text : Text) :
    neutralizeRound unicode mode (neutralizeRounds unicode mode rounds text) =
        neutralizeRounds unicode mode rounds text ↔ roundsNeeded unicode mode text ≤ rounds := by
  induction rounds generalizing text with
  | zero =>
    rw [roundsNeeded, neutralizeRounds]
    split <;> simp_all
  | succ rounds ih =>
    rw [roundsNeeded]
    simp only [neutralizeRounds]
    split
    · rename_i hstable
      simp [hstable]
    · rw [ih]
      omega

/-- Running the rounds on a text gives it back exactly when one round does. -/
theorem rounds_eq_self_iff (rounds : ℕ) (text : Text) :
    neutralizeRounds unicode mode (rounds + 1) text = text ↔
      neutralizeRound unicode mode text = text := by
  simp only [neutralizeRounds]
  split
  · exact Iff.rfl
  · rename_i hchanged
    have hround := (round_countP unicode mode text).resolve_left hchanged
    have hrest := rounds_countP_le unicode mode rounds (neutralizeRound unicode mode text)
    refine ⟨fun heq => ?_, fun heq => absurd heq hchanged⟩
    rw [heq] at hrest
    omega

/-! ## Texts that are shown as neutralized -/

theorem normalized_nil : normalized unicode [] = [] := by
  have hclean : Clean unicode (normalized unicode []) := clean_normalized []
  exact unicode.nfkc_infix List.nil_infix hclean.nfkc

/-- A normalized text has a link exactly when a round finds one. -/
theorem containsLink_eq_false_iff {text : Text} (h : Clean unicode text) :
    containsLink unicode text mode = false ↔ neutralizeRound unicode mode text = text := by
  by_cases hempty : text.length = 0
  · have hround := round_countP unicode mode text
    cases List.length_eq_zero_iff.mp hempty
    simpa [containsLink] using hround
  · rw [← rounds_eq_self_iff unicode mode 2 text]
    simp [containsLink, neutralizeLinks, hempty, h.normalized]

/-- Nothing the module recognises as a link is left of a text exactly when it needs no more than
the three rounds. -/
theorem no_link_left_iff (text : Text) :
    containsLink unicode (neutralizeLinks unicode text mode) mode = false ↔
      roundsNeeded unicode mode (normalized unicode text) ≤ 3 := by
  by_cases hempty : text.length = 0
  · cases List.length_eq_zero_iff.mp hempty
    have hneeded := roundsNeeded_le_countP unicode mode []
    rw [normalized_nil]
    exact ⟨fun _ => Nat.le_trans hneeded (Nat.zero_le 3), fun _ => rfl⟩
  · have hclean : Clean unicode (neutralizeRounds unicode mode 3 (normalized unicode text)) :=
      (clean_normalized text).rounds
    rw [neutralizeLinks, if_neg hempty, containsLink_eq_false_iff unicode mode hclean]
    exact round_rounds_iff unicode mode 3 (normalized unicode text)

end

/-! ## A text that needs four -/

def asciiFold (c : ℕ) : ℕ := if 0x41 ≤ c ∧ c ≤ 0x5a then c + 0x20 else c

theorem asciiFold_inj {c d : ℕ} (hd : d < 0x41) (h : asciiFold d = asciiFold c) : c = d := by
  simp only [asciiFold] at h
  split_ifs at h <;> omega

/-- Unicode as far as ASCII and the Hangul syllables go. -/
def koreanUnicode : Unicode where
  isLetter c := (0x41 ≤ c && c ≤ 0x5a) || (0x61 ≤ c && c ≤ 0x7a) || (0xac00 ≤ c && c ≤ 0xd7a3)
  isMark _ := false
  isNumber c := 0x30 ≤ c && c ≤ 0x39
  isFormat _ := false
  fold := asciiFold
  fold_mark _ d hd h :=
    have hmarks : ∀ d ∈ chars ".:", d < 0x41 := by decide
    asciiFold_inj (hmarks d hd) h
  toLowerCase text := text.map asciiFold
  nfkc text := text
  nfkc_nfkc _ := rfl
  nfkc_infix _ _ := rfl
  nfkc_join _ _ := rfl
  nfkc_format h := h
  placeholder_format _ _ := rfl

/-- Each link is hidden in the file name of ten labels that the scan finds first, until the link
before it is gone. -/
def hiddenLinks : Text :=
  chars ("a.com가.1.1.1.1.1.1.1.1.1.com가.pdf.1.1.1.1.1.1.1.1.com가.pdf.1.1.1.1.1.1.1.1.com가.pdf")

theorem hidden_link_left :
    containsLink koreanUnicode (neutralizeLinks koreanUnicode hiddenLinks .display) .display ∧
    containsLink koreanUnicode (neutralizeLinks koreanUnicode hiddenLinks .body) .body := by
  constructor
  · decide +kernel
  · decide +kernel

end QuokyPlatform.Links
