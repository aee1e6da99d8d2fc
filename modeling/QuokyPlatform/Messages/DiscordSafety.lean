import QuokyPlatform.Messages.DiscordMarkup
import QuokyPlatform.Messages.SegmentSources

/-!
# Untrusted text cannot mention or format on Discord

Escaping comes before the budgets cut, so the escapes are followed unit by unit: `Guarded` walks the
text with the parity of the backslashes directly before. Every layout keeps texts that end with
their escapes complete, also after their white space is trimmed.
-/

namespace QuokyPlatform.Messages.Discord
open Chunking
set_option autoImplicit false
set_option maxHeartbeats 250000

/-! ## What is promised -/

/-- How many backslashes stand directly before a place. -/
def backslashesBefore (text : TrackedText) (i : ℕ) : ℕ :=
  ((text.take i).rtakeWhile (·.unit = BACKSLASH)).length

/-- Every `@` and `<` but the markup's own is broken by what follows, and every Markdown unit of an
untrusted string is escaped. -/
structure Neutral (text : TrackedText) : Prop where
  broken : ∀ i (h : i < text.length), text[i].origin ≠ .markup →
    text[i].unit = AT ∨ text[i].unit = LESS →
      ∃ next, text[i + 1]? = some next ∧ (next.unit = ZWSP ∨ [next.unit] = ellipsis)
  escaped : ∀ i (h : i < text.length), text[i].origin = .untrusted →
    text[i].unit ∈ DISCORD_MARKDOWN → backslashesBefore text i % 2 = 1

/-- What a node says in Quoky's own words; an untrusted string uses the markup guard. -/
def ShapeSays (copy : JsString → Prop) {T : Type} : NodeShape T → Prop
  | .text value => copy value
  | .untrusted _ guard => guard = .markup
  | .conversation ref => copy ref.label
  | .fitLines _ _ omittedNote => ∀ note ∈ omittedNote, copy note
  | .takeLines _ _ _ _ _ _ _ _ omitted => ∀ note ∈ omitted, copy note.before ∧ copy note.after
  | _ => True

/-- The words of every node in the content. -/
def Says (copy : JsString → Prop) (body : MessageBody) : Prop :=
  match body with
  | .text value => copy value
  | .content nodes => ∀ shape, Occurs (.node shape) nodes → ShapeSays copy shape

/-- No `@`, no `<`, no backslash at the end. -/
def Plain (text : JsString) : Prop := AT ∉ text ∧ LESS ∉ text ∧ text.getLast? ≠ some BACKSLASH

/-- No `@`, no `<`, and no backslash at the end, white space apart. -/
def PlainTrimmed (text : JsString) : Prop :=
  AT ∉ text ∧ LESS ∉ text ∧ (text.rdropWhile isWhiteSpace).getLast? ≠ some BACKSLASH

theorem says_nil (copy : JsString → Prop) : Says copy (.content []) := by
  intro shape hshape
  cases hshape with
  | here hmem => simp at hmem
  | inside hmem => simp at hmem

theorem says_cons {copy : JsString → Prop} {shape : NodeShape MessageContent}
    {rest : MessageContent} : Says copy (.content (.node shape :: rest)) ↔
      ShapeSays copy shape ∧ (∀ contents ∈ shape.contents, Says copy (.content contents)) ∧
        Says copy (.content rest) := by
  constructor
  · intro h
    refine ⟨h shape (.here List.mem_cons_self), fun contents hcontents inner hinner => ?_,
      fun inner hinner => ?_⟩
    · exact h inner (.inside List.mem_cons_self hcontents hinner)
    · cases hinner with
      | here hmem => exact h inner (.here (List.mem_cons_of_mem _ hmem))
      | inside hmem hc ho => exact h inner (.inside (List.mem_cons_of_mem _ hmem) hc ho)
  · rintro ⟨hshape, hcontents, hrest⟩ inner hinner
    cases hinner with
    | here hmem =>
      cases List.mem_cons.mp hmem with
      | inl heq =>
        cases heq
        exact hshape
      | inr hmem => exact hrest inner (.here hmem)
    | inside hmem hc ho =>
      cases List.mem_cons.mp hmem with
      | inl heq =>
        cases heq
        exact hcontents _ hc inner ho
      | inr hmem => exact hrest inner (.inside hmem hc ho)

/-! ## Walking the escapes -/

/-- Whether an odd number of backslashes ends the text, given whether one ended before it. -/
def odd : Bool → TrackedText → Bool
  | before, [] => before
  | before, u :: rest => odd (if u.unit = BACKSLASH then !before else false) rest

/-- Both promises, unit by unit. -/
def Guarded : Bool → TrackedText → Prop
  | _, [] => True
  | before, u :: rest =>
    (u.origin = .untrusted → u.unit ∈ DISCORD_MARKDOWN → before = true) ∧
      (u.origin ≠ .markup → u.unit = AT ∨ u.unit = LESS →
        ∃ next, rest.head? = some next ∧ (next.unit = ZWSP ∨ [next.unit] = ellipsis)) ∧
      Guarded (if u.unit = BACKSLASH then !before else false) rest

theorem odd_append (before : Bool) (first second : TrackedText) :
    odd before (first ++ second) = odd (odd before first) second := by
  induction first generalizing before with
  | nil => rfl
  | cons u rest ih => exact ih _

/-- A text of other units than backslashes ends its escapes. -/
theorem odd_of_getLast {text : TrackedText} {u : Tracked} (h : text.getLast? = some u)
    (hu : u.unit ≠ BACKSLASH) (before : Bool) : odd before text = false := by
  obtain ⟨init, rfl⟩ := List.getLast?_eq_some_iff.mp h
  rw [odd_append]
  simp [odd, hu]

theorem Guarded.append {before : Bool} {first second : TrackedText} (hfirst : Guarded before first)
    (hsecond : Guarded (odd before first) second) : Guarded before (first ++ second) := by
  induction first generalizing before with
  | nil => exact hsecond
  | cons u rest ih =>
    obtain ⟨hescaped, hbroken, hrest⟩ := hfirst
    refine ⟨hescaped, fun horigin hunit => ?_, ih hrest hsecond⟩
    obtain ⟨next, hnext, hbreak⟩ := hbroken horigin hunit
    exact ⟨next, by cases rest <;> simp_all, hbreak⟩

/-- Behind a first part, the rest is guarded on its own. -/
theorem Guarded.right {before : Bool} {first second : TrackedText}
    (h : Guarded before (first ++ second)) : Guarded (odd before first) second := by
  induction first generalizing before with
  | nil => exact h
  | cons u rest ih => exact ih h.2.2

def BreakOnly (u : Tracked) : Prop := u.unit = ZWSP ∨ [u.unit] = ellipsis

/-- A first part is guarded on its own when nothing behind it is needed to break a unit. -/
theorem Guarded.left {before : Bool} {first second : TrackedText}
    (h : Guarded before (first ++ second)) (hhead : ∀ u ∈ second.head?, ¬ BreakOnly u) :
    Guarded before first := by
  induction first generalizing before with
  | nil => trivial
  | cons u rest ih =>
    obtain ⟨hescaped, hbroken, hrest⟩ := h
    refine ⟨hescaped, fun horigin hunit => ?_, ih hrest⟩
    obtain ⟨next, hnext, hbreak⟩ := hbroken horigin hunit
    cases rest with
    | nil => exact absurd hbreak (hhead next hnext)
    | cons v rest => exact ⟨next, hnext, hbreak⟩

/-- The cut mark does for whatever is cut off. -/
theorem Guarded.cut {before : Bool} {first second : TrackedText}
    (h : Guarded before (first ++ second)) :
    Guarded before (first ++ tracked .quoky ellipsis) := by
  induction first generalizing before with
  | nil =>
    have hmark : (0x2026 : CodeUnit) ≠ AT ∧ (0x2026 : CodeUnit) ≠ LESS := by decide
    simp [Guarded, tracked, ellipsis, hmark]
  | cons u rest ih =>
    obtain ⟨hescaped, hbroken, hrest⟩ := h
    refine ⟨hescaped, fun horigin hunit => ?_, ih hrest⟩
    cases rest with
    | nil => exact ⟨⟨0x2026, .quoky⟩, rfl, .inr rfl⟩
    | cons v rest => exact hbroken horigin hunit

theorem odd_eq_backslashes (text : TrackedText) (i : ℕ) :
    odd false (text.take i) = decide (backslashesBefore text i % 2 = 1) := by
  rw [backslashesBefore]
  generalize text.take i = before
  induction before using List.reverseRecOn with
  | nil => rfl
  | append_singleton init u ih =>
    rw [odd_append, ih]
    by_cases hu : u.unit = BACKSLASH
    · rw [List.rtakeWhile_concat_pos _ _ _ (by simpa using hu)]
      simp only [odd, hu, if_true, List.length_append, List.length_singleton]
      by_cases hpar : (init.rtakeWhile (·.unit = BACKSLASH)).length % 2 = 1
      · have hnext : ¬ ((init.rtakeWhile (·.unit = BACKSLASH)).length + 1) % 2 = 1 := by omega
        simp [hpar, hnext]
      · have hnext : ((init.rtakeWhile (·.unit = BACKSLASH)).length + 1) % 2 = 1 := by omega
        simp [hpar, hnext]
    · rw [List.rtakeWhile_concat_neg _ _ _ (by simpa using hu)]
      simp [odd, hu]

/-- A guarded text keeps both promises. -/
theorem Guarded.neutral {text : TrackedText} (h : Guarded false text) : Neutral text := by
  have hat : ∀ i (hi : i < text.length), Guarded (odd false (text.take i))
      (text[i] :: text.drop (i + 1)) := by
    intro i hi
    rw [← List.drop_eq_getElem_cons hi]
    apply Guarded.right
    rwa [List.take_append_drop]
  constructor
  · intro i hi horigin hunit
    obtain ⟨next, hnext, hbreak⟩ := (hat i hi).2.1 horigin hunit
    exact ⟨next, by rwa [List.head?_drop] at hnext, hbreak⟩
  · intro i hi horigin hunit
    have hodd := (hat i hi).1 horigin hunit
    rw [odd_eq_backslashes] at hodd
    simpa using hodd

/-! ## Texts with complete escapes -/

/-- Guarded, and no escape is open at the end, white space apart or not. -/
structure Closed (text : TrackedText) : Prop where
  guarded : Guarded false text
  ends : odd false text = false
  trims : odd false (text.rdropWhile (isWhiteSpace ·.unit)) = false

theorem Closed.nil : Closed [] := ⟨trivial, rfl, rfl⟩

theorem Closed.append {first second : TrackedText} (hfirst : Closed first) (hsecond : Closed second) :
    Closed (first ++ second) where
  guarded := hfirst.guarded.append (by rw [hfirst.ends]; exact hsecond.guarded)
  ends := by rw [odd_append, hfirst.ends, hsecond.ends]
  trims := by
    rw [rdropWhile_append]
    split
    · exact hfirst.trims
    · rw [odd_append, hfirst.ends, hsecond.trims]

theorem Closed.flatten {texts : List TrackedText} (h : ∀ text ∈ texts, Closed text) :
    Closed texts.flatten := by
  induction texts with
  | nil => exact .nil
  | cons text rest ih =>
    exact (h text List.mem_cons_self).append (ih fun t ht => h t (List.mem_cons_of_mem _ ht))

/-- A text whose last unit is neither a backslash nor white space ends its escapes. -/
theorem Closed.of_getLast {text : TrackedText} {u : Tracked} (hguarded : Guarded false text)
    (hlast : text.getLast? = some u) (hu : u.unit ≠ BACKSLASH) (hspace : isWhiteSpace u.unit = false) :
    Closed text := by
  have htrim : text.rdropWhile (isWhiteSpace ·.unit) = text := by
    obtain ⟨init, rfl⟩ := List.getLast?_eq_some_iff.mp hlast
    exact List.rdropWhile_concat_neg _ _ _ (by simp [hspace])
  refine ⟨hguarded, odd_of_getLast hlast hu false, ?_⟩
  rw [htrim]
  exact odd_of_getLast hlast hu false

/-- What a cut keeps, with the cut mark. -/
theorem Closed.cut {text kept : TrackedText} (h : Closed text) (hkept : kept <+: text) :
    Closed (kept ++ tracked .quoky ellipsis) := by
  obtain ⟨rest, rfl⟩ := hkept
  refine .of_getLast (u := ⟨0x2026, .quoky⟩) h.guarded.cut ?_ (by decide) (by decide)
  rw [List.getLast?_append_of_ne_nil _ (by simp [tracked, ellipsis])]
  rfl

/-! ## The leaves -/

theorem guarded_tracked_markup (text : JsString) (before : Bool) :
    Guarded before (tracked .markup text) := by
  induction text generalizing before with
  | nil => trivial
  | cons u rest ih => exact ⟨by simp, by simp, ih _⟩

theorem guarded_tracked_quoky {text : JsString} (hat : AT ∉ text) (hless : LESS ∉ text)
    (before : Bool) : Guarded before (tracked .quoky text) := by
  induction text generalizing before with
  | nil => trivial
  | cons u rest ih =>
    simp only [List.mem_cons, not_or] at hat hless
    refine ⟨by simp, ?_, ih hat.2 hless.2 _⟩
    rintro - (h | h)
    · exact absurd h.symm hat.1
    · exact absurd h.symm hless.1

theorem tracked_append (origin : Origin) (first second : JsString) :
    tracked origin (first ++ second) = tracked origin first ++ tracked origin second :=
  List.map_append

theorem odd_tracked {origin : Origin} {text : JsString} (h : text.getLast? ≠ some BACKSLASH) :
    odd false (tracked origin text) = false := by
  cases hlast : text.getLast? with
  | none =>
    rw [List.getLast?_eq_none_iff.mp hlast]
    rfl
  | some u =>
    have hu : (tracked origin text).getLast? = some ⟨u, origin⟩ := by
      rw [tracked, List.getLast?_map, hlast]
      rfl
    apply odd_of_getLast hu
    rintro rfl
    exact h hlast

theorem rdropWhile_tracked (origin : Origin) (text : JsString) :
    (tracked origin text).rdropWhile (isWhiteSpace ·.unit) =
      tracked origin (text.rdropWhile isWhiteSpace) :=
  Telegram.rdropWhile_map _ _ _

/-- Where the trimmed text does not end with a backslash, the text does not. -/
theorem PlainTrimmed.getLast {text : JsString} (h : PlainTrimmed text) :
    text.getLast? ≠ some BACKSLASH := by
  intro hlast
  obtain ⟨init, rfl⟩ := List.getLast?_eq_some_iff.mp hlast
  apply h.2.2
  rw [List.rdropWhile_concat_neg _ _ _ (by decide)]
  exact hlast

theorem PlainTrimmed.closed {text : JsString} (h : PlainTrimmed text) :
    Closed (tracked .quoky text) where
  guarded := guarded_tracked_quoky h.1 h.2.1 false
  ends := odd_tracked h.getLast
  trims := by
    rw [rdropWhile_tracked]
    exact odd_tracked h.2.2

theorem closed_tracked_markup {text : JsString} {u : CodeUnit} (hlast : text.getLast? = some u)
    (hu : u ≠ BACKSLASH) (hspace : isWhiteSpace u = false) : Closed (tracked .markup text) := by
  refine .of_getLast (u := ⟨u, .markup⟩) (guarded_tracked_markup text false) ?_ hu hspace
  rw [tracked, List.getLast?_map, hlast]
  rfl

theorem closed_trackUnit (unit : CodeUnit) : Closed (trackUnit unit) := by
  rw [trackUnit]
  have hbackslash : BACKSLASH ≠ AT ∧ BACKSLASH ≠ LESS ∧ BACKSLASH ∈ DISCORD_MARKDOWN := by decide
  split
  next hmarkdown =>
    have hbreak : AT ∉ DISCORD_MARKDOWN ∧ LESS ∉ DISCORD_MARKDOWN := by decide
    have hat : unit ≠ AT := fun h => hbreak.1 (h ▸ hmarkdown)
    have hless : unit ≠ LESS := fun h => hbreak.2 (h ▸ hmarkdown)
    have hspace : isWhiteSpace unit = false := by
      have hall : (DISCORD_MARKDOWN.all fun u => !isWhiteSpace u) = true := by decide
      simpa using List.all_eq_true.mp hall unit hmarkdown
    have hguarded : Guarded false [⟨BACKSLASH, .markup⟩, ⟨unit, .untrusted⟩] := by
      simp [Guarded, hat, hless]
    have hodd : odd false [⟨BACKSLASH, .markup⟩, ⟨unit, .untrusted⟩] = false := by
      simp [odd]
    refine ⟨hguarded, hodd, ?_⟩
    rw [show [(⟨BACKSLASH, .markup⟩ : Tracked), ⟨unit, .untrusted⟩] =
      [⟨BACKSLASH, .markup⟩] ++ [⟨unit, .untrusted⟩] from rfl, List.rdropWhile_concat_neg _ _ _
      (by simp [hspace])]
    exact hodd
  next hmarkdown =>
    split
    next hbreak =>
      refine .of_getLast (u := ⟨ZWSP, .markup⟩) ?_ rfl (by decide) (by decide)
      simp [Guarded, hmarkdown]
    next hplain =>
      rw [not_or] at hplain
      have hne : unit ≠ BACKSLASH := fun h => hmarkdown (h ▸ hbackslash.2.2)
      refine ⟨by simp [Guarded, hmarkdown, hplain], by simp [odd, hne], ?_⟩
      by_cases hspace : isWhiteSpace unit = true
      · rw [show [(⟨unit, .untrusted⟩ : Tracked)] = [] ++ [⟨unit, .untrusted⟩] from rfl,
          List.rdropWhile_concat_pos _ _ _ (by simpa using hspace)]
        rfl
      · rw [show [(⟨unit, .untrusted⟩ : Tracked)] = [] ++ [⟨unit, .untrusted⟩] from rfl,
          List.rdropWhile_concat_neg _ _ _ (by simpa using hspace)]
        simp [odd, hne]

theorem closed_trackNeutralize (text : JsString) : Closed (trackNeutralize text .markup) := by
  show Closed (text.flatMap trackUnit)
  rw [List.flatMap_def]
  apply Closed.flatten
  intro part hpart
  obtain ⟨unit, -, rfl⟩ := List.mem_map.mp hpart
  exact closed_trackUnit unit

theorem closed_decimal (value : ℤ) : Closed (tracked .quoky (decimal value)) := by
  have hnot : ∀ unit ∈ decimal value, unit ≠ AT ∧ unit ≠ LESS ∧ unit ≠ BACKSLASH := by
    have hminus : (0x2D : CodeUnit) ≠ AT ∧ (0x2D : CodeUnit) ≠ LESS ∧ (0x2D : CodeUnit) ≠ BACKSLASH :=
      by decide
    have hnat : AT.toNat = 64 ∧ LESS.toNat = 60 ∧ BACKSLASH.toNat = 92 := by decide
    intro unit hunit
    rcases mem_decimal hunit with rfl | hdigit
    · exact hminus
    · refine ⟨?_, ?_, ?_⟩ <;> rintro rfl <;> omega
  apply PlainTrimmed.closed
  refine ⟨fun h => (hnot _ h).1 rfl, fun h => (hnot _ h).2.1 rfl, fun h => ?_⟩
  have hmem := List.mem_of_getLast? h
  exact (hnot _ ((List.rdropWhile_prefix _ _).subset hmem)).2.2 rfl

/-! ## The layouts -/

theorem closed_newline : Closed (tracked .quoky newline) := 
  ⟨guarded_tracked_quoky (by decide) (by decide) false, rfl, rfl⟩

theorem Closed.trim {text : TrackedText} (h : Closed text) : Closed (trackTrim text) := by
  rw [trackTrim]
  -- the white space at the start is no backslash
  have hspaces : ∀ spaces : TrackedText, (∀ u ∈ spaces, isWhiteSpace u.unit = true) →
      odd false spaces = false := by
    intro spaces hall
    induction spaces using List.reverseRecOn with
    | nil => rfl
    | append_singleton init u _ =>
      have hu : isWhiteSpace u.unit = true := hall u (by simp)
      have hne : u.unit ≠ BACKSLASH := by
        intro heq
        rw [heq] at hu
        exact absurd hu (by decide)
      exact odd_of_getLast (List.getLast?_concat) hne false
  have hsplit := List.takeWhile_append_dropWhile (p := (isWhiteSpace ·.unit)) (l := text)
  generalize hstart : text.takeWhile (isWhiteSpace ·.unit) = start at hsplit
  generalize hrest : text.dropWhile (isWhiteSpace ·.unit) = rest at hsplit ⊢
  have hodd : odd false start = false := by
    apply hspaces
    intro u hu
    rw [← hstart] at hu
    have hspace := List.mem_takeWhile_imp hu
    exact hspace
  subst hsplit
  have hguarded : Guarded false rest := by
    have hright := h.guarded.right
    rwa [hodd] at hright
  obtain ⟨spaces, hspaces'⟩ : ∃ spaces, rest = rest.rdropWhile (isWhiteSpace ·.unit) ++ spaces ∧
      ∀ u ∈ spaces, isWhiteSpace u.unit = true :=
    ⟨rest.rtakeWhile (isWhiteSpace ·.unit), (List.rdropWhile_append_rtakeWhile).symm,
      fun u hu => by
        have hspace := List.mem_rtakeWhile_imp hu
        exact hspace⟩
  have htrims : odd false (rest.rdropWhile (isWhiteSpace ·.unit)) = false := by
    have hwhole := h.trims
    rw [rdropWhile_append] at hwhole
    split at hwhole
    next hnil =>
      rw [hnil]
      rfl
    next => rwa [odd_append, hodd] at hwhole
  refine ⟨?_, htrims, ?_⟩
  · rw [hspaces'.1] at hguarded
    apply hguarded.left
    intro u hu
    have hspace := hspaces'.2 u (List.mem_of_head? hu)
    rintro (hbreak | hbreak)
    · rw [hbreak] at hspace
      exact absurd hspace (by decide)
    · have hunit : u.unit = 0x2026 := by simpa [ellipsis] using hbreak
      rw [hunit] at hspace
      exact absurd hspace (by decide)
  · rw [List.rdropWhile_idempotent]
    exact htrims

theorem closed_trackClip {content : TrackedText} {maxChars : ℤ} {unit : MessageLengthUnit}
    {trimmed : Bool} {after : Option TrackedText} (hcontent : Closed content)
    (hafter : ∀ a ∈ after, Closed a) : Closed (trackClip content maxChars unit trimmed after) := by
  have hend : Closed (after.getD []) := by
    cases after with
    | none => exact .nil
    | some a => exact hafter a rfl
  have htext : Closed (if trimmed then trackTrim content else content) := by
    cases trimmed
    · exact hcontent
    · exact hcontent.trim
  simp only [trackClip]
  generalize (if trimmed then trackTrim content else content) = text at htext ⊢
  split
  · exact htext.append hend
  split
  · exact hend
  · exact (htext.cut (List.take_prefix _ _)).append hend

theorem closed_trackJoin {lines : List TrackedText} (h : ∀ line ∈ lines, Closed line) :
    Closed (trackJoin lines) := by
  induction lines with
  | nil => exact .nil
  | cons line rest ih =>
    have hline := h line List.mem_cons_self
    have hrest := ih fun l hl => h l (List.mem_cons_of_mem _ hl)
    cases rest with
    | nil => simpa [trackJoin] using hline
    | cons next rest =>
      rw [trackJoin, List.intercalate_cons_cons]
      exact (hline.append closed_newline).append hrest

theorem closed_trackFitKept {maxChars : ℤ} {omittedNote : Option JsString}
    (hnote : ∀ note ∈ omittedNote, PlainTrimmed note) (rounds : ℕ) :
    ∀ (kept : List (FitLine TrackedText)) (dropped : Bool), (∀ line ∈ kept, Closed line.content) →
      Closed (trackFitKept maxChars omittedNote rounds kept dropped) := by
  have hjoin : ∀ (kept : List (FitLine TrackedText)) (dropped : Bool),
      (∀ line ∈ kept, Closed line.content) → Closed (trackJoinKept omittedNote kept dropped) := by
    intro kept dropped hkept
    have hlines : Closed (trackJoin (kept.map FitLine.content)) :=
      closed_trackJoin (by simpa using hkept)
    cases dropped with
    | false => exact hlines
    | true =>
      cases omittedNote with
      | none => exact hlines
      | some note => exact (hlines.append closed_newline).append (hnote note rfl).closed
  induction rounds with
  | zero => exact hjoin
  | succ rounds ih =>
    intro kept dropped hkept
    rw [trackFitKept]
    split
    · cases hsplice : spliceLastDroppable kept with
      | none => exact hjoin kept dropped hkept
      | some fewer =>
        exact ih fewer true fun line hline =>
          hkept line (Telegram.mem_of_spliceLastDroppable hsplice line hline)
    · exact hjoin kept dropped hkept

theorem closed_trackFitLines {lines : List (FitLine TrackedText)} {maxChars : ℤ}
    {omittedNote : Option JsString} (hlines : ∀ line ∈ lines, Closed line.content)
    (hnote : ∀ note ∈ omittedNote, PlainTrimmed note) :
    Closed (trackFitLines lines maxChars omittedNote) := by
  have hkept : Closed (trackFitKept maxChars omittedNote lines.length lines false) :=
    closed_trackFitKept hnote _ _ _ hlines
  simp only [trackFitLines]
  split
  · exact hkept
  · apply hkept.cut
    have hstart : ∀ n, sliceIndex n 0 = 0 := by simp [sliceIndex]
    rw [slice, hstart, List.drop_zero]
    exact List.take_prefix _ _

theorem mem_trackFitting {unit : MessageLengthUnit} {maxChars : ℤ} {line : TakeLine TrackedText}
    (lines : List (TakeLine TrackedText)) :
    ∀ length, line ∈ (trackFitting unit maxChars length lines).1 → line ∈ lines := by
  induction lines with
  | nil => simp [trackFitting]
  | cons first rest ih =>
    intro length hline
    rw [trackFitting] at hline
    simp only at hline
    split at hline
    · simp at hline
    · cases List.mem_cons.mp hline with
      | inl h => simp [h]
      | inr h => exact List.mem_cons_of_mem _ (ih _ h)

theorem closed_trackTakeLines {unit : MessageLengthUnit} {maxChars baseChars : ℤ}
    {heads tails : List TrackedText} {lines : List (TakeLine TrackedText)}
    {headOnlyWithLines dropTrailingHeadings : Bool} {omitted : Option Omitted}
    (hheads : ∀ line ∈ heads, Closed line) (htails : ∀ line ∈ tails, Closed line)
    (hlines : ∀ line ∈ lines, Closed line.content)
    (homitted : ∀ note ∈ omitted, PlainTrimmed note.before ∧ PlainTrimmed note.after) :
    Closed (trackTakeLines unit maxChars baseChars heads tails lines headOnlyWithLines
      dropTrailingHeadings omitted) := by
  simp only [trackTakeLines]
  generalize hfitting : trackFitting unit maxChars _ lines = fitting
  have hfit : ∀ line ∈ fitting.1, Closed line.content := by
    intro line hline
    rw [← hfitting] at hline
    exact hlines line (mem_trackFitting lines _ hline)
  have htaken : ∀ line ∈ (if dropTrailingHeadings then fitting.1.rdropWhile (!·.item)
      else fitting.1), Closed line.content := by
    intro line hline
    cases dropTrailingHeadings
    · exact hfit line hline
    · exact hfit line ((List.rdropWhile_prefix _ _).subset hline)
  generalize (if dropTrailingHeadings then fitting.1.rdropWhile (!·.item) else fitting.1) = taken
    at htaken
  apply closed_trackJoin
  simp only [List.mem_append, List.mem_map]
  rintro line ((hline | ⟨l, hl, rfl⟩ | hline) | hline)
  · cases hhead : headOnlyWithLines && taken.isEmpty with
    | true => simp [hhead] at hline
    | false => exact hheads line (by simpa [hhead] using hline)
  · exact htaken l hl
  · cases homit : omitted with
    | none => simp [homit] at hline
    | some note =>
      simp only [homit] at hline
      split at hline
      · rw [List.mem_singleton.mp hline, tracked_append, tracked_append]
        obtain ⟨hbefore, hafter⟩ := homitted note homit
        exact (hbefore.closed.append (closed_decimal _)).append hafter.closed
      · simp at hline
  · exact htails line hline

theorem closed_trackFirstFit {maxChars : ℤ} {unit : MessageLengthUnit}
    (candidates : List TrackedText) (hall : ∀ candidate ∈ candidates, Closed candidate) :
    ∀ text, Closed text → Closed (trackFirstFit maxChars unit candidates text) := by
  induction candidates with
  | nil => exact fun text htext => htext
  | cons candidate rest ih =>
    intro text _
    have hcandidate := hall candidate List.mem_cons_self
    rw [trackFirstFit]
    split
    · exact hcandidate
    · exact ih (fun c hc => hall c (List.mem_cons_of_mem _ hc)) candidate hcandidate

/-! ## The tree -/

section
variable (upper : CodeUnit → JsString)

theorem closed_trackConversation {ref : ConversationRefNode} (hlabel : PlainTrimmed ref.label) :
    Closed (trackConversation upper ref) := by
  rw [trackConversation]
  split
  · exact hlabel.closed
  next hnative =>
    rw [conversation]
    split
    next hplatform =>
      cases hid : ref.id with
      | none => exact absurd ⟨hplatform, hid⟩ hnative
      | some id =>
        refine closed_tracked_markup (u := 0x3E) ?_ (by decide) (by decide)
        simp only
        rw [List.getLast?_append_of_ne_nil _ (by decide)]
        decide
    next =>
      split
      · refine closed_tracked_markup (u := 0xD654) ?_ (by decide) (by decide)
        rw [List.getLast?_append_of_ne_nil _ (by decide)]
        decide
      · refine closed_tracked_markup (u := 0xBC29) ?_ (by decide) (by decide)
        rw [List.getLast?_append_of_ne_nil _ (by decide)]
        decide

theorem plainTrimmed_platformNote (topic : PlatformNoteTopic) :
    PlainTrimmed (PLATFORM_NOTES topic) := by
  cases topic
  refine ⟨by decide +kernel, by decide +kernel, by decide +kernel⟩

/-- One node over closed contents is closed. -/
theorem closed_trackShape {shape : NodeShape TrackedText} (hspoken : ShapeSays PlainTrimmed shape)
    (hcontents : ∀ text ∈ shape.contents, Closed text) : Closed (trackShape upper shape) := by
  cases shape with
  | text value => exact PlainTrimmed.closed hspoken
  | untrusted value guard =>
    have hguard : guard = .markup := hspoken
    subst hguard
    exact closed_trackNeutralize value
  | link url =>
    refine closed_tracked_markup (u := 0x3E) ?_ (by decide) (by decide)
    rw [List.getLast?_append_of_ne_nil _ (by decide)]
    decide
  | conversation ref => exact closed_trackConversation upper hspoken
  | platformNote topic => exact (plainTrimmed_platformNote topic).closed
  | clip content maxChars unit trimmed after =>
    apply closed_trackClip
    · exact hcontents content (by simp [NodeShape.contents])
    · intro a ha
      exact hcontents a (by simp [NodeShape.contents, Option.mem_def.mp ha])
  | fitLines lines maxChars omittedNote =>
    exact closed_trackFitLines (fun line hline => hcontents _ (List.mem_map_of_mem hline)) hspoken
  | takeLines unit maxChars baseChars heads tails lines headOnly dropHeadings omitted =>
    apply closed_trackTakeLines
    · intro line hline
      exact hcontents line (by simp [NodeShape.contents, hline])
    · intro line hline
      exact hcontents line (by simp [NodeShape.contents, hline])
    · intro line hline
      apply hcontents
      simp only [NodeShape.contents, List.mem_append, List.mem_map]
      exact .inr ⟨line, hline, rfl⟩
    · exact hspoken
  | firstFit candidates maxChars unit => exact closed_trackFirstFit candidates hcontents [] .nil

theorem shapeSays_map {copy : JsString → Prop} {T U : Type} (f : T → U) (shape : NodeShape T) :
    ShapeSays copy (shape.map f) ↔ ShapeSays copy shape := by
  cases shape <;> rfl

theorem closed_trackNode (node : MessageNode)
    (hspoken : ∀ shape, Occurs (.node shape) [node] → ShapeSays PlainTrimmed shape) :
    Closed (trackNode upper node) := by
  induction node using MessageNode.contents_induction with
  | step shape ih =>
    rw [trackNode_node]
    apply closed_trackShape
    · rw [shapeSays_map]
      exact hspoken shape (.here (List.mem_singleton.mpr rfl))
    · rw [NodeShape.contents_map]
      intro text htext
      obtain ⟨nodes, hnodes, rfl⟩ := List.mem_map.mp htext
      rw [track_eq]
      apply Closed.flatten
      intro part hpart
      obtain ⟨node, hnode, rfl⟩ := List.mem_map.mp hpart
      apply ih nodes hnodes node hnode
      intro inner hinner
      exact hspoken inner (.inside (List.mem_singleton.mpr rfl) hnodes (hinner.of_singleton hnode))

theorem closed_trackBody {body : MessageBody} (hspoken : Says PlainTrimmed body) :
    Closed (trackBody upper body) := by
  cases body with
  | text value => exact PlainTrimmed.closed hspoken
  | content nodes =>
    show Closed (track upper nodes)
    rw [track_eq]
    apply Closed.flatten
    intro part hpart
    obtain ⟨node, hnode, rfl⟩ := List.mem_map.mp hpart
    exact closed_trackNode upper node fun shape hshape => hspoken shape (hshape.of_singleton hnode)

/-- What Discord gets of a message whose untrusted spans use the markup guard and whose copy has no
`@`, no `<` and no backslash at its end, white space apart: no mention and no link can be formed,
and every Markdown unit of an untrusted string is escaped. -/
theorem rendered_neutral (body : MessageBody) (hspoken : Says PlainTrimmed body) :
    plain (trackBody upper body) = renderDiscordContent upper body ∧
      Neutral (trackBody upper body) :=
  ⟨plain_trackBody upper body, (closed_trackBody upper hspoken).guarded.neutral⟩

end

/-- A clipped mention, and the text of a Markdown link behind it. -/
def clippedMention : MessageBody :=
  .content [.node (.clip [.node (.untrusted (units "@here") .markup)] 2 .utf16 false none),
    .node (.untrusted (units "[a]") .markup)]

theorem rendered_neutral_clipped :
    plain (trackBody (fun u => [u]) clippedMention) =
      renderDiscordContent (fun u => [u]) clippedMention ∧
      Neutral (trackBody (fun u => [u]) clippedMention) := by
  apply rendered_neutral
  simp [clippedMention, says_cons, says_nil, NodeShape.contents, ShapeSays]

/-- Quoky's copy that ends with a backslash before white space, trimmed by its budget. -/
def trimmedBackslash : MessageBody :=
  .content [.node (.clip [.node (.text (units "\\ "))] 10 .utf16 true none),
    .node (.untrusted (units "*") .markup)]

/-- The copy has no backslash at its end, but its trimmed text pairs with the escape of the
untrusted `*` behind it. -/
theorem trimmed_backslash_pairs :
    Says Plain trimmedBackslash ∧ ¬ Neutral (trackBody (fun u => [u]) trimmedBackslash) := by
  constructor
  · simp only [trimmedBackslash, says_cons, NodeShape.contents, Option.toList_none,
      List.mem_singleton, forall_eq, List.not_mem_nil, false_implies, implies_true, true_and,
      ShapeSays]
    exact ⟨⟨⟨by decide, by decide, by decide⟩, says_nil _⟩, says_nil _⟩
  · intro h
    have hpair := h.escaped 2 (by decide +kernel) (by decide +kernel) (by decide +kernel)
    exact absurd hpair (by decide +kernel)

end QuokyPlatform.Messages.Discord
