import QuokyPlatform.Previews.Discord

/-!
# Previews on Telegram

A part is the adapter's own `<pre>` around an escaped segment. Lines are packed by their escaped
length, so a part fits however the platform counts; escaping can be undone.
-/

namespace QuokyPlatform.Previews
open Chunking
set_option autoImplicit false
set_option maxHeartbeats 250000

namespace Telegram

def TELEGRAM_MESSAGE_LIMIT : ℤ := 4096
def TELEGRAM_PREVIEW_PART_THRESHOLD : ℕ := 5
def PREVIEW_WRAPPER_RESERVE : ℤ := 32
def PART_PREFIX_RESERVE : ℕ := 16
def TELEGRAM_CHUNK_LIMIT : ℕ := 4096 - PART_PREFIX_RESERVE

/-! ## Escaping -/

/-- `text.replace(/unit/g, replacement)` -/
def replaceUnit (unit : CodeUnit) (replacement : String) (text : JsString) : JsString :=
  text.flatMap fun u => if u = unit then units replacement else [u]

def escapeTelegramHtml (text : JsString) : JsString :=
  replaceUnit 0x22 "&quot;" (replaceUnit 0x3E "&gt;" (replaceUnit 0x3C "&lt;"
    (replaceUnit 0x26 "&amp;" text)))

/-- What one unit is escaped to. -/
def escapeUnit (unit : CodeUnit) : JsString :=
  if unit = 0x26 then units "&amp;"
  else if unit = 0x3C then units "&lt;"
  else if unit = 0x3E then units "&gt;"
  else if unit = 0x22 then units "&quot;"
  else [unit]

theorem escapeTelegramHtml_eq (text : JsString) :
    escapeTelegramHtml text = text.flatMap escapeUnit := by
  simp only [escapeTelegramHtml, replaceUnit, List.flatMap_assoc]
  apply List.flatMap_congr
  intro unit _
  by_cases hamp : unit = 0x26
  · subst hamp
    decide
  by_cases hlt : unit = 0x3C
  · subst hlt
    decide
  by_cases hgt : unit = 0x3E
  · subst hgt
    decide
  by_cases hquot : unit = 0x22
  · subst hquot
    decide
  simp [escapeUnit, hamp, hlt, hgt, hquot]

@[simp] theorem escapeTelegramHtml_append (first second : JsString) :
    escapeTelegramHtml (first ++ second) = escapeTelegramHtml first ++ escapeTelegramHtml second := by
  simp [escapeTelegramHtml_eq]

/-- The units that are escaped. -/
def specialUnits : List CodeUnit := [0x26, 0x3C, 0x3E, 0x22]

theorem escapeUnit_plain {unit : CodeUnit} (h : unit ∉ specialUnits) : escapeUnit unit = [unit] := by
  simp only [specialUnits, List.mem_cons, List.not_mem_nil, or_false, not_or] at h
  simp [escapeUnit, h]

/-- An escape is an ampersand and a unit that tells which one it is. -/
theorem escapeUnit_special {unit : CodeUnit} (h : unit ∈ specialUnits) :
    ∃ mark rest, escapeUnit unit = 0x26 :: mark :: rest ∧
      mark = (if unit = 0x26 then 0x61 else if unit = 0x3C then 0x6C else
        if unit = 0x3E then 0x67 else 0x71) := by
  simp only [specialUnits, List.mem_cons, List.not_mem_nil, or_false] at h
  rcases h with rfl | rfl | rfl | rfl
  · exact ⟨_, _, rfl, rfl⟩
  · exact ⟨_, _, rfl, rfl⟩
  · exact ⟨_, _, rfl, rfl⟩
  · exact ⟨_, _, rfl, rfl⟩

/-- No escape is the beginning of another one. -/
theorem escapeUnit_prefix {u v : CodeUnit} {first second : JsString}
    (h : escapeUnit u ++ first = escapeUnit v ++ second) : u = v := by
  by_cases hu : u ∈ specialUnits
  · obtain ⟨mark, rest, hescape, hmark⟩ := escapeUnit_special hu
    by_cases hv : v ∈ specialUnits
    · obtain ⟨mark', rest', hescape', hmark'⟩ := escapeUnit_special hv
      simp only [hescape, hescape', List.cons_append, List.cons.injEq, true_and] at h
      have hsame := h.1
      rw [hmark, hmark'] at hsame
      simp only [specialUnits, List.mem_cons, List.not_mem_nil, or_false] at hu hv
      rcases hu with rfl | rfl | rfl | rfl <;> rcases hv with rfl | rfl | rfl | rfl <;>
        simp_all
    · rw [hescape, escapeUnit_plain hv] at h
      simp only [List.cons_append, List.cons.injEq] at h
      exact absurd (by rw [← h.1]; simp [specialUnits]) hv
  · rw [escapeUnit_plain hu] at h
    by_cases hv : v ∈ specialUnits
    · obtain ⟨mark, rest, hescape, -⟩ := escapeUnit_special hv
      rw [hescape] at h
      simp only [List.cons_append, List.cons.injEq] at h
      exact absurd (by rw [h.1]; simp [specialUnits]) hu
    · rw [escapeUnit_plain hv] at h
      simp only [List.cons_append, List.cons.injEq] at h
      exact h.1

/-- Escaping can be undone. -/
theorem escapeTelegramHtml_injective : Function.Injective escapeTelegramHtml := by
  intro first
  simp only [escapeTelegramHtml_eq]
  have hnil : ∀ w : CodeUnit, escapeUnit w ≠ [] := by
    intro w
    simp only [escapeUnit]
    split_ifs <;> simp [units]
  induction first with
  | nil =>
    intro second h
    cases second with
    | nil => rfl
    | cons v rest => simp [hnil] at h
  | cons u first ih =>
    intro second h
    cases second with
    | nil => simp [hnil] at h
    | cons v second =>
      rw [List.flatMap_cons, List.flatMap_cons] at h
      have huv := escapeUnit_prefix h
      subst huv
      rw [ih (List.append_cancel_left h)]

/-! ## Plain texts in chunks -/

/-- `lastIndexOf` of one unit. -/
def lastIndexOf (text : JsString) (unit : CodeUnit) : Option ℕ :=
  (List.range text.length).reverse.find? fun i => text[i]? = some unit

/-- A newline, else a space, else a hard cut. -/
def boundaryCut (rest : JsString) (limit : ℕ) : ℕ :=
  let window := rest.take limit
  let minBoundary := limit * 6 / 10
  match (lastIndexOf window NEWLINE).filter (minBoundary ≤ ·),
      (lastIndexOf window 0x20).filter (minBoundary ≤ ·) with
  | some nl, _ => nl + 1
  | none, some sp => sp + 1
  | none, none => limit

/-- Where to cut: never inside a surrogate pair or a backtick run. -/
def chooseCut (rest : JsString) (limit : ℕ) : ℕ :=
  let at_ (i : ℕ) : CodeUnit := rest.getD i 0
  let cut := boundaryCut rest limit
  let cut := if cut < rest.length ∧ isPair (at_ (cut - 1)) (at_ cut) then cut - 1 else cut
  let runStart := ((rest.take cut).rdropWhile fun unit => unit = BACKTICK).length
  let inRun := cut < rest.length ∧ at_ (cut - 1) = BACKTICK ∧ at_ cut = BACKTICK
  max (if inRun ∧ runStart > 0 then runStart else cut) 1

/-- The pieces of a text; each turn takes at least one unit of it. -/
def chunksFrom (maxLen : ℕ) : ℕ → JsString → List JsString
  | 0, rest => if rest = [] then [] else [rest]
  | fuel + 1, rest =>
    if rest.length > maxLen then
      rest.take (chooseCut rest maxLen) :: chunksFrom maxLen fuel (rest.drop (chooseCut rest maxLen))
    else if rest = [] then [] else [rest]

def chunkTelegramText (text : JsString) : List JsString :=
  chunksFrom TELEGRAM_CHUNK_LIMIT text.length text

def numberChunks (chunks : List JsString) : List JsString :=
  if chunks.length ≥ 2 then
    chunks.mapIdx fun i chunk =>
      units "(" ++ Messages.decimal (i + 1) ++ units "/" ++ Messages.decimal chunks.length ++
        units ") " ++ chunk
  else chunks

theorem flatten_chunksFrom (maxLen fuel : ℕ) (rest : JsString) :
    (chunksFrom maxLen fuel rest).flatten = rest := by
  induction fuel generalizing rest with
  | zero =>
    rw [chunksFrom]
    split <;> simp_all
  | succ fuel ih =>
    rw [chunksFrom]
    split
    · rw [List.flatten_cons, ih, List.take_append_drop]
    · split <;> simp_all

/-- Nothing of a text is lost in its chunks. -/
theorem flatten_chunkTelegramText (text : JsString) : (chunkTelegramText text).flatten = text :=
  flatten_chunksFrom _ _ _

/-! ## Parts -/

def wrapPreviewPart (segment : JsString) (index total : ℕ) : JsString :=
  partPrefix index total ++ units "<pre>" ++ escapeTelegramHtml segment ++ units "</pre>"

inductive AttachmentReason where
  | oversizedLine
  | partThreshold
  | emptyBudget
  deriving DecidableEq, Repr

inductive TelegramPreviewPlan where
  | text (parts : List JsString)
  | attachment (reason : AttachmentReason)
  deriving DecidableEq, Repr

/-- The escaped line overflows the open segment; `none` when one line alone is too long. -/
def splitEscaped (diff : JsString) (budget : ℤ) : Option (List JsString) :=
  let flushes (current line : JsString) : Bool :=
    (escapeTelegramHtml current).length + (escapeTelegramHtml line).length > budget
  if (lines diff).any fun line => (escapeTelegramHtml line).length > budget then none
  else some (pack flushes [] (lines diff))

/-- The parts with the trailer on the last one. -/
def wrapAll (segments : List JsString) (trailer : JsString) : List JsString :=
  segments.mapIdx fun i segment =>
    let part := wrapPreviewPart segment (i + 1) segments.length
    if i + 1 = segments.length then part ++ trailer else part

def planTelegramPreview (artifact : PreviewArtifact) (limit : ℤ) (threshold : ℕ) :
    TelegramPreviewPlan :=
  let trailer := escapeTelegramHtml (previewTrailer artifact)
  let budget := limit - PREVIEW_WRAPPER_RESERVE - trailer.length
  if budget ≤ 0 then .attachment .emptyBudget
  else match splitEscaped artifact.canonicalDiff budget with
    | none => .attachment .oversizedLine
    | some split =>
      if split.length > threshold then .attachment .partThreshold
      else .text (wrapAll split trailer)

theorem splitEscaped_whole {diff : JsString} {budget : ℤ} {segments : List JsString}
    (h : splitEscaped diff budget = some segments) : OfWholeLines segments diff := by
  simp only [splitEscaped] at h
  split_ifs at h
  cases h
  exact pack_lines _ diff

theorem splitEscaped_fits {diff : JsString} {budget : ℤ} {segments : List JsString}
    (hbudget : 0 < budget) (h : splitEscaped diff budget = some segments) :
    ∀ segment ∈ segments, ((escapeTelegramHtml segment).length : ℤ) ≤ budget := by
  simp only [splitEscaped] at h
  split_ifs at h with hlong
  cases h
  simp only [List.any_eq_true, decide_eq_true_eq, not_exists, not_and, not_lt] at hlong
  obtain ⟨bound, rfl⟩ := Int.eq_ofNat_of_zero_le hbudget.le
  intro segment hsegment
  have hbound := pack_bounded _ (fun text => (escapeTelegramHtml text).length) bound
    (fun a b => by simp) (fun current line hover => by simpa using by omega) (lines diff)
    (fun line hline => by have hshort := hlong line hline; omega) [] (by simp [escapeTelegramHtml_eq])
    segment hsegment
  simpa using hbound

/-- A decimal number below a hundred has at most two digits. -/
theorem length_decimal_le {n : ℕ} (h : n < 100) : (Messages.decimal n).length ≤ 2 := by
  have hall : ∀ k : Fin 100, (Messages.decimal k.val).length ≤ 2 := by decide
  exact hall ⟨n, h⟩

theorem length_partPrefix_le (index total : ℕ) (hindex : index < 100) (htotal : total < 100) :
    (partPrefix index total).length ≤ 8 := by
  have hi := length_decimal_le hindex
  have ht := length_decimal_le htotal
  rw [partPrefix]
  split
  · simp only [List.length_append, units, List.length_map]
    have h1 : "[".toList.length = 1 := rfl
    have h2 : "/".toList.length = 1 := rfl
    have h3 : "]\n".toList.length = 2 := rfl
    omega
  · simp

/-- Every part of a text plan fits, the last one with its trailer. -/
theorem planTelegramPreview_fits {artifact : PreviewArtifact} {limit : ℤ} {threshold : ℕ}
    (hthreshold : threshold < 100) {parts : List JsString}
    (h : planTelegramPreview artifact limit threshold = .text parts) :
    ∀ part ∈ parts, (part.length : ℤ) ≤ limit := by
  simp only [planTelegramPreview] at h
  split at h
  · cases h
  next hbudget =>
    split at h
    · cases h
    next segments hsplit =>
      split at h
      · cases h
      next hcount =>
        cases h
        have hfits := splitEscaped_fits (by omega) hsplit
        intro part hpart
        obtain ⟨i, hi, rfl⟩ := List.mem_mapIdx.mp hpart
        have hsegment := hfits _ (List.getElem_mem hi)
        have hprefix := length_partPrefix_le (i + 1) segments.length
          (by omega) (by omega)
        have hopen : (units "<pre>").length = 5 := rfl
        have hclose : (units "</pre>").length = 6 := rfl
        simp only [wrapPreviewPart, PREVIEW_WRAPPER_RESERVE] at hsegment ⊢
        split <;> simp only [List.length_append] <;> omega

theorem planTelegramPreview_text {artifact : PreviewArtifact} {limit : ℤ} {threshold : ℕ}
    {parts : List JsString} (h : planTelegramPreview artifact limit threshold = .text parts) :
    ∃ segments, OfWholeLines segments artifact.canonicalDiff ∧
      parts = wrapAll segments (escapeTelegramHtml (previewTrailer artifact)) := by
  simp only [planTelegramPreview] at h
  split at h
  · cases h
  · split at h
    · cases h
    next segments hsplit =>
      split at h
      · cases h
      · cases h
        exact ⟨segments, splitEscaped_whole hsplit, rfl⟩

end Telegram

end QuokyPlatform.Previews
