import QuokyPlatform.Previews.Delivery

/-!
# A preview arrives whole

Every report of the two platforms is checked against its log. The one gap is Discord's: a diff that
brings a fence marker of its own, and an empty diff, whose trailer is never sent.
-/

namespace QuokyPlatform.Previews
open Chunking
set_option autoImplicit false
set_option maxHeartbeats 250000

/-! ## Parts -/

theorem withTrailer_of_ne_nil {parts : List JsString} (h : parts ≠ []) (trailer : JsString) :
    withTrailer parts trailer =
      parts.mapIdx fun i part => if i + 1 = parts.length then part ++ trailer else part := by
  simp [withTrailer, h]

namespace Discord

variable {artifact : PreviewArtifact} {parts : List JsString}

theorem messages_eq (h : parts ≠ []) :
    messages artifact parts = withTrailer parts (previewTrailer artifact) :=
  (withTrailer_of_ne_nil h _).symm

@[simp] theorem length_messages : (messages artifact parts).length = parts.length := by
  simp [messages]

theorem wrapAll_eq_nil {segments : List JsString} : wrapAll segments = [] ↔ segments = [] := by
  simp [wrapAll]

/-- The parts of a text plan are fenced exactly when the diff is clean. -/
theorem wellFenced_iff {segments : List JsString} (hwhole : OfWholeLines segments artifact.canonicalDiff)
    (hends : Terminated segments) :
    (∀ part ∈ wrapAll segments, WellFenced part) ↔ Clean artifact.canonicalDiff := by
  rw [← hwhole.flatten, clean_flatten hends]
  constructor
  · intro h segment hsegment
    obtain ⟨i, hi, rfl⟩ := List.getElem_of_mem hsegment
    exact wellFenced_wrapDiffPart.mp (h _ (List.mem_mapIdx.mpr ⟨i, hi, rfl⟩))
  · intro h part hpart
    obtain ⟨i, hi, rfl⟩ := List.mem_mapIdx.mp hpart
    exact wellFenced_wrapDiffPart.mpr (h _ (List.getElem_mem hi))

theorem complete_of_plan
    (hplan : planPreviewDelivery artifact DISCORD_SAFE_LIMIT FILE_ATTACHMENT_CHUNK_THRESHOLD =
      .text parts) : Complete artifact parts ↔ Clean artifact.canonicalDiff := by
  obtain ⟨segments, hsplit, rfl, hfits, hlast⟩ := planPreviewDelivery_text hplan
  have hwhole := splitCanonicalDiff_whole hsplit
  have hends := splitCanonicalDiff_terminated hsplit
  rw [← wellFenced_iff hwhole hends]
  constructor
  · exact fun h => h.fenced
  · intro hfenced
    refine ⟨⟨segments, hwhole, rfl⟩, ?_, hfenced⟩
    intro message hmessage
    by_cases hnil : wrapAll segments = []
    · -- the budget left for the payload is positive, so the trailer alone fits
      rw [withTrailer, if_pos hnil, List.mem_singleton] at hmessage
      rw [hmessage]
      by_contra hlong
      rw [splitCanonicalDiff, if_pos (by simp only [PREVIEW_WRAPPER_RESERVE]; omega)] at hsplit
      cases hsplit
    · rw [withTrailer_of_ne_nil hnil] at hmessage
      obtain ⟨i, hi, rfl⟩ := List.mem_mapIdx.mp hmessage
      split
      next hend =>
        apply hlast
        rw [List.getLast?_eq_getElem?, Option.mem_def, ← hend, Nat.add_sub_cancel,
          List.getElem?_eq_getElem hi]
      next => exact hfits _ (List.getElem_mem hi)

/-! ## Reports -/

variable {fails : ℕ → Bool} {canNotify : Bool}

/-- A notice changes nothing of what was sent before it. -/
theorem notify_log (message : JsString) (log : Log) :
    ∃ rest, notify fails canNotify message log = log ++ rest ∧
      rest.filterMap (fun a => a.send.text?) = [] := by
  rw [notify]
  split
  · exact ⟨_, rfl, rfl⟩
  · exact ⟨[], by simp, rfl⟩

theorem attachmentFallback_log (partCount delivered : ℕ) (log : Log) :
    ∃ rest, (attachmentFallback fails canNotify artifact partCount delivered log).2 = log ++ rest ∧
      rest.filterMap (fun a => a.send.text?) = [] ∧
      (attachmentFallback fails canNotify artifact partCount delivered log).1.outcome ≠
        .SUCCESS_TEXT_COMPLETE ∧
      ((attachmentFallback fails canNotify artifact partCount delivered log).1.outcome ≠
        .DELIVERY_FAILED → ⟨.attachment artifact.canonicalDiff artifact.attachmentFilename
          (attachmentCaption artifact), true⟩ ∈ rest) := by
  rw [attachmentFallback, sendCompleteAttachment, attempt]
  cases fails log.length with
  | true =>
    obtain ⟨rest, hrest, hnone⟩ := @notify_log fails canNotify
      PARTIAL_FAILURE_NOTICE (log ++ [⟨.attachment artifact.canonicalDiff
        artifact.attachmentFilename (attachmentCaption artifact), false⟩])
    exact ⟨_ :: rest, by simpa using hrest, by simpa [Send.text?] using hnone, by simp [report],
      by simp [report]⟩
  | false =>
    obtain ⟨rest, hrest, hnone⟩ := @notify_log fails canNotify
      PREVIEW_ATTACHMENT_NOTICE (log ++ [⟨.attachment artifact.canonicalDiff
        artifact.attachmentFilename (attachmentCaption artifact), true⟩])
    refine ⟨_ :: rest, by simpa using hrest, by simpa [Send.text?] using hnone, ?_, by simp⟩
    by_cases hnone' : delivered = 0 <;> simp [report, hnone']

/-- A text plan is reported complete when its sends went through, trailer and all. -/
theorem truthful_of_text
    (hplan : planPreviewDelivery artifact DISCORD_SAFE_LIMIT FILE_ATTACHMENT_CHUNK_THRESHOLD =
      .text parts) (hne : parts ≠ []) :
    let run := deliverPreview fails canNotify artifact DISCORD_SAFE_LIMIT
      FILE_ATTACHMENT_CHUNK_THRESHOLD
    Truthful artifact run.1 run.2 := by
  intro run
  have hsends : ((messages artifact parts).map Send.plain).filterMap Send.text? =
      messages artifact parts := by
    simp [List.filterMap_map, Function.comp_def, Send.text?]
  -- the log of a run that falls back: so many texts, then what carries no text
  have hfallback : ∀ delivered log, run = attachmentFallback fails canNotify artifact parts.length
      delivered log → log.filterMap (fun a => a.send.text?) <+:
        artifact.header :: withTrailer parts (previewTrailer artifact) →
      Truthful artifact run.1 run.2 := by
    intro delivered log hrun hlog
    obtain ⟨rest, hrest, hnone, hnot, hattached⟩ := @attachmentFallback_log artifact fails
      canNotify parts.length delivered log
    rw [← hrun] at hrest hnot hattached
    refine ⟨fun h => absurd h hnot, fun h => ?_, fun parts' hplan' => ?_⟩
    · have hmem : _ ∈ rest := hattached (by rcases h with h | h <;> simp [h])
      exact ⟨_, by rw [hrest]; exact List.mem_append_right _ hmem⟩
    · rw [hplan] at hplan'
      cases hplan'
      rwa [hrest, List.filterMap_append, hnone, List.append_nil]
  have hrun : run = deliverPreview fails canNotify artifact DISCORD_SAFE_LIMIT
    FILE_ATTACHMENT_CHUNK_THRESHOLD := rfl
  rw [deliverPreview, hplan] at hrun
  simp only [attempt, List.nil_append] at hrun
  cases hhead : fails ([] : Log).length with
  | true =>
    rw [hhead] at hrun
    exact hfallback _ _ hrun (by simp [Send.text?])
  | false =>
    rw [hhead] at hrun
    obtain ⟨hle, hlog⟩ := sendUntilFailure_log fails ((messages artifact parts).map Send.plain)
      [⟨.plain artifact.header, true⟩]
    have hprefix := filterMap_logOf Send.text? ((messages artifact parts).map Send.plain)
      (sendUntilFailure fails ((messages artifact parts).map Send.plain)
        [⟨.plain artifact.header, true⟩]).1
    rw [hsends] at hprefix
    simp only [Bool.not_false] at hrun
    split at hrun
    next hall =>
      rw [hrun]
      have hlength : ((messages artifact parts).map Send.plain).length = parts.length := by simp
      have hdone : (sendUntilFailure fails ((messages artifact parts).map Send.plain)
          [⟨.plain artifact.header, true⟩]).2 =
            (artifact.header :: withTrailer parts (previewTrailer artifact)).map
              (⟨.plain ·, true⟩) := by
        rw [hlog, hall, ← hlength, logOf_all, messages_eq hne]
        simp
      refine ⟨fun _ => ⟨parts, hplan, hdone⟩, by simp [report], fun parts' hplan' => ?_⟩
      rw [hplan] at hplan'
      cases hplan'
      simp only [hdone, List.filterMap_map]
      simp [Function.comp_def, Send.text?]
    next =>
      apply hfallback _ _ hrun
      rw [hlog, List.filterMap_append, ← messages_eq hne]
      exact List.cons_prefix_cons.mpr ⟨rfl, hprefix⟩

theorem truthful_of_attachment {reason : AttachmentReason}
    (hplan : planPreviewDelivery artifact DISCORD_SAFE_LIMIT FILE_ATTACHMENT_CHUNK_THRESHOLD =
      .attachment reason) :
    let run := deliverPreview fails canNotify artifact DISCORD_SAFE_LIMIT
      FILE_ATTACHMENT_CHUNK_THRESHOLD
    Truthful artifact run.1 run.2 := by
  intro run
  have hrun : run = deliverPreview fails canNotify artifact DISCORD_SAFE_LIMIT
    FILE_ATTACHMENT_CHUNK_THRESHOLD := rfl
  rw [deliverPreview, hplan] at hrun
  have honce : ∀ parts', planPreviewDelivery artifact DISCORD_SAFE_LIMIT
      FILE_ATTACHMENT_CHUNK_THRESHOLD = .text parts' →
      run.2.filterMap (fun a => a.send.text?) <+:
        artifact.header :: withTrailer parts' (previewTrailer artifact) := by
    intro parts' hplan'
    rw [hplan] at hplan'
    cases hplan'
  simp only [sendCompleteAttachment, attempt, List.nil_append] at hrun
  cases hfail : fails ([] : Log).length with
  | true =>
    rw [hfail] at hrun
    exact ⟨by simp [hrun, report], by simp [hrun, report], honce⟩
  | false =>
    rw [hfail] at hrun
    exact ⟨by simp [hrun, report], fun _ => ⟨attachmentCaption artifact, by simp [hrun]⟩, honce⟩

/-- An empty diff has no part to carry the trailer, and is reported complete without it. -/
theorem not_truthful_of_empty
    (hplan : planPreviewDelivery artifact DISCORD_SAFE_LIMIT FILE_ATTACHMENT_CHUNK_THRESHOLD =
      .text []) :
    ¬ Truthful artifact
      (deliverPreview (fun _ => false) true artifact DISCORD_SAFE_LIMIT
        FILE_ATTACHMENT_CHUNK_THRESHOLD).1
      (deliverPreview (fun _ => false) true artifact DISCORD_SAFE_LIMIT
        FILE_ATTACHMENT_CHUNK_THRESHOLD).2 := by
  intro h
  have hrun : deliverPreview (fun _ => false) true artifact DISCORD_SAFE_LIMIT
      FILE_ATTACHMENT_CHUNK_THRESHOLD = (report artifact .SUCCESS_TEXT_COMPLETE .text 0 0 false,
        [⟨.plain artifact.header, true⟩]) := by
    simp [deliverPreview, hplan, attempt, sendUntilFailure, messages]
  obtain ⟨parts, hparts, hlog⟩ := h.text_complete (by simp [hrun, report])
  rw [hplan] at hparts
  cases hparts
  simp [hrun, withTrailer] at hlog

end Discord

namespace Telegram

variable {artifact : PreviewArtifact} {parts : List JsString} {fails : ℕ → Bool}

theorem complete_of_plan (hplan : planTelegramPreview artifact TELEGRAM_MESSAGE_LIMIT
    TELEGRAM_PREVIEW_PART_THRESHOLD = .text parts) : Complete artifact parts :=
  ⟨planTelegramPreview_text hplan, planTelegramPreview_fits (by decide) hplan⟩

theorem html_plainChunks (text : JsString) : (plainChunks text).filterMap Send.html? = [] := by
  simp [plainChunks, List.filterMap_map, Function.comp_def, Send.html?]

theorem html_completeSends : (completeSends artifact).filterMap Send.html? = [] := by
  simp [completeSends, html_plainChunks, Send.html?]

theorem html_leadingSends : (leadingSends artifact parts).filterMap Send.html? = [] := by
  by_cases h : parts = [] <;> simp [leadingSends, html_plainChunks, h, Send.html?]

/-- The complete diff goes behind what was sent; no part is sent again. -/
theorem sendComplete_log (log : Log) :
    ∃ rest, (sendComplete fails artifact log).2 = log ++ rest ∧
      rest.filterMap (fun a => a.send.html?) = [] ∧
      ((sendComplete fails artifact log).1 = true →
        ⟨.document artifact.canonicalDiff artifact.attachmentFilename, true⟩ ∈ rest) := by
  obtain ⟨hle, hlog⟩ := sendUntilFailure_log fails (completeSends artifact) log
  refine ⟨_, hlog, ?_, ?_⟩
  · have hprefix := filterMap_logOf Send.html? (completeSends artifact)
      (sendUntilFailure fails (completeSends artifact) log).1
    rw [html_completeSends] at hprefix
    exact List.prefix_nil.mp hprefix
  · intro hall
    have hcount : (sendUntilFailure fails (completeSends artifact) log).1 =
        (completeSends artifact).length := by simpa [sendComplete] using hall
    rw [hcount, logOf_all]
    exact List.mem_map.mpr ⟨_, by simp [completeSends], rfl⟩

theorem fallback_log (partCount delivered : ℕ) (log : Log) :
    ∃ rest, (fallback fails artifact partCount delivered log).2 = log ++ rest ∧
      rest.filterMap (fun a => a.send.html?) = [] ∧
      (fallback fails artifact partCount delivered log).1.outcome ≠ .SUCCESS_TEXT_COMPLETE ∧
      ((fallback fails artifact partCount delivered log).1.outcome ≠ .DELIVERY_FAILED →
        ⟨.document artifact.canonicalDiff artifact.attachmentFilename, true⟩ ∈ rest) := by
  obtain ⟨rest, hrest, hnone, hdone⟩ := @sendComplete_log artifact fails log
  rw [fallback]
  cases hsend : sendComplete fails artifact log with
  | mk ok after =>
    rw [hsend] at hrest hdone
    simp only at hrest hdone
    cases ok with
    | true =>
      refine ⟨rest ++ [_], by simp [notify, attempt, hrest]; rfl, ?_, ?_, ?_⟩
      · rw [List.filterMap_append, hnone]
        rfl
      · by_cases hzero : delivered = 0 <;> simp [report, hzero]
      · exact fun _ => List.mem_append_left _ (hdone rfl)
    | false =>
      refine ⟨rest ++ [_], by simp [notify, attempt, hrest]; rfl, ?_, by simp [report],
        by simp [report]⟩
      rw [List.filterMap_append, hnone]
      rfl

theorem truthful_of_text (hplan : planTelegramPreview artifact TELEGRAM_MESSAGE_LIMIT
    TELEGRAM_PREVIEW_PART_THRESHOLD = .text parts) :
    let run := deliverTelegramPreview fails artifact
    Truthful artifact run.1 run.2 := by
  intro run
  have hsends : (parts.map Send.html).filterMap Send.html? = parts := by
    simp [List.filterMap_map, Function.comp_def, Send.html?]
  have hfallback : ∀ delivered log, run = fallback fails artifact parts.length delivered log →
      log.filterMap (fun a => a.send.html?) <+: parts → Truthful artifact run.1 run.2 := by
    intro delivered log hrun hlog
    obtain ⟨rest, hrest, hnone, hnot, hattached⟩ := @fallback_log artifact fails
      parts.length delivered log
    rw [← hrun] at hrest hnot hattached
    refine ⟨fun h => absurd h hnot, fun h => ?_, fun parts' hplan' => ?_⟩
    · have hmem : _ ∈ rest := hattached (by rcases h with h | h <;> simp [h])
      rw [hrest]
      exact List.mem_append_right _ hmem
    · rw [hplan] at hplan'
      cases hplan'
      rwa [hrest, List.filterMap_append, hnone, List.append_nil]
  have hrun : run = deliverTelegramPreview fails artifact := rfl
  rw [deliverTelegramPreview, hplan] at hrun
  obtain ⟨hledle, hledlog⟩ := sendUntilFailure_log fails (leadingSends artifact parts) []
  have hled : (sendUntilFailure fails (leadingSends artifact parts) []).2.filterMap
      (fun a => a.send.html?) = [] := by
    have hprefix := filterMap_logOf Send.html? (leadingSends artifact parts)
      (sendUntilFailure fails (leadingSends artifact parts) []).1
    rw [html_leadingSends] at hprefix
    rw [hledlog, List.nil_append]
    exact List.prefix_nil.mp hprefix
  simp only at hrun
  split at hrun
  next => exact hfallback _ _ hrun (by simp [hled])
  next hledall =>
    rw [ne_eq, not_not] at hledall
    obtain ⟨hle, hlog⟩ := sendUntilFailure_log fails (parts.map Send.html)
      (sendUntilFailure fails (leadingSends artifact parts) []).2
    have hprefix := filterMap_logOf Send.html? (parts.map Send.html)
      (sendUntilFailure fails (parts.map Send.html)
        (sendUntilFailure fails (leadingSends artifact parts) []).2).1
    rw [hsends] at hprefix
    split at hrun
    next hall =>
      have hlength : (parts.map Send.html).length = parts.length := by simp
      refine ⟨fun _ => ⟨parts, hplan, ?_⟩, by simp [hrun, report], fun parts' hplan' => ?_⟩
      · rw [hrun]
        simp only
        rw [hlog, hall, ← hlength, logOf_all, hledlog, hledall, logOf_all]
        simp
      · rw [hplan] at hplan'
        cases hplan'
        rw [hrun]
        simp only
        rw [hlog, List.filterMap_append, hled, List.nil_append]
        exact hprefix
    next =>
      apply hfallback _ _ hrun
      rw [hlog, List.filterMap_append, hled, List.nil_append]
      exact hprefix

theorem truthful_of_attachment {reason : AttachmentReason}
    (hplan : planTelegramPreview artifact TELEGRAM_MESSAGE_LIMIT TELEGRAM_PREVIEW_PART_THRESHOLD =
      .attachment reason) :
    let run := deliverTelegramPreview fails artifact
    Truthful artifact run.1 run.2 := by
  intro run
  have hrun : run = deliverTelegramPreview fails artifact := rfl
  rw [deliverTelegramPreview, hplan] at hrun
  have honce : ∀ parts', planTelegramPreview artifact TELEGRAM_MESSAGE_LIMIT
      TELEGRAM_PREVIEW_PART_THRESHOLD = .text parts' →
      run.2.filterMap (fun a => a.send.html?) <+: parts' := by
    intro parts' hplan'
    rw [hplan] at hplan'
    cases hplan'
  obtain ⟨rest, hrest, -, hdone⟩ := @sendComplete_log artifact fails []
  cases hsend : sendComplete fails artifact [] with
  | mk ok after =>
    rw [hsend] at hrest hdone
    simp only [List.nil_append] at hrest hdone
    simp only [hsend] at hrun
    cases ok with
    | true => exact ⟨by simp [hrun, report], fun _ => by simpa [hrun, hrest] using hdone, honce⟩
    | false => exact ⟨by simp [hrun, report], by simp [hrun, report], honce⟩

end Telegram

/-! ## The whole promise -/

/-- A preview is delivered completely or reported as failed, on both platforms and whichever sends
fail, exactly when Discord gets it as an attachment or its diff is not empty and brings no fence
marker of its own. -/
theorem delivered_completely_iff (artifact : PreviewArtifact) :
    DeliveredCompletely artifact ↔
      ∀ parts, Discord.planPreviewDelivery artifact Discord.DISCORD_SAFE_LIMIT
        Discord.FILE_ATTACHMENT_CHUNK_THRESHOLD = .text parts →
          artifact.canonicalDiff ≠ [] ∧ Discord.Clean artifact.canonicalDiff := by
  have hempty : ∀ parts, Discord.planPreviewDelivery artifact Discord.DISCORD_SAFE_LIMIT
      Discord.FILE_ATTACHMENT_CHUNK_THRESHOLD = .text parts →
        (parts = [] ↔ artifact.canonicalDiff = []) := by
    intro parts hplan
    obtain ⟨segments, hsplit, rfl, -, -⟩ := Discord.planPreviewDelivery_text hplan
    rw [Discord.wrapAll_eq_nil]
    constructor
    · intro hnil
      rw [← (splitCanonicalDiff_whole hsplit).flatten, hnil]
      rfl
    · intro hnil
      rw [hnil, splitCanonicalDiff] at hsplit
      split_ifs at hsplit <;> simp_all
  constructor
  · intro h parts hplan
    refine ⟨?_, (Discord.complete_of_plan hplan).mp (h.discordParts parts hplan)⟩
    intro hnil
    have hparts := (hempty parts hplan).mpr hnil
    subst hparts
    exact Discord.not_truthful_of_empty hplan (h.discordReports _ _)
  · intro h
    refine ⟨fun parts hplan => (Discord.complete_of_plan hplan).mpr (h parts hplan).2, ?_,
      fun parts hplan => Telegram.complete_of_plan hplan, ?_⟩
    · intro fails canNotify
      cases hplan : Discord.planPreviewDelivery artifact Discord.DISCORD_SAFE_LIMIT
          Discord.FILE_ATTACHMENT_CHUNK_THRESHOLD with
      | text parts =>
        have hne : parts ≠ [] := fun hnil => (h parts hplan).1 ((hempty parts hplan).mp hnil)
        exact Discord.truthful_of_text hplan hne
      | attachment reason => exact Discord.truthful_of_attachment hplan
    · intro fails
      cases hplan : Telegram.planTelegramPreview artifact Telegram.TELEGRAM_MESSAGE_LIMIT
          Telegram.TELEGRAM_PREVIEW_PART_THRESHOLD with
      | text parts => exact Telegram.truthful_of_text hplan
      | attachment reason => exact Telegram.truthful_of_attachment hplan

/-- A README's diff that adds the opening of a code block. -/
def readmePreview : PreviewArtifact where
  previewId := "preview-1"
  header := units "README.md"
  warning := none
  footer := units "apply?"
  canonicalDiff := units "@@ -1 +1,2 @@\n # Quoky\n+```sh\n"
  attachmentFilename := "preview.diff"

/-- The block of a diff that adds a code fence is closed inside the diff. -/
theorem readme_not_delivered_completely : ¬ DeliveredCompletely readmePreview := by
  intro h
  obtain ⟨parts, hplan⟩ : ∃ parts, Discord.planPreviewDelivery readmePreview
      Discord.DISCORD_SAFE_LIMIT Discord.FILE_ATTACHMENT_CHUNK_THRESHOLD = .text parts :=
    ⟨[Discord.wrapDiffPart readmePreview.canonicalDiff 1 1], by decide +kernel⟩
  have hclean := (Discord.complete_of_plan hplan).mp (h.discordParts parts hplan)
  have hmark : FENCE <+: readmePreview.canonicalDiff.drop 24 := by decide +kernel
  exact hclean.1 24 hmark

end QuokyPlatform.Previews
