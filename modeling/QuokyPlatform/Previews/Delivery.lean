import QuokyPlatform.Previews.Telegram

/-!
# Delivering a preview

The sends of a preview in their order, each of which may fail. What is reported is compared with the
log of the sends.
-/

namespace QuokyPlatform.Previews
open Chunking
set_option autoImplicit false
set_option maxHeartbeats 250000

inductive Send where
  | plain (text : JsString)
  | html (text : JsString)
  | attachment (canonicalDiff : JsString) (filename : String) (caption : JsString)
  | document (canonicalDiff : JsString) (filename : String)
  | notice (message : JsString)
  deriving DecidableEq, Repr

/-- A send that was attempted, and whether it went through. -/
structure Attempt where
  send : Send
  sent : Bool
  deriving DecidableEq, Repr

abbrev Log := List Attempt

def Send.text? : Send → Option JsString
  | .plain text => some text
  | _ => none

def Send.html? : Send → Option JsString
  | .html text => some text
  | _ => none

inductive PreviewDeliveryOutcome where
  | SUCCESS_TEXT_COMPLETE
  | SUCCESS_ATTACHMENT_COMPLETE
  | PARTIAL_TEXT_ATTACHMENT_COMPLETE
  | DELIVERY_FAILED
  deriving DecidableEq, Repr

inductive DeliveryMode where
  | text
  | attachment
  deriving DecidableEq, Repr

structure PreviewDeliveryReport where
  previewId : String
  outcome : PreviewDeliveryOutcome
  deliveryMode : DeliveryMode
  partCount : ℕ
  deliveredPartCount : ℕ
  attachmentFallbackUsed : Bool
  canonicalDiffLength : ℕ
  deriving DecidableEq, Repr

def PARTIAL_FAILURE_NOTICE : JsString := units "답변 일부를 전송하지 못했어요."

def PREVIEW_ATTACHMENT_NOTICE : JsString := units "전체 diff는 첨부파일로 보내드렸어요."

/-- The caption of the complete diff; it carries the trailer too. -/
def attachmentCaption (artifact : PreviewArtifact) : JsString :=
  artifact.header ++ units "\n(전체 diff는 첨부파일로 보내드려요.)" ++ previewTrailer artifact

/-! ## Sends -/

section
variable (fails : ℕ → Bool)

/-- One send; whether it fails is given by its place in the log. -/
def attempt (send : Send) (log : Log) : Bool × Log :=
  (!fails log.length, log ++ [⟨send, !fails log.length⟩])

/-- Sends in their order up to the first that fails; how many went through. -/
def sendUntilFailure : List Send → Log → ℕ × Log
  | [], log => (0, log)
  | send :: rest, log =>
    match attempt fails send log with
    | (true, log) => ((sendUntilFailure rest log).1 + 1, (sendUntilFailure rest log).2)
    | (false, log) => (0, log)

/-- The sends that went through, and the failed one behind them when it is not all. -/
def logOf (sends : List Send) (delivered : ℕ) : Log :=
  (sends.take delivered).map (⟨·, true⟩) ++ (sends[delivered]?.map (⟨·, false⟩)).toList

theorem sendUntilFailure_log (sends : List Send) (log : Log) :
    (sendUntilFailure fails sends log).1 ≤ sends.length ∧
      (sendUntilFailure fails sends log).2 =
        log ++ logOf sends (sendUntilFailure fails sends log).1 := by
  induction sends generalizing log with
  | nil => simp [sendUntilFailure, logOf]
  | cons send rest ih =>
    rw [sendUntilFailure]
    cases hfail : fails log.length with
    | true => simp [attempt, hfail, logOf]
    | false =>
      obtain ⟨hle, hlog⟩ := ih (log ++ [⟨send, true⟩])
      simp only [attempt, hfail, Bool.not_false, List.length_cons]
      refine ⟨by omega, ?_⟩
      rw [hlog]
      simp [logOf]

/-- Of the sends of one kind at most those of the list are made, each once and in order. -/
theorem filterMap_logOf (read : Send → Option JsString) (sends : List Send) (delivered : ℕ) :
    (logOf sends delivered).filterMap (fun a => read a.send) <+: sends.filterMap read := by
  have hlog : (logOf sends delivered).map Attempt.send <+: sends := by
    simp only [logOf, List.map_append, List.map_map]
    cases hat : sends[delivered]? with
    | none =>
      simp only [Option.map_none, Option.toList_none, List.map_nil, List.append_nil]
      simpa [Function.comp_def] using List.take_prefix delivered sends
    | some send =>
      have htake : sends.take (delivered + 1) = sends.take delivered ++ [send] := by
        rw [List.take_add_one, hat, Option.toList_some]
      have hprefix := List.take_prefix (delivered + 1) sends
      rw [htake] at hprefix
      simpa [Function.comp_def] using hprefix
  have hmap := hlog.filterMap read
  rwa [List.filterMap_map] at hmap

theorem logOf_all (sends : List Send) : logOf sends sends.length = sends.map (⟨·, true⟩) := by
  simp [logOf]

/-! ## Discord -/

namespace Discord

variable (canNotify : Bool) (artifact : PreviewArtifact)

/-- The parts, with the trailer behind the last one. -/
def messages (parts : List JsString) : List JsString :=
  parts.mapIdx fun i part => if i + 1 = parts.length then part ++ previewTrailer artifact else part

def notify (message : JsString) (log : Log) : Log :=
  if canNotify then (attempt fails (.notice message) log).2 else log

def sendCompleteAttachment : Log → Bool × Log :=
  attempt fails
    (.attachment artifact.canonicalDiff artifact.attachmentFilename (attachmentCaption artifact))

def report (outcome : PreviewDeliveryOutcome) (mode : DeliveryMode) (partCount delivered : ℕ)
    (fallback : Bool) : PreviewDeliveryReport where
  previewId := artifact.previewId
  outcome := outcome
  deliveryMode := mode
  partCount := partCount
  deliveredPartCount := delivered
  attachmentFallbackUsed := fallback
  canonicalDiffLength := artifact.canonicalDiff.length

/-- The complete diff as one attachment, after so many parts. -/
def attachmentFallback (partCount delivered : ℕ) (log : Log) : PreviewDeliveryReport × Log :=
  match sendCompleteAttachment fails artifact log with
  | (false, log) =>
    (report artifact .DELIVERY_FAILED .text partCount delivered true,
      notify fails canNotify PARTIAL_FAILURE_NOTICE log)
  | (true, log) =>
    let outcome := if delivered = 0 then .SUCCESS_ATTACHMENT_COMPLETE
      else .PARTIAL_TEXT_ATTACHMENT_COMPLETE
    (report artifact outcome .text partCount delivered true,
      notify fails canNotify PREVIEW_ATTACHMENT_NOTICE log)

def deliverPreview (safeLimit : ℤ) (partThreshold : ℕ) : PreviewDeliveryReport × Log :=
  match planPreviewDelivery artifact safeLimit partThreshold with
  | .attachment _ =>
    match sendCompleteAttachment fails artifact [] with
    | (false, log) =>
      (report artifact .DELIVERY_FAILED .attachment 0 0 true,
        notify fails canNotify PARTIAL_FAILURE_NOTICE log)
    | (true, log) => (report artifact .SUCCESS_ATTACHMENT_COMPLETE .attachment 0 0 true, log)
  | .text parts =>
    match attempt fails (.plain artifact.header) [] with
    | (false, log) => attachmentFallback fails canNotify artifact parts.length 0 log
    | (true, log) =>
      match sendUntilFailure fails ((messages artifact parts).map .plain) log with
      | (delivered, log) =>
        if delivered = parts.length then
          (report artifact .SUCCESS_TEXT_COMPLETE .text parts.length delivered false, log)
        else attachmentFallback fails canNotify artifact parts.length delivered log

end Discord

/-! ## Telegram -/

namespace Telegram

variable (artifact : PreviewArtifact)

structure TelegramPreviewReport where
  previewId : String
  outcome : PreviewDeliveryOutcome
  deliveryMode : DeliveryMode
  partCount : ℕ
  deliveredPartCount : ℕ
  canonicalDiffLength : ℕ
  deriving DecidableEq, Repr

def plainChunks (text : JsString) : List Send := (numberChunks (chunkTelegramText text)).map .plain

/-- The caption and the complete diff. -/
def completeSends : List Send :=
  plainChunks (attachmentCaption artifact) ++
    [.document artifact.canonicalDiff artifact.attachmentFilename]

def sendComplete (log : Log) : Bool × Log :=
  let result := sendUntilFailure fails (completeSends artifact) log
  (result.1 = (completeSends artifact).length, result.2)

def report (outcome : PreviewDeliveryOutcome) (mode : DeliveryMode) (partCount delivered : ℕ) :
    TelegramPreviewReport where
  previewId := artifact.previewId
  outcome := outcome
  deliveryMode := mode
  partCount := partCount
  deliveredPartCount := delivered
  canonicalDiffLength := artifact.canonicalDiff.length

def notify (message : JsString) (log : Log) : Log := (attempt fails (.notice message) log).2

def fallback (partCount delivered : ℕ) (log : Log) : TelegramPreviewReport × Log :=
  match sendComplete fails artifact log with
  | (false, log) =>
    (report artifact .DELIVERY_FAILED .text partCount delivered,
      notify fails PARTIAL_FAILURE_NOTICE log)
  | (true, log) =>
    let outcome := if delivered = 0 then .SUCCESS_ATTACHMENT_COMPLETE
      else .PARTIAL_TEXT_ATTACHMENT_COMPLETE
    (report artifact outcome .text partCount delivered, notify fails PREVIEW_ATTACHMENT_NOTICE log)

/-- What goes before the parts: the header, and the trailer when there is no part to carry it. -/
def leadingSends (parts : List JsString) : List Send :=
  plainChunks artifact.header ++
    if parts = [] then [.plain ((previewTrailer artifact).dropWhile isWhiteSpace)] else []

def deliverTelegramPreview : TelegramPreviewReport × Log :=
  match planTelegramPreview artifact TELEGRAM_MESSAGE_LIMIT TELEGRAM_PREVIEW_PART_THRESHOLD with
  | .attachment _ =>
    match sendComplete fails artifact [] with
    | (false, log) =>
      (report artifact .DELIVERY_FAILED .attachment 0 0, notify fails PARTIAL_FAILURE_NOTICE log)
    | (true, log) => (report artifact .SUCCESS_ATTACHMENT_COMPLETE .attachment 0 0, log)
  | .text parts =>
    match sendUntilFailure fails (leadingSends artifact parts) [] with
    | (led, log) =>
      if led ≠ (leadingSends artifact parts).length then fallback fails artifact parts.length 0 log
      else
        match sendUntilFailure fails (parts.map .html) log with
        | (delivered, log) =>
          if delivered = parts.length then
            (report artifact .SUCCESS_TEXT_COMPLETE .text parts.length delivered, log)
          else fallback fails artifact parts.length delivered log

end Telegram
end

/-! ## What is promised -/

/-- The trailer behind the last part, or alone when there is no part. -/
def withTrailer (parts : List JsString) (trailer : JsString) : List JsString :=
  if parts = [] then [trailer]
  else parts.mapIdx fun i part => if i + 1 = parts.length then part ++ trailer else part

/-- The parts are whole lines of the diff in fenced blocks, each within the limit. -/
structure Discord.Complete (artifact : PreviewArtifact) (parts : List JsString) : Prop where
  lossless : ∃ segments, OfWholeLines segments artifact.canonicalDiff ∧ parts = wrapAll segments
  fits : ∀ message ∈ withTrailer parts (previewTrailer artifact),
    (message.length : ℤ) ≤ DISCORD_SAFE_LIMIT
  fenced : ∀ part ∈ parts, WellFenced part

structure Discord.Truthful (artifact : PreviewArtifact) (report : PreviewDeliveryReport)
    (log : Log) : Prop where
  text_complete : report.outcome = .SUCCESS_TEXT_COMPLETE → ∃ parts,
    planPreviewDelivery artifact DISCORD_SAFE_LIMIT FILE_ATTACHMENT_CHUNK_THRESHOLD = .text parts ∧
      log = (artifact.header :: withTrailer parts (previewTrailer artifact)).map (⟨.plain ·, true⟩)
  attached : report.outcome = .SUCCESS_ATTACHMENT_COMPLETE ∨
    report.outcome = .PARTIAL_TEXT_ATTACHMENT_COMPLETE → ∃ caption,
      ⟨.attachment artifact.canonicalDiff artifact.attachmentFilename caption, true⟩ ∈ log
  once : ∀ parts,
    planPreviewDelivery artifact DISCORD_SAFE_LIMIT FILE_ATTACHMENT_CHUNK_THRESHOLD = .text parts →
      log.filterMap (fun a => a.send.text?) <+:
        artifact.header :: withTrailer parts (previewTrailer artifact)

/-- The parts are whole lines of the diff, escaped, each within the limit. -/
structure Telegram.Complete (artifact : PreviewArtifact) (parts : List JsString) : Prop where
  lossless : ∃ segments, OfWholeLines segments artifact.canonicalDiff ∧
    parts = wrapAll segments (escapeTelegramHtml (previewTrailer artifact))
  fits : ∀ part ∈ parts, (part.length : ℤ) ≤ TELEGRAM_MESSAGE_LIMIT

structure Telegram.Truthful (artifact : PreviewArtifact) (report : TelegramPreviewReport)
    (log : Log) : Prop where
  text_complete : report.outcome = .SUCCESS_TEXT_COMPLETE → ∃ parts,
    planTelegramPreview artifact TELEGRAM_MESSAGE_LIMIT TELEGRAM_PREVIEW_PART_THRESHOLD =
      .text parts ∧ log = (leadingSends artifact parts ++ parts.map Send.html).map (⟨·, true⟩)
  attached : report.outcome = .SUCCESS_ATTACHMENT_COMPLETE ∨
    report.outcome = .PARTIAL_TEXT_ATTACHMENT_COMPLETE →
      ⟨.document artifact.canonicalDiff artifact.attachmentFilename, true⟩ ∈ log
  once : ∀ parts,
    planTelegramPreview artifact TELEGRAM_MESSAGE_LIMIT TELEGRAM_PREVIEW_PART_THRESHOLD =
      .text parts → log.filterMap (fun a => a.send.html?) <+: parts

/-- On both platforms, and however the sends fail, the preview arrives whole or is not said to
have. -/
structure DeliveredCompletely (artifact : PreviewArtifact) : Prop where
  discordParts : ∀ parts, Discord.planPreviewDelivery artifact Discord.DISCORD_SAFE_LIMIT
    Discord.FILE_ATTACHMENT_CHUNK_THRESHOLD = .text parts → Discord.Complete artifact parts
  discordReports : ∀ fails canNotify,
    let run := Discord.deliverPreview fails canNotify artifact Discord.DISCORD_SAFE_LIMIT
      Discord.FILE_ATTACHMENT_CHUNK_THRESHOLD
    Discord.Truthful artifact run.1 run.2
  telegramParts : ∀ parts, Telegram.planTelegramPreview artifact Telegram.TELEGRAM_MESSAGE_LIMIT
    Telegram.TELEGRAM_PREVIEW_PART_THRESHOLD = .text parts → Telegram.Complete artifact parts
  telegramReports : ∀ fails,
    let run := Telegram.deliverTelegramPreview fails artifact
    Telegram.Truthful artifact run.1 run.2

end QuokyPlatform.Previews
