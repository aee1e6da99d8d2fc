import QuokyPlatform.Messages.Rendering

/-!
# Telegram's markup

Telegram's text has no parse mode: every span is written as it is.
-/

namespace QuokyPlatform.Messages.Telegram
open Chunking
set_option autoImplicit false
set_option maxHeartbeats 250000

def TELEGRAM_PLATFORM : JsString := units "telegram"

section
-- `toUpperCase` of one unit
variable (upper : CodeUnit → JsString)

/-- A conversation on another platform is a neutral name of it. -/
def conversation (ref : ConversationRefNode) : JsString :=
  if ref.platform = TELEGRAM_PLATFORM then ref.label
  else
    let name := (ref.platform.take 1).flatMap upper ++ ref.platform.drop 1
    if ref.direct then name ++ units " 개인 대화" else name ++ units " 대화방"

def TELEGRAM_MARKUP : MessageMarkup where
  untrusted text _ := text
  link url := url
  conversation := conversation upper
  platformNote _ := []

end

end QuokyPlatform.Messages.Telegram
