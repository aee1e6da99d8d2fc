import QuokyPlatform.Foundations.Regex

/-!
# The link neutralizer

Links in untrusted text are replaced by a placeholder: scheme URLs, `www.` hosts and bare domains.
A text is its code points (a lone surrogate is one of its own). What the patterns ask of Unicode is a
parameter, with the documented facts about normalization that the neutralizer rests on.
-/

namespace QuokyPlatform.Links
set_option autoImplicit false
set_option maxHeartbeats 250000

abbrev CodePoint := ℕ
abbrev Text := List CodePoint

def chars (s : String) : Text := s.toList.map Char.toNat

/-- `'[링크]'` -/
def LINK_PLACEHOLDER : Text := chars "[링크]"

/-- The tables of Unicode: categories, simple case folding, lower case and NFKC. -/
structure Unicode where
  isLetter : CodePoint → Bool
  isMark : CodePoint → Bool
  isNumber : CodePoint → Bool
  isFormat : CodePoint → Bool
  /-- Simple case folding; the full stop and the colon have no case variants. -/
  fold : CodePoint → CodePoint
  fold_mark : ∀ c, ∀ d ∈ chars ".:", fold d = fold c → c = d
  toLowerCase : Text → Text
  nfkc : Text → Text
  nfkc_nfkc : ∀ text, nfkc (nfkc text) = nfkc text
  /-- Normalization forms are closed under substrings. -/
  nfkc_infix : ∀ {text part}, part <:+: text → nfkc text = text → nfkc part = part
  /-- The brackets of the placeholder take no part in a composition or a reordering. -/
  nfkc_join : ∀ {text more}, nfkc text = text → nfkc more = more →
    nfkc (text ++ LINK_PLACEHOLDER ++ more) = text ++ LINK_PLACEHOLDER ++ more
  /-- No compatibility mapping yields a format character. -/
  nfkc_format : ∀ {text}, (∀ c ∈ text, isFormat c = false) → ∀ c ∈ nfkc text, isFormat c = false
  placeholder_format : ∀ c ∈ LINK_PLACEHOLDER, isFormat c = false

inductive LinkNeutralizationMode where
  | display
  | body
  deriving DecidableEq, Repr

/-! ## Tables -/

/-- The bracketed exclusion class of the patterns: white space and the characters that end a link. -/
def isLinkEnd (c : CodePoint) : Bool :=
  (0x9 ≤ c && c ≤ 0xd) || c == 0x20 || c == 0xa0 || c == 0x1680 || (0x2000 ≤ c && c ≤ 0x200a) ||
    c == 0x2028 || c == 0x2029 || c == 0x202f || c == 0x205f || c == 0x3000 || c == 0xfeff ||
    c ∈ chars "<>\"'`()[]"

def IDN_TLDS : List Text := [
  "한국", "닷컴", "닷넷", "삼성",
  "中国", "中國", "香港", "台灣", "台湾", "澳門", "澳门", "新加坡", "公司", "网络", "網絡", "中文网", "在线", "网址",
  "网店", "移动", "商城", "商店", "购物", "游戏", "商标", "手机", "集团", "我爱你", "信息", "机构", "政务", "公益", "时尚",
  "健康", "企业", "广东",
  "日本", "コム", "みんな", "ストア", "セール", "ファッション", "ポイント", "クラウド",
  "рф", "рус", "ком", "орг", "онлайн", "сайт", "бел", "укр", "срб", "мкд", "қаз", "мон", "бг", "дети", "москва",
  "ελ", "ευ", "ไทย", "भारत"].map chars

def KO_PARTICLES : List Text :=
  ["에서", "에게", "으로", "이나", "이랑", "은", "는", "이", "가", "을", "를", "로", "에", "의", "도", "만",
    "과", "와", "랑"].map chars

def FILE_EXTENSIONS : List Text := [
  "js", "ts", "tsx", "jsx", "rb", "go", "kt", "cs", "cpp", "txt", "log", "csv", "json",
  "yml", "yaml", "xml", "html", "htm", "css", "pdf", "doc", "docx", "xls", "xlsx", "ppt", "pptx",
  "hwp", "hwpx", "png", "jpg", "jpeg", "gif", "svg", "webp", "mp3", "mp4", "wav", "tar", "gz",
  "tgz", "dmg", "exe", "msi", "apk", "ipa"].map chars

def WEB_TLDS : List Text := [
  "com", "net", "org", "info", "biz", "io", "co", "ai", "app", "dev", "xyz", "me", "ly", "to", "cc",
  "tv", "us", "uk", "kr", "jp", "cn", "de", "fr", "ru", "su", "eu", "ca", "au", "in", "br", "top",
  "site", "online", "shop", "store", "live", "click", "link", "icu", "tk", "ml", "ga", "cf", "gq",
  "pw", "ws", "vip", "club", "work", "page", "help", "support", "email", "mobi", "zip", "mov",
  "cloud", "tech", "website", "space", "fun", "buzz", "rest", "bar"].map chars

/-- The full stops that separate labels. -/
def isDot (c : CodePoint) : Bool := c ∈ [0x2e, 0x3002, 0xff0e, 0xff61]

/-- A full stop or a colon. -/
def isLinkMark (c : CodePoint) : Bool := isDot c || c == 0x3a

/-! ## Patterns -/

section
variable (unicode : Unicode)

/-- Whether two characters are equal under the `i` flag. -/
def same (c d : CodePoint) : Bool := unicode.fold c == unicode.fold d

def literal (c : CodePoint) : Regex CodePoint := .char (same unicode c)

/-- `[a-z]` under the `i` flag. -/
def isLatin (c : CodePoint) : Bool := 0x61 ≤ unicode.fold c && unicode.fold c ≤ 0x7a

def isDigit (c : CodePoint) : Bool := 0x30 ≤ unicode.fold c && unicode.fold c ≤ 0x39

/-- `[a-z0-9-]` -/
def isHostChar (c : CodePoint) : Bool := isLatin unicode c || isDigit unicode c || same unicode 0x2d c

/-- `[\p{L}\p{M}\p{N}-]` -/
def isLabelChar (c : CodePoint) : Bool :=
  unicode.isLetter c || unicode.isMark c || unicode.isNumber c || c == 0x2d

/-- The characters up to where a link ends. -/
def toLinkEnd : Regex CodePoint := .repeated (.char fun c => !isLinkEnd c) 0 none

def SCHEME_OR_WWW : Regex CodePoint :=
  .seq (.alt
    (.seq (.char (isLatin unicode)) (.seq
      (.repeated (.char fun c => isLatin unicode c || isDigit unicode c ||
        (chars "+.-").any fun d => same unicode d c) 0 (some 15))
      (.seq (literal unicode 0x3a) (.seq (literal unicode 0x2f) (literal unicode 0x2f)))))
    (Regex.words (literal unicode) [chars "www."]))
    toLinkEnd

/-- A label, matched atomically, and the full stop behind it. -/
def labelAndDot : Regex CodePoint :=
  .seq (.ahead (.group 1 (.repeated (.char (isLabelChar unicode)) 1 (some 253))))
    (.seq (.back 1) (.char isDot))

/-- The TLD: an ASCII one, or a punycode or IDN one that nothing but a particle may follow. -/
def topLevelDomain : Regex CodePoint :=
  .alt
    (.seq (.repeated (.char (isLatin unicode)) 2 (some 24)) (.notAhead (.char (isHostChar unicode))))
    (.seq
      (.alt
        (.seq (Regex.words (literal unicode) [chars "xn--"])
          (.repeated (.char (isHostChar unicode)) 1 (some 59)))
        (Regex.words (literal unicode) IDN_TLDS))
      (.ahead (.seq (Regex.optional (Regex.words (literal unicode) KO_PARTICLES))
        (.notAhead (.char (isLabelChar unicode))))))

/-- The port and the path. -/
def portAndPath : Regex CodePoint :=
  .seq
    (Regex.optional (.seq (literal unicode 0x3a) (.repeated (.char (isDigit unicode)) 1 (some 5))))
    (Regex.optional (.seq (.char fun c => (chars "/?#").any fun d => same unicode d c) toLinkEnd))

def BARE_DOMAIN : Regex CodePoint :=
  .seq (.notBehind (isLabelChar unicode))
    (.seq (.repeated (labelAndDot unicode) 1 (some 10))
      (.seq (.group 2 (topLevelDomain unicode)) (.group 3 (portAndPath unicode))))

/-! ## The neutralizer -/

/-- What a bare domain becomes. An IDN TLD counts only behind an ASCII full stop. -/
def bareDomainReplacement (mode : LinkNeutralizationMode) (found : Regex.Found CodePoint) : Text :=
  let tld := (found.state.captured 2).getD []
  let tail := (found.state.captured 3).getD []
  let tldLower := unicode.toLowerCase tld
  let hasPath := tail.length > 0
  let tldStart := found.matched.length - tail.length - tld.length
  if tld.any (· > 0x7f) ∧ found.matched[tldStart - 1]? ≠ some 0x2e then found.matched
  else match mode with
    | .body =>
      let countryTld := tldLower.length = 2 ∧ tldLower ∉ FILE_EXTENSIONS
      if hasPath ∨ tldLower ∈ WEB_TLDS ∨ countryTld ∨ chars "xn--" <+: tldLower ∨
          tldLower.any (fun c => !(0x61 ≤ c && c ≤ 0x7a)) then LINK_PLACEHOLDER
      else found.matched
    | .display =>
      if ¬ hasPath ∧ found.before.head? = some 0x40 then found.matched
      else if ¬ hasPath ∧ tldLower ∈ FILE_EXTENSIONS then found.matched
      else LINK_PLACEHOLDER

def replaceBareDomains (text : Text) (mode : LinkNeutralizationMode) : Text :=
  Regex.replaceAll (same unicode) (BARE_DOMAIN unicode) (bareDomainReplacement unicode mode) text

/-- One round: scheme URLs and `www.` hosts, then bare domains. -/
def neutralizeRound (mode : LinkNeutralizationMode) (current : Text) : Text :=
  replaceBareDomains unicode
    (Regex.replaceAll (same unicode) (SCHEME_OR_WWW unicode) (fun _ => LINK_PLACEHOLDER) current) mode

/-- The format characters removed and NFKC applied. -/
def normalized (text : Text) : Text := unicode.nfkc (text.filter fun c => !unicode.isFormat c)

/-- The rounds that are left; a round that changes nothing is the last one. -/
def neutralizeRounds (mode : LinkNeutralizationMode) : ℕ → Text → Text
  | 0, current => current
  | rounds + 1, current =>
    let next := neutralizeRound unicode mode current
    if next = current then next else neutralizeRounds mode rounds next

def neutralizeLinks (text : Text) (mode : LinkNeutralizationMode) : Text :=
  if text.length = 0 then [] else neutralizeRounds unicode mode 3 (normalized unicode text)

def containsLink (text : Text) (mode : LinkNeutralizationMode) : Bool :=
  if text.length = 0 then false else neutralizeLinks unicode text mode ≠ normalized unicode text

end

end QuokyPlatform.Links
