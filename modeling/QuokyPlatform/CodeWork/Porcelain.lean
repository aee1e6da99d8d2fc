import QuokyPlatform.Foundations.Separators
import QuokyPlatform.Foundations.Utf8
import QuokyPlatform.CodeWork.CommitCandidates

/-!
# The status of a repository, printed and read

What git documents for `status --porcelain=v1 -b`, and the reading of it. A file name is its bytes, as
git has them; its real name is their text. Git quotes a name with a space, a quote, a backslash, a
control byte or one that is not ASCII. The reading splits lines and has no quoting.
-/

namespace QuokyPlatform.CodeWork
open Chunking Separators
set_option autoImplicit false
set_option maxHeartbeats 250000

/-! ## The format -/

def newline : CodeUnit := 0x0A

def arrow : JsString := units " -> "

def dots : JsString := units "..."

abbrev FileName := List UInt8

/-- The name of a file as a text. -/
def realName (name : FileName) : JsString := Utf8.decode name

/-- A byte that makes git quote the name. -/
def isQuoted (byte : UInt8) : Bool :=
  byte ≤ 0x20 || 0x7F ≤ byte || byte == 0x22 || byte == 0x5C

/-- The escapes that are letters. -/
def letterEscapes : List (UInt8 × CodeUnit) :=
  [(0x07, 0x61), (0x08, 0x62), (0x09, 0x74), (0x0A, 0x6E), (0x0B, 0x76), (0x0C, 0x66), (0x0D, 0x72),
    (0x22, 0x22), (0x5C, 0x5C)]

def octalDigit (n : ℕ) : CodeUnit := UInt16.ofNat (0x30 + n % 8)

def escapeByte (byte : UInt8) : JsString :=
  match letterEscapes.lookup byte with
  | some letter => [0x5C, letter]
  | none =>
    if byte < 0x20 ∨ 0x7F ≤ byte then
      [0x5C, octalDigit (byte.toNat / 64), octalDigit (byte.toNat / 8), octalDigit byte.toNat]
    else [byte.toUInt16]

/-- A name as it is printed, quoted in the way of C if it has to be. -/
def quotePath (name : FileName) : JsString :=
  if name.any isQuoted then 0x22 :: (name.flatMap escapeByte ++ [0x22])
  else name.map UInt8.toUInt16

inductive Change where
  | unmodified
  | modified
  | typeChanged
  | added
  | deleted
  | renamed
  | copied
  | unmerged
  deriving DecidableEq

def Change.letter : Change → CodeUnit
  | .unmodified => 0x20
  | .modified => 0x4D
  | .typeChanged => 0x54
  | .added => 0x41
  | .deleted => 0x44
  | .renamed => 0x52
  | .copied => 0x43
  | .unmerged => 0x55

/-- An untracked file, or a tracked one that differs in the index or in the working tree. A renamed or
copied file has an origin. -/
inductive Entry where
  | untracked (path : FileName)
  | tracked (index workTree : Change) (changed : index ≠ .unmodified ∨ workTree ≠ .unmodified)
      (origin : Option FileName) (path : FileName)

namespace Entry

def path : Entry → FileName
  | .untracked path => path
  | .tracked _ _ _ _ path => path

def origin : Entry → Option FileName
  | .untracked _ => none
  | .tracked _ _ _ origin _ => origin

def isUntracked : Entry → Bool
  | .untracked _ => true
  | .tracked .. => false

def isStaged : Entry → Bool
  | .untracked _ => false
  | .tracked index _ _ _ _ => index != .unmodified

def isUnstaged : Entry → Bool
  | .untracked _ => false
  | .tracked _ workTree _ _ _ => workTree != .unmodified

/-- What stands behind the two status letters. -/
def paths (entry : Entry) : JsString :=
  match entry.origin with
  | none => quotePath entry.path
  | some origin => quotePath origin ++ (arrow ++ quotePath entry.path)

def line (entry : Entry) : JsString :=
  match entry with
  | .untracked _ => 0x3F :: 0x3F :: 0x20 :: entry.paths
  | .tracked index workTree _ _ _ => index.letter :: workTree.letter :: 0x20 :: entry.paths

end Entry

/-- A branch name that git allows, also with its remote in front. -/
structure RefName where
  text : JsString
  nonempty : text ≠ []
  visible : ∀ unit ∈ text, 0x20 < unit
  noDots : ¬ units ".." <:+: text
  noDotAtEnd : text.getLast? ≠ some 0x2E

inductive Track where
  | inSync
  | ahead (count : ℕ)
  | behind (count : ℕ)
  | diverged (ours theirs : ℕ)
  | gone

def Track.text : Track → JsString
  | .inSync => []
  | .ahead count => units " [ahead " ++ (units (toString count) ++ units "]")
  | .behind count => units " [behind " ++ (units (toString count) ++ units "]")
  | .diverged ours theirs =>
    units " [ahead " ++ (units (toString ours) ++ (units ", behind " ++
      (units (toString theirs) ++ units "]")))
  | .gone => units " [gone]"

/-- Commits ahead of the upstream; a gone one has no count. -/
def Track.aheadCount : Track → Option ℕ
  | .inSync => some 0
  | .ahead count => some count
  | .behind _ => some 0
  | .diverged ours _ => some ours
  | .gone => none

def Track.behindCount : Track → Option ℕ
  | .inSync => some 0
  | .ahead _ => some 0
  | .behind count => some count
  | .diverged _ theirs => some theirs
  | .gone => none

inductive Header where
  | detached
  | onBranch (unborn : Bool) (name : RefName) (upstream : Option (RefName × Track))

def upstreamText : Option (RefName × Track) → JsString
  | none => []
  | some (upstream, track) => dots ++ (upstream.text ++ track.text)

namespace Header

/-- The header behind its `## `. -/
def body : Header → JsString
  | .detached => units "HEAD (no branch)"
  | .onBranch unborn name upstream =>
    (if unborn then units "No commits yet on " else []) ++ (name.text ++ upstreamText upstream)

def line (header : Header) : JsString := units "## " ++ header.body

end Header

/-- The output of `git status --porcelain=v1 -b`. -/
def printStatus (header : Header) (entries : List Entry) : JsString :=
  (header.line :: entries.map Entry.line).flatMap (· ++ [newline])

/-! ## The reading -/

structure PorcelainStatus extends GitStatus where
  clean : Bool
  branch : JsString
  upstream : Option JsString
  ahead : Option ℕ
  behind : Option ℕ

@[ext]
structure Tracking where
  upstream : Option JsString
  ahead : Option ℕ
  behind : Option ℕ

def Tracking.absent : Tracking := ⟨none, none, none⟩

/-- `text.replace(/^lead/, '')` -/
def dropLead (lead text : JsString) : JsString :=
  if lead <+: text then text.drop lead.length else text

/-- `b.split('...')[0].split(' ')[0]` -/
def branchOf (b : JsString) : JsString :=
  let b := (splitText dots b).head?.getD b
  (splitText (units " ") b).head?.getD b

/-- Extract the branch name from a porcelain `## ...` header line. -/
def parseBranchLine (line : JsString) : JsString :=
  let b := trim (line.drop 3)
  let b := dropLead (units "Initial commit on ") (dropLead (units "No commits yet on ") b)
  if units "HEAD (no branch)" <+: b then units "HEAD" else branchOf b

def isDigitUnit (unit : CodeUnit) : Bool := 0x30 ≤ unit && unit ≤ 0x39

/-- `Number(digits)` -/
def numberOf (digits : JsString) : ℕ := digits.foldl (fun n unit => 10 * n + (unit.toNat - 0x30)) 0

/-- The count of `text.match(/label(\d+)/)`. -/
def matchCount (label : JsString) : JsString → Option ℕ
  | [] => none
  | first :: rest =>
    let digits := ((first :: rest).drop label.length).takeWhile isDigitUnit
    if label <+: first :: rest ∧ digits ≠ [] then some (numberOf digits) else matchCount label rest

/-- The upstream and its counts, of the header behind its first `...`. -/
def readTracking (afterSep : JsString) : Tracking :=
  match breakAt (units " [") afterSep with
  | none =>
    if (trim afterSep).length = 0 then .absent else ⟨some (trim afterSep), some 0, some 0⟩
  | some (before, after) =>
    let track := units " [" ++ after
    if (trim before).length = 0 then .absent
    else
      ⟨some (trim before), some ((matchCount (units "ahead ") track).getD 0),
        some ((matchCount (units "behind ") track).getD 0)⟩

def parseBranchTracking (line : JsString) : Tracking :=
  let body := trim (line.drop 3)
  if units "HEAD (no branch)" <+: body ∨ units "No commits yet on " <+: body then .absent
  else
    match breakAt dots body with
    | none => .absent
    | some (_, afterSep) => readTracking afterSep

/-- The path of a line behind its status letters. -/
def readPath (rest : JsString) : JsString :=
  if (breakAt arrow rest).isSome then (splitText arrow rest)[1]?.getD rest else rest

def readEntry (x y : CodeUnit) (rest : JsString) (status : PorcelainStatus) : PorcelainStatus :=
  let path := readPath rest
  if x = 0x3F ∧ y = 0x3F then { status with untracked := status.untracked ++ [path] }
  else
    let staged := if x ≠ 0x20 ∧ x ≠ 0x3F then status.staged ++ [path] else status.staged
    let unstaged := if y ≠ 0x20 ∧ y ≠ 0x3F then status.unstaged ++ [path] else status.unstaged
    { status with staged, unstaged }

/-- A line shorter than three characters is left out. -/
def readLine (status : PorcelainStatus) (line : JsString) : PorcelainStatus :=
  if units "## " <+: line then
    let tracking := parseBranchTracking line
    { status with
      branch := parseBranchLine line
      upstream := tracking.upstream, ahead := tracking.ahead, behind := tracking.behind }
  else
    match line with
    | x :: y :: _ :: rest => readEntry x y rest status
    | _ => status

def noStatus : PorcelainStatus where
  staged := []
  unstaged := []
  untracked := []
  clean := true
  branch := []
  upstream := none
  ahead := none
  behind := none

/-- Parse `git status --porcelain=v1 -b --untracked-files=all` output into a GitStatus. -/
def parsePorcelain (stdout : JsString) : PorcelainStatus :=
  let status := (stdout.splitOn newline).foldl readLine noStatus
  { status with
    clean := status.staged.isEmpty && status.unstaged.isEmpty && status.untracked.isEmpty }

/-! ## What the repository has -/

def Header.branch : Header → JsString
  | .detached => units "HEAD"
  | .onBranch _ name _ => name.text

def Header.tracking : Header → Tracking
  | .detached => .absent
  | .onBranch _ _ none => .absent
  | .onBranch _ _ (some (upstream, track)) => ⟨some upstream.text, track.aheadCount, track.behindCount⟩

/-- The status the output is about, under the real names. -/
def statusOf (header : Header) (entries : List Entry) : PorcelainStatus where
  staged := (entries.filter Entry.isStaged).map fun entry => realName entry.path
  unstaged := (entries.filter Entry.isUnstaged).map fun entry => realName entry.path
  untracked := (entries.filter Entry.isUntracked).map fun entry => realName entry.path
  clean := entries.isEmpty
  branch := header.branch
  upstream := header.tracking.upstream
  ahead := header.tracking.ahead
  behind := header.tracking.behind

end QuokyPlatform.CodeWork
