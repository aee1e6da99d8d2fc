import Mathlib.Algebra.Order.Ring.Rat
import Mathlib.Data.Rat.Floor
import QuokyPlatform.Chunking.CodePoints

/-! # The ranking configuration of the context builder

The configuration is validated once, when the builder is made. Its numbers are the language's; the
budgets it sets are safe integers, whatever else the numbers do. -/

namespace QuokyPlatform.ContextBuilding

set_option autoImplicit false
set_option maxHeartbeats 250000

open Chunking (JsString)

/-! ## Numbers -/

/-- The arithmetic of scores; `sign` is that of a difference, zero when it is not a number. -/
class ScoreNumber (N : Type) extends Add N, Sub N, Mul N, Div N, NatCast N, OfScientific N where
  isFinite : N → Bool
  /-- `Number.isSafeInteger(value)`, with the integer it is. -/
  safeInteger : N → Option ℤ
  /-- `a < b` -/
  less : N → N → Bool
  sign : N → ℤ
  /-- `Math.abs` -/
  abs : N → N
  /-- `Number.EPSILON` -/
  epsilon : N
  isFinite_natCast : ∀ n : ℕ, n ≤ 2 → isFinite (n : N) = true

def MAX_SAFE_INTEGER : ℤ := 2 ^ 53 - 1

instance : ScoreNumber ℚ where
  isFinite _ := true
  safeInteger value := if value.den = 1 ∧ |value.num| ≤ MAX_SAFE_INTEGER then some value.num else none
  less a b := a < b
  sign value := value.num.sign
  abs value := |value|
  epsilon := 1 / 2 ^ 52
  isFinite_natCast _ _ := rfl

/-! ## The configuration -/

/-- `ESTIMATED_CHARACTERS_PER_TOKEN` -/
def ESTIMATED_CHARACTERS_PER_TOKEN : ℕ := 4

/-- `Math.ceil(text.length / ESTIMATED_CHARACTERS_PER_TOKEN)` -/
def estimateTokenCount (text : JsString) : ℕ :=
  (text.length + (ESTIMATED_CHARACTERS_PER_TOKEN - 1)) / ESTIMATED_CHARACTERS_PER_TOKEN

/-- Compression keeps enough text for an entry to remain useful and attributable. -/
def DEFAULT_MINIMUM_COMPRESSION_CHARACTERS : ℕ := 80

structure RoleWeights (N : Type) where
  user : Option N
  assistant : Option N
  unknown : Option N
  deriving DecidableEq

structure ContextCompressionConfig (N : Type) where
  minimumCharactersPerEntry : Option N
  deriving DecidableEq

structure ContextRankingConfig (N : Type) where
  maxCharacters : Option N
  maxTokens : Option N
  roleWeights : Option (RoleWeights N)
  recencyWeight : Option N
  relevanceWeight : Option N
  compressionConfig : Option (ContextCompressionConfig N)
  deriving DecidableEq

structure ContextBuilderConfig (N : Type) extends ContextRankingConfig N where
  rankingEnabled : Option Bool
  compressionEnabled : Option Bool

structure RangeError where
  message : String
  deriving DecidableEq

inductive ScoringWeights (N : Type) where
  | additive (recencyWeight : N)
  | blended (recencyWeight relevanceWeight : N)

/-- How much a text takes of the budget, and how it is cut to what remains. -/
structure ContextBudget where
  limit : ℤ
  measure : JsString → ℕ
  truncate : JsString → ℤ → JsString

/-- `'…'` -/
def ellipsis : JsString := [0x2026]

def truncate (text : JsString) (max : ℕ) : JsString :=
  if text.length > max then text.take max ++ ellipsis else text

def truncateToBudget (text : JsString) (max : ℤ) : JsString :=
  if (text.length : ℤ) ≤ max then text
  else if max ≤ 0 then []
  else if max = 1 then ellipsis
  else text.take (max - 1).toNat ++ ellipsis

variable {N : Type} [ScoreNumber N]

open ScoreNumber

def nonNegativeInteger (value : N) (name : String) : Except RangeError ℤ :=
  match safeInteger value with
  | some n => if n < 0 then .error ⟨name ++ " must be a non-negative safe integer"⟩ else .ok n
  | none => .error ⟨name ++ " must be a non-negative safe integer"⟩

/-- The budget in characters. -/
def characterBudget (limit : ℤ) : ContextBudget where
  limit := limit
  measure := List.length
  truncate := truncateToBudget

/-- The budget in estimated tokens. -/
def tokenBudget (limit : ℤ) : ContextBudget where
  limit := limit
  measure := estimateTokenCount
  truncate content remaining := truncateToBudget content (remaining * ESTIMATED_CHARACTERS_PER_TOKEN)

def resolveBudget (config : ContextRankingConfig N) : Except RangeError (Option ContextBudget) :=
  match config.maxCharacters, config.maxTokens with
  | some _, some _ => .error ⟨"configure either maxCharacters or maxTokens, not both"⟩
  | some characters, none => do
    let limit ← nonNegativeInteger characters "maxCharacters"
    return some (characterBudget limit)
  | none, some tokens => do
    let limit ← nonNegativeInteger tokens "maxTokens"
    return some (tokenBudget limit)
  | none, none => .ok none

def resolveMinimumCompressionCharacters (config : ContextRankingConfig N) :
    Except RangeError (Option ℤ) :=
  match config.compressionConfig with
  | none => .ok none
  | some compression =>
    if config.maxTokens.isNone then .error ⟨"compressionConfig requires maxTokens"⟩
    else do
      let minimum ← nonNegativeInteger
        (compression.minimumCharactersPerEntry.getD
          ((DEFAULT_MINIMUM_COMPRESSION_CHARACTERS : ℕ) : N))
        "compressionConfig.minimumCharactersPerEntry"
      return some minimum

/-- Whether a weight is below zero, or above one, or not a finite number. -/
def outsideUnit (weight : N) : Bool :=
  !isFinite weight || less weight ((0 : ℕ) : N) || less ((1 : ℕ) : N) weight

def resolveScoringWeights (config : ContextRankingConfig N) :
    Except RangeError (ScoringWeights N) :=
  match config.relevanceWeight with
  | none =>
    let recencyWeight := config.recencyWeight.getD ((1 : ℕ) : N)
    if !isFinite recencyWeight || less recencyWeight ((0 : ℕ) : N) then
      .error ⟨"recencyWeight must be a finite non-negative number"⟩
    else .ok (.additive recencyWeight)
  | some relevanceWeight =>
    let recencyWeight := config.recencyWeight.getD (((1 : ℕ) : N) - relevanceWeight)
    if outsideUnit recencyWeight || outsideUnit relevanceWeight then
      .error ⟨"recencyWeight and relevanceWeight must be finite numbers in [0, 1]"⟩
    else if less (epsilon * ((4 : ℕ) : N))
        (ScoreNumber.abs (recencyWeight + relevanceWeight - ((1 : ℕ) : N))) then
      .error ⟨"recencyWeight and relevanceWeight must sum to 1"⟩
    else .ok (.blended recencyWeight relevanceWeight)

/-- The weights that were given must be finite. -/
def checkRoleWeights : List (String × Option N) → Except RangeError Unit
  | [] => .ok ()
  | (role, some weight) :: rest =>
    if isFinite weight then checkRoleWeights rest
    else .error ⟨"roleWeights." ++ role ++ " must be finite"⟩
  | (_, none) :: rest => checkRoleWeights rest

/-- `Object.entries(roleWeights)` -/
def RoleWeights.entries (weights : RoleWeights N) : List (String × Option N) :=
  [("user", weights.user), ("assistant", weights.assistant), ("unknown", weights.unknown)]

/-- Bad runtime configuration fails before a turn. -/
def checkRanking (ranking : ContextRankingConfig N) : Except RangeError Unit := do
  let _ ← resolveBudget ranking
  let _ ← resolveScoringWeights ranking
  let _ ← resolveMinimumCompressionCharacters ranking
  checkRoleWeights ((ranking.roleWeights.map RoleWeights.entries).getD [])

/-- `undefined` when ranking is off: then the builder keeps the flat retrieval. -/
def validateConfig (config : ContextBuilderConfig N) :
    Except RangeError (Option (ContextRankingConfig N)) :=
  let hasRankingOptions := config.maxCharacters.isSome || config.maxTokens.isSome ||
    config.roleWeights.isSome || config.recencyWeight.isSome || config.relevanceWeight.isSome
  let hasCompressionConfig := config.compressionConfig.isSome
  let rankingActive := config.rankingEnabled.getD (hasRankingOptions || hasCompressionConfig)
  if !rankingActive then
    if hasRankingOptions || hasCompressionConfig || config.compressionEnabled = some true then
      .error ⟨"ranking options require rankingEnabled"⟩
    else .ok none
  else if config.compressionEnabled = some false && hasCompressionConfig then
    .error ⟨"compressionConfig requires compressionEnabled"⟩
  else do
    let ranking : ContextRankingConfig N :=
      { config.toContextRankingConfig with
        compressionConfig :=
          if config.compressionEnabled.getD hasCompressionConfig then
            some (config.compressionConfig.getD ⟨none⟩)
          else none }
    checkRanking ranking
    return some ranking

end QuokyPlatform.ContextBuilding
