import Mathlib.Algebra.Order.Floor.Ring
import Mathlib.Data.Rat.Floor
import LlmGateway.Lib.Substring
import LlmGateway.Sessions.Kit

/-!
# Prices and token estimates

`pricing.ts` and `token-estimator.ts`, as the router uses them, with exact numbers.

* `ModelCost`, `composeCost` — rates with their provenance, and the cost that they make of token counts or of an estimate.

`toLowerCase` is the engine's `String.prototype.toLowerCase`.
-/

namespace LlmGateway.Router

open LlmGateway.Lib Utf16 Substring Sessions.Kit

/-! ## Costs -/

inductive AccountingMode where
  | inclusive
  | disjoint
deriving DecidableEq

inductive PriceSource where
  | table
  | apiCatalog
  | unknown
deriving DecidableEq

inductive CostBasis where
  | providerReported
  | derivedFromTokens
  | preFlightEstimate
deriving DecidableEq

inductive Confidence where
  | high
  | medium
  | low
deriving DecidableEq

/-- An unresolved model has the rates of `UNKNOWN_MODEL_COST`. -/
structure ModelCost where
  inputUsdPerMTok : ℚ
  outputUsdPerMTok : ℚ
  cacheReadMultiplier : ℚ
  cacheWriteUsdPerMTok : ℚ
  accountingMode : AccountingMode
  family : Text
  source : PriceSource
  asOf : Text
  zeroed : source = .unknown → inputUsdPerMTok = 0 ∧ outputUsdPerMTok = 0 ∧ cacheWriteUsdPerMTok = 0

structure TokenCounts where
  inputTokens : ℚ
  outputTokens : ℚ
  cacheReadTokens : Option ℚ
  cacheCreationTokens : Option ℚ
  reasoningTokens : Option ℚ
  reportedCostUsd : Option ℚ

structure TokenEstimate where
  estInputTokens : ℚ
  estOutputTokens : ℚ
  estCacheReadTokens : Option ℚ
  estCacheWriteTokens : Option ℚ

structure CostResult where
  costUsd : ℚ
  cost_basis : CostBasis
  confidence : Confidence

def composeTotalUsd (inputTokens outputTokens cacheReadTokens cacheWriteTokens reasoningTokens : ℚ) (modelCost : ModelCost)
    (inputIsWholePrompt : Bool) : ℚ :=
  let M : ℚ := 1000000
  let outputCost := (outputTokens + reasoningTokens) * modelCost.outputUsdPerMTok / M
  let cacheWriteCost := cacheWriteTokens * modelCost.cacheWriteUsdPerMTok / M
  if modelCost.accountingMode = .disjoint then
    let freshTokens := if inputIsWholePrompt then inputTokens - cacheReadTokens - cacheWriteTokens else inputTokens
    let freshCost := freshTokens * modelCost.inputUsdPerMTok / M
    let cacheReadCost := cacheReadTokens * modelCost.inputUsdPerMTok * modelCost.cacheReadMultiplier / M
    freshCost + cacheWriteCost + cacheReadCost + outputCost
  else
    let baseCost := inputTokens * modelCost.inputUsdPerMTok / M
    let cacheReadDiscount := cacheReadTokens * modelCost.inputUsdPerMTok * (1 - modelCost.cacheReadMultiplier) / M
    baseCost + cacheWriteCost + outputCost - cacheReadDiscount

/-- The cost that was reported, else that of the reported counts at a known rate, else that of the estimate. -/
def composeCost (counts : Option TokenCounts) (estimate : TokenEstimate) (modelCost : ModelCost) : CostResult :=
  match counts.bind (·.reportedCostUsd), counts.filter fun _ => modelCost.source ≠ .unknown with
  | some costUsd, _ => ⟨costUsd, .providerReported, .high⟩
  | none, some counts =>
    ⟨composeTotalUsd counts.inputTokens counts.outputTokens (counts.cacheReadTokens.getD 0)
      (counts.cacheCreationTokens.getD 0) (counts.reasoningTokens.getD 0) modelCost false, .derivedFromTokens, .high⟩
  | none, none =>
    ⟨composeTotalUsd estimate.estInputTokens estimate.estOutputTokens (estimate.estCacheReadTokens.getD 0)
      (estimate.estCacheWriteTokens.getD 0) 0 modelCost true, .preFlightEstimate, .low⟩

theorem composeTotalUsd_unknown {modelCost : ModelCost} (h : modelCost.source = .unknown) (i o r w t : ℚ) (b : Bool) :
    composeTotalUsd i o r w t modelCost b = 0 := by
  obtain ⟨hin, hout, hwrite⟩ := modelCost.zeroed h
  unfold composeTotalUsd
  simp only [hin, hout, hwrite]
  split <;> simp

/-- An estimate for an unresolved model costs nothing. -/
theorem composeCost_unknown {modelCost : ModelCost} (h : modelCost.source = .unknown) (estimate : TokenEstimate) :
    (composeCost none estimate modelCost).costUsd = 0 :=
  composeTotalUsd_unknown h _ _ _ _ _ _

/-! ## Names of models -/

/-- `s.includes(pat)` -/
def includes (s pat : Text) : Bool := (search pat s).isSome

def modelIdToFamily (toLowerCase : Text → Text) (model : Text) : Text :=
  let lower := toLowerCase model
  let has (s : String) := includes lower (text s)
  let geminiSpecialty := has "lite" || has "image" || has "audio" || has "tts"
  if has "sonnet" then text "claude-sonnet"
  else if has "opus" then text "claude-opus"
  else if has "haiku" then text "claude-haiku"
  else if has "gpt-5" || has "o3" then text "openai-gpt5"
  else if !geminiSpecialty && has "2.5-flash" then text "gemini-2.5-flash"
  else if !geminiSpecialty && has "2.5-pro" then text "gemini-2.5-pro"
  else if !geminiSpecialty && has "gemini-3" && has "pro" then text "gemini-3-pro"
  else if has "grok-build" || has "grok-code" then text "grok-build"
  else if has "grok-4.5" then text "grok-4.5"
  else if has "grok-4" || has "grok-3" || has "grok-latest" then text "grok-4"
  else if has "devstral-small" then text "mistral-devstral"
  else if has "mistral-medium-3.5" then text "mistral-medium"
  else text "unknown"

/-! ## Estimates -/

inductive ContentType where
  | prose
  | code
  | cjk
deriving DecidableEq

/-- `CJK_RE` -/
def isCjk (u : UInt16) : Bool :=
  (0x3000 ≤ u && u ≤ 0x303f) || (0x3040 ≤ u && u ≤ 0x309f) || (0x30a0 ≤ u && u ≤ 0x30ff) || (0x3400 ≤ u && u ≤ 0x4dbf) ||
    (0x4e00 ≤ u && u ≤ 0x9fff) || (0xf900 ≤ u && u ≤ 0xfaff) || (0xff00 ≤ u && u ≤ 0xffef) || (0xac00 ≤ u && u ≤ 0xd7af)

/-- `CODE_SYMBOL_RE` -/
def isCodeSymbol (u : UInt16) : Bool := (text "\x7b\x7d[]()<>;=+-*/\\|&%$#@\x60~").contains u

/-- `\w` -/
def isWordUnit (u : UInt16) : Bool :=
  (48 ≤ u && u ≤ 57) || (65 ≤ u && u ≤ 90) || (97 ≤ u && u ≤ 122) || u == 95

/-- `CODE_KEYWORD_RE`: a keyword that no word unit stands before or behind. -/
def hasCodeKeyword (s : Text) : Bool :=
  (s.splitOnP fun u => !isWordUnit u).any fun word =>
    ["function", "const", "let", "var", "return", "import", "export", "class", "def", "public", "private", "static", "void",
      "for", "while", "switch", "case"].any fun keyword => word == text keyword

/-- `s.trim()` -/
def trim (s : Text) : Text := ((s.dropWhile Sessions.Kit.isSpace).reverse.dropWhile Sessions.Kit.isSpace).reverse

def classifyContent (s : Text) : ContentType :=
  let nonSpace : ℚ := s.countP fun u => !Sessions.Kit.isSpace u
  let trimmed := trim s
  let looksJson := trimmed.head?.any (fun u => u == 91 || u == 123) && trimmed.any (fun u => u == 125 || u == 93) &&
    trimmed.any fun u => u == 58 || u == 44
  let symbolRatio := (trimmed.countP isCodeSymbol : ℚ) / nonSpace
  if s = [] then .prose
  else if nonSpace = 0 then .prose
  else if 2 / 10 ≤ (s.countP isCjk : ℚ) / nonSpace then .cjk
  else if looksJson || 8 / 100 ≤ symbolRatio || (hasCodeKeyword trimmed && 3 / 100 ≤ symbolRatio) then .code
  else .prose

/-- `DIVISOR_BY_TYPE` -/
def ContentType.divisor : ContentType → ℚ
  | .prose => 4
  | .code => 3
  | .cjk => 15 / 10

def FAMILY_MULTIPLIERS : List (String × ℚ) :=
  [("openai", 1), ("o200k", 1), ("cl100k", 102 / 100), ("claude", 108 / 100), ("gemini", 98 / 100),
    ("sentencepiece", 98 / 100), ("grok", 1), ("mistral", 105 / 100)]

def familyMultiplier (toLowerCase : Text → Text) (family : Text) : ℚ :=
  if family = [] then 1
  else
    ((FAMILY_MULTIPLIERS.find? fun e => includes (toLowerCase family) (text e.1)).map Prod.snd).getD 1

def estimateInputTokens (toLowerCase : Text → Text) (s family : Text) (calibrationK : ℚ) : ℚ :=
  if s = [] then 0
  else ⌈(s.length : ℚ) / (classifyContent s).divisor * familyMultiplier toLowerCase family * calibrationK⌉

example : modelIdToFamily id (text "grok-4.5-fast") = text "grok-4.5" := by decide +kernel

example : estimateInputTokens id (text "let x = f(y);") (text "claude-sonnet") 1 = 5 := by decide +kernel

end LlmGateway.Router
