import DeepDiffForge.Lib.Text

/-! What the learning loop records of one planner decision. -/

namespace DeepDiffForge.Learning
open Text

inductive Strategy where
  | patch | syntaxTree | hybrid
  deriving DecidableEq, Repr

def Strategy.label : Strategy → Str
  | .patch => "patch".toList
  | .syntaxTree => "syntax".toList
  | .hybrid => "hybrid".toList

def Strategy.all : List Strategy := [.patch, .syntaxTree, .hybrid]

theorem Strategy.mem_all (strategy : Strategy) : strategy ∈ Strategy.all := by
  cases strategy <;> decide

inductive FallbackReason where
  | byteBudget | nodeBudget | parseErrors | timeBudget | unsupported
  deriving DecidableEq, Repr

def FallbackReason.label : FallbackReason → Str
  | .byteBudget => "byte_budget".toList
  | .nodeBudget => "node_budget".toList
  | .parseErrors => "parse_errors".toList
  | .timeBudget => "time_budget".toList
  | .unsupported => "unsupported".toList

inductive CacheState where
  | hit | miss | cold | bypass
  deriving DecidableEq, Repr

def CacheState.label : CacheState → Str
  | .hit => "hit".toList
  | .miss => "miss".toList
  | .cold => "cold".toList
  | .bypass => "bypass".toList

def CacheState.isHit (state : CacheState) : Bool := state = .hit

inductive ReviewOutcome where
  | accepted | rejected | skipped | revisited | pending
  deriving DecidableEq, Repr

def ReviewOutcome.label : ReviewOutcome → Str
  | .accepted => "accepted".toList
  | .rejected => "rejected".toList
  | .skipped => "skipped".toList
  | .revisited => "revisited".toList
  | .pending => "pending".toList

def ReviewOutcome.isDecided : ReviewOutcome → Bool
  | .accepted | .rejected => true
  | _ => false

def redactedChar (c : Char) : Bool := ('0' ≤ c && c ≤ '9') || ('a' ≤ c && c ≤ 'f')

/-- A redacted file identity: 16 to 64 lowercase hexadecimal characters. -/
structure RedactedId where
  text : Str
  valid : 16 ≤ text.length ∧ text.length ≤ 64 ∧ text.all redactedChar = true
  deriving DecidableEq

structure StrategyReceipt where
  fileHash : RedactedId
  language : Str
  parserVersion : Str
  strategy : Strategy
  fallback : Option FallbackReason
  elapsedMs : Nat
  bytes : Nat
  nodes : Nat
  cache : CacheState
  outcome : ReviewOutcome
  revisited : Bool
  deriving DecidableEq

def StrategyReceipt.usedFallback (receipt : StrategyReceipt) : Bool := receipt.fallback.isSome

def StrategyReceipt.isHelpful (receipt : StrategyReceipt) : Bool :=
  receipt.outcome = .accepted && !receipt.revisited

end DeepDiffForge.Learning
