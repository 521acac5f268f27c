import DeepDiffForge.Lib.Text

/-! The review model of the core crate: a patch as files, hunks and lines. Line numbers are
`u32` in the source, so additions to them saturate; counts are bounded by the parser's line
budget and never reach a bound of their type. -/

namespace DeepDiffForge.Core
open Text

inductive FileStatus where
  | added | modified | deleted | renamed | copied | typeChanged | modeChanged | binaryChanged
  | unknown
  deriving DecidableEq, Repr

inductive PatchLineKind where
  | context | added | removed
  deriving DecidableEq, Repr

structure PatchLine where
  noNewline : Bool
  lossy : Bool
  kind : PatchLineKind
  oldLine : Option Nat
  newLine : Option Nat
  text : Str
  deriving DecidableEq, Repr

abbrev HunkId := Nat

structure PatchHunk where
  id : HunkId
  oldStart : Option Nat
  newStart : Option Nat
  sectionHeading : Option Str
  lines : List PatchLine
  deriving DecidableEq, Repr

structure PatchTwin where
  binaryBody : List Str
  hunks : List PatchHunk
  metadata : List Str
  lossyLines : Nat
  deriving DecidableEq, Repr

inductive FallbackReason where
  | unsupportedLanguage | parseErrorsExceeded | byteBudgetExceeded | nodeBudgetExceeded
  | timeBudgetExceeded | binaryInput | invalidPatch
  deriving DecidableEq, Repr

inductive ParseStatus where
  | parsed
  | parsedWithErrors (errors : Nat)
  | fallback (reason : FallbackReason)
  deriving DecidableEq, Repr

inductive SemanticChangeKind where
  | addedNode | removedNode | modifiedNode | movedNode | reformattedOnly | renamedSymbol
  deriving DecidableEq, Repr

structure TextRange where
  startByte : Nat
  endByte : Nat
  startLine : Nat
  endLine : Nat
  deriving DecidableEq, Repr

structure SemanticSpan where
  id : Nat
  hunkId : HunkId
  kind : SemanticChangeKind
  oldRange : Option TextRange
  newRange : Option TextRange
  deriving DecidableEq, Repr

structure SemanticTwin where
  language : Str
  parseStatus : ParseStatus
  spans : List SemanticSpan
  deriving DecidableEq, Repr

inductive DiffStrategy where
  | line | word | syntaxTree | movedBlock | binary | generatedSuppressed
  deriving DecidableEq, Repr

structure PlannerDecision where
  strategy : DiffStrategy
  fallback : Option FallbackReason
  notes : List Str
  deriving DecidableEq, Repr

structure ReviewFile where
  path : Str
  status : FileStatus
  patchTwin : PatchTwin
  semanticTwin : Option SemanticTwin
  planner : PlannerDecision
  deriving DecidableEq, Repr

def u32Max : Nat := 4294967295

def u64Max : Nat := 2 ^ 64 - 1

def usizeMax : Nat := 2 ^ 64 - 1

/-- `u32::saturating_add`. -/
def saturatingAdd (value more : Nat) : Nat := min (value + more) u32Max

/-- `u64::saturating_add`, and that of a `usize` of 64 bits. -/
def saturatingAdd64 (value more : Nat) : Nat := min (value + more) u64Max

def PatchLine.onOldSide (line : PatchLine) : Bool := line.kind ≠ .added

def PatchLine.onNewSide (line : PatchLine) : Bool := line.kind ≠ .removed

def PatchLine.count (counts : Nat × Nat) (line : PatchLine) : Nat × Nat :=
  match line.kind with
  | .context => (counts.1 + 1, counts.2 + 1)
  | .removed => (counts.1 + 1, counts.2)
  | .added => (counts.1, counts.2 + 1)

/-- Lines on the old side (context and removed) and on the new side (context and added). -/
def PatchHunk.counts (hunk : PatchHunk) : Nat × Nat := hunk.lines.foldl PatchLine.count (0, 0)

end DeepDiffForge.Core
