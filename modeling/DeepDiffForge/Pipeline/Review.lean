import DeepDiffForge.Core.Snapshot
import DeepDiffForge.Patch.Capture
import DeepDiffForge.Syntax.Structural
import DeepDiffForge.Lib.Markers
import DeepDiffForge.Lib.Decimal

/-! The shared review service: a captured patch, the sources it says it changes, and what the
syntax of the verified ones adds. -/

namespace DeepDiffForge.Syntax
open Text DeepDiffForge.Core

def Language.name : Language → Str
  | .rust => "rust".toList
  | .unsupported => "unsupported".toList

/-- A path's language by its extension; a path that is all extension has none. -/
def detectLanguage (path : Str) : Language :=
  let ext := (path.splitOn '.').getLastD []
  if ext ≠ path ∧ ext = "rs".toList then .rust else .unsupported

def syntaxByteBudget : Nat := 2 * 1024 * 1024

def tokenizeChecked (grammar : Str → Except FallbackReason (List Token)) (language : Language)
    (source : Str) : Except FallbackReason (List Token) :=
  if language ≠ .rust then .error .unsupportedLanguage
  else if syntaxByteBudget < (Utf8.encode source).length then .error .byteBudgetExceeded
  else grammar source

def structuralDiff (grammar : Str → Except FallbackReason (List Token)) (language : Language)
    (old new : Str) : StructuralDiff :=
  match tokenizeChecked grammar language old, tokenizeChecked grammar language new with
  | .ok old, .ok new => diffTokens language old new
  | .error reason, _ => ⟨language, [], 0, 0, 0, 0, .unavailable reason⟩
  | _, .error reason => ⟨language, [], 0, 0, 0, 0, .unavailable reason⟩

def StructuralDiff.unavailable (diff : StructuralDiff) : Option FallbackReason :=
  match diff.state with
  | .unavailable reason => some reason
  | _ => none

def StructuralDiff.degraded (diff : StructuralDiff) : Bool :=
  match diff.state with
  | .degraded | .unavailable _ => true
  | _ => false

end DeepDiffForge.Syntax

namespace DeepDiffForge.Pipeline
open Text Markers DeepDiffForge.Core DeepDiffForge.Patch DeepDiffForge.Syntax

/-- The sources of one changed path; an absent one is not an empty one. Texts fit in memory. -/
structure SourcePair where
  path : Str
  old : Option Str
  new : Option Str
  pathSized : (Utf8.encode path).length < 2 ^ 64
  oldSized : ∀ text ∈ old, (Utf8.encode text).length < 2 ^ 64
  newSized : ∀ text ∈ new, (Utf8.encode text).length < 2 ^ 64

inductive Coverage where
  | analyzed | partialLcs | missingSource | unsupportedChange
  | unavailable (reason : FallbackReason)
  deriving DecidableEq, Repr

structure FileAnalysis where
  path : Str
  coverage : Coverage
  structural : Option StructuralDiff
  deriving DecidableEq

structure ReviewBundle where
  patch : CapturedPatch
  id : Str
  baseId : Str
  candidateId : Str
  files : List ReviewFile
  analyses : List FileAnalysis

inductive ReviewError where
  | patch (error : PatchParseError)
  | invalidSources (reason : Str)
  deriving DecidableEq

def SourcePair.changed (pair : SourcePair) (old : Bool) : ChangedSource where
  path := pair.path
  bytes := (if old then pair.old else pair.new).map Utf8.encode
  sized := by
    refine ⟨pair.pathSized, fun held encoded => ?_⟩
    cases old with
    | true =>
      obtain ⟨text, there, rfl⟩ := Option.map_eq_some_iff.1 encoded
      exact pair.oldSized text there
    | false =>
      obtain ⟨text, there, rfl⟩ := Option.map_eq_some_iff.1 encoded
      exact pair.newSized text there

def snapshotId (pairs : List SourcePair) (old : Bool) : Str :=
  changedSourceSnapshotId (pairs.map (·.changed old))

/-- The lines of a text, each with its line feed (`split_inclusive`). -/
def sourceLines (text : Str) : List Str := pieces '\n' text

def PatchLine.body (line : PatchLine) : Str := line.text ++ if line.noNewline then [] else ['\n']

/-- Where the replay of a patch stands: the old lines passed, and the output with its lines. -/
structure Replay where
  cursor : Nat
  output : Str
  outputLines : Nat

def Replay.line (oldLines : List Str) (replay : Replay) (line : PatchLine) : Option Replay :=
  let body := PatchLine.body line
  if line.kind ≠ .added ∧ oldLines[replay.cursor]? ≠ some body then none
  else some
    { cursor := if line.kind = .added then replay.cursor else replay.cursor + 1
      output := if line.kind = .removed then replay.output else replay.output ++ body
      outputLines := if line.kind = .removed then replay.outputLines else replay.outputLines + 1 }

def Replay.hunk (oldLines : List Str) (replay : Replay) (hunk : PatchHunk) : Option Replay :=
  let oldCount := hunk.lines.countP (·.kind ≠ .added)
  let newCount := hunk.lines.countP (·.kind ≠ .removed)
  -- An insertion after line N has the start N and no old lines.
  let start := if oldCount = 0 then hunk.oldStart.getD 0 else hunk.oldStart.getD 0 - 1
  if start < replay.cursor ∨ oldLines.length < start then none
  else
    let outputLines := replay.outputLines + (start - replay.cursor)
    let expectedStart := if newCount = 0 then outputLines else outputLines + 1
    if hunk.newStart ≠ some expectedStart then none
    else hunk.lines.foldlM (Replay.line oldLines)
      { cursor := start
        output := replay.output ++ ((oldLines.take start).drop replay.cursor).flatten
        outputLines }

def patchMatches (file : ReviewFile) (old new : Str) : Bool :=
  let oldLines := sourceLines old
  match file.patchTwin.hunks.foldlM (Replay.hunk oldLines) ⟨0, [], 0⟩ with
  | none => false
  | some replay => replay.output ++ (oldLines.drop replay.cursor).flatten = new

def lineRangesFrom : Nat → Nat → List Str → List TextRange
  | _, _, [] => []
  | offset, index, line :: rest =>
      let stop := offset + (Utf8.encode line).length
      let number := min (index + 1) u32Max
      ⟨offset, stop, number, number⟩ :: lineRangesFrom stop (index + 1) rest

def lineRanges (source : Str) : List TextRange := lineRangesFrom 0 0 (sourceLines source)

def heldBy (side : PatchLine → Option Nat) (hunks : List PatchHunk) (n : Nat) : Option HunkId :=
  ((hunks.flatMap fun hunk => hunk.lines.filterMap fun line =>
    (side line).map fun number => (number, hunk.id)).reverse.find? (·.1 = n)).map (·.2)

def inHunk (text : Str) (held : Nat → Option HunkId) (start : Option Nat) : Option HunkId :=
  start.bind fun first =>
    let last := saturatingAdd first (min (text.count '\n') u32Max)
    (List.range' first (last + 1 - first)).findSome? held

def spanKind : ChangeKind → Option SemanticChangeKind
  | .added => some .addedNode
  | .removed => some .removedNode
  | .moved => some .movedNode
  | .unchanged => none

/-- The spans so far, the next span's number, and whether a change had no hunk. -/
structure Spans where
  spans : List SemanticSpan
  next : Nat
  unattributed : Bool

def Spans.change (hunks : List PatchHunk) (oldRanges newRanges : List TextRange) (state : Spans)
    (change : TokenChange) : Spans :=
  match spanKind change.kind with
  | none => state
  | some kind =>
      match (inHunk change.text (heldBy (·.oldLine) hunks) change.oldLine).or
          (inHunk change.text (heldBy (·.newLine) hunks) change.newLine) with
      | none => { state with unattributed := true }
      | some hunkId =>
          { state with
            spans := state.spans ++
              [{ id := state.next
                 hunkId
                 kind
                 oldRange := change.oldLine.bind fun line => oldRanges[line - 1]?
                 newRange := change.newLine.bind fun line => newRanges[line - 1]? }]
            next := state.next + 1 }

/-- A structural engine: what it says of a language's two sources. -/
abbrev Engine : Type := Language → Str → Str → StructuralDiff

def enrichFile (engine : Engine) (file : ReviewFile) (pair : SourcePair) (spanId : Nat) :
    ReviewFile × FileAnalysis × Nat :=
  let old := pair.old.getD []
  let new := pair.new.getD []
  let diff := engine (detectLanguage file.path) old new
  let coverage := match diff.unavailable with
    | some reason => .unavailable reason
    | none => if diff.degraded then .partialLcs else .analyzed
  let found := diff.changes.foldl
    (Spans.change file.patchTwin.hunks (lineRanges old) (lineRanges new)) ⟨[], spanId, false⟩
  let coverage := if found.unattributed ∧ coverage = .analyzed then .partialLcs else coverage
  let twin : SemanticTwin :=
    { language := diff.language.name
      parseStatus := diff.unavailable.elim .parsed .fallback
      spans := found.spans }
  let planner := { file.planner with
    fallback := diff.unavailable.or file.planner.fallback
    strategy := if diff.unavailable.isNone then .syntaxTree else file.planner.strategy }
  ({ file with semanticTwin := some twin, planner },
    { path := file.path, coverage, structural := some diff }, found.next)

def invalidSources {α : Type} (reason : String) : Except ReviewError α :=
  .error (.invalidSources reason.toList)

def addSource (debugText : Str → Str) (paths : List Str) (held : List SourcePair × Nat)
    (pair : SourcePair) : Except ReviewError (List SourcePair × Nat) :=
  let bytes := saturatingAdd64 (saturatingAdd64 held.2 (pair.old.elim 0 fun text =>
    (Utf8.encode text).length)) (pair.new.elim 0 fun text => (Utf8.encode text).length)
  if defaultByteBudget < bytes then invalidSources "aggregate source byte budget exceeded"
  else if held.1.any (·.path = pair.path) || !paths.any (· = pair.path) then
    .error (.invalidSources ("duplicate or extra path ".toList ++ debugText pair.path))
  else .ok (held.1 ++ [pair], bytes)

def verifiable (file : ReviewFile) : Bool :=
  (file.status = .added || file.status = .deleted || file.status = .modified) &&
    !file.patchTwin.hunks.isEmpty &&
    !file.patchTwin.metadata.any (startsWith "copy from ".toList)

def absenceValid (file : ReviewFile) (pair : SourcePair) : Bool :=
  match file.status with
  | .added => pair.old.isNone && pair.new.isSome
  | .deleted => pair.old.isSome && pair.new.isNone
  | _ => pair.old.isSome && pair.new.isSome

structure Analyzed where
  files : List ReviewFile
  analyses : List FileAnalysis
  spanId : Nat

def Analyzed.skip (state : Analyzed) (file : ReviewFile) (coverage : Coverage) : Analyzed where
  files := state.files ++ [file]
  analyses := state.analyses ++ [{ path := file.path, coverage, structural := none }]
  spanId := state.spanId

def Analyzed.file (engine : Engine) (debugText : Str → Str) (pairs : List SourcePair)
    (state : Analyzed) (file : ReviewFile) : Except ReviewError Analyzed :=
  match pairs.find? (·.path = file.path) with
  | none => .ok (state.skip file .missingSource)
  | some pair =>
      if !verifiable file then .ok (state.skip file .unsupportedChange)
      else if !absenceValid file pair ||
          !patchMatches file (pair.old.getD []) (pair.new.getD []) then
        .error (.invalidSources
          ("patch does not transform supplied base into candidate for ".toList ++
            debugText file.path))
      else
        let (enriched, analysis, spanId) := enrichFile engine file pair state.spanId
        .ok ⟨state.files ++ [enriched], state.analyses ++ [analysis], spanId⟩

def analyzeReviewWith (engine : Engine) (debugText : Str → Str) (raw : Str)
    (sources : List SourcePair) : Except ReviewError ReviewBundle := do
  let patch ← (capture raw).mapError .patch
  let paths := patch.files.map (·.path)
  if ¬paths.Nodup then
    invalidSources "repeated file sections require a sequential patch adapter"
  else
    let (pairs, _) ← sources.foldlM (addSource debugText paths) ([], 0)
    let baseId := snapshotId pairs true
    let candidateId := snapshotId pairs false
    let analyzed ← patch.files.foldlM (Analyzed.file engine debugText pairs) ⟨[], [], 0⟩
    return {
      patch
      id := sha256Hex (Utf8.encode ("ddf.review.v1\x00".toList ++ patch.digest ++ '\x00' ::
        baseId ++ '\x00' :: candidateId))
      baseId
      candidateId
      files := analyzed.files
      analyses := analyzed.analyses }

def analyzeReview (grammar : Str → Except FallbackReason (List Token)) (debugText : Str → Str)
    (raw : Str) (sources : List SourcePair) : Except ReviewError ReviewBundle :=
  analyzeReviewWith (structuralDiff grammar) debugText raw sources

end DeepDiffForge.Pipeline
