import DeepDiffForge.Daemon.Answers
import DeepDiffForge.Daemon.Metrics
import DeepDiffForge.Graph.Rank
import DeepDiffForge.Lib.JsonMaps
import DeepDiffForge.Patch.Capture
import DeepDiffForge.Patch.ReviewJson

/-! The documents the daemon makes of a request's patch: the review and its ranking, each with the
seal of the bytes that were read. -/

namespace DeepDiffForge.Patch
open Text DeepDiffForge.Core

structure InputGuards where
  files : Bool
  hunks : Bool

def hasReviewableHunks (files : List ReviewFile) : Bool :=
  files.any fun file => file.patchTwin.hunks.any fun hunk =>
    hunk.lines.any fun line => line.kind = .added || line.kind = .removed

def InputGuards.refusal (guards : InputGuards) (files : List ReviewFile) : Option Str :=
  if guards.files && files.isEmpty then some "0 files in input (--require-files)".toList
  else if guards.hunks && !hasReviewableHunks files then
    some "0 hunks in input (--require-hunks)".toList
  else none

inductive SealError where
  | parse (error : PatchParseError)
  | refused (reason : Str)

def sealReview (input : List UInt8) (guards : InputGuards) (version : Str) :
    Except SealError (List ReviewFile × InputSeal) :=
  match parseDecoded (decodePatch input) {} with
  | .error error => .error (.parse error)
  | .ok files =>
      match guards.refusal files with
      | some reason => .error (.refused reason)
      | none => .ok (files, .of input version)

/-- `io` for a header that is not UTF-8, else `invalid_input`. -/
def PatchParseError.exitCode : PatchParseError → Int
  | .lossyHeader _ => 3
  | _ => 4

end DeepDiffForge.Patch

namespace DeepDiffForge.Daemon
open Text Json DeepDiffForge.Core DeepDiffForge.Patch DeepDiffForge.Graph SessionTable

/-- What a build fixes: its version, the rules that find evidence, and the text of a parse error. -/
structure Release where
  version : Str
  /-- A package's version is written in letters, digits, dots, hyphens and plus signs. -/
  plainVersion : ∀ c ∈ version, plain c = true
  scan : Scan
  describe : PatchParseError → Str

def strParam (params : Value) (key : String) : Except RpcError Str :=
  match (params.get key.toList).bind Value.asText with
  | some text => .ok text
  | none => .error (newRpcError invalidParams
      ("missing string param '".toList ++ key.toList ++ "'".toList))

def boolParam (params : Value) (key : String) : Except RpcError Bool :=
  match params.get key.toList with
  | none => .ok false
  | some (.bool value) => .ok value
  | some _ => .error (newRpcError invalidParams
      ("param '".toList ++ key.toList ++ "' must be a boolean".toList))

def sealed (release : Release) (params : Value) :
    Except RpcError (List ReviewFile × InputSeal) := do
  let patch ← strParam params "patch"
  let files ← boolParam params "require_files"
  let hunks ← boolParam params "require_hunks"
  match sealReview (Utf8.encode patch) { files, hunks } release.version with
  | .ok reviewed => .ok reviewed
  | .error (.parse error) => .error (newRpcError error.exitCode (release.describe error))
  | .error (.refused reason) =>
      .error (newRpcError inputContractRefused ("refused: ".toList ++ reason))

def optInteger (value : Option Nat) : Value := value.elim .null fun n => .integer n

def strings (items : List Str) : Value := .array (items.map .string)

def sealEntries (inputSeal : InputSeal) : List (Str × Value) :=
  [entry "input_sha256" (.string inputSeal.inputSha256),
    entry "tool" (record
      [entry "name" (.string toolName), entry "version" (.string inputSeal.toolVersion)])]

section Review
open ReviewJson

def lineEntries (line : PatchLine) : List (Str × Value) :=
  [entry "kind" (.string (lineKindStr line.kind)),
      entry "old_line" (optInteger line.oldLine), entry "new_line" (optInteger line.newLine),
      entry "text" (.string line.text)] ++
    (if line.noNewline then [entry "no_newline" (.bool true)] else []) ++
    (if line.lossy then [entry "lossy" (.bool true)] else []) ++
    (if textHazards line.text ≠ [] then
      [entry "hazards" (Daemon.strings (textHazards line.text))] else [])

def lineValue (line : PatchLine) : Value := record (lineEntries line)

def hunkEntries (path : Str) (hunk : PatchHunk) : List (Str × Value) :=
  [entry "id" (.integer hunk.id), entry "old_start" (optInteger hunk.oldStart),
    entry "new_start" (optInteger hunk.newStart), entry "old_lines" (.integer hunk.counts.1),
    entry "new_lines" (.integer hunk.counts.2),
    entry "section" (hunk.sectionHeading.elim .null .string),
    entry "address" (.string (hunk.address path)), entry "body_sha256" (.string hunk.bodySha256),
    entry "lines" (.array (hunk.lines.map lineValue))]

def hunkValue (path : Str) (hunk : PatchHunk) : Value := record (hunkEntries path hunk)

def fileEntries (file : ReviewFile) : List (Str × Value) :=
  entry "path" (.string file.path) :: entry "status" (.string file.status.label) ::
    ((oldPath file).elim [] (fun old => [entry "old_path" (.string old)]) ++
      [entry "strategy" (.string (strategyStr file.planner.strategy))] ++
      (if 0 < file.patchTwin.lossyLines then
        [entry "lossy_lines" (.integer file.patchTwin.lossyLines)] else []) ++
      (if fileHazards file ≠ [] then
        [entry "hazards" (Daemon.strings (fileHazards file))] else []) ++
      [entry "hunks" (.array (file.patchTwin.hunks.map (hunkValue file.path))),
        entry "metadata" (Daemon.strings file.patchTwin.metadata)])

def fileValue (file : ReviewFile) : Value := record (fileEntries file)

def reviewEntries (files : List ReviewFile) (inputSeal : InputSeal) : List (Str × Value) :=
  entry "schema" (.string schema) :: (sealEntries inputSeal ++
    [entry "files" (.array (files.map fileValue)),
      entry "summary" (record [entry "files_changed" (.integer files.length),
        entry "additions" (.integer ((linesOf files).countP (·.kind = .added))),
        entry "deletions" (.integer ((linesOf files).countP (·.kind = .removed))),
        entry "semantic_fallbacks" (.integer (files.countP fellBack))])])

def reviewDocument (files : List ReviewFile) (inputSeal : InputSeal) : Value :=
  record (reviewEntries files inputSeal)

end Review

def evidenceBasis : Str := "lexical".toList

def evidenceValue (evidence : Evidence) : Value :=
  record [entry "signal" (.string evidence.signal.label), entry "address" (.string evidence.address),
    entry "side" (.string evidence.side.label), entry "line" (.integer evidence.line),
    entry "basis" (.string evidenceBasis)]

def rankedValue (ranked : RankedFile) : Value :=
  record ([entry "path" (.string ranked.path), entry "status" (.string ranked.status.label),
      entry "score" (.integer ranked.score),
      entry "signals" (strings (ranked.signals.map (·.label)))] ++
    (if ranked.evidence.isEmpty then []
      else [entry "evidence" (.array (ranked.evidence.map evidenceValue))]) ++
    (if ranked.evidenceTruncated then [entry "evidence_truncated" (.bool true)] else []))

def rankedJson (ranked : List RankedFile) : Value := .array (ranked.map rankedValue)

def rankEntries (scan : Scan) (files : List ReviewFile) (inputSeal : InputSeal) :
    List (Str × Value) :=
  entry "schema" (.string "deep-diff-forge.rank.v0".toList) :: (sealEntries inputSeal ++
    [entry "ranked" (rankedJson (rank scan files))])

def rankDocument (scan : Scan) (files : List ReviewFile) (inputSeal : InputSeal) : Value :=
  record (rankEntries scan files inputSeal)

/-- `diff.compute`. -/
def diffCompute (release : Release) (params : Value) : Except RpcError Value :=
  (sealed release params).map fun reviewed => reviewDocument reviewed.1 reviewed.2

/-- `diff.rank`. -/
def diffRank (release : Release) (params : Value) : Except RpcError Value :=
  (sealed release params).map fun reviewed => rankDocument release.scan reviewed.1 reviewed.2

/-! ### What is read is what the text denotes -/

theorem reads_strings (items : List Str) : ReadAs (strings items) (ReviewJson.strings items) := by
  refine .array _ _ ?_
  induction items with
  | nil => exact .nil
  | cons item rest ih => exact .cons (.text item) ih

theorem reads_optInteger (value : Option Nat) :
    ReadAs (optInteger value) (ReviewJson.optNumber value) := by
  cases value with
  | none => exact .null
  | some n => exact .number n

theorem reads_maps {α : Type} (items : List α) (value : α → Value) (datum : α → JsonGrammar.Datum)
    (read : ∀ item, ReadAs (value item) (datum item)) :
    ReadAs (.array (items.map value)) (.array (items.map datum)) := by
  refine .array _ _ ?_
  induction items with
  | nil => exact .nil
  | cons item rest ih => exact .cons (read item) ih

section Reading
open ReviewJson

theorem apart_line (line : PatchLine) : ((lineEntries line).map (·.1)).Nodup := by
  unfold lineEntries
  split_ifs <;> simp only [List.map_append, List.map_cons, List.map_nil, entry] <;> decide

theorem reads_line (line : PatchLine) : ReadAs (lineValue line) (lineDatum line) := by
  apply reads_record _ _ (apart_line line)
  refine List.rel_append (List.rel_append (List.rel_append ?_ ?_) ?_) ?_
  · exact agrees_next _ _ _ _ _ (.text _) (agrees_next _ _ _ _ _ (reads_optInteger _)
      (agrees_next _ _ _ _ _ (reads_optInteger _) (agrees_next _ _ _ _ _ (.text _) .nil)))
  · exact agrees_when _ _ _ _ (.bool true)
  · exact agrees_when _ _ _ _ (.bool true)
  · exact agrees_when _ _ _ _ (reads_strings _)

theorem apart_hunk (path : Str) (hunk : PatchHunk) :
    ((hunkEntries path hunk).map (·.1)).Nodup := by
  simp only [hunkEntries, List.map_cons, List.map_nil, entry]
  decide

theorem reads_hunk (path : Str) (hunk : PatchHunk) :
    ReadAs (hunkValue path hunk) (hunkDatum path hunk) := by
  have heading : ReadAs (hunk.sectionHeading.elim .null .string)
      (hunk.sectionHeading.elim .null JsonGrammar.text) := by
    cases hunk.sectionHeading with
    | none => exact .null
    | some heading => exact .text heading
  apply reads_record _ _ (apart_hunk path hunk)
  exact agrees_next _ _ _ _ _ (.number _) (agrees_next _ _ _ _ _ (reads_optInteger _)
    (agrees_next _ _ _ _ _ (reads_optInteger _) (agrees_next _ _ _ _ _ (.number _)
    (agrees_next _ _ _ _ _ (.number _) (agrees_next _ _ _ _ _ heading
    (agrees_next _ _ _ _ _ (.text _) (agrees_next _ _ _ _ _ (.text _)
    (agrees_next _ _ _ _ _ (reads_maps _ _ _ reads_line) .nil))))))))

theorem apart_file (file : ReviewFile) : ((fileEntries file).map (·.1)).Nodup := by
  unfold fileEntries
  cases oldPath file <;> split_ifs <;>
    simp only [Option.elim, List.map_append, List.map_cons, List.map_nil, entry] <;> decide

theorem reads_file (file : ReviewFile) : ReadAs (fileValue file) (fileDatum file) := by
  apply reads_record _ _ (apart_file file)
  refine agrees_next _ _ _ _ _ (.text _) (agrees_next _ _ _ _ _ (.text _) ?_)
  refine List.rel_append (List.rel_append (List.rel_append (List.rel_append ?_ ?_) ?_) ?_) ?_
  · exact agrees_option _ _ _ _ .text
  · exact agrees_next _ _ _ _ _ (.text _) .nil
  · exact agrees_when _ _ _ _ (.number _)
  · exact agrees_when _ _ _ _ (reads_strings _)
  · exact agrees_next _ _ _ _ _ (reads_maps _ _ _ (reads_hunk file.path))
      (agrees_next _ _ _ _ _ (reads_strings _) .nil)

theorem apart_review (files : List ReviewFile) (inputSeal : InputSeal) :
    ((reviewEntries files inputSeal).map (·.1)).Nodup := by
  simp only [reviewEntries, sealEntries, List.map_append, List.map_cons, List.map_nil, entry]
  decide

theorem apart_summary (changed additions deletions fallbacks : Value) :
    ([entry "files_changed" changed, entry "additions" additions, entry "deletions" deletions,
      entry "semantic_fallbacks" fallbacks].map (·.1)).Nodup := by
  simp only [List.map_cons, List.map_nil, entry]
  decide

/-- The document is read from the text that the command line prints for the same patch. -/
theorem reads_review (files : List ReviewFile) (inputSeal : InputSeal) :
    ∃ datum, JsonGrammar.Element (toJsonSealed files inputSeal) datum ∧
      ReadAs (reviewDocument files inputSeal) datum := by
  refine ⟨document files (some inputSeal), element_render files (some inputSeal), ?_⟩
  have tool : ReadAs (record [entry "name" (.string toolName),
      entry "version" (.string inputSeal.toolVersion)])
      (.object [named "name" (JsonGrammar.text toolName),
        named "version" (JsonGrammar.text inputSeal.toolVersion)]) := by
    apply reads_record
    · simp only [List.map_cons, List.map_nil, entry]
      decide
    · exact agrees_next _ _ _ _ _ (.text _) (agrees_next _ _ _ _ _ (.text _) .nil)
  apply reads_record _ _ (apart_review files inputSeal)
  refine agrees_next _ _ _ _ _ (.text _) (agrees_next _ _ _ _ _ (.text _)
    (agrees_next _ _ _ _ _ tool (agrees_next _ _ _ _ _ (reads_maps _ _ _ reads_file)
    (agrees_next _ _ _ _ _ ?_ .nil))))
  apply reads_record _ _ (apart_summary _ _ _ _)
  exact agrees_next _ _ _ _ _ (.number _) (agrees_next _ _ _ _ _ (.number _)
    (agrees_next _ _ _ _ _ (.number _) (agrees_next _ _ _ _ _ (.number _) .nil)))

theorem apart_rank (scan : Scan) (files : List ReviewFile) (inputSeal : InputSeal) :
    ((rankEntries scan files inputSeal).map (·.1)).Nodup := by
  simp only [rankEntries, sealEntries, List.map_append, List.map_cons, List.map_nil, entry]
  decide

end Reading

end DeepDiffForge.Daemon
