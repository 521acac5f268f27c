import DeepDiffForge.Daemon.HunkPages
import DeepDiffForge.Lib.Json

/-! The answers as they are emitted, and the bytes each part of one takes. -/

namespace DeepDiffForge.Daemon
open Text DeepDiffForge.Core DeepDiffForge.Graph DeepDiffForge.Patch

def LineView.json (line : LineView) : Str :=
  Json.object (
    [("kind".toList, Json.string line.kind),
      ("old_line".toList, Json.optional Json.number line.oldLine),
      ("new_line".toList, Json.optional Json.number line.newLine),
      ("text".toList, Json.string line.text)] ++
    (if line.noNewline then [("no_newline".toList, Json.bool true)] else []) ++
    (if line.lossy then [("lossy".toList, Json.bool true)] else []) ++
    (if line.hazards = [] then []
      else [("hazards".toList, Json.array (line.hazards.map Json.string))]))

def HunkHead.members (head : HunkHead) : List (Str × Str) :=
  [("address".toList, Json.string head.address),
    ("old_start".toList, Json.optional Json.number head.oldStart),
    ("old_lines".toList, Json.number head.oldLines),
    ("new_start".toList, Json.optional Json.number head.newStart),
    ("new_lines".toList, Json.number head.newLines),
    ("section".toList, Json.optional Json.string head.sectionHeading),
    ("additions".toList, Json.number head.additions),
    ("deletions".toList, Json.number head.deletions)] ++
  (if head.hazards = [] then []
    else [("hazards".toList, Json.array (head.hazards.map Json.string))]) ++
  (if head.evidence = [] then []
    else [("evidence".toList, Json.array (head.evidence.map Json.string))]) ++
  (if head.sectionTruncated then [("section_truncated".toList, Json.bool true)] else [])

def HunkHead.json (head : HunkHead) : Str := Json.object head.members

def HunkEntry.json (entry : HunkEntry) : Str :=
  Json.object (entry.head.members ++
    [("path".toList, Json.string entry.path),
      ("line_offset".toList, Json.number entry.lineOffset),
      ("complete".toList, Json.bool entry.complete),
      ("lines".toList, Json.array (entry.lines.map (·.json)))])

def FileEntry.json (entry : FileEntry) : Str :=
  Json.object
    [("path".toList, Json.string entry.path),
      ("hazards".toList, Json.array (entry.hazards.map Json.string)),
      ("status".toList, Json.string entry.status),
      ("score".toList, Json.number entry.score),
      ("signals".toList, Json.array (entry.signals.map Json.string)),
      ("hunk_count".toList, Json.number entry.hunkCount),
      ("first_hunk".toList, Json.number entry.firstHunk),
      ("hunks".toList, Json.array (entry.hunks.map (·.json))),
      ("complete".toList, Json.bool entry.complete)]

def toolJson (version : Str) : Str :=
  Json.object [("name".toList, Json.string toolName), ("version".toList, Json.string version)]

def HunksAnswer.json (answer : HunksAnswer) : Str :=
  Json.object
    [("schema".toList, Json.string "deep-diff-forge.review-hunks.v0".toList),
      ("input_sha256".toList, Json.string answer.inputSha256),
      ("tool".toList, toolJson answer.toolVersion),
      ("hunks".toList, Json.array (answer.hunks.map (·.json))),
      ("selected_hunks".toList, Json.number answer.selectedHunks),
      ("remaining_hunks".toList, Json.number answer.remainingHunks),
      ("next_cursor".toList, Json.optional Json.string answer.nextCursor)]

/-- The sizes `hunks` and `outline` measure. -/
def emitted : Sizes where
  line line := Json.size line.json
  hunk entry := Json.size entry.json
  head head := Json.size head.json
  file entry := Json.size entry.json

def linesCost (lines : List LineView) : Nat := Json.cost (lines.map (·.json))

def entriesCost (entries : List HunkEntry) : Nat := Json.cost (entries.map (·.json))

def HunkEntry.opened (entry : HunkEntry) : HunkEntry := { entry with complete := true, lines := [] }

theorem size_entry (entry : HunkEntry) :
    Json.size entry.json + 6 = Json.size entry.opened.json +
      Json.size (Json.bool entry.complete) + Json.size (Json.array (entry.lines.map (·.json))) := by
  have yes : Json.size (Json.bool true) = 4 := by decide
  have empty : Json.size (Json.array []) = 2 := Json.size_array_nil
  rw [HunkEntry.json, HunkEntry.json, Json.size_object _ (by simp), Json.size_object _ (by simp)]
  simp only [List.map_append, List.map_cons, List.map_nil, Json.cost_append, Json.cost_cons,
    Json.cost_nil, Json.size_member, HunkEntry.opened, yes, empty]
  omega

/-- An entry with its last line. -/
theorem size_complete (entry : HunkEntry) (complete : entry.complete = true)
    (nonempty : entry.lines ≠ []) :
    Json.size entry.json + 1 = Json.size entry.opened.json + linesCost entry.lines := by
  have yes : Json.size (Json.bool true) = 4 := by decide
  have whole := size_entry entry
  rw [complete, yes, Json.size_array _ (by simpa using nonempty)] at whole
  rw [linesCost]
  omega

/-- An entry that stops short of its last line. -/
theorem size_short (entry : HunkEntry) (short : entry.complete = false) (nonempty : entry.lines ≠ []) :
    Json.size entry.json = Json.size entry.opened.json + linesCost entry.lines := by
  have flag : Json.size (Json.bool false) = 5 := by decide
  have whole := size_entry entry
  rw [short, flag, Json.size_array _ (by simpa using nonempty)] at whole
  rw [linesCost]
  omega

def HunksAnswer.envelope (answer : HunksAnswer) : Nat :=
  Json.size { answer with hunks := [] }.json

theorem size_answer (answer : HunksAnswer) :
    Json.size answer.json + 2 =
      answer.envelope + Json.size (Json.array (answer.hunks.map (·.json))) := by
  have empty : Json.size (Json.array []) = 2 := Json.size_array_nil
  rw [HunksAnswer.envelope, HunksAnswer.json, HunksAnswer.json, Json.size_object _ (by simp),
    Json.size_object _ (by simp)]
  simp only [List.map_cons, List.map_nil, Json.cost_cons, Json.cost_nil, Json.size_member, empty]
  omega

theorem size_answer_le (answer : HunksAnswer) :
    Json.size answer.json ≤ answer.envelope + entriesCost answer.hunks := by
  have whole := size_answer answer
  have most := Json.size_array_le (answer.hunks.map (·.json))
  rw [entriesCost]
  omega

theorem entry_le_answer (answer : HunksAnswer) (entry : HunkEntry) (shown : entry ∈ answer.hunks) :
    Json.size entry.json ≤ Json.size answer.json := by
  have whole := size_answer answer
  have listed : entry.json ∈ answer.hunks.map (·.json) := List.mem_map_of_mem shown
  have own := Json.size_le_cost _ _ listed
  rw [Json.size_array _ (List.ne_nil_of_mem listed)] at whole
  omega

theorem path_le_entry (entry : HunkEntry) : entry.path.length ≤ Json.size entry.json := by
  have own := Json.length_le_size_string entry.path
  rw [HunkEntry.json, Json.size_object _ (by simp)]
  simp only [List.map_append, List.map_cons, List.map_nil, Json.cost_append, Json.cost_cons,
    Json.cost_nil, Json.size_member]
  omega

end DeepDiffForge.Daemon
