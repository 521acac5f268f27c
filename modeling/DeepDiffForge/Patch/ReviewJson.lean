import DeepDiffForge.Patch.Render
import DeepDiffForge.Core.Hazards
import DeepDiffForge.Core.Seal
import DeepDiffForge.Core.Escapes
import DeepDiffForge.Lib.Fallible
import DeepDiffForge.Lib.JsonLayout
import Mathlib.Data.List.Nodup

/-! The `review.v0` document of a parsed patch, with or without its seal, and what it denotes. -/

namespace DeepDiffForge.Core
open Text JsonGrammar

def PatchHunk.bodySha256 (hunk : PatchHunk) : Str := sha256Hex (Utf8.encode hunk.bodyBytes)

def InputSeal.jsonMembers (inputSeal : InputSeal) : Str :=
  memberLine 2 "input_sha256".toList (jsonEscape inputSeal.inputSha256) ++
  memberLine 2 "tool".toList ('\x7b' :: (field "name".toList (jsonEscape toolName) ++ ',' :: ' ' ::
    field "version".toList (jsonEscape inputSeal.toolVersion) ++ ['\x7d']))

end DeepDiffForge.Core

namespace DeepDiffForge.Patch.ReviewJson
open Text JsonGrammar Fallible DeepDiffForge.Core

def schema : Str := "deep-diff-forge.review.v0".toList

def quote (value : Str) : Str := jsonEscape value

def stringArray (items : List Str) : Str :=
  if items.isEmpty then ['[', ']']
  else '[' :: (([',', ' '] : Str).intercalate (items.map quote) ++ [']'])

def optNum (value : Option Nat) : Str := value.elim "null".toList decimal

def strategyStr : DiffStrategy → Str
  | .line => "line".toList
  | .word => "word".toList
  | .syntaxTree => "syntax".toList
  | .movedBlock => "moved_block".toList
  | .binary => "binary".toList
  | .generatedSuppressed => "generated_suppressed".toList

def lineKindStr : PatchLineKind → Str
  | .context => "context".toList
  | .added => "added".toList
  | .removed => "removed".toList

structure Totals where
  additions : Nat
  deletions : Nat
  deriving DecidableEq, Repr

def Totals.line (totals : Totals) (line : PatchLine) : Totals :=
  match line.kind with
  | .added => { totals with additions := totals.additions + 1 }
  | .removed => { totals with deletions := totals.deletions + 1 }
  | .context => totals

/-- The entries of an array, on lines of their own, and the totals behind them. -/
def entries {α : Type} (write : α → Totals → Str × Totals) : List α → Totals → Str × Totals
  | [], totals => ([], totals)
  | item :: rest, totals =>
      let written := write item totals
      let others := entries write rest written.2
      (written.1 ++ (if rest.isEmpty then [] else [',']) ++ '\n' :: others.1, others.2)

def hazardMember (hazards : List Str) : Str :=
  if hazards ≠ [] then ',' :: ' ' :: field "hazards".toList (stringArray hazards) else []

def writeLine (line : PatchLine) (totals : Totals) : Str × Totals :=
  ("            \x7b".toList ++ field "kind".toList (quote (lineKindStr line.kind)) ++ [',', ' '] ++
    field "old_line".toList (optNum line.oldLine) ++ [',', ' '] ++
    field "new_line".toList (optNum line.newLine) ++ [',', ' '] ++
    field "text".toList (quote line.text) ++
    (if line.noNewline then ", \"no_newline\": true".toList else []) ++
    (if line.lossy then ", \"lossy\": true".toList else []) ++
    hazardMember (textHazards line.text) ++ ['\x7d'],
    totals.line line)

def writeHunk (path : Str) (hunk : PatchHunk) (totals : Totals) : Str × Totals :=
  let lines := entries writeLine hunk.lines totals
  ("        \x7b\n".toList ++
    memberLine 10 "id".toList (decimal hunk.id) ++
    memberLine 10 "old_start".toList (optNum hunk.oldStart) ++
    memberLine 10 "new_start".toList (optNum hunk.newStart) ++
    memberLine 10 "old_lines".toList (decimal hunk.counts.1) ++
    memberLine 10 "new_lines".toList (decimal hunk.counts.2) ++
    memberLine 10 "section".toList (hunk.sectionHeading.elim "null".toList quote) ++
    memberLine 10 "address".toList (quote (hunk.address path)) ++
    memberLine 10 "body_sha256".toList (quote hunk.bodySha256) ++
    "          \"lines\": [".toList ++ (if hunk.lines.isEmpty then [] else ['\n']) ++ lines.1 ++
    (if hunk.lines.isEmpty then [']'] else "          ]".toList) ++ "\n        \x7d".toList,
    lines.2)

def renderHunks (file : ReviewFile) (totals : Totals) : Str × Totals :=
  let hunks := file.patchTwin.hunks
  let written := entries (writeHunk file.path) hunks totals
  ((if hunks.isEmpty then [] else ['\n']) ++ written.1 ++
    (if hunks.isEmpty then [] else "      ".toList), written.2)

def writeFile (file : ReviewFile) (totals : Totals) : Str × Totals :=
  let hunks := renderHunks file totals
  ("    \x7b\n".toList ++
    memberLine 6 "path".toList (quote file.path) ++
    memberLine 6 "status".toList (quote file.status.label) ++
    (oldPath file).elim [] (fun old => memberLine 6 "old_path".toList (quote old)) ++
    memberLine 6 "strategy".toList (quote (strategyStr file.planner.strategy)) ++
    (if 0 < file.patchTwin.lossyLines then
      memberLine 6 "lossy_lines".toList (decimal file.patchTwin.lossyLines) else []) ++
    (if fileHazards file ≠ [] then
      memberLine 6 "hazards".toList (stringArray (fileHazards file)) else []) ++
    "      \"hunks\": [".toList ++ hunks.1 ++ "],\n".toList ++
    "      \"metadata\": ".toList ++ stringArray file.patchTwin.metadata ++ "\n    \x7d".toList,
    hunks.2)

def fellBack (file : ReviewFile) : Bool :=
  file.semanticTwin.any fun twin =>
    match twin.parseStatus with
    | .fallback _ => true
    | _ => false

def render (files : List ReviewFile) (inputSeal : Option InputSeal) : Str :=
  let written := entries writeFile files ⟨0, 0⟩
  "\x7b\n".toList ++ memberLine 2 "schema".toList (quote schema) ++
  inputSeal.elim [] InputSeal.jsonMembers ++ "  \"files\": [".toList ++
  (if files.isEmpty then [] else ['\n']) ++ written.1 ++
  (if files.isEmpty then "],\n".toList else "  ],\n".toList) ++ "  \"summary\": \x7b\n".toList ++
  memberLine 4 "files_changed".toList (decimal files.length) ++
  memberLine 4 "additions".toList (decimal written.2.additions) ++
  memberLine 4 "deletions".toList (decimal written.2.deletions) ++
  "    \"semantic_fallbacks\": ".toList ++
  decimal (files.countP fellBack) ++ "\n  \x7d\n\x7d\n".toList

def toJson (files : List ReviewFile) : Str := render files none

def toJsonSealed (files : List ReviewFile) (inputSeal : InputSeal) : Str :=
  render files (some inputSeal)

/-! What the document denotes. -/

def named (name : String) (datum : Datum) : List Nat × Datum := (utf16 name.toList, datum)

def strings (items : List Str) : Datum := .array (items.map text)

def optNumber (value : Option Nat) : Datum := value.elim .null number

def lineDatum (line : PatchLine) : Datum :=
  .object ([named "kind" (text (lineKindStr line.kind)), named "old_line" (optNumber line.oldLine),
      named "new_line" (optNumber line.newLine), named "text" (text line.text)] ++
    (if line.noNewline then [named "no_newline" (.bool true)] else []) ++
    (if line.lossy then [named "lossy" (.bool true)] else []) ++
    (if textHazards line.text ≠ [] then
      [named "hazards" (strings (textHazards line.text))] else []))

def hunkDatum (path : Str) (hunk : PatchHunk) : Datum :=
  .object [named "id" (number hunk.id), named "old_start" (optNumber hunk.oldStart),
    named "new_start" (optNumber hunk.newStart), named "old_lines" (number hunk.counts.1),
    named "new_lines" (number hunk.counts.2),
    named "section" (hunk.sectionHeading.elim .null text),
    named "address" (text (hunk.address path)), named "body_sha256" (text hunk.bodySha256),
    named "lines" (.array (hunk.lines.map lineDatum))]

def fileDatum (file : ReviewFile) : Datum :=
  .object (named "path" (text file.path) :: named "status" (text file.status.label) ::
    ((oldPath file).elim [] (fun old => [named "old_path" (text old)]) ++
      [named "strategy" (text (strategyStr file.planner.strategy))] ++
      (if 0 < file.patchTwin.lossyLines then
        [named "lossy_lines" (number file.patchTwin.lossyLines)] else []) ++
      (if fileHazards file ≠ [] then [named "hazards" (strings (fileHazards file))] else []) ++
      [named "hunks" (.array (file.patchTwin.hunks.map (hunkDatum file.path))),
        named "metadata" (strings file.patchTwin.metadata)]))

def linesOf (files : List ReviewFile) : List PatchLine :=
  files.flatMap fun file => file.patchTwin.hunks.flatMap PatchHunk.lines

def sealMembers (inputSeal : InputSeal) : List (List Nat × Datum) :=
  [named "input_sha256" (text inputSeal.inputSha256),
    named "tool" (.object
      [named "name" (text toolName), named "version" (text inputSeal.toolVersion)])]

def document (files : List ReviewFile) (inputSeal : Option InputSeal) : Datum :=
  .object (named "schema" (text schema) :: (inputSeal.elim [] sealMembers ++
    [named "files" (.array (files.map fileDatum)),
      named "summary" (.object [named "files_changed" (number files.length),
        named "additions" (number ((linesOf files).countP (·.kind = .added))),
        named "deletions" (number ((linesOf files).countP (·.kind = .removed))),
        named "semantic_fallbacks" (number (files.countP fellBack))])]))

theorem entries_eq {α : Type} (write : α → Totals → Str × Totals) (shown : α → Str)
    (next : Totals → α → Totals)
    (own : ∀ item totals, write item totals = (shown item, next totals item)) (items : List α)
    (totals : Totals) :
    entries write items totals = (itemLines (items.map shown), items.foldl next totals) := by
  induction items generalizing totals with
  | nil => rfl
  | cons item rest ih =>
    unfold entries
    dsimp only
    rw [own]
    dsimp only
    rw [ih, List.map_cons, itemLines, List.isEmpty_map, List.foldl_cons]

/-- An array opened, its entries and its end, as they are written. -/
theorem block_written {α : Type} (indent : Nat) (items : List α) (shown : α → Str) (rest : Str) :
    '[' :: ((if items.isEmpty then [] else ['\n']) ++ (itemLines (items.map shown) ++
      ((if items.isEmpty then [] else List.replicate indent ' ') ++ ']' :: rest))) =
      block indent (items.map shown) ++ rest := by
  unfold block
  rw [List.isEmpty_map]
  cases items with
  | nil => rfl
  | cons item others =>
    simp only [List.isEmpty_cons, Bool.false_eq_true, if_false, List.append_assoc,
      List.cons_append, List.nil_append]

def memberNames : List String :=
  ["kind", "old_line", "new_line", "text", "no_newline", "lossy", "hazards", "id", "old_start",
    "new_start", "old_lines", "new_lines", "section", "address", "body_sha256", "lines", "path",
    "status", "old_path", "strategy", "lossy_lines", "hunks", "metadata", "schema",
    "input_sha256", "tool", "name", "version", "files", "summary", "files_changed", "additions",
    "deletions", "semantic_fallbacks"]

theorem plain_names (name : String) (listed : name ∈ memberNames) :
    ∀ c ∈ name.toList, unescaped c = true := by
  have every : (memberNames.all fun name => name.toList.all unescaped) = true := by decide +kernel
  exact List.all_eq_true.1 (List.all_eq_true.1 every name listed)

theorem denotes_quote (value : Str) : Denotes (quote value) (text value) := denotes_jsonEscape value

theorem denotes_stringArray (items : List Str) :
    Denotes (stringArray items) (strings items) := by
  unfold stringArray strings
  cases items with
  | nil => exact .noItems [] (space_replicate 0)
  | cons first rest =>
    exact denotes_joined _ _ (forall₂_maps _ _ _ _ fun item _ => denotes_quote item)

theorem denotes_optNum (value : Option Nat) : Denotes (optNum value) (optNumber value) := by
  cases value with
  | none => exact .null
  | some n => exact denotes_number n

theorem denotes_section (heading : Option Str) :
    Denotes (heading.elim "null".toList quote) (heading.elim .null text) := by
  cases heading with
  | none => exact .null
  | some heading => exact denotes_quote heading

theorem denotes_true : Denotes "true".toList (.bool true) := .true'

def lineText (line : PatchLine) : Str := (writeLine line ⟨0, 0⟩).1

theorem element_line (line : PatchLine) : Element (lineText line) (lineDatum line) := by
  have noNewline : ", \"no_newline\": true".toList =
      ',' :: ' ' :: field "no_newline".toList "true".toList := by decide
  have lossy : ", \"lossy\": true".toList =
      ',' :: ' ' :: field "lossy".toList "true".toList := by decide
  have ahead : "            \x7b".toList = List.replicate 12 ' ' ++ ['\x7b'] := by decide
  have kind : Members (field "kind".toList (quote (lineKindStr line.kind)))
      [named "kind" (text (lineKindStr line.kind))] :=
    .one _ _ _ (member_field _ _ _ (plain_names _ (by decide)) (denotes_quote _))
  have oldLine := members_next _ "old_line".toList _ _ _ (plain_names _ (by decide))
    (denotes_optNum line.oldLine) kind
  have newLine := members_next _ "new_line".toList _ _ _ (plain_names _ (by decide))
    (denotes_optNum line.newLine) oldLine
  have body := members_next _ "text".toList _ _ _ (plain_names _ (by decide))
    (denotes_quote line.text) newLine
  have noted := members_nextWhen (line.noNewline = true) _ "no_newline".toList _ _ _
    (plain_names _ (by decide)) denotes_true body
  have marked := members_nextWhen (line.lossy = true) _ "lossy".toList _ _ _
    (plain_names _ (by decide)) denotes_true noted
  have whole := members_nextWhen (textHazards line.text ≠ []) _ "hazards".toList _ _ _
    (plain_names _ (by decide)) (denotes_stringArray (textHazards line.text)) marked
  have framed := element_ahead _ _ _ (space_replicate 12) (element_bare _ _ (.object _ _ whole))
  unfold lineText writeLine hazardMember lineDatum
  rw [noNewline, lossy, ahead]
  simpa only [named, List.append_assoc, List.cons_append, List.nil_append] using framed

def hunkText (path : Str) (hunk : PatchHunk) : Str := (writeHunk path hunk ⟨0, 0⟩).1

theorem writeLine_eq (line : PatchLine) (totals : Totals) :
    writeLine line totals = (lineText line, totals.line line) := rfl

theorem lines_written (lines : List PatchLine) (totals : Totals) :
    entries writeLine lines totals =
      (itemLines (lines.map lineText), lines.foldl Totals.line totals) :=
  entries_eq writeLine lineText Totals.line writeLine_eq lines totals

theorem writeHunk_eq (path : Str) (hunk : PatchHunk) (totals : Totals) :
    writeHunk path hunk totals = (hunkText path hunk, hunk.lines.foldl Totals.line totals) := by
  unfold hunkText writeHunk
  simp only [lines_written]

theorem element_hunk (path : Str) (hunk : PatchHunk) :
    Element (hunkText path hunk) (hunkDatum path hunk) := by
  have opened : "          \"lines\": [".toList =
      List.replicate 10 ' ' ++ (quoted "lines".toList ++ [':', ' ', '[']) := by decide
  have closed : (if hunk.lines.isEmpty then [']'] else "          ]".toList) =
      (if hunk.lines.isEmpty then [] else List.replicate 10 ' ') ++ [']'] := by
    split_ifs <;> rfl
  have ahead : "        \x7b\n".toList = List.replicate 8 ' ' ++ ['\x7b', '\n'] := by decide
  have behind : "\n        \x7d".toList = ('\n' :: List.replicate 8 ' ') ++ ['\x7d'] := by decide
  have blank : Space ('\n' :: List.replicate 8 ' ') := space_append ['\n'] _
    (fun c listed => List.mem_singleton.1 listed ▸ rfl) (space_replicate 8)
  have lines : Denotes (block 10 (hunk.lines.map lineText))
      (.array (hunk.lines.map lineDatum)) := by
    apply denotes_block
    exact forall₂_maps _ _ _ _ fun line _ => element_line line
  have last := members_last 10 "lines".toList _ _ _ (plain_names _ (by decide)) lines blank
  have body := members_line 10 "body_sha256".toList _ _ _ _ (plain_names _ (by decide))
    (denotes_quote hunk.bodySha256) last
  have body := members_line 10 "address".toList _ _ _ _ (plain_names _ (by decide))
    (denotes_quote (hunk.address path)) body
  have body := members_line 10 "section".toList _ _ _ _ (plain_names _ (by decide))
    (denotes_section hunk.sectionHeading) body
  have body := members_line 10 "new_lines".toList _ _ _ _ (plain_names _ (by decide))
    (denotes_number hunk.counts.2) body
  have body := members_line 10 "old_lines".toList _ _ _ _ (plain_names _ (by decide))
    (denotes_number hunk.counts.1) body
  have body := members_line 10 "new_start".toList _ _ _ _ (plain_names _ (by decide))
    (denotes_optNum hunk.newStart) body
  have body := members_line 10 "old_start".toList _ _ _ _ (plain_names _ (by decide))
    (denotes_optNum hunk.oldStart) body
  have body := members_line 10 "id".toList _ _ _ _ (plain_names _ (by decide))
    (denotes_number hunk.id) body
  have spaced := members_ahead ['\n'] _ _ (fun c listed => List.mem_singleton.1 listed ▸ rfl) body
  have framed := element_ahead _ _ _ (space_replicate 8) (element_bare _ _ (.object _ _ spaced))
  unfold hunkText writeHunk hunkDatum
  rw [lines_written, opened, closed, ahead, behind]
  simp only [List.append_assoc, List.cons_append, List.nil_append, block_written]
  simpa only [named, field, List.append_assoc, List.cons_append, List.nil_append] using framed

def fileLines (file : ReviewFile) : List PatchLine :=
  file.patchTwin.hunks.flatMap PatchHunk.lines

def fileText (file : ReviewFile) : Str := (writeFile file ⟨0, 0⟩).1

theorem hunks_written (path : Str) (hunks : List PatchHunk) (totals : Totals) :
    entries (writeHunk path) hunks totals =
      (itemLines (hunks.map (hunkText path)),
        (hunks.flatMap PatchHunk.lines).foldl Totals.line totals) := by
  rw [entries_eq (writeHunk path) (hunkText path)
    (fun totals hunk => hunk.lines.foldl Totals.line totals) (writeHunk_eq path),
    List.foldl_flatMap]

theorem writeFile_eq (file : ReviewFile) (totals : Totals) :
    writeFile file totals = (fileText file, (fileLines file).foldl Totals.line totals) := by
  unfold fileText writeFile renderHunks fileLines
  simp only [hunks_written]

theorem element_file (file : ReviewFile) : Element (fileText file) (fileDatum file) := by
  have opened : "      \"hunks\": [".toList =
      List.replicate 6 ' ' ++ (quoted "hunks".toList ++ [':', ' ', '[']) := by decide
  have closed : (if file.patchTwin.hunks.isEmpty then [] else "      ".toList) =
      (if file.patchTwin.hunks.isEmpty then [] else List.replicate 6 ' ') := by
    split_ifs <;> rfl
  have ended : "],\n".toList = [']', ',', '\n'] := by decide
  have metadata : "      \"metadata\": ".toList =
      List.replicate 6 ' ' ++ (quoted "metadata".toList ++ [':', ' ']) := by decide
  have ahead : "    \x7b\n".toList = List.replicate 4 ' ' ++ ['\x7b', '\n'] := by decide
  have behind : "\n    \x7d".toList = ('\n' :: List.replicate 4 ' ') ++ ['\x7d'] := by decide
  have blank : Space ('\n' :: List.replicate 4 ' ') := space_append ['\n'] _
    (fun c listed => List.mem_singleton.1 listed ▸ rfl) (space_replicate 4)
  have hunks : Denotes (block 6 (file.patchTwin.hunks.map (hunkText file.path)))
      (.array (file.patchTwin.hunks.map (hunkDatum file.path))) := by
    apply denotes_block
    exact forall₂_maps _ _ _ _ fun hunk _ => element_hunk file.path hunk
  have body := members_last 6 "metadata".toList _ _ _ (plain_names _ (by decide))
    (denotes_stringArray file.patchTwin.metadata) blank
  have body := members_line 6 "hunks".toList _ _ _ _ (plain_names _ (by decide)) hunks body
  have body := members_lineWhen (fileHazards file ≠ []) 6 "hazards".toList _ _ _ _
    (plain_names _ (by decide)) (denotes_stringArray (fileHazards file)) body
  have body := members_lineWhen (0 < file.patchTwin.lossyLines) 6 "lossy_lines".toList _ _ _ _
    (plain_names _ (by decide)) (denotes_number file.patchTwin.lossyLines) body
  have body := members_line 6 "strategy".toList _ _ _ _ (plain_names _ (by decide))
    (denotes_quote (strategyStr file.planner.strategy)) body
  have body := members_lineOption (oldPath file) quote text 6 "old_path".toList _ _
    (plain_names _ (by decide)) denotes_quote body
  have body := members_line 6 "status".toList _ _ _ _ (plain_names _ (by decide))
    (denotes_quote file.status.label) body
  have body := members_line 6 "path".toList _ _ _ _ (plain_names _ (by decide))
    (denotes_quote file.path) body
  have spaced := members_ahead ['\n'] _ _ (fun c listed => List.mem_singleton.1 listed ▸ rfl) body
  have framed := element_ahead _ _ _ (space_replicate 4) (element_bare _ _ (.object _ _ spaced))
  unfold fileText writeFile renderHunks fileDatum
  dsimp only
  rw [hunks_written, opened, closed, ended, ahead, behind, metadata]
  simp only [List.append_assoc, List.cons_append, List.nil_append, block_written]
  simpa only [named, memberLine, field, List.append_assoc, List.cons_append, List.nil_append]
    using framed

theorem foldl_totals (lines : List PatchLine) (totals : Totals) :
    lines.foldl Totals.line totals =
      ⟨totals.additions + lines.countP (·.kind = .added),
        totals.deletions + lines.countP (·.kind = .removed)⟩ := by
  induction lines generalizing totals with
  | nil => rfl
  | cons line rest ih =>
    rw [List.foldl_cons, ih, List.countP_cons, List.countP_cons]
    unfold Totals.line
    cases line.kind
    · simp
    · simp
      omega
    · simp
      omega

theorem files_written (files : List ReviewFile) (totals : Totals) :
    entries writeFile files totals =
      (itemLines (files.map fileText), (linesOf files).foldl Totals.line totals) := by
  rw [entries_eq writeFile fileText (fun totals file => (fileLines file).foldl Totals.line totals)
    writeFile_eq]
  unfold linesOf
  rw [List.foldl_flatMap]
  rfl

theorem members_seal (inputSeal : Option InputSeal) (rest : Str) (others : List (List Nat × Datum))
    (next : Members rest others) :
    Members (inputSeal.elim [] InputSeal.jsonMembers ++ rest)
      (inputSeal.elim [] sealMembers ++ others) := by
  cases inputSeal with
  | none => exact next
  | some inputSeal =>
    have name : Members (field "name".toList (jsonEscape toolName))
        [named "name" (text toolName)] :=
      .one _ _ _ (member_field _ _ _ (plain_names _ (by decide)) (denotes_quote _))
    have tool := members_next _ "version".toList _ _ _ (plain_names _ (by decide))
      (denotes_quote inputSeal.toolVersion) name
    have body := members_line 2 "tool".toList _ _ _ _ (plain_names _ (by decide))
      (.object _ _ tool) next
    have body := members_line 2 "input_sha256".toList _ _ _ _ (plain_names _ (by decide))
      (denotes_quote inputSeal.inputSha256) body
    show Members (inputSeal.jsonMembers ++ rest) (sealMembers inputSeal ++ others)
    unfold InputSeal.jsonMembers sealMembers
    simpa only [named, quote, List.append_assoc, List.cons_append, List.nil_append] using body

/-- The document's text denotes the document. -/
theorem element_render (files : List ReviewFile) (inputSeal : Option InputSeal) :
    Element (render files inputSeal) (document files inputSeal) := by
  have opened : "  \"files\": [".toList =
      List.replicate 2 ' ' ++ (quoted "files".toList ++ [':', ' ', '[']) := by decide
  have closed : (if files.isEmpty then "],\n".toList else "  ],\n".toList) =
      (if files.isEmpty then [] else List.replicate 2 ' ') ++ [']', ',', '\n'] := by
    split_ifs <;> rfl
  have summary : "  \"summary\": \x7b\n".toList =
      List.replicate 2 ' ' ++ (quoted "summary".toList ++ [':', ' ', '\x7b', '\n']) := by decide
  have fallbacks : "    \"semantic_fallbacks\": ".toList =
      List.replicate 4 ' ' ++ (quoted "semantic_fallbacks".toList ++ [':', ' ']) := by decide
  have ahead : "\x7b\n".toList = ['\x7b', '\n'] := by decide
  have behind : "\n  \x7d\n\x7d\n".toList =
      ('\n' :: List.replicate 2 ' ') ++ ['\x7d', '\n', '\x7d', '\n'] := by decide
  have feed : Space ['\n'] := fun c listed => List.mem_singleton.1 listed ▸ rfl
  have blank : Space ('\n' :: List.replicate 2 ' ') :=
    space_append ['\n'] _ feed (space_replicate 2)
  have each : Denotes (block 2 (files.map fileText)) (.array (files.map fileDatum)) := by
    apply denotes_block
    exact forall₂_maps _ _ _ _ fun file _ => element_file file
  have counts := members_last 4 "semantic_fallbacks".toList _ _ _ (plain_names _ (by decide))
    (denotes_number (files.countP fellBack)) blank
  have counts := members_line 4 "deletions".toList _ _ _ _ (plain_names _ (by decide))
    (denotes_number ((linesOf files).countP (·.kind = .removed))) counts
  have counts := members_line 4 "additions".toList _ _ _ _ (plain_names _ (by decide))
    (denotes_number ((linesOf files).countP (·.kind = .added))) counts
  have counts := members_line 4 "files_changed".toList _ _ _ _ (plain_names _ (by decide))
    (denotes_number files.length) counts
  have body := members_last 2 "summary".toList _ _ _ (plain_names _ (by decide))
    (.object _ _ (members_ahead ['\n'] _ _ feed counts)) feed
  have body := members_line 2 "files".toList _ _ _ _ (plain_names _ (by decide)) each body
  have body := members_seal inputSeal _ _ body
  have body := members_line 2 "schema".toList _ _ _ _ (plain_names _ (by decide))
    (denotes_quote schema) body
  have spaced := members_ahead ['\n'] _ _ feed body
  have framed := element_behind _ _ _ feed (element_bare _ _ (.object _ _ spaced))
  unfold render document
  dsimp only
  rw [files_written, foldl_totals, opened, closed, summary, fallbacks, ahead, behind]
  dsimp only
  rw [Nat.zero_add, Nat.zero_add]
  simp only [List.append_assoc, List.cons_append, List.nil_append, block_written]
  simpa only [named, memberLine, field, List.append_assoc, List.cons_append, List.nil_append]
    using framed

/-! What the document tells of the files. -/

theorem optNumber_injective (one two : Option Nat) (same : optNumber one = optNumber two) :
    one = two := by
  cases one with
  | none =>
    cases two with
    | none => rfl
    | some m => cases same
  | some n =>
    cases two with
    | none => cases same
    | some m => rw [number_injective n m same]

theorem optText_injective (one two : Option Str)
    (same : one.elim .null text = two.elim .null text) : one = two := by
  cases one with
  | none =>
    cases two with
    | none => rfl
    | some value => cases same
  | some value =>
    cases two with
    | none => cases same
    | some other => rw [text_injective value other same]

theorem lineKindStr_injective (one two : PatchLineKind) (same : lineKindStr one = lineKindStr two) :
    one = two := by
  revert same
  cases one <;> cases two <;> decide

/-- Which of two marks stand in a list tells both. -/
theorem marks_unique (first second : List Nat × Datum) (apart : first ≠ second) (a b a' b' : Bool)
    (same : (if a then [first] else []) ++ (if b then [second] else []) =
      (if a' then [first] else []) ++ (if b' then [second] else [])) : a = a' ∧ b = b' := by
  cases a <;> cases b <;> cases a' <;> cases b' <;> simp_all

theorem lineDatum_injective : Function.Injective lineDatum := by
  intro one two same
  unfold lineDatum at same
  have members := Datum.object.inj same
  simp only [named, List.cons_append, List.nil_append, List.append_assoc, List.cons.injEq,
    Prod.mk.injEq, true_and] at members
  obtain ⟨kind, oldLine, newLine, words, flags⟩ := members
  have kinds := lineKindStr_injective _ _ (text_injective _ _ kind)
  have texts := text_injective _ _ words
  rw [texts, ← List.append_assoc, ← List.append_assoc] at flags
  have apart : (utf16 "no_newline".toList, Datum.bool true) ≠
      (utf16 "lossy".toList, Datum.bool true) := by
    intro same
    exact absurd (utf16_injective _ _ (Prod.mk.inj same).1) (by decide)
  obtain ⟨noNewline, lossy⟩ := marks_unique _ _ apart _ _ _ _ (List.append_cancel_right flags)
  cases one
  cases two
  congr 1
  · exact optNumber_injective _ _ oldLine
  · exact optNumber_injective _ _ newLine

theorem hunkDatum_injective (path : Str) : Function.Injective (hunkDatum path) := by
  intro one two same
  unfold hunkDatum at same
  have members := Datum.object.inj same
  simp only [named, List.cons.injEq, Prod.mk.injEq, true_and, and_true] at members
  obtain ⟨id, oldStart, newStart, -, -, heading, -, -, lines⟩ := members
  cases one
  cases two
  congr 1
  · exact number_injective _ _ id
  · exact optNumber_injective _ _ oldStart
  · exact optNumber_injective _ _ newStart
  · exact optText_injective _ _ heading
  · exact List.map_injective_iff.2 lineDatum_injective (Datum.array.inj lines)

def told (file : ReviewFile) : Str × FileStatus × List Str × List PatchHunk :=
  (file.path, file.status, file.patchTwin.metadata, file.patchTwin.hunks)

theorem fileDatum_told (one two : ReviewFile) (same : fileDatum one = fileDatum two) :
    told one = told two := by
  unfold fileDatum at same
  obtain ⟨path, members⟩ := List.cons.inj (Datum.object.inj same)
  obtain ⟨status, members⟩ := List.cons.inj members
  have last := (List.append_inj' members (by simp only [List.length_cons])).2
  simp only [named, List.cons.injEq, Prod.mk.injEq, true_and, and_true] at path status last
  have paths := text_injective _ _ path
  have statuses := label_injective _ _ (text_injective _ _ status)
  have metadata := List.map_injective_iff.2 text_injective (Datum.array.inj last.2)
  have hunks := Datum.array.inj last.1
  rw [paths] at hunks
  have equal := List.map_injective_iff.2 (hunkDatum_injective two.path) hunks
  unfold told
  rw [paths, statuses, metadata, equal]

theorem map_told {α β γ : Type} (read : α → β) (tell : α → γ)
    (tells : ∀ one two, read one = read two → tell one = tell two) (items others : List α)
    (same : items.map read = others.map read) : items.map tell = others.map tell := by
  induction items generalizing others with
  | nil =>
    rw [List.map_eq_nil_iff.1 same.symm]
  | cons item rest ih =>
    obtain ⟨other, behind, rfl, head, tail⟩ := List.map_eq_cons_iff.1 same.symm
    rw [List.map_cons, List.map_cons, tells item other head.symm, ih behind tail.symm]

theorem document_told (files others : List ReviewFile) (inputSeal inputSeal' : Option InputSeal)
    (same : document files inputSeal = document others inputSeal') :
    files.map told = others.map told := by
  unfold document at same
  have members := (List.cons.inj (Datum.object.inj same)).2
  have last := (List.append_inj' members (by simp only [List.length_cons])).2
  simp only [named, List.cons.injEq, Prod.mk.injEq, true_and] at last
  exact map_told fileDatum told fileDatum_told files others (Datum.array.inj last.1)

def ownMember (member : List Nat × Datum) : Bool :=
  member.1 ≠ utf16 "input_sha256".toList && member.1 ≠ utf16 "tool".toList

def unsealed : Datum → Datum
  | .object members => .object (members.filter ownMember)
  | datum => datum

theorem filter_named (name : String) (first : name.toList ≠ "input_sha256".toList)
    (second : name.toList ≠ "tool".toList) (datum : Datum) (rest : List (List Nat × Datum)) :
    (named name datum :: rest).filter ownMember = named name datum :: rest.filter ownMember := by
  apply List.filter_cons_of_pos
  unfold ownMember named
  rw [Bool.and_eq_true, decide_eq_true_eq, decide_eq_true_eq]
  exact ⟨fun same => first (utf16_injective _ _ same),
    fun same => second (utf16_injective _ _ same)⟩

theorem filter_seal (inputSeal : InputSeal) : (sealMembers inputSeal).filter ownMember = [] := by
  rw [List.filter_eq_nil_iff]
  intro member listed own
  unfold ownMember at own
  rw [Bool.and_eq_true, decide_eq_true_eq, decide_eq_true_eq] at own
  unfold sealMembers named at listed
  rw [List.mem_cons, List.mem_singleton] at listed
  rcases listed with rfl | rfl
  · exact own.1 rfl
  · exact own.2 rfl

theorem unsealed_document (files : List ReviewFile) (inputSeal : Option InputSeal) :
    unsealed (document files inputSeal) = document files none := by
  have members : (inputSeal.elim [] sealMembers).filter ownMember = [] := by
    cases inputSeal with
    | none => rfl
    | some inputSeal => exact filter_seal inputSeal
  unfold document unsealed
  dsimp only
  rw [filter_named "schema" (by decide) (by decide), List.filter_append, members,
    filter_named "files" (by decide) (by decide), filter_named "summary" (by decide) (by decide),
    List.filter_nil]
  rfl

/-- The texts are JSON, each denotes its document and nothing else, the document tells the files,
and a seal only adds its own members. -/
theorem json_lossless :
    (∀ files datum, Element (toJson files) datum ↔ datum = document files none) ∧
    (∀ files inputSeal datum,
      Element (toJsonSealed files inputSeal) datum ↔ datum = document files (some inputSeal)) ∧
    (∀ files others inputSeal inputSeal',
      document files inputSeal = document others inputSeal' → files.map told = others.map told) ∧
    (∀ files inputSeal, unsealed (document files (some inputSeal)) = document files none) ∧
    ∀ file, (fileHazards file).Nodup ∧ ∀ hazard, hazard ∈ fileHazards file ↔
      hazard ∈ pathHazards file.path ∨
        ∃ old, oldPath file = some old ∧ hazard ∈ pathHazards old := by
  have exactly (files : List ReviewFile) (inputSeal : Option InputSeal) (datum : Datum) :
      Element (render files inputSeal) datum ↔ datum = document files inputSeal := by
    constructor
    · intro other
      exact element_functional _ _ _ other (element_render files inputSeal)
    · rintro rfl
      exact element_render files inputSeal
  exact ⟨fun files => exactly files none, fun files inputSeal => exactly files (some inputSeal),
    document_told, fun files inputSeal => unsealed_document files (some inputSeal),
    fileHazards_exact⟩

/-- A file moved out of a repository's own directory, its last line without a line feed. -/
def internalFile : ReviewFile where
  path := "y".toList
  status := .renamed
  patchTwin :=
    { binaryBody := []
      hunks :=
        [{ id := 0
           oldStart := some 1
           newStart := some 1
           sectionHeading := some "a \"b\"".toList
           lines :=
             [{ noNewline := false, lossy := false, kind := .removed, oldLine := some 1,
                newLine := none, text := "a\t".toList },
              { noNewline := true, lossy := true, kind := .added, oldLine := none,
                newLine := some 1, text := ['\uFFFD'] }] }]
      metadata := ["rename from .git/x".toList, "rename to y".toList]
      lossyLines := 1 }
  semanticTwin := none
  planner := ⟨.line, none, []⟩

theorem json_lossless_internal :
    (∀ datum, Element (toJson [internalFile]) datum ↔ datum = document [internalFile] none) ∧
      (∀ others, document others none = document [internalFile] none →
        others.map told = [told internalFile]) ∧
      "git_internal".toList ∈ fileHazards internalFile :=
  ⟨json_lossless.1 [internalFile],
    fun others => json_lossless.2.2.1 others [internalFile] none none,
    ((json_lossless.2.2.2.2 internalFile).2 _).2 (.inr ⟨".git/x".toList, by decide +kernel,
      by decide +kernel⟩)⟩

end DeepDiffForge.Patch.ReviewJson
