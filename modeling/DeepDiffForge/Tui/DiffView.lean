import DeepDiffForge.Lib.Windows
import DeepDiffForge.Projection.Pairing
import DeepDiffForge.Projection.Wrap
import DeepDiffForge.Tui.App
import DeepDiffForge.Tui.Paint
import DeepDiffForge.Tui.Tree

/-! The diff pane: the review as one document of rows, and the rows inside a viewport. -/

namespace DeepDiffForge.Tui
open Text Slices Windows DeepDiffForge.Core DeepDiffForge.Graph DeepDiffForge.Projection

def foldContext : Nat := 6

inductive GroundingLevel where
  | grounded | partiallyGrounded | ungrounded
  deriving DecidableEq

def GroundingLevel.label : GroundingLevel → Str
  | .grounded => "grounded".toList
  | .partiallyGrounded => "partially_grounded".toList
  | .ungrounded => "ungrounded".toList

def groundingOf (note : AgentAnnotation) : GroundingLevel :=
  if note.evidence.isEmpty then .ungrounded else .partiallyGrounded

/-- The label of a note's source: only the engine's own reserved id is the system's. -/
def sourceLabel (note : AgentAnnotation) : Str :=
  if note.agent = "deep-diff-forge/system".toList then "system".toList else "agent".toList

def fileAnnotations (annotations : List AgentAnnotation) (path : Str) : List AgentAnnotation :=
  annotations.filter fun note => note.anchor = .file path

def hunkAnnotations (annotations : List AgentAnnotation) (path : Str) (hunk : HunkId) :
    List AgentAnnotation :=
  annotations.filter fun note => note.anchor = .hunk path hunk

/-- A row as it is painted; painting faults where a cell would underflow. -/
abbrev Row := Except Fault Line

def rule (palette : Palette) (width : Nat) : Line :=
  [⟨List.replicate (max width 1) '─', plain.withFg palette.border⟩]

def hunkHeader (hunk : PatchHunk) (palette : Palette) : Line :=
  [⟨"@@ -".toList ++ decimal (hunk.oldStart.getD 0) ++ " +".toList ++
      decimal (hunk.newStart.getD 0) ++ " @@".toList,
    { plain.withFg palette.accent with dim := true }⟩]

def foldMarker (count : Nat) (palette : Palette) : Line :=
  [⟨"    ··· ".toList ++ decimal count ++ " unchanged line".toList ++
      (if count = 1 then [] else ['s']) ++ " ···".toList, plain.withFg palette.dim⟩]

def sectionHeader (file : ReviewFile) (selected : Bool) (palette : Palette) : Line :=
  let (add, del) := changeCounts file
  let (marker, pathColor) :=
    if selected then ("▌ ".toList, palette.accent) else ("  ".toList, palette.fg)
  [⟨marker, plain.withFg palette.accent⟩,
    safeSpan file.path { plain.withFg pathColor with bold := true },
    ⟨"  [".toList ++ file.status.label ++ "]".toList, plain.withFg palette.dim⟩,
    ⟨"  +".toList ++ decimal add, plain.withFg palette.added⟩,
    ⟨" -".toList ++ decimal del, plain.withFg palette.removed⟩]

def kindStyle (kind : PatchLineKind) (palette : Palette) : Char × Color × Option Color :=
  match kind with
  | .added => ('+', palette.added, some palette.addedBg)
  | .removed => ('-', palette.removed, some palette.removedBg)
  | .context => (' ', palette.fg, none)

def barSpan (kind : PatchLineKind) (palette : Palette) : Span :=
  match kind with
  | .added => ⟨"▌".toList, plain.withFg palette.added⟩
  | .removed => ⟨"▌".toList, plain.withFg palette.removed⟩
  | .context => ⟨" ".toList, plain⟩

def inlineTextWidth (width : Nat) : Nat := max (width - 15) 1

section
variable (terminal : Terminal) (highlight : Str → Str → List HighlightSpan)

def wrapWord (width : Nat) (state : List Str × Str) (word : Str) : List Str × Str :=
  let (lines, cur) := state
  if cur ≠ [] ∧ terminal.cellWidth cur + 1 + terminal.cellWidth word ≤ width then
    (lines, cur ++ [' '] ++ word)
  else
    let lines := if cur ≠ [] then lines ++ [cur] else lines
    let pieces := wrapCells terminal word width
    (lines ++ pieces.dropLast, pieces.getLast?.getD [])

def wrap (text : Str) (width : Nat) : List Str :=
  let (lines, cur) := (splitWhitespace text).foldl (wrapWord terminal (max width 1)) ([], [])
  let lines := if cur ≠ [] then lines ++ [cur] else lines
  if lines.isEmpty then [[]] else lines

/-- A note title's start and grounding label, fitted to a box of `w` cells. -/
def noteTitle (source anchor label : Str) (w : Nat) : Str × Str :=
  let room := w - (terminal.cellWidth label + 2)
  let head := "╭─ ".toList ++ source ++ " note · ".toList
  let full := head ++ anchor ++ " · ".toList
  let fixed := terminal.cellWidth head + 3 + 1
  if terminal.cellWidth full ≤ room then (full, label)
  else if fixed < room then
    (head ++ clipCells terminal anchor (room - fixed) ++ "… · ".toList, label)
  else
    let corner := "╭─ ".toList
    (corner, clipCells terminal label (w - (terminal.cellWidth corner + 2)))

def noteBox (note : AgentAnnotation) (palette : Palette) (width : Nat) : List Line :=
  let w := max width 16
  let inner := w - 4
  let noteStyle := plain.withFg palette.note
  let groundColor :=
    if groundingOf note = .grounded then palette.grounded else palette.ungrounded
  let anchor := displaySafe (baseOf (anchorPath note.anchor))
  let (start, label) := noteTitle terminal (sourceLabel note) anchor (groundingOf note).label w
  let dashes := w - (terminal.cellWidth start + terminal.cellWidth label + 2)
  [[⟨start, noteStyle⟩, ⟨label, plain.withFg groundColor⟩,
      ⟨[' '] ++ List.replicate dashes '─' ++ ['╮'], noteStyle⟩]] ++
    (wrap terminal (displaySafe note.body) inner).map (fun body =>
      [⟨"│ ".toList, noteStyle⟩, ⟨body, plain.withFg palette.fg⟩,
        ⟨spaces (inner - terminal.cellWidth body) ++ " │".toList, noteStyle⟩]) ++
    [[⟨['╰'] ++ List.replicate (w - 2) '─' ++ ['╯'], noteStyle⟩], []]

/-! Cells of a line. -/

def inlineRowChunk (path : Str) (line : PatchLine) (palette : Palette) (width : Nat) (text : Str)
    (continuation : Bool) : Line :=
  let (marker, fg, bg) := kindStyle line.kind palette
  let base := bg.elim plain plain.withBg
  let shown (number : Option Nat) : Str :=
    if continuation then [] else number.elim [] decimal
  let marker := if continuation then '↳' else marker
  let textWidth := inlineTextWidth width
  let used := terminal.cellWidth text
  [barSpan line.kind palette,
      ⟨rightAligned (shown line.oldLine) 5 ++ [' '], plain.withFg palette.dim⟩,
      ⟨rightAligned (shown line.newLine) 5 ++ [' '], plain.withFg palette.dim⟩,
      ⟨[marker, ' '], base.withFg fg⟩] ++
    themedSpans (highlight path) text palette base ++
    (if bg.isSome ∧ used < textWidth then [⟨spaces (textWidth - used), base⟩] else [])

def inlineRow (path : Str) (line : PatchLine) (palette : Palette) (width : Nat) : Line :=
  inlineRowChunk terminal highlight path line palette width (expandTabs (displaySafe line.text))
    false

def sideCell (path : Str) (cell : Option PatchLine) (rightSide : Bool) (palette : Palette)
    (col : Nat) : Row :=
  match cell with
  | none => pure [⟨spaces col, plain⟩]
  | some line => do
      let (marker, fg, bg) := kindStyle line.kind palette
      let base := bg.elim plain plain.withBg
      let number := if rightSide then line.newLine else line.oldLine
      let textWidth := max (col - 8) 1
      let shown ← fitCells terminal (displaySafe line.text) textWidth
      return [barSpan line.kind palette,
          ⟨rightAligned (number.elim [] decimal) 4 ++ [' '], plain.withFg palette.dim⟩,
          ⟨[marker, ' '], base.withFg fg⟩] ++
        themedSpans (highlight path) shown palette base

def sideRow (path : Str) (pair : Option PatchLine × Option PatchLine) (palette : Palette)
    (col : Nat) : Row := do
  let old ← sideCell terminal highlight path pair.1 false palette col
  let new ← sideCell terminal highlight path pair.2 true palette col
  return old ++ [⟨" │ ".toList, plain.withFg palette.border⟩] ++ new

/-- How many rows already-safe text wraps into; ASCII text is counted without segmenting it. -/
def chunkCount (safe : Str) (width : Nat) : Nat :=
  if safe.all fun c => c.toNat < 128 then
    let tabs := (Utf8.encode safe).countP (· = 9)
    let cells := (Utf8.encode safe).length + 3 * tabs
    max ((cells + max width 1 - 1) / max width 1) 1
  else (wrapCells terminal safe width).length

/-! Rows given to a sink. -/

section
variable (app : ReviewApp) (palette : Palette) (width : Nat)

def inlineRows (path : Str) (line : PatchLine) (sink : Sink Row) : Sink Row :=
  if !app.view.wrapLines then sink.push (.ok (inlineRow terminal highlight path line palette width))
  else
    let textWidth := inlineTextWidth width
    let safe := displaySafe line.text
    let count := chunkCount terminal safe textWidth
    if !sink.wants count then { sink with next := sink.next + count }
    else
      (wrapCells terminal safe textWidth).zipIdx.foldl (fun sink chunk => sink.push
        (.ok (inlineRowChunk terminal highlight path line palette width chunk.1 (0 < chunk.2)))) sink

def flushCtx {β : Type} (emit : β → Sink Row → Sink Row) (ctx : List β) (sink : Sink Row) :
    Sink Row :=
  if app.view.fold && foldContext < ctx.length then sink.push (.ok (foldMarker ctx.length palette))
  else ctx.foldl (fun sink item => emit item sink) sink

/-- One row for each line, `-` and `+` apart. -/
def pushInline (path : Str) (hunk : PatchHunk) (sink : Sink Row) : Sink Row :=
  let emit := inlineRows terminal highlight app palette width path
  sink.collect (fun line => decide (line.kind = .context)) (flushCtx app palette emit) emit []
    hunk.lines

def isContextPair (pair : Option PatchLine × Option PatchLine) : Bool :=
  pair.1.any (·.kind = .context)

/-- Removed and added runs zipped into rows of both sides. -/
def pushSide (path : Str) (hunk : PatchHunk) (sink : Sink Row) : Sink Row :=
  let col := (width - 3) / 2
  let emit (pair : Option PatchLine × Option PatchLine) (sink : Sink Row) :=
    sink.push (sideRow terminal highlight path pair palette col)
  sink.collect isContextPair (flushCtx app palette emit) emit [] (pairHunk hunk.lines)

def extendNotes (notes : List AgentAnnotation) (sink : Sink Row) : Sink Row :=
  if app.view.showNotes then
    notes.foldl (fun sink note => sink.extend ((noteBox terminal note palette width).map .ok)) sink
  else sink

def hunkRows (file : ReviewFile) (sink : Sink Row) (hunk : PatchHunk) : Sink Row :=
  let sink := extendNotes terminal app palette width
    (hunkAnnotations app.annotations file.path hunk.id) sink
  let sink := sink.push (.ok (hunkHeader hunk palette))
  if app.layout = .sideBySide then pushSide terminal highlight app palette width file.path hunk sink
  else pushInline terminal highlight app palette width file.path hunk sink

def fileSection (file : ReviewFile) (selected : Bool) (sink : Sink Row) : Sink Row :=
  let sink := sink.push (.ok (sectionHeader file selected palette))
  let sink := sink.push (.ok (rule palette width))
  let sink := extendNotes terminal app palette width
    (fileAnnotations app.annotations file.path) sink
  if file.patchTwin.hunks.isEmpty then
    sink.push (.ok (dimLine "(no textual diff)".toList palette))
  else sink.forUntilDone (hunkRows terminal highlight app palette width file) file.patchTwin.hunks

/-- The walk over the files from the `i`th on; with the parts of an earlier walk, one that ends
before the window is skipped. -/
def documentFrom (known : Option (List Window)) :
    Nat → List ReviewFile → Sink Row × List Window → Sink Row × List Window
  | _, [], state => state
  | i, file :: files, (sink, parts) =>
      if sink.done then (sink, parts)
      else
        let sink := if 0 < i then sink.push (.ok []) else sink
        let start := sink.next
        let walked := fileSection terminal highlight app palette width file (i = app.selected) sink
        let sink :=
          match known.bind (·[i]?) with
          | some part =>
              if part.stop ≤ sink.window.start then { sink with next := part.stop } else walked
          | none => walked
        documentFrom known (i + 1) files (sink, parts ++ [⟨start, sink.next⟩])

def document (known : Option (List Window)) (sink : Sink Row) : Sink Row × List Window :=
  if app.ranked = [] then (sink.push (.ok (dimLine "no files in review".toList palette)), [])
  else documentFrom terminal highlight app palette width known 0 app.content (sink, [])

/-- The whole review as one document, and where each file's part starts; `last` is the largest
machine word. -/
def diffDocument (last : Nat) : List Row × List Nat :=
  let (rows, parts) := document terminal highlight app palette width none (.new ⟨0, last⟩ false)
  (rows.lines, parts.map (·.start))

structure DocumentWindow where
  lines : List Row
  total : Nat
  offset : Nat

/-- The rows of the document from the selected file's start plus `delta`, at most `height`. -/
def diffWindow (last delta height : Nat) : DocumentWindow :=
  let (count, parts) := document terminal highlight app palette width none (.new ⟨0, 0⟩ false)
  let total := count.next
  let base := (parts[app.selected]?).elim 0 (·.start)
  let offset := min (min (base + delta) last) (total - 1)
  let (rows, _) := document terminal highlight app palette width (some parts)
    (.new ⟨offset, min (offset + height) last⟩ true)
  { lines := rows.lines, total, offset }

end

end

end DeepDiffForge.Tui
