import DeepDiffForge.Lib.Grouping
import DeepDiffForge.Lib.Windows
import DeepDiffForge.Tui.App
import DeepDiffForge.Tui.Paint

/-! The ranked file tree: the files of a directory under its header, and the rows of both. -/

namespace DeepDiffForge.Tui
open Text Grouping Windows DeepDiffForge.Core DeepDiffForge.Graph

/-- The directory of a path, empty for a root-level file. -/
def dirOf (path : Str) : Str :=
  if '/' ∈ path then ((path.reverse.dropWhile (· ≠ '/')).drop 1).reverse else []

/-- Ranked file indices by directory, in rank order across the groups and within each. -/
def grouped (app : ReviewApp) : List (Str × List Nat) :=
  group (app.ranked.zipIdx.map fun file => (dirOf file.1.path, file.2))

def noteCount (annotations : List AgentAnnotation) (path : Str) : Nat :=
  annotations.countP fun note => anchorPath note.anchor = path

def statusMarker : FileStatus → Char
  | .added => 'A'
  | .modified => 'M'
  | .deleted => 'D'
  | .renamed => 'R'
  | .copied => 'C'
  | .typeChanged => 'T'
  | .modeChanged => 'X'
  | .binaryChanged => 'B'
  | .unknown => '?'

def statusStyle (status : FileStatus) (palette : Palette) (base : Style) : Style :=
  base.withFg (match status with
    | .added => palette.added
    | .deleted => palette.removed
    | .modified | .renamed | .copied | .typeChanged | .modeChanged => palette.accent
    | .binaryChanged | .unknown => palette.dim)

def baseOf (path : Str) : Str := (path.reverse.takeWhile (· ≠ '/')).reverse

section
variable (app : ReviewApp) (palette : Palette)

def fileLine (index : Nat) : Option Line := do
  let rf ← app.ranked[index]?
  let file ← app.content[index]?
  let (add, del) := changeCounts file
  let notes := noteCount app.annotations rf.path
  let selected : Bool := index = app.selected
  let viewed := app.viewed[index]?.getD false
  let base := plain.withFg palette.fg
  let base := if selected then base.withBg palette.selectionBg else base
  let base := if viewed && !selected then { base with dim := true } else base
  return [⟨if selected then "▌".toList else " ".toList, base.withFg palette.accent⟩,
      ⟨if viewed then "✓ ".toList else "  ".toList, base.withFg palette.added⟩,
      ⟨[statusMarker rf.status, ' '], statusStyle rf.status palette base⟩,
      safeSpan (baseOf rf.path) base] ++
    (if 0 < add then [⟨"  +".toList ++ decimal add, base.withFg palette.added⟩] else []) ++
    (if 0 < del then [⟨" -".toList ++ decimal del, base.withFg palette.removed⟩] else []) ++
    (if 0 < notes then [⟨"  *".toList ++ decimal notes, base.withFg palette.note⟩] else []) ++
    [⟨"  ·".toList ++ decimal rf.score, base.withFg palette.dim⟩]

def headerLine (dir : Str) : Line :=
  [safeSpan (if dir = [] then "./".toList else dir ++ ['/'])
    { plain.withFg palette.dim with bold := true }]

def treeLine : Str ⊕ Nat → Option Line
  | .inl dir => some (headerLine palette dir)
  | .inr index => fileLine app palette index

/-- The rows of a directory and the directories after it that the window shows; the walk stops
before a directory past the window. -/
def windowRows (window : Window) : Nat → List (Str × List Nat) → List (Str ⊕ Nat)
  | _, [] => []
  | row, (dir, indices) :: groups =>
      if window.stop ≤ row then []
      else (if window.contains row then [.inl dir] else []) ++
        ((indices.zipIdx (row + 1)).filter fun item => window.contains item.2).map
          (fun item => .inr item.1) ++
        windowRows window (row + 1 + indices.length) groups

def treeWindow (window : Window) : Option (List Line) :=
  if app.ranked = [] then
    some (if window.contains 0 then [dimLine "no files".toList palette] else [])
  else (windowRows window 0 (grouped app)).mapM (treeLine app palette)

end

def headerAtRow (targetRow row : Nat) : Except (Option Nat) Nat :=
  if row = targetRow then .error none else .ok (row + 1)

def fileAtRow (targetRow row index : Nat) : Except (Option Nat) Nat :=
  if row = targetRow then .error (some index) else .ok (row + 1)

def fileIndexAtRow (app : ReviewApp) (targetRow : Nat) : Option Nat :=
  ended ((grouped app).foldlM (fun row entry => do
    let row ← headerAtRow targetRow row
    entry.2.foldlM (fileAtRow targetRow) row) 0) none

def fileSelected (app : ReviewApp) (row index : Nat) : Except Nat Nat :=
  if index = app.selected then .error row else .ok (row + 1)

def selectedRow (app : ReviewApp) : Nat :=
  ended ((grouped app).foldlM (fun row entry =>
    entry.2.foldlM (fileSelected app) (row + 1)) 0) 0

abbrev treeRows (app : ReviewApp) : List (Str ⊕ Nat) := rows (grouped app)

/-- The hit test answers with the file of the row, and with nothing elsewhere. -/
theorem fileIndexAtRow_eq (app : ReviewApp) (targetRow : Nat) :
    fileIndexAtRow app targetRow = (treeRows app)[targetRow]?.bind Sum.getRight? := by
  let stop (row : Nat) (item : Str ⊕ Nat) : Option (Option Nat) :=
    if row = targetRow then some item.getRight? else none
  have header (row : Nat) (dir : Str) : headerAtRow targetRow row = step stop row (.inl dir) := by
    unfold headerAtRow step
    by_cases here : row = targetRow <;> simp [stop, here]
  have file : fileAtRow targetRow = fun row index => step stop row (.inr index) := by
    funext row index
    unfold fileAtRow step
    by_cases here : row = targetRow <;> simp [stop, here]
  have loops : fileIndexAtRow app targetRow = ended ((treeRows app).foldlM (step stop) 0) none := by
    rw [← walk_groups, fileIndexAtRow, file]
    refine congrArg (fun f => ended ((grouped app).foldlM f 0) none) ?_
    funext row entry
    rw [header row entry.1]
  rw [loops, walk_to]
  cases (treeRows app)[targetRow]? <;> rfl

theorem indices_pairs (app : ReviewApp) :
    (app.ranked.zipIdx.map fun file => (dirOf file.1.path, file.2)).map (·.2) =
      List.range app.ranked.length := by
  rw [List.map_map, List.range_eq_range']
  exact List.zipIdx_map_snd ..

/-- The items of the rows are the ranked indices, each once. -/
theorem files_perm (app : ReviewApp) :
    ((treeRows app).filterMap Sum.getRight?).Perm (List.range app.ranked.length) := by
  rw [items_rows, ← indices_pairs]
  exact (Grouping.grouped _).perm

theorem file_listed (app : ReviewApp) (row index : Nat)
    (placed : (treeRows app)[row]? = some (.inr index)) : index < app.ranked.length := by
  have among : index ∈ (treeRows app).filterMap Sum.getRight? :=
    List.mem_filterMap.2 ⟨.inr index, List.mem_of_getElem? placed, rfl⟩
  exact List.mem_range.1 ((files_perm app).mem_iff.1 among)

theorem fileIndexAtRow_lt (app : ReviewApp) (row index : Nat)
    (found : fileIndexAtRow app row = some index) : index < app.ranked.length := by
  rw [fileIndexAtRow_eq] at found
  obtain ⟨item, placed, right⟩ := Option.bind_eq_some_iff.1 found
  cases item with
  | inl dir => cases right
  | inr other =>
    obtain rfl := Option.some.inj right
    exact file_listed app row other placed

end DeepDiffForge.Tui
