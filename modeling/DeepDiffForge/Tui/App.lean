import DeepDiffForge.Graph.Rank

/-! The review app: the ranked files with their content and flags, and how they are viewed. -/

namespace DeepDiffForge.Tui
open Text DeepDiffForge.Core DeepDiffForge.Graph

inductive AnnotationAnchor where
  | file (path : Str)
  | hunk (path : Str) (hunkId : HunkId)
  | semanticSpan (path : Str) (spanId : Nat)
  deriving DecidableEq, Repr

structure AgentAnnotation where
  anchor : AnnotationAnchor
  body : Str
  agent : Str
  evidence : List Str
  deriving DecidableEq, Repr

def anchorPath : AnnotationAnchor → Str
  | .file path => path
  | .hunk path _ => path
  | .semanticSpan path _ => path

inductive AppEvent where
  | quit | next | prev | toggleLayout | scrollUp | scrollDown | top | bottom | toggleFold
  | toggleWrap | toggleNotes | cycleTheme | focusSidebar | focusDiff | toggleViewed
  | selectTreeRow (row : Nat)
  | toggleHelp | openPalette | select | cancel | none
  deriving DecidableEq, Repr

inductive LayoutMode where
  | inline | sideBySide
  deriving DecidableEq, Repr

def LayoutMode.toggled : LayoutMode → LayoutMode
  | .inline => .sideBySide
  | .sideBySide => .inline

inductive ThemeKind where
  | dark | midnight | mono
  deriving DecidableEq, Repr

def ThemeKind.next : ThemeKind → ThemeKind
  | .dark => .midnight
  | .midnight => .mono
  | .mono => .dark

inductive Focus where
  | sidebar | diff
  deriving DecidableEq, Repr

inductive Overlay where
  | none | help | palette | panel
  deriving DecidableEq, Repr

structure ViewOptions where
  fold : Bool
  wrapLines : Bool
  showNotes : Bool
  deriving DecidableEq, Repr

inductive Command where
  | rank | outline | cluster | summary | notes | reviewJson | daemon | learning | maturity
  deriving DecidableEq, Repr

def Command.all : List Command :=
  [.rank, .outline, .cluster, .summary, .notes, .reviewJson, .daemon, .learning, .maturity]

structure CommandOutput where
  title : Str
  lines : List Str
  deriving DecidableEq, Repr

structure ReviewApp where
  ranked : List RankedFile
  content : List ReviewFile
  annotations : List AgentAnnotation
  viewed : List Bool
  selected : Nat
  scroll : Nat
  layout : LayoutMode
  theme : ThemeKind
  focus : Focus
  view : ViewOptions
  overlay : Overlay
  paletteIndex : Nat
  panel : CommandOutput
  panelScroll : Nat
  running : Bool

def alignedFiles (scan : Scan) (files : List ReviewFile) : List (RankedFile × ReviewFile) :=
  (rank scan files).filterMap fun r => (files.find? (·.path = r.path)).map fun file => (r, file)

def fromReviewWithAnnotations (scan : Scan) (files : List ReviewFile)
    (annotations : List AgentAnnotation) : ReviewApp where
  ranked := (alignedFiles scan files).map (·.1)
  content := (alignedFiles scan files).map (·.2)
  annotations := annotations
  viewed := List.replicate (alignedFiles scan files).length false
  selected := 0
  scroll := 0
  layout := .inline
  theme := .dark
  focus := .sidebar
  view := { fold := true, wrapLines := false, showNotes := true }
  overlay := .none
  paletteIndex := 0
  panel := { title := [], lines := [] }
  panelScroll := 0
  running := true

/-- The three vectors are of one length, and name the input files, each once, in rank order. -/
structure ReviewApp.Aligned (app : ReviewApp) (scan : Scan) (files : List ReviewFile) : Prop where
  ranked : app.ranked = rank scan files
  paths : app.content.map (·.path) = app.ranked.map (·.path)
  content : app.content.Perm files
  viewed : app.viewed.length = app.ranked.length

structure ReviewApp.Sound (app : ReviewApp) (scan : Scan) (files : List ReviewFile) : Prop where
  aligned : app.Aligned scan files
  selected : app.selected < app.ranked.length ∨ (app.ranked = [] ∧ app.selected = 0)
  palette : app.paletteIndex < Command.all.length

theorem find_own (files : List ReviewFile) (file : ReviewFile)
    (distinct : (files.map (·.path)).Nodup) (listed : file ∈ files) :
    files.find? (·.path = file.path) = some file := by
  cases found : files.find? (·.path = file.path) with
  | none =>
    have absent := List.find?_eq_none.1 found file listed
    exact absurd (decide_eq_true rfl) absent
  | some other =>
    have same : decide (other.path = file.path) = true :=
      List.find?_some (p := fun one : ReviewFile => decide (one.path = file.path)) found
    exact congrArg some (List.inj_on_of_nodup_map distinct (List.mem_of_find?_eq_some found) listed
      (of_decide_eq_true same))

def rankedFiles (scan : Scan) (files : List ReviewFile) : List ReviewFile :=
  files.mergeSort fun one two =>
    rankLe (RankedFile.scored scan one).key (RankedFile.scored scan two).key

theorem map_rankedFiles (scan : Scan) (files : List ReviewFile) :
    (rankedFiles scan files).map (RankedFile.scored scan) = rank scan files :=
  List.map_mergeSort fun _ _ _ _ => rfl

theorem alignedFiles_eq (scan : Scan) (files : List ReviewFile)
    (distinct : (files.map (·.path)).Nodup) :
    alignedFiles scan files =
      (rankedFiles scan files).map fun file => (RankedFile.scored scan file, file) := by
  have each (present : List ReviewFile) (within : ∀ file ∈ present, file ∈ files) :
      (present.map (RankedFile.scored scan)).filterMap
          (fun r => (files.find? (·.path = r.path)).map fun file => (r, file)) =
        present.map fun file => (RankedFile.scored scan file, file) := by
    induction present with
    | nil => rfl
    | cons file present ih =>
      have own : files.find? (·.path = (RankedFile.scored scan file).path) = some file :=
        find_own files file distinct (within file List.mem_cons_self)
      rw [List.map_cons, List.filterMap_cons, own, List.map_cons,
        ← ih fun other listed => within other (List.mem_cons_of_mem _ listed)]
      rfl
  rw [alignedFiles, ← map_rankedFiles]
  exact each _ fun file listed => (List.mergeSort_perm ..).mem_iff.1 listed

theorem aligned_fromReview (scan : Scan) (files : List ReviewFile)
    (annotations : List AgentAnnotation) (distinct : (files.map (·.path)).Nodup) :
    (fromReviewWithAnnotations scan files annotations).Aligned scan files := by
  have eq := alignedFiles_eq scan files distinct
  have ranked : (alignedFiles scan files).map (·.1) = rank scan files := by
    rw [eq, List.map_map]
    exact map_rankedFiles scan files
  have content : (alignedFiles scan files).map (·.2) = rankedFiles scan files := by
    rw [eq, List.map_map]
    exact List.map_id _
  refine ⟨ranked, ?_, ?_, ?_⟩
  · change ((alignedFiles scan files).map (·.2)).map (·.path) =
      ((alignedFiles scan files).map (·.1)).map (·.path)
    rw [content, ranked, ← map_rankedFiles, List.map_map]
    rfl
  · change ((alignedFiles scan files).map (·.2)).Perm files
    rw [content]
    exact List.mergeSort_perm ..
  · change (List.replicate _ false).length = ((alignedFiles scan files).map (·.1)).length
    rw [List.length_replicate, List.length_map]

theorem sound_fromReview (scan : Scan) (files : List ReviewFile)
    (annotations : List AgentAnnotation) (distinct : (files.map (·.path)).Nodup) :
    (fromReviewWithAnnotations scan files annotations).Sound scan files := by
  refine ⟨aligned_fromReview scan files annotations distinct, ?_, (by decide : 0 < 9)⟩
  cases present : (fromReviewWithAnnotations scan files annotations).ranked with
  | nil => exact .inr ⟨rfl, rfl⟩
  | cons first rest => exact .inl (Nat.succ_pos _)

def bareFile (path : Str) : ReviewFile where
  path := path
  status := .modified
  patchTwin := { binaryBody := [], hunks := [], metadata := [], lossyLines := 0 }
  semanticTwin := none
  planner := { strategy := .line, fallback := none, notes := [] }

end DeepDiffForge.Tui
