import DeepDiffForge.Lib.Fallible
import DeepDiffForge.Tui.Session

/-! The rows of the file tree agree: what a window shows, where the selected file is, and which
file a row opens. -/

namespace DeepDiffForge.Tui
open Text Fallible Grouping Windows DeepDiffForge.Core DeepDiffForge.Graph

theorem windowRows_eq (window : Window) (row : Nat) (groups : List (Str × List Nat)) :
    windowRows window row groups = within window row (rows groups) := by
  induction groups generalizing row with
  | nil => rfl
  | cons entry groups ih =>
    obtain ⟨dir, indices⟩ := entry
    have split : rows ((dir, indices) :: groups) =
        .inl dir :: (indices.map .inr ++ rows groups) := List.flatMap_cons ..
    rw [windowRows]
    by_cases past : window.stop ≤ row
    · rw [if_pos past, within_outside window row _ (.inr past)]
    · have shown : ((indices.zipIdx (row + 1)).filter fun item => window.contains item.2).map
          (fun item => Sum.inr item.1) = (within window (row + 1) indices).map
            (.inr : Nat → Str ⊕ Nat) := by
        rw [within, List.map_map]
        rfl
      rw [if_neg past, split, within_cons, within_append, ih, List.length_map, within_map, shown,
        List.append_assoc]

theorem treeRows_nodup (app : ReviewApp) : (treeRows app).Nodup := by
  have whole := files_perm app
  rw [items_rows] at whole
  exact rows_nodup _ (Grouping.grouped _).distinct (whole.nodup_iff.2 List.nodup_range)

theorem file_placed (app : ReviewApp) (index : Nat) (below : index < app.ranked.length) :
    .inr index ∈ treeRows app := by
  have among := (files_perm app).mem_iff.2 (List.mem_range.2 below)
  obtain ⟨row, listed, right⟩ := List.mem_filterMap.1 among
  cases row with
  | inl dir => cases right
  | inr other =>
    obtain rfl := Option.some.inj right
    exact listed

theorem file_once (app : ReviewApp) (index : Nat) (below : index < app.ranked.length) :
    ∃! row : Nat, (treeRows app)[row]? = some (.inr index) := by
  obtain ⟨row, placed⟩ := List.getElem?_of_mem (file_placed app index below)
  refine ⟨row, placed, fun other again => ?_⟩
  obtain ⟨inside, -⟩ := List.getElem?_eq_some_iff.1 again
  exact (List.getElem?_inj inside (treeRows_nodup app)).1 (again.trans placed.symm)

theorem selectedRow_placed (app : ReviewApp) (below : app.selected < app.ranked.length) :
    (treeRows app)[selectedRow app]? = some (.inr app.selected) := by
  let stop (row : Nat) (item : Str ⊕ Nat) : Option Nat :=
    if item = .inr app.selected then some row else none
  have header (row : Nat) (dir : Str) : step stop row (.inl dir) = .ok (row + 1) := by
    rw [step, show stop row (.inl dir) = none from if_neg Sum.inl_ne_inr]
  have file : fileSelected app = fun row index => step stop row (.inr index) := by
    funext row index
    unfold fileSelected step
    by_cases here : index = app.selected <;> simp [stop, here]
  have loops : selectedRow app = ended ((treeRows app).foldlM (step stop) 0) 0 := by
    rw [← walk_groups, selectedRow, file]
    refine congrArg (fun f => ended ((grouped app).foldlM f 0) 0) ?_
    funext row entry
    rw [header row entry.1]
    rfl
  obtain ⟨before, after, split, first⟩ :=
    List.eq_append_cons_of_mem (file_placed app app.selected below)
  have ends : (treeRows app).foldlM (step stop) 0 = .error (0 + before.length) := by
    rw [split]
    refine walk_ends stop before after _ 0 _ (fun i item held => if_neg ?_) (if_pos rfl)
    rintro rfl
    exact first (List.mem_of_getElem? held)
  rw [loops, ends, ended, Nat.zero_add, split]
  rw [List.getElem?_append_right (le_refl _), Nat.sub_self]
  rfl

theorem fileIndexAtRow_selected (app : ReviewApp) (below : app.selected < app.ranked.length) :
    fileIndexAtRow app (selectedRow app) = some app.selected := by
  rw [fileIndexAtRow_eq, selectedRow_placed app below]
  rfl

theorem fileIndexAtRow_iff (app : ReviewApp) (row index : Nat) :
    fileIndexAtRow app row = some index ↔ (treeRows app)[row]? = some (.inr index) := by
  rw [fileIndexAtRow_eq]
  cases (treeRows app)[row]? with
  | none => simp
  | some item => cases item <;> simp

def wholeTree (app : ReviewApp) (palette : Palette) : Option (List Line) :=
  if app.ranked = [] then some [dimLine "no files".toList palette]
  else (treeRows app).mapM (treeLine app palette)

theorem treeLine_some (app : ReviewApp) (palette : Palette)
    (sizes : app.content.length = app.ranked.length) :
    ∀ row ∈ treeRows app, treeLine app palette row =
      some ((treeLine app palette row).getD []) := by
  intro row listed
  cases row with
  | inl dir => rfl
  | inr index =>
    obtain ⟨place, placed⟩ := List.getElem?_of_mem listed
    have below := file_listed app place index placed
    rw [treeLine, fileLine, List.getElem?_eq_getElem below,
      List.getElem?_eq_getElem (sizes ▸ below)]
    rfl

theorem treeWindow_eq (app : ReviewApp) (palette : Palette)
    (sizes : app.content.length = app.ranked.length) :
    ∃ lines, wholeTree app palette = some lines ∧ ∀ window, treeWindow app palette window =
      some ((lines.take window.stop).drop window.start) := by
  by_cases absent : app.ranked = []
  · refine ⟨_, if_pos absent, fun window => ?_⟩
    have row := within_eq window 0 [dimLine "no files".toList palette]
    rw [within_cons, within_nil, List.append_nil] at row
    rw [treeWindow, if_pos absent, row]
    rfl
  · have each := treeLine_some app palette sizes
    refine ⟨_, (if_neg absent).trans (mapM_some_map _ _ _ each), fun window => ?_⟩
    have inside (row : Str ⊕ Nat) (listed : row ∈ within window 0 (treeRows app)) :
        treeLine app palette row = some ((treeLine app palette row).getD []) := by
      rw [within_eq] at listed
      exact each row (List.mem_of_mem_take (List.mem_of_mem_drop listed))
    rw [treeWindow, if_neg absent, windowRows_eq, mapM_some_map _ _ _ inside, ← within_map, within_eq]
    rfl

/-- The groups of the tree: each directory once, with its files in rank order, and the
directories by their best-ranked files. -/
structure GroupedByRank (app : ReviewApp) (groups : List (Str × List Nat)) : Prop where
  distinct : (groups.map (·.1)).Nodup
  members : ∀ entry ∈ groups, entry.2 ≠ [] ∧
    entry.2 = (app.ranked.zipIdx.filter (dirOf ·.1.path = entry.1)).map (·.2)
  ordered : (groups.filterMap (·.2.head?)).Pairwise (· < ·)

theorem grouped_byRank (app : ReviewApp) : GroupedByRank app (grouped app) := by
  have made := Grouping.grouped (app.ranked.zipIdx.map fun file => (dirOf file.1.path, file.2))
  refine ⟨made.distinct, fun entry listed => ⟨made.filled entry listed, ?_⟩, ?_⟩
  · rw [made.members entry listed, List.filter_map, List.map_map]
    rfl
  · have heads := made.heads
    rw [indices_pairs] at heads
    exact List.pairwise_lt_range.sublist heads

/-- In every state of a session over distinct paths: windows show the rows of the one tree, every
file is at one of them, below its directory's header, and the hit test and the selected row agree
with what is shown there. -/
theorem tree_agrees (scan : Scan) (files : List ReviewFile)
    (run : Command → ReviewApp → CommandOutput) (annotations : List AgentAnnotation)
    (events : List AppEvent) (app : ReviewApp) (palette : Palette)
    (distinct : (files.map (·.path)).Nodup)
    (reached : ReviewApp.session scan files run annotations events = some app) :
    (∃ lines, wholeTree app palette = some lines ∧ ∀ window,
      treeWindow app palette window = some ((lines.take window.stop).drop window.start)) ∧
    (treeRows app = (grouped app).flatMap (fun entry => .inl entry.1 :: entry.2.map .inr) ∧
      GroupedByRank app (grouped app)) ∧
    (∀ index < app.ranked.length, ∃! row : Nat, (treeRows app)[row]? = some (.inr index)) ∧
    (∀ row index, fileIndexAtRow app row = some index ↔
      (treeRows app)[row]? = some (.inr index)) ∧
    (app.ranked ≠ [] → fileIndexAtRow app (selectedRow app) = some app.selected) ∧
    ∀ row, (app.selectTreeRow row).selected =
      ((treeRows app)[row]?.bind Sum.getRight?).getD app.selected := by
  obtain ⟨own, same, sound⟩ := ReviewApp.session_sound scan files run annotations events distinct
  obtain rfl : own = app := Option.some.inj (same.symm.trans reached)
  have sizes := congrArg List.length sound.aligned.paths
  rw [List.length_map, List.length_map] at sizes
  refine ⟨treeWindow_eq own palette sizes, ⟨rfl, grouped_byRank own⟩, file_once own,
    fileIndexAtRow_iff own, fun present => ?_, fun row => ?_⟩
  · rcases sound.selected with below | ⟨absent, -⟩
    · exact fileIndexAtRow_selected own below
    · exact absurd absent present
  · rw [← fileIndexAtRow_eq, ReviewApp.selectTreeRow]
    cases fileIndexAtRow own row <;> rfl

theorem tree_agrees_two :
    let files := [bareFile "a/x".toList, bareFile "b".toList]
    let run (_ : Command) (_ : ReviewApp) : CommandOutput := ⟨"rank".toList, []⟩
    ∃ app, ReviewApp.session lexical files run [] [.next, .selectTreeRow 1] = some app ∧
      (treeRows app)[selectedRow app]? = some (.inr app.selected) := by
  intro files run
  obtain ⟨app, reached, sound⟩ :=
    ReviewApp.session_sound lexical files run [] [.next, .selectTreeRow 1] (by decide)
  have agrees := tree_agrees lexical files run [] [.next, .selectTreeRow 1] app
    (.mono (.rgb 0 0 0)) (by decide) reached
  have count := sound.aligned.content.length_eq
  have sizes := congrArg List.length sound.aligned.paths
  rw [List.length_map, List.length_map, count] at sizes
  have nonempty : app.ranked ≠ [] := List.ne_nil_of_length_pos (sizes ▸ (by decide : 0 < 2))
  exact ⟨app, reached, (agrees.2.2.2.1 _ _).1 (agrees.2.2.2.2.1 nonempty)⟩

end DeepDiffForge.Tui
