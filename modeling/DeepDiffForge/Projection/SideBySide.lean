import DeepDiffForge.Lib.Fallible
import DeepDiffForge.Projection.Notes

/-! The side-by-side layout, and that nothing it prints steers a terminal or hides text. -/

namespace DeepDiffForge.Projection
open Text Slices Fallible DeepDiffForge.Core

structure SideCell where
  line : Nat
  marker : Char
  text : Str
  lossy : Bool
  noNewline : Bool
  deriving DecidableEq

structure SideRow where
  left : Option SideCell
  right : Option SideCell
  deriving DecidableEq

def cell (line : PatchLine) (marker : Char) : SideCell where
  line := (if marker = '-' then line.oldLine else line.newLine).getD 0
  marker := marker
  text := line.text
  lossy := line.lossy
  noNewline := line.noNewline

def contextRow (line : PatchLine) : SideRow where
  left := some { cell line ' ' with line := line.oldLine.getD 0 }
  right := some (cell line ' ')

def changeRows (removed added : List PatchLine) : List SideRow :=
  (List.range (max removed.length added.length)).map fun k =>
    { left := removed[k]?.map (cell · '-'), right := added[k]?.map (cell · '+') }

def hunkSideRows : List PatchLine → List SideRow
  | [] => []
  | line :: rest =>
      if line.kind = .context then contextRow line :: hunkSideRows rest
      else
        let removed := (line :: rest).takeWhile (·.kind = .removed)
        let later := (line :: rest).dropWhile (·.kind = .removed)
        changeRows removed (later.takeWhile (·.kind = .added)) ++
          hunkSideRows (later.dropWhile (·.kind = .added))
termination_by lines => lines.length
decreasing_by
  · exact Nat.lt_succ_self _
  · rename_i changed
    cases kind : line.kind with
    | context => exact absurd kind changed
    | removed =>
      have less := ((List.dropWhile_sublist (fun l : PatchLine => l.kind = .added)
        (l := rest.dropWhile (·.kind = .removed))).length_le).trans
          (List.dropWhile_sublist _).length_le
      rw [List.dropWhile_cons_of_pos (by simpa using kind)]
      exact Nat.lt_succ_of_le less
    | added =>
      have less := (List.dropWhile_sublist (fun l : PatchLine => l.kind = .added)
        (l := rest)).length_le
      rw [List.dropWhile_cons_of_neg (by simp [kind]), List.dropWhile_cons_of_pos (by simpa using kind)]
      exact Nat.lt_succ_of_le less

def sideRows (file : ReviewFile) : List SideRow :=
  file.patchTwin.hunks.flatMap fun hunk => hunkSideRows hunk.lines

/-- One cell: the line number, the marker, and the text in `width` cells. -/
def fmtCell (terminal : Terminal) (gutter width : Nat) : Option SideCell → Except Fault Str
  | some held => do
      let body ← sideShown terminal held.text width
      pure (rightAligned (decimal held.line) gutter ++ ' ' :: held.marker :: ' ' :: body)
  | none => do
      let body ← sideShown terminal [] width
      pure (spaces gutter ++ spaces 3 ++ body)

def fmtNote (terminal : Terminal) (gutter width : Nat) (note : Option Str) : Except Fault Str := do
  let body ← fitCells terminal (note.getD []) (width + 2)
  pure (spaces gutter ++ ' ' :: body)

def flagNote (row : SideRow) (note : Str) (flag : SideCell → Bool) :
    List (Option Str × Option Str) :=
  let (left, right) := (row.left.any flag, row.right.any flag)
  if left || right then [(if left then some note else none, if right then some note else none)]
  else []

def noteRows (terminal : Terminal) (row : SideRow) (width : Nat) :
    Except Fault (List (Option Str × Option Str)) := do
  let flags := flagNote row lossyNote (·.lossy) ++ flagNote row noNewlineNote (·.noNewline)
  match row.left, row.right with
  | some left, some right =>
      let alike ← rendersAlike terminal left.text right.text fun text =>
        sideShown terminal text width
      pure (flags ++ if alike then [(some rendersAlikeNote, some rendersAlikeNote)] else [])
  | _, _ => pure flags

def joined (left right : Except Fault Str) : Except Fault Str := do
  let left ← left
  let right ← right
  pure (left ++ " | ".toList ++ right)

def rowTexts (terminal : Terminal) (gutter width : Nat) (row : SideRow) :
    Except Fault (List Str) := do
  let text ← joined (fmtCell terminal gutter width row.left) (fmtCell terminal gutter width row.right)
  let notes ← noteRows terminal row width
  let noted ← notes.mapM fun note =>
    joined (fmtNote terminal gutter width note.1) (fmtNote terminal gutter width note.2)
  pure (text :: noted)

def fileTexts (terminal : Terminal) (width : Nat) (file : ReviewFile) : Except Fault (List Str) := do
  let rows ← (sideRows file).mapM (rowTexts terminal (gutterWidth file) width)
  pure ((file.status.label ++ "  ".toList ++ displaySafe file.path) :: rows.flatten)

def renderSideBySide (terminal : Terminal) (files : List ReviewFile) (width : Nat) :
    Except Fault Str := do
  let texts ← files.mapM (fileTexts terminal width)
  pure (unlines texts.flatten)

/-- Nothing of a text steers a terminal, hides or reorders text, or ends a line. -/
def Shows (text : Str) : Prop := ∀ c ∈ text, shownSafely c = true

theorem shows_append (one two : Str) (first : Shows one) (second : Shows two) :
    Shows (one ++ two) :=
  fun c listed => (List.mem_append.1 listed).elim (first c) (second c)

theorem shows_cons (c : Char) (text : Str) (first : shownSafely c = true) (rest : Shows text) :
    Shows (c :: text) :=
  List.forall_mem_cons.2 ⟨first, rest⟩

theorem shows_spaces (count : Nat) : Shows (spaces count) := by
  intro c listed
  rw [List.eq_of_mem_replicate listed]
  decide

theorem shows_decimal (n : Nat) : Shows (decimal n) :=
  fun c listed => shownSafely_printable c (Json.printable_of_plain c (Json.plain_decimal n c listed))

theorem shows_rightAligned (n width : Nat) : Shows (rightAligned (decimal n) width) :=
  shows_append _ _ (shows_spaces _) (shows_decimal n)

theorem shows_displaySafe (text : Str) : Shows (displaySafe text) := by
  intro c listed
  obtain ⟨source, -, rendered⟩ := List.mem_flatMap.1 listed
  exact shownSafely_displayChar source c rendered

theorem shows_label (status : FileStatus) : Shows status.label := by
  cases status <;> exact List.all_eq_true.1 (by decide)

theorem shows_header (file : ReviewFile) :
    Shows (file.status.label ++ "  ".toList ++ displaySafe file.path) :=
  shows_append _ _ (shows_append _ _ (shows_label _) (shows_spaces 2)) (shows_displaySafe _)

theorem shows_expandTabs (text : Str) (safe : Shows text) : Shows (expandTabs text) := by
  intro c listed
  obtain ⟨source, held, expanded⟩ := List.mem_flatMap.1 listed
  split_ifs at expanded with tab
  · exact shows_spaces 4 c expanded
  · obtain rfl := List.mem_singleton.1 expanded
    exact safe c held

theorem mem_clipFrom (terminal : Terminal) (width used : Nat) (graphemes : List Str) (c : Char)
    (listed : c ∈ clipFrom terminal width used graphemes) : c ∈ graphemes.flatten := by
  induction graphemes generalizing used with
  | nil => exact listed
  | cons grapheme rest ih =>
    rw [clipFrom] at listed
    split_ifs at listed with full
    · exact absurd listed List.not_mem_nil
    · rw [List.flatten_cons, List.mem_append]
      exact (List.mem_append.1 listed).imp id (ih _)

theorem shows_joined (left right : Except Fault Str) (out : Str)
    (first : ∀ text, left = .ok text → Shows text) (second : ∀ text, right = .ok text → Shows text)
    (written : joined left right = .ok out) : Shows out := by
  obtain ⟨one, left', rest⟩ := (bind_eq_ok _ _ _).1 written
  obtain ⟨two, right', rest⟩ := (bind_eq_ok _ _ _).1 rest
  obtain rfl := Except.ok.inj rest
  exact shows_append _ _ (shows_append _ _ (first one left')
    (List.all_eq_true.1 (by decide : " | ".toList.all shownSafely = true))) (second two right')

def Marked (held : Option SideCell) : Prop := ∀ side ∈ held, shownSafely side.marker = true

theorem marked_cell (lines : List PatchLine) (marker : Char) (safe : shownSafely marker = true)
    (k : Nat) : Marked (lines[k]?.map (cell · marker)) := by
  intro side held
  obtain ⟨line, -, rfl⟩ := Option.map_eq_some_iff.1 held
  exact safe

/-- No marker is more than a space or a sign. -/
theorem marked_hunkSideRows (lines : List PatchLine) :
    ∀ row ∈ hunkSideRows lines, Marked row.left ∧ Marked row.right := by
  induction lines using hunkSideRows.induct with
  | case1 => exact fun row listed => absurd listed (by rw [hunkSideRows]; exact List.not_mem_nil)
  | case2 line rest context ih =>
    intro row listed
    rw [hunkSideRows, if_pos context] at listed
    rcases List.mem_cons.1 listed with rfl | later
    · exact ⟨fun side held => Option.some.inj held ▸ rfl, fun side held => Option.some.inj held ▸ rfl⟩
    · exact ih row later
  | case3 line rest changed later ih =>
    intro row listed
    rw [hunkSideRows, if_neg changed] at listed
    rcases List.mem_append.1 listed with block | other
    · obtain ⟨k, -, rfl⟩ := List.mem_map.1 block
      exact ⟨marked_cell _ _ (by decide) k, marked_cell _ _ (by decide) k⟩
    · exact ih row other

section Safe

variable (terminal : Terminal) (whole : ∀ text, (terminal.graphemes text).flatten = text)
include whole

theorem shows_fitCells (text out : Str) (width : Nat) (safe : Shows text)
    (fitted : fitCells terminal text width = .ok out) : Shows out := by
  obtain ⟨padding, -, rest⟩ := (bind_eq_ok _ _ _).1 fitted
  obtain rfl := Except.ok.inj rest
  refine shows_append _ _ (fun c listed => ?_) (shows_spaces padding)
  have inside := mem_clipFrom terminal width 0 _ c listed
  rw [whole] at inside
  exact shows_expandTabs text safe c inside

theorem shows_fmtCell (gutter width : Nat) (held : Option SideCell) (out : Str)
    (marked : Marked held) (written : fmtCell terminal gutter width held = .ok out) :
    Shows out := by
  cases held with
  | none =>
    obtain ⟨body, shown, rest⟩ := (bind_eq_ok _ _ _).1 written
    obtain rfl := Except.ok.inj rest
    exact shows_append _ _ (shows_append _ _ (shows_spaces _) (shows_spaces _))
      (shows_fitCells terminal whole _ body width (shows_displaySafe _) shown)
  | some side =>
    obtain ⟨body, shown, rest⟩ := (bind_eq_ok _ _ _).1 written
    obtain rfl := Except.ok.inj rest
    have text := shows_fitCells terminal whole _ body width (shows_displaySafe _) shown
    exact shows_append _ _ (shows_rightAligned _ _) (shows_cons _ _ (by decide)
      (shows_cons _ _ (marked side rfl) (shows_cons _ _ (by decide) text)))

theorem shows_fmtNote (gutter width : Nat) (note : Option Str) (out : Str)
    (safe : ∀ text ∈ note, Shows text) (written : fmtNote terminal gutter width note = .ok out) :
    Shows out := by
  obtain ⟨body, shown, rest⟩ := (bind_eq_ok _ _ _).1 written
  obtain rfl := Except.ok.inj rest
  have text : Shows (note.getD []) := by
    cases note with
    | none => exact fun _ listed => absurd listed List.not_mem_nil
    | some text => exact safe text rfl
  exact shows_append _ _ (shows_spaces _)
    (shows_cons _ _ (by decide) (shows_fitCells terminal whole _ body _ text shown))

def PlainNote (note : Option Str × Option Str) : Prop :=
  (∀ text ∈ note.1, Shows text) ∧ ∀ text ∈ note.2, Shows text

omit whole in
theorem plain_flagNote (row : SideRow) (note : Str) (flag : SideCell → Bool) (safe : Shows note) :
    ∀ pair ∈ flagNote row note flag, PlainNote pair := by
  have either (set : Bool) : ∀ text ∈ (if set then some note else none), Shows text := by
    intro text held
    cases set with
    | true => exact Option.some.inj held ▸ safe
    | false => cases held
  intro pair listed
  unfold flagNote at listed
  dsimp only at listed
  by_cases carried : (row.left.any flag || row.right.any flag) = true
  · rw [if_pos carried] at listed
    obtain rfl := List.mem_singleton.1 listed
    exact ⟨either _, either _⟩
  · rw [if_neg carried] at listed
    cases listed

omit whole in
theorem plain_noteRows (row : SideRow) (width : Nat) (notes : List (Option Str × Option Str))
    (written : noteRows terminal row width = .ok notes) : ∀ pair ∈ notes, PlainNote pair := by
  have flags : ∀ pair ∈ flagNote row lossyNote (·.lossy) ++ flagNote row noNewlineNote (·.noNewline),
      PlainNote pair := by
    intro pair listed
    rcases List.mem_append.1 listed with lossy | unterminated
    · exact plain_flagNote row _ _ (List.all_eq_true.1 (by decide)) pair lossy
    · exact plain_flagNote row _ _ (List.all_eq_true.1 (by decide)) pair unterminated
  have alike : Shows rendersAlikeNote := List.all_eq_true.1 (by decide)
  intro pair listed
  unfold noteRows at written
  dsimp only at written
  split at written
  · obtain ⟨same, -, rest⟩ := (bind_eq_ok _ _ _).1 written
    obtain rfl := Except.ok.inj rest
    rcases List.mem_append.1 listed with flag | added
    · exact flags pair flag
    · split_ifs at added
      · obtain rfl := List.mem_singleton.1 added
        exact ⟨fun text held => Option.some.inj held ▸ alike,
          fun text held => Option.some.inj held ▸ alike⟩
      · cases added
  · obtain rfl := Except.ok.inj written
    exact flags pair listed

theorem shows_rowTexts (gutter width : Nat) (row : SideRow) (texts : List Str)
    (left : Marked row.left) (right : Marked row.right)
    (written : rowTexts terminal gutter width row = .ok texts) : ∀ text ∈ texts, Shows text := by
  obtain ⟨first, cells, rest⟩ := (bind_eq_ok _ _ _).1 written
  obtain ⟨notes, noting, rest⟩ := (bind_eq_ok _ _ _).1 rest
  obtain ⟨noted, noteTexts, rest⟩ := (bind_eq_ok _ _ _).1 rest
  obtain rfl := Except.ok.inj rest
  intro text listed
  rcases List.mem_cons.1 listed with rfl | later
  · exact shows_joined _ _ _ (fun out => shows_fmtCell terminal whole gutter width _ out left)
      (fun out => shows_fmtCell terminal whole gutter width _ out right) cells
  · obtain ⟨note, held, wrote⟩ := results_of_forall₂ _ _ _ (mapM_ok _ _ _ noteTexts) text later
    have plain := plain_noteRows terminal row width notes noting note held
    exact shows_joined _ _ _ (fun out => shows_fmtNote terminal whole gutter width _ out plain.1)
      (fun out => shows_fmtNote terminal whole gutter width _ out plain.2) wrote

theorem shows_fileTexts (width : Nat) (file : ReviewFile) (texts : List Str)
    (written : fileTexts terminal width file = .ok texts) : ∀ text ∈ texts, Shows text := by
  obtain ⟨rows, rowed, rest⟩ := (bind_eq_ok _ _ _).1 written
  obtain rfl := Except.ok.inj rest
  intro text listed
  rcases List.mem_cons.1 listed with rfl | later
  · exact shows_header file
  · obtain ⟨group, held, inside⟩ := List.mem_flatten.1 later
    obtain ⟨row, among, wrote⟩ := results_of_forall₂ _ _ _ (mapM_ok _ _ _ rowed) group held
    obtain ⟨hunk, -, placed⟩ := List.mem_flatMap.1 among
    obtain ⟨left, right⟩ := marked_hunkSideRows hunk.lines row placed
    exact shows_rowTexts terminal whole _ width row group left right wrote text inside

/-- Everything the side-by-side layout prints shows safely. -/
theorem shows_renderSideBySide (files : List ReviewFile) (width : Nat) (out : Str)
    (written : renderSideBySide terminal files width = .ok out) :
    ∃ texts, out = unlines texts ∧ ∀ text ∈ texts, Shows text := by
  obtain ⟨texts, each, rest⟩ := (bind_eq_ok _ _ _).1 written
  obtain rfl := Except.ok.inj rest
  refine ⟨_, rfl, fun text listed => ?_⟩
  obtain ⟨group, held, inside⟩ := List.mem_flatten.1 listed
  obtain ⟨file, -, wrote⟩ := results_of_forall₂ _ _ _ (mapM_ok _ _ _ each) group held
  exact shows_fileTexts terminal whole width file group wrote text inside

end Safe

end DeepDiffForge.Projection
