import DeepDiffForge.Patch.Extent
import DeepDiffForge.Projection.Inline
import DeepDiffForge.Projection.SideBySide
import Mathlib.Algebra.GroupWithZero.Nat

/-! What a review made of patches shows: nothing that steers a terminal, and inline nothing that
reads as anything but what it is. -/

namespace DeepDiffForge.Projection
open Text Blocks DeepDiffForge.Core

def ParserMade (file : ReviewFile) : Prop :=
  ∃ input byteLen lossy options files,
    Patch.parseLines input byteLen lossy options = .ok files ∧ file ∈ files

def Numbered (line : PatchLine) : Prop :=
  line.oldLine.isSome = line.onOldSide ∧ line.newLine.isSome = line.onNewSide

theorem numbered_body (line : Patch.BodyLine) (old new : Nat) : Numbered (line.patchLine old new) := by
  cases kind : line.kind <;>
    simp [Numbered, Patch.BodyLine.patchLine, PatchLine.onOldSide, PatchLine.onNewSide,
      Patch.onOld, Patch.onNew, kind]

theorem parserMade_hunk (file : ReviewFile) (made : ParserMade file) (hunk : PatchHunk)
    (listed : hunk ∈ file.patchTwin.hunks) :
    hunk.oldStart.isSome ∧ hunk.newStart.isSome ∧ ∀ line ∈ hunk.lines, Numbered line := by
  obtain ⟨_, _, _, _, files, accepted, member⟩ := made
  obtain ⟨-, -, doc, grown, reviewed⟩ := (Patch.parseLines_eq_ok _ _ _ _ _).1 accepted
  obtain ⟨part, -, base, review, ok, rfl⟩ :=
    Patch.reviewFrom_origin 0 doc.sections files reviewed file member
  rw [Patch.shiftFile_hunks base part review ok] at listed
  obtain ⟨source, -, own, rfl⟩ := Patch.mem_numberHunks base part.hunks hunk listed
  refine ⟨rfl, rfl, fun line held => ?_⟩
  obtain ⟨body, -, old, new, rfl⟩ := Patch.mem_numberBody _ _ _ line held
  exact numbered_body body old new

theorem noted_line (terminal : Terminal) (width : Nat) (lines : List PatchLine) (line : PatchLine)
    (pair : Option Nat) :
    ∀ note ∈ notesOf terminal width lines line pair, Shows note ∧ note.head? = some '\\' := by
  have lossy : Shows lossyNote := List.all_eq_true.1 (by decide)
  have unterminated : Shows noNewlineNote := List.all_eq_true.1 (by decide)
  have alike : Shows rendersAlikeNote := List.all_eq_true.1 (by decide)
  intro note listed
  rcases List.mem_append.1 listed with flag | same
  · rcases List.mem_append.1 flag with first | second
    · split_ifs at first
      · obtain rfl := List.mem_singleton.1 first
        exact ⟨lossy, rfl⟩
      · cases first
    · split_ifs at second
      · obtain rfl := List.mem_singleton.1 second
        exact ⟨unterminated, rfl⟩
      · cases second
  · split_ifs at same
    · obtain rfl := List.mem_singleton.1 same
      exact ⟨alike, rfl⟩
    · cases same

theorem fits_shownFile (terminal : Terminal) (file : ReviewFile) (made : ParserMade file) :
    ∀ hunk ∈ (shownFile terminal file).hunks, hunk.Fits (gutterWidth file) := by
  intro shown listed
  obtain ⟨hunk, held, rfl⟩ := List.mem_map.1 listed
  obtain ⟨old, new, numbered⟩ := parserMade_hunk file made hunk held
  refine ⟨⟨old, new⟩, fun line shownIn => ?_⟩
  obtain ⟨⟨source, pair⟩, zipped, rfl⟩ := List.mem_map.1 shownIn
  have among := (List.of_mem_zip zipped).1
  exact {
    old := (numbered source among).1
    new := (numbered source among).2
    oldFits := fun n number => length_le_gutterWidth file hunk source held among n (.inl number)
    newFits := fun n number => length_le_gutterWidth file hunk source held among n (.inr number)
    noted := fun note given => (noted_line terminal _ _ source pair note given).2 }

theorem shows_num (value : Option Nat) (width : Nat) : Shows (num value width) := by
  cases value with
  | none => exact shows_spaces width
  | some n => exact shows_rightAligned n width

theorem shows_markerOf (kind : PatchLineKind) : shownSafely (markerOf kind) = true := by
  cases kind <;> decide

/-- Every row of the inline layout shows safely. -/
theorem shows_fileBlock (terminal : Terminal) (file : ReviewFile) :
    Shows (fileBlock terminal file).1 ∧ ∀ row ∈ (fileBlock terminal file).2, Shows row := by
  refine ⟨shows_header file, fun row inside => ?_⟩
  obtain ⟨block, held, inside⟩ := List.mem_flatMap.1 inside
  obtain ⟨shown, among, rfl⟩ := List.mem_map.1 held
  obtain ⟨hunk, -, rfl⟩ := List.mem_map.1 among
  rcases List.mem_cons.1 inside with rfl | inside
  · have opening : Shows "  @@ -".toList := List.all_eq_true.1 (by decide)
    have middle : Shows " +".toList := List.all_eq_true.1 (by decide)
    have closing : Shows " @@".toList := List.all_eq_true.1 (by decide)
    exact shows_append _ _ (shows_append _ _ (shows_append _ _ (shows_append _ _ opening
      (shows_decimal _)) middle) (shows_decimal _)) closing
  · obtain ⟨line, lined, form⟩ := mem_lines _ _ row inside
    obtain ⟨⟨source, pair⟩, -, rfl⟩ := List.mem_map.1 lined
    rcases form with rfl | ⟨note, noted, rfl⟩
    · exact shows_append _ _ (shows_append _ _ (shows_spaces 2) (shows_num _ _))
        (shows_cons _ _ (by decide) (shows_append _ _ (shows_num _ _) (shows_cons _ _ (by decide)
          (shows_cons _ _ (shows_markerOf _) (shows_cons _ _ (by decide) (shows_displaySafe _))))))
    · exact shows_append _ _ (shows_append _ _ (shows_spaces 2) (shows_spaces _))
        (shows_cons _ _ (by decide) (noted_line terminal _ _ source pair note noted).1)

theorem shows_inline (terminal : Terminal) (files : List ReviewFile) :
    ∀ row ∈ laid (files.map (fileBlock terminal)), Shows row := by
  intro row listed
  obtain ⟨block, held, inside⟩ := List.mem_flatMap.1 listed
  obtain ⟨file, -, rfl⟩ := List.mem_map.1 held
  rcases List.mem_cons.1 inside with rfl | later
  · exact (shows_fileBlock terminal file).1
  · exact (shows_fileBlock terminal file).2 row later

/-- Rows that show safely, each with its line feed, keep everything unsafe from a reader. -/
theorem safe_unlines (rows : List Str) (safe : ∀ row ∈ rows, Shows row) :
    ∀ c ∈ unlines rows, isUnsafeInUntrustedText c = false := by
  intro c listed
  obtain ⟨row, held, inside⟩ := List.mem_flatMap.1 listed
  rcases List.mem_append.1 inside with shown | feed
  · have safely := safe row held c shown
    simp only [shownSafely, isTerminalUnsafe, isUnsafeInUntrustedText] at safely ⊢
    grind
  · obtain rfl := List.mem_singleton.1 feed
    decide

theorem splitLines_shown (rows : List Str) (safe : ∀ row ∈ rows, Shows row) :
    splitLines (unlines rows) = rows := by
  have lines := splitLines_unlines rows [] fun row listed feed =>
    absurd (safe row listed '\n' feed) (by decide)
  rw [List.append_nil] at lines
  exact lines.trans (List.append_nil rows)

theorem length_pairs (lines : List PatchLine) : (pairs lines).length = lines.length := by
  have run (i : Nat) (removed : List Nat) (next : Nat) (previous : PatchLineKind) :
      (pairsFrom i removed next previous lines).length = lines.length := by
    induction lines generalizing i removed next previous with
    | nil => rfl
    | cons line lines ih =>
      rw [pairsFrom]
      cases line.kind <;> simp [ih]
  exact run 0 [] 0 .context

theorem length_lines (width : Nat) (lines : List ShownLine) :
    (laid (lines.map (·.block width))).length =
      lines.length + (lines.flatMap (·.notes)).length := by
  induction lines with
  | nil => rfl
  | cons line lines ih =>
    rw [List.map_cons, laid_cons, List.length_cons, List.length_append, ih, List.flatMap_cons,
      List.length_append, List.length_cons, ShownLine.block, List.length_map]
    omega

theorem length_hunks (width : Nat) (hunks : List ShownHunk) :
    (laid (hunks.map (·.block width))).length = hunks.length + (hunks.flatMap (·.lines)).length +
      ((hunks.flatMap (·.lines)).flatMap (·.notes)).length := by
  induction hunks with
  | nil => rfl
  | cons hunk hunks ih =>
    have inner : (hunk.block width).2.length =
        hunk.lines.length + (hunk.lines.flatMap (·.notes)).length := length_lines width hunk.lines
    rw [List.map_cons, laid_cons, List.length_cons, List.length_append, ih, inner,
      List.flatMap_cons, List.flatMap_append, List.length_append, List.length_append,
      List.length_cons]
    omega

def notesIn (terminal : Terminal) (file : ReviewFile) : List Str :=
  ((shownFile terminal file).hunks.flatMap (·.lines)).flatMap (·.notes)

def rowsOf (terminal : Terminal) (file : ReviewFile) : Nat :=
  1 + file.patchTwin.hunks.length + (file.patchTwin.hunks.flatMap (·.lines)).length +
    (notesIn terminal file).length

theorem length_shownLines (terminal : Terminal) (width : Nat) (hunks : List PatchHunk) :
    ((hunks.map (shownHunk terminal width)).flatMap (·.lines)).length =
      (hunks.flatMap (·.lines)).length := by
  induction hunks with
  | nil => rfl
  | cons hunk hunks ih =>
    rw [List.map_cons, List.flatMap_cons, List.flatMap_cons, List.length_append,
      List.length_append, ih, shownHunk, List.length_map, List.length_zip, length_pairs,
      Nat.min_self]

theorem length_inline (terminal : Terminal) (files : List ReviewFile) :
    (laid (files.map (fileBlock terminal))).length = (files.map (rowsOf terminal)).sum := by
  induction files with
  | nil => rfl
  | cons file files ih =>
    have rows : (fileBlock terminal file).2.length + 1 = rowsOf terminal file := by
      have hunks := length_hunks (gutterWidth file) (shownFile terminal file).hunks
      have lines := length_shownLines terminal (gutterWidth file) file.patchTwin.hunks
      have count : (shownFile terminal file).hunks.length = file.patchTwin.hunks.length :=
        List.length_map ..
      have shown : (shownFile terminal file).hunks.flatMap (·.lines) =
          (file.patchTwin.hunks.map (shownHunk terminal (gutterWidth file))).flatMap (·.lines) := rfl
      rw [rowsOf, notesIn, ← lines, ← count, ← shown]
      refine (congrArg (· + 1) hunks).trans ?_
      omega
    rw [List.map_cons, laid_cons, List.length_cons, List.length_append, ih, List.map_cons,
      List.sum_cons, ← rows]
    omega

theorem headed_files (terminal : Terminal) (files : List ReviewFile) :
    Headed startsFile (files.map (fileBlock terminal)) := by
  intro block listed
  obtain ⟨file, -, rfl⟩ := List.mem_map.1 listed
  exact headed_file (gutterWidth file) (shownFile terminal file)

theorem files_unique (terminal : Terminal) (one two : List ReviewFile)
    (made : ∀ file ∈ one, ParserMade file) (made' : ∀ file ∈ two, ParserMade file)
    (same : one.map (fileBlock terminal) = two.map (fileBlock terminal)) :
    one.map (shownFile terminal) = two.map (shownFile terminal) := by
  induction one generalizing two with
  | nil => rw [(List.map_eq_nil_iff.1 same.symm)]
  | cons file one ih =>
    cases two with
    | nil => cases same
    | cons file' two =>
      rw [List.forall_mem_cons] at made made'
      obtain ⟨first, more⟩ := List.cons.inj same
      have shown := file_unique _ _ _ _ (four_le_gutterWidth file) (four_le_gutterWidth file')
        (fits_shownFile terminal file made.1) (fits_shownFile terminal file' made'.1) first
      rw [List.map_cons, List.map_cons, shown, ih two made.2 made'.2 more]

/-- Patch text cannot forge a rendered review. -/
theorem rendered_unforged (terminal : Terminal)
    (whole : ∀ text, (terminal.graphemes text).flatten = text) (one two : List ReviewFile)
    (made : ∀ file ∈ one, ParserMade file) (made' : ∀ file ∈ two, ParserMade file)
    (width : Nat) :
    (∀ c ∈ renderInline terminal one, isUnsafeInUntrustedText c = false) ∧
      (∀ out, renderSideBySide terminal one width = .ok out →
        ∀ c ∈ out, isUnsafeInUntrustedText c = false) ∧
      (splitLines (renderInline terminal one)).length = (one.map (rowsOf terminal)).sum ∧
      (renderInline terminal one = renderInline terminal two →
        one.map (shownFile terminal) = two.map (shownFile terminal)) := by
  have rows := shows_inline terminal one
  have rows' := shows_inline terminal two
  refine ⟨safe_unlines _ rows, fun out written => ?_, ?_, fun same => ?_⟩
  · obtain ⟨texts, rfl, safe⟩ := shows_renderSideBySide terminal whole one width out written
    exact safe_unlines texts safe
  · rw [renderInline, splitLines_shown _ rows, length_inline]
  · have laids := congrArg splitLines same
    rw [renderInline, renderInline, splitLines_shown _ rows, splitLines_shown _ rows'] at laids
    have blocks := laid_injective startsFile _ _ (headed_files terminal one)
      (headed_files terminal two) laids
    exact files_unique terminal one two made made' blocks

def plainTerminal : Terminal where
  graphemes text := text.map ([·])
  cellWidth text := text.length
  charWidth _ := some 1

def changedFile : ReviewFile where
  path := "x".toList
  status := .modified
  patchTwin :=
    { binaryBody := []
      hunks :=
        [{ id := 0
           oldStart := some 1
           newStart := some 1
           sectionHeading := none
           lines :=
             [{ noNewline := false, lossy := false, kind := .removed, oldLine := some 1,
                newLine := none, text := ['a'] },
              { noNewline := true, lossy := false, kind := .added, oldLine := none,
                newLine := some 1, text := ['b'] }] }]
      metadata := ["\\ No newline at end of file".toList]
      lossyLines := 0 }
  semanticTwin := none
  planner := { strategy := .line, fallback := none, notes := [] }

theorem changedFile_made : ParserMade changedFile :=
  ⟨"--- a/x\n+++ b/x\n@@ -1 +1 @@\n-a\n+b\n\\ No newline at end of file\n".toList, 62, [], {},
    [changedFile], by decide +kernel, List.mem_singleton_self _⟩

/-- The change whose new line ends in a byte that is no UTF-8, shown as U+FFFD. -/
def lossyFile : ReviewFile where
  path := "x".toList
  status := .modified
  patchTwin :=
    { binaryBody := []
      hunks :=
        [{ id := 0
           oldStart := some 1
           newStart := some 1
           sectionHeading := none
           lines :=
             [{ noNewline := false, lossy := false, kind := .removed, oldLine := some 1,
                newLine := none, text := ['a'] },
              { noNewline := false, lossy := true, kind := .added, oldLine := none,
                newLine := some 1, text := ['b', '\ufffd'] }] }]
      metadata := []
      lossyLines := 1 }
  semanticTwin := none
  planner := { strategy := .line, fallback := none, notes := [] }

theorem lossyFile_made : ParserMade lossyFile :=
  ⟨"--- a/x\n+++ b/x\n@@ -1 +1 @@\n-a\n+b\ufffd\n".toList, 35, [5], {}, [lossyFile],
    by decide +kernel, List.mem_singleton_self _⟩

theorem rendered_unforged_lossy :
    (∀ c ∈ renderInline plainTerminal [changedFile, lossyFile],
        isUnsafeInUntrustedText c = false) ∧
      (∀ out, renderSideBySide plainTerminal [changedFile, lossyFile] 60 = .ok out →
        ∀ c ∈ out, isUnsafeInUntrustedText c = false) ∧
      (splitLines (renderInline plainTerminal [changedFile, lossyFile])).length = 10 ∧
      renderInline plainTerminal [changedFile, lossyFile] ≠
        renderInline plainTerminal [changedFile, changedFile] := by
  have whole (text : Str) : (plainTerminal.graphemes text).flatten = text :=
    List.flatMap_singleton' text
  have made : ∀ file ∈ [changedFile, lossyFile], ParserMade file :=
    List.forall_mem_cons.2 ⟨changedFile_made, List.forall_mem_singleton.2 lossyFile_made⟩
  have other : ∀ file ∈ [changedFile, changedFile], ParserMade file :=
    List.forall_mem_cons.2 ⟨changedFile_made, List.forall_mem_singleton.2 changedFile_made⟩
  obtain ⟨inline, sideBySide, rows, unique⟩ := rendered_unforged plainTerminal whole
    [changedFile, lossyFile] [changedFile, changedFile] made other 60
  have count : ([changedFile, lossyFile].map (rowsOf plainTerminal)).sum = 10 := by
    decide +kernel
  have differ : shownFile plainTerminal lossyFile ≠ shownFile plainTerminal changedFile := by
    decide +kernel
  refine ⟨inline, sideBySide, rows.trans count, fun same => differ ?_⟩
  exact (List.cons.inj (List.cons.inj (unique same)).2).1

end DeepDiffForge.Projection
