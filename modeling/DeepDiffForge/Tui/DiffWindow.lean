import DeepDiffForge.Tui.DiffView

/-! The viewport's rows are those of the whole document: what each function gives to a sink, and
the two walks together. -/

namespace DeepDiffForge.Tui
open Text Slices Windows Sink DeepDiffForge.Core DeepDiffForge.Projection

theorem length_expandTabs_ascii (text : Str) (ascii : ∀ c ∈ text, c.toNat < 128) :
    (expandTabs text).length =
      (Utf8.encode text).length + 3 * (Utf8.encode text).countP (· = 9) := by
  induction text with
  | nil => rfl
  | cons c text ih =>
    have low := ascii c List.mem_cons_self
    have rest := ih fun other listed => ascii other (List.mem_cons_of_mem _ listed)
    have tab : UInt8.ofNat c.toNat = 9 ↔ c = '\t' := by
      constructor
      · intro same
        have value := congrArg UInt8.toNat same
        rw [UInt8.toNat_ofNat', Nat.mod_eq_of_lt (by omega)] at value
        exact Char.toNat_inj.1 value
      · rintro rfl
        rfl
    rw [expandTabs, List.flatMap_cons, List.length_append, ← expandTabs, rest, Utf8.encode_cons,
      Utf8.encodeChar_low c low, List.length_append, List.countP_append, List.length_singleton,
      List.countP_singleton]
    by_cases blank : c = '\t'
    · rw [if_pos blank, if_pos (decide_eq_true (tab.2 blank)), spaces, List.length_replicate]
      omega
    · rw [if_neg blank, if_neg (by rw [decide_eq_true_eq, tab]; exact blank), List.length_singleton]
      omega

theorem printable_expandTabs (text : Str) (ascii : ∀ c ∈ displaySafe text, c.toNat < 128) :
    ∀ c ∈ expandTabs (displaySafe text), Json.printable c = true := by
  intro c listed
  obtain ⟨source, among, shown⟩ := List.mem_flatMap.1 listed
  have low := ascii source among
  split at shown
  · rw [List.eq_of_mem_replicate shown]
    rfl
  · rename_i other
    obtain rfl := List.mem_singleton.1 shown
    have safe := shows_displaySafe text c among
    rw [shownSafely, Bool.and_eq_true, Bool.not_eq_true', isTerminalUnsafe, Bool.and_eq_false_iff]
      at safe
    rcases safe.1 with clear | tab
    · simp only [isControl, inRange, Bool.or_eq_false_iff, decide_eq_false_iff_not,
        Bool.and_eq_false_iff] at clear
      simp only [Json.printable, Bool.and_eq_true, decide_eq_true_eq]
      omega
    · simp [other] at tab

section
variable (terminal : Terminal) (highlight : Str → Str → List HighlightSpan)
  (ascii : AsciiCells terminal)

include ascii

/-- The count without segmenting is the number of lines. -/
theorem chunkCount_eq (text : Str) (width : Nat) : chunkCount terminal (displaySafe text) width =
      (wrapCells terminal (displaySafe text) width).length := by
  unfold chunkCount
  split
  · rename_i plain
    have low (c : Char) (listed : c ∈ displaySafe text) : c.toNat < 128 :=
      of_decide_eq_true (List.all_eq_true.1 plain c listed)
    rw [length_wrapCells_ascii terminal ascii _ width (printable_expandTabs text low),
      length_expandTabs_ascii _ low]
  · rfl

end

/-! The rows each part of the document has, built whole. -/

section
variable (terminal : Terminal) (highlight : Str → Str → List HighlightSpan) (app : ReviewApp)
  (palette : Palette) (width : Nat)

def lineRows (path : Str) (line : PatchLine) : List Row :=
  if !app.view.wrapLines then [.ok (inlineRow terminal highlight path line palette width)]
  else (wrapCells terminal (displaySafe line.text) (inlineTextWidth width)).zipIdx.map fun chunk =>
    .ok (inlineRowChunk terminal highlight path line palette width chunk.1 (0 < chunk.2))

def ctxRows {β : Type} (rowsOf : β → List Row) (ctx : List β) : List Row :=
  if app.view.fold && foldContext < ctx.length then [.ok (foldMarker ctx.length palette)]
  else ctx.flatMap rowsOf

def bodyRows (path : Str) (hunk : PatchHunk) : List Row :=
  if app.layout = .sideBySide then
    let rowsOf (pair : Option PatchLine × Option PatchLine) :=
      [sideRow terminal highlight path pair palette ((width - 3) / 2)]
    collectRows isContextPair (ctxRows app palette rowsOf) rowsOf [] (pairHunk hunk.lines)
  else
    let rowsOf := lineRows terminal highlight app palette width path
    collectRows (fun line => decide (line.kind = .context)) (ctxRows app palette rowsOf) rowsOf []
      hunk.lines

def notesRows (notes : List AgentAnnotation) : List Row :=
  if app.view.showNotes then notes.flatMap fun note => (noteBox terminal note palette width).map .ok
  else []

def oneHunkRows (file : ReviewFile) (hunk : PatchHunk) : List Row :=
  notesRows terminal app palette width (hunkAnnotations app.annotations file.path hunk.id) ++
    [.ok (hunkHeader hunk palette)] ++ bodyRows terminal highlight app palette width file.path hunk

def sectionRows (file : ReviewFile) (selected : Bool) : List Row :=
  [.ok (sectionHeader file selected palette)] ++ [.ok (rule palette width)] ++
    notesRows terminal app palette width (fileAnnotations app.annotations file.path) ++
    if file.patchTwin.hunks.isEmpty then [.ok (dimLine "(no textual diff)".toList palette)]
    else file.patchTwin.hunks.flatMap (oneHunkRows terminal highlight app palette width file)

def placedSection (i : Nat) (file : ReviewFile) : List Row :=
  (if 0 < i then [.ok []] else []) ++
    sectionRows terminal highlight app palette width file (i = app.selected)

def documentRows : Nat → List ReviewFile → List Row
  | _, [] => []
  | i, file :: files =>
      placedSection terminal highlight app palette width i file ++ documentRows (i + 1) files

/-- The part of each file, from the row `next` on. -/
def documentParts : Nat → Nat → List ReviewFile → List Window
  | _, _, [] => []
  | i, next, file :: files =>
      let start := if 0 < i then next + 1 else next
      let stop := start +
        (sectionRows terminal highlight app palette width file (i = app.selected)).length
      ⟨start, stop⟩ :: documentParts (i + 1) stop files

variable (ascii : AsciiCells terminal)

theorem takes_flushCtx {β : Type} (emit : β → Sink Row → Sink Row) (rowsOf : β → List Row)
    (emits : ∀ item sink, Takes sink (rowsOf item) (emit item sink)) (ctx : List β)
    (sink : Sink Row) :
    Takes sink (ctxRows app palette rowsOf ctx) (flushCtx app palette emit ctx sink) := by
  unfold ctxRows flushCtx
  split
  · exact Takes.push sink _
  · exact Takes.foldl _ rowsOf (fun sink item => emits item sink) ctx sink

theorem takes_extendNotes (notes : List AgentAnnotation) (sink : Sink Row) :
    Takes sink (notesRows terminal app palette width notes)
      (extendNotes terminal app palette width notes sink) := by
  unfold notesRows extendNotes
  split
  · exact Takes.foldl _ _ (fun sink _ => Takes.extend sink _) notes sink
  · exact Takes.nil sink

theorem documentFrom_done (known : Option (List Window)) (i : Nat) (files : List ReviewFile)
    (sink : Sink Row) (parts : List Window) (full : sink.done = true) :
    documentFrom terminal highlight app palette width known i files (sink, parts) =
      (sink, parts) := by
  cases files with
  | nil => rfl
  | cons file files => rw [documentFrom, if_pos full]

theorem takes_blank (i : Nat) (sink : Sink Row) :
    Takes sink (if 0 < i then [.ok []] else []) (if 0 < i then sink.push (.ok []) else sink) := by
  split
  · exact Takes.push sink _
  · exact Takes.nil sink

theorem next_blank (i : Nat) (sink : Sink Row) :
    (if 0 < i then sink.push (.ok []) else sink).next =
      if 0 < i then sink.next + 1 else sink.next := by
  split <;> rfl

theorem done_of_stop (sink : Sink Row) (counts : sink.stop = false) : sink.done = false := by
  rw [done, counts, Bool.false_and]

/-- Where a walk that begins at the first row ends up with its rows. -/
theorem lines_takes (window : Window) (stop : Bool) (rows : List Row) (after : Sink Row)
    (takes : Takes (.new window stop) rows after) :
    after.lines = (rows.take window.stop).drop window.start := by
  have lines := takes.lines
  rw [within_eq] at lines
  exact lines

def wholeRows : List Row :=
  if app.ranked = [] then [.ok (dimLine "no files in review".toList palette)]
  else documentRows terminal highlight app palette width 0 app.content

def wholeParts : List Window :=
  if app.ranked = [] then []
  else documentParts terminal highlight app palette width 0 0 app.content

include ascii

theorem takes_inlineRows (path : Str) (line : PatchLine) (sink : Sink Row) :
    Takes sink (lineRows terminal highlight app palette width path line)
      (inlineRows terminal highlight app palette width path line sink) := by
  unfold lineRows inlineRows
  split
  · exact Takes.push sink _
  · dsimp only
    rw [chunkCount_eq terminal ascii]
    split
    · rename_i unwanted
      rw [Bool.not_eq_true', wants, Bool.and_eq_false_iff, decide_eq_false_iff_not,
        decide_eq_false_iff_not] at unwanted
      have skipped := Takes.skip sink ((wrapCells terminal (displaySafe line.text)
        (inlineTextWidth width)).zipIdx.map fun chunk => Except.ok (ε := Fault)
          (inlineRowChunk terminal highlight path line palette width chunk.1 (0 < chunk.2)))
      rw [List.length_map, List.length_zipIdx] at skipped
      exact skipped (by omega)
    · rw [List.map_eq_flatMap]
      exact Takes.foldl _ _ (fun sink _ => Takes.push sink _) _ sink

theorem takes_body (path : Str) (hunk : PatchHunk) (sink : Sink Row) :
    Takes sink (bodyRows terminal highlight app palette width path hunk)
      (if app.layout = .sideBySide then
        pushSide terminal highlight app palette width path hunk sink
      else pushInline terminal highlight app palette width path hunk sink) := by
  unfold bodyRows
  split
  · exact Takes.collect _ _ _ _ _
      (takes_flushCtx app palette _ _ fun _ sink => Takes.push sink _)
      (fun _ sink => Takes.push sink _) [] _ sink
  · exact Takes.collect _ _ _ _ _
      (takes_flushCtx app palette _ _
        (takes_inlineRows terminal highlight app palette width ascii path))
      (takes_inlineRows terminal highlight app palette width ascii path) [] _ sink

theorem takes_hunkRows (file : ReviewFile) (sink : Sink Row) (hunk : PatchHunk) :
    Takes sink (oneHunkRows terminal highlight app palette width file hunk)
      (hunkRows terminal highlight app palette width file sink hunk) := by
  have notes := takes_extendNotes terminal app palette width
    (hunkAnnotations app.annotations file.path hunk.id) sink
  have header := notes.append _ _ _ _ _ (Takes.push _ (.ok (hunkHeader hunk palette)))
  exact header.append _ _ _ _ _
    (takes_body terminal highlight app palette width ascii file.path hunk _)

theorem takes_fileSection (file : ReviewFile) (selected : Bool) (sink : Sink Row) :
    Takes sink (sectionRows terminal highlight app palette width file selected)
      (fileSection terminal highlight app palette width file selected sink) := by
  have header := Takes.push sink (.ok (sectionHeader file selected palette))
  have ruled := header.append _ _ _ _ _ (Takes.push _ (.ok (rule palette width)))
  have notes := ruled.append _ _ _ _ _ (takes_extendNotes terminal app palette width
    (fileAnnotations app.annotations file.path) _)
  unfold sectionRows fileSection
  refine notes.append _ _ _ _ _ ?_
  split
  · exact Takes.push _ _
  · exact Takes.forUntilDone _ _
      (takes_hunkRows terminal highlight app palette width ascii file) _ _

theorem documentFrom_none (i : Nat) (files : List ReviewFile) (sink : Sink Row)
    (parts : List Window) (counts : sink.stop = false) :
    let walked := documentFrom terminal highlight app palette width none i files (sink, parts)
    Takes sink (documentRows terminal highlight app palette width i files) walked.1 ∧
      walked.2 = parts ++ documentParts terminal highlight app palette width i sink.next files := by
  induction files generalizing i sink parts with
  | nil => exact ⟨Takes.nil sink, (List.append_nil _).symm⟩
  | cons file files ih =>
    have blank := takes_blank i sink
    have sectionTaken := takes_fileSection terminal highlight app palette width ascii file
      (i = app.selected) (if 0 < i then sink.push (.ok []) else sink)
    have placed := blank.append _ _ _ _ _ sectionTaken
    have opened := placed.stop.trans counts
    have counted : _ = _ := sectionTaken.counted.resolve_right
      (Bool.eq_false_iff.1 (done_of_stop _ opened))
    rw [next_blank] at counted
    intro walked
    have step : walked = documentFrom terminal highlight app palette width none (i + 1) files
        (fileSection terminal highlight app palette width file (i = app.selected)
          (if 0 < i then sink.push (.ok []) else sink),
        parts ++ [⟨(if 0 < i then sink.push (.ok []) else sink).next,
          (fileSection terminal highlight app palette width file (i = app.selected)
            (if 0 < i then sink.push (.ok []) else sink)).next⟩]) := by
      change documentFrom terminal highlight app palette width none i (file :: files) _ = _
      rw [documentFrom, if_neg (Bool.eq_false_iff.1 (done_of_stop sink counts))]
      rfl
    obtain ⟨takes, found⟩ := ih (i + 1) _ (parts ++ [_]) opened
    rw [step]
    refine ⟨placed.append _ _ _ _ _ takes, found.trans ?_⟩
    rw [List.append_assoc, documentParts, counted, next_blank]
    rfl

/-- The walk that skips by the parts of the first, and may stop, keeps the rows of the window. -/
theorem takes_documentFrom (all : List Window) (i : Nat) (files : List ReviewFile)
    (sink : Sink Row) (parts : List Window)
    (known : all.drop i = documentParts terminal highlight app palette width i sink.next files) :
    Takes sink (documentRows terminal highlight app palette width i files)
      (documentFrom terminal highlight app palette width (some all) i files (sink, parts)).1 := by
  induction files generalizing i sink parts with
  | nil => exact Takes.nil sink
  | cons file files ih =>
    by_cases full : sink.done = true
    · rw [documentFrom_done terminal highlight app palette width _ _ _ _ _ full]
      exact Takes.of_done sink _ full
    · rw [documentFrom, if_neg full]
      have blank := takes_blank i sink
      have start := next_blank i sink
      generalize (if 0 < i then sink.push (.ok []) else sink) = opened at blank start
      have sectionTaken := takes_fileSection terminal highlight app palette width ascii file
        (i = app.selected) opened
      rw [documentParts, ← start] at known
      have own : all[i]? = some ⟨opened.next, opened.next +
          (sectionRows terminal highlight app palette width file (i = app.selected)).length⟩ := by
        have first := congrArg (·[0]?) known
        rwa [List.getElem?_drop, Nat.add_zero] at first
      have later := congrArg List.tail known
      rw [List.tail_drop, List.tail_cons] at later
      dsimp only [Option.bind_some]
      rw [own]
      dsimp only
      have rest (after : Sink Row) (more : List Window)
          (takes : Takes opened (sectionRows terminal highlight app palette width file
            (i = app.selected)) after) :
          Takes sink (documentRows terminal highlight app palette width i (file :: files))
            (documentFrom terminal highlight app palette width (some all) (i + 1) files
              (after, more)).1 := by
        refine (blank.append _ _ _ _ _ takes).append _ _ _ _ _ ?_
        by_cases full : after.done = true
        · rw [documentFrom_done terminal highlight app palette width _ _ _ _ _ full]
          exact Takes.of_done after _ full
        · exact ih (i + 1) after more (by rw [takes.counted.resolve_right full]; exact later)
      split
      · rename_i before
        exact rest _ _ (Takes.skip opened _ (.inl before))
      · exact rest _ _ sectionTaken

theorem takes_whole (sink : Sink Row) (counts : sink.stop = false) (first : sink.next = 0) :
    Takes sink (wholeRows terminal highlight app palette width)
        (document terminal highlight app palette width none sink).1 ∧
      (document terminal highlight app palette width none sink).2 =
        wholeParts terminal highlight app palette width := by
  unfold wholeRows wholeParts document
  split
  · exact ⟨Takes.push sink _, rfl⟩
  · obtain ⟨takes, parts⟩ := documentFrom_none terminal highlight app palette width ascii 0
      app.content sink [] counts
    rw [first] at parts
    exact ⟨takes, parts⟩

theorem takes_known (sink : Sink Row) (first : sink.next = 0) :
    Takes sink (wholeRows terminal highlight app palette width)
      (document terminal highlight app palette width
        (some (wholeParts terminal highlight app palette width)) sink).1 := by
  unfold wholeRows wholeParts document
  split
  · exact Takes.push sink _
  · exact takes_documentFrom terminal highlight app palette width ascii _ 0 app.content sink []
      (by rw [List.drop_zero, first])

/-- The viewport shows the rows of the whole document from its offset on, at most `height`. -/
theorem diffWindow_shows (delta height : Nat) :
    ∃ rows starts, ∀ last, rows.length ≤ last →
      diffDocument terminal highlight app palette width last = (rows, starts) ∧
      let shown := diffWindow terminal highlight app palette width last delta height
      shown.total = rows.length ∧
      shown.offset = min ((starts[app.selected]?).getD 0 + delta) (rows.length - 1) ∧
      shown.lines = (rows.take (shown.offset + height)).drop shown.offset := by
  refine ⟨wholeRows terminal highlight app palette width,
    (wholeParts terminal highlight app palette width).map (·.start), fun last fits => ⟨?_, ?_⟩⟩
  · obtain ⟨takes, parts⟩ := takes_whole terminal highlight app palette width ascii
      (.new ⟨0, last⟩ false) rfl rfl
    have lines := lines_takes _ _ _ _ takes
    rw [List.take_of_length_le fits, List.drop_zero] at lines
    exact Prod.ext lines (congrArg (List.map Window.start) parts)
  · intro shown
    obtain ⟨takes, parts⟩ := takes_whole terminal highlight app palette width ascii
      (.new ⟨0, 0⟩ false) rfl rfl
    have total : shown.total = (wholeRows terminal highlight app palette width).length := by
      have counted := takes.counted.resolve_right
        (Bool.eq_false_iff.1 (done_of_stop _ takes.stop))
      exact counted.trans (Nat.zero_add _)
    have offset : shown.offset = min (((wholeParts terminal highlight app palette width).map
        (·.start))[app.selected]?.getD 0 + delta)
          ((wholeRows terminal highlight app palette width).length - 1) := by
      have found : shown.offset = min (min (((document terminal highlight app palette width none
          (.new ⟨0, 0⟩ false)).2[app.selected]?.elim 0 (·.start)) + delta) last)
          (shown.total - 1) := rfl
      have base : ((wholeParts terminal highlight app palette width).map
          (·.start))[app.selected]?.getD 0 =
            (wholeParts terminal highlight app palette width)[app.selected]?.elim 0 (·.start) := by
        rw [List.getElem?_map]
        cases (wholeParts terminal highlight app palette width)[app.selected]? <;> rfl
      rw [found, parts, total, base, Nat.min_assoc, Nat.min_eq_right (a := last) (by omega)]
    refine ⟨total, offset, ?_⟩
    have window := takes_known terminal highlight app palette width ascii
      (.new ⟨shown.offset, min (shown.offset + height) last⟩ true) rfl
    rw [← parts] at window
    have lines := lines_takes _ _ _ _ window
    rw [← List.take_take, List.take_of_length_le fits] at lines
    exact lines

end

theorem beyyalTerminal_ascii : AsciiCells beyyalTerminal where
  graphemes _ _ := rfl
  cell c printable := by
    have other : c ≠ '\u17d8' := by
      rintro rfl
      revert printable
      decide
    simp [beyyalTerminal, other]

def replacingFile : ReviewFile :=
  { bareFile "a".toList with
    patchTwin :=
      { binaryBody := []
        hunks :=
          [{ id := 0
             oldStart := some 3
             newStart := some 3
             sectionHeading := none
             lines :=
               [{ noNewline := false, lossy := false, kind := .removed, oldLine := some 3,
                  newLine := none, text := "x".toList },
                { noNewline := false, lossy := false, kind := .added, oldLine := none,
                  newLine := some 3, text := "y".toList }] }]
        metadata := []
        lossyLines := 0 } }

def pairApp : ReviewApp :=
  { fromReviewWithAnnotations Graph.quietScan [replacingFile, bareFile "b".toList] [] with
    selected := 1 }

theorem pairApp_eq : pairApp =
    { fromReviewWithAnnotations Graph.quietScan [] [] with
      ranked :=
        [.scored Graph.quietScan replacingFile, .scored Graph.quietScan (bareFile "b".toList)]
      content := [replacingFile, bareFile "b".toList]
      viewed := [false, false]
      selected := 1 } := by
  have ordered : rankedFiles Graph.quietScan [replacingFile, bareFile "b".toList] =
      [replacingFile, bareFile "b".toList] :=
    List.mergeSort_of_pairwise (by decide +kernel)
  have aligned : alignedFiles Graph.quietScan [replacingFile, bareFile "b".toList] =
      [(.scored Graph.quietScan replacingFile, replacingFile),
        (.scored Graph.quietScan (bareFile "b".toList), bareFile "b".toList)] := by
    rw [alignedFiles, ← map_rankedFiles, ordered]
    rfl
  rw [pairApp, fromReviewWithAnnotations, aligned]
  rfl

/-- The viewport from the second file's rule on. -/
theorem diffWindow_shows_bare :
    let whole := diffDocument beyyalTerminal (fun _ _ => []) pairApp (.mono (.rgb 0 0 0)) 40 100
    let shown := diffWindow beyyalTerminal (fun _ _ => []) pairApp (.mono (.rgb 0 0 0)) 40 100 1 2
    whole.1.length = 9 ∧ whole.2 = [0, 6] ∧ shown.total = 9 ∧ shown.offset = 7 ∧
      shown.lines = (whole.1.take 9).drop 7 := by
  intro whole shown
  obtain ⟨rows, starts, shows⟩ := diffWindow_shows beyyalTerminal (fun _ _ => []) pairApp
    (.mono (.rgb 0 0 0)) 40 beyyalTerminal_ascii 1 2
  have counted : shown.total = 9 := by
    change (diffWindow _ _ pairApp _ _ _ _ _).total = 9
    rw [pairApp_eq]
    decide +kernel
  have begun : whole.2 = [0, 6] := by
    change (diffDocument _ _ pairApp _ _ _).2 = [0, 6]
    rw [pairApp_eq]
    decide +kernel
  have length : rows.length = 9 := (shows rows.length le_rfl).2.1.symm.trans counted
  obtain ⟨same, -, offset, lines⟩ := shows 100 (by omega)
  have own : whole = (rows, starts) := same
  rw [own] at begun ⊢
  obtain rfl : starts = [0, 6] := begun
  rw [length] at offset
  refine ⟨length, rfl, counted, offset, ?_⟩
  have here : shown.offset = 7 := offset
  rw [here] at lines
  exact lines

end DeepDiffForge.Tui
