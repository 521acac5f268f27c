import DeepDiffForge.Patch.Rules

/-! What the parser holds for a section and its open hunk, and how a line changes it. -/

namespace DeepDiffForge.Patch
open Text DeepDiffForge.Core

theorem numberBody_append (old new : Nat) (first second : List BodyLine) :
    numberBody old new (first ++ second) =
      numberBody old new first ++
        numberBody (old + oldUsed first) (new + newUsed first) second := by
  induction first generalizing old new with
  | nil => rfl
  | cons line first ih =>
    simp only [List.cons_append, numberBody, ih, oldUsed, newUsed, List.countP_cons]
    congr 3 <;> split_ifs <;> omega

theorem patchLines_add (hunk : HunkText) (line : BodyLine) :
    (hunk.add line).patchLines = hunk.patchLines ++
      [line.patchLine (hunk.header.oldStart + oldUsed hunk.body)
        (hunk.header.newStart + newUsed hunk.body)] := by
  simp only [HunkText.patchLines, HunkText.add, numberBody_append, numberBody]

theorem numberHunks_append (id : HunkId) (first second : List HunkText) :
    numberHunks id (first ++ second) =
      numberHunks id first ++ numberHunks (id + first.length) second := by
  induction first generalizing id with
  | nil => rfl
  | cons hunk first ih =>
    simp only [List.cons_append, numberHunks, ih, List.length_cons]
    rw [Nat.add_right_comm, Nat.add_assoc]

theorem shiftHunks_numberHunks (base id : HunkId) (hunks : List HunkText) :
    shiftHunks base (numberHunks id hunks) = numberHunks (id + base) hunks := by
  induction hunks generalizing id with
  | nil => rfl
  | cons hunk hunks ih =>
    have rest := ih (id + 1)
    simp only [shiftHunks] at rest
    simp only [numberHunks, shiftHunks, List.map_cons, rest, HunkText.patch]
    rw [Nat.add_right_comm]

theorem numberHunks_eq_nil (id : HunkId) (hunks : List HunkText) :
    numberHunks id hunks = [] ↔ hunks = [] := by
  cases hunks <;> simp [numberHunks]

def HunkText.buf (hunk : HunkText) (id : HunkId) : HunkBuf where
  id := id
  sectionHeading := hunk.header.sectionHeading
  oldStart := hunk.header.oldStart
  newStart := hunk.header.newStart
  oldLine := min (hunk.header.oldStart + oldUsed hunk.body) u32Max
  newLine := min (hunk.header.newStart + newUsed hunk.body) u32Max
  remOld := hunk.header.oldCount - oldUsed hunk.body
  remNew := hunk.header.newCount - newUsed hunk.body
  lines := hunk.patchLines

theorem saturatingAdd_min (value : Nat) :
    saturatingAdd (min value u32Max) 1 = min (value + 1) u32Max := by
  simp only [saturatingAdd]
  omega

theorem oldUsed_add (hunk : HunkText) (line : BodyLine) :
    oldUsed (hunk.add line).body = oldUsed hunk.body + if onOld line.kind then 1 else 0 := by
  simp only [oldUsed, HunkText.add, List.countP_append, List.countP_singleton]

theorem newUsed_add (hunk : HunkText) (line : BodyLine) :
    newUsed (hunk.add line).body = newUsed hunk.body + if onNew line.kind then 1 else 0 := by
  simp only [newUsed, HunkText.add, List.countP_append, List.countP_singleton]

theorem buf_take (hunk : HunkText) (line : BodyLine) (id : HunkId) (unmarked : line.marker = none)
    (clean : line.lossy = false) :
    (hunk.buf id).take line.kind line.text.tail = (hunk.add line).buf id := by
  have header : (hunk.add line).header = hunk.header := rfl
  simp only [HunkBuf.take, HunkText.buf, patchLines_add, BodyLine.patchLine, bodyLine, unmarked,
    clean, Option.isSome_none, header, oldUsed_add, newUsed_add, HunkBuf.mk.injEq, true_and,
    saturatingAdd_min]
  refine ⟨?_, ?_, ?_, ?_, trivial⟩ <;> split_ifs <;> omega

theorem lossyCount_grows (part grown : Section) (input : InputLine)
    (grows : part.Grows input grown) (shaped : part.Shaped) :
    grown.lossyCount = part.lossyCount + if input.lossy then 1 else 0 := by
  rw [Section.lossyCount, lines_grows part grown input grows shaped, List.countP_append,
    List.countP_singleton]
  rfl

theorem moved_extended (part : Section) (line start : Str) :
    Section.moved { part with extended := part.extended ++ [line] } start =
      ((stripPrefix start (trimmed line)).map movedPath).getD (part.moved start) := by
  simp only [Section.moved, Section.headers, List.map_append, List.filterMap_append,
    List.map_cons, List.map_nil]
  cases found : stripPrefix start (trimmed line) with
  | none => simp [found]
  | some path => simp [found]

def FileBuf.counting (file : FileBuf) (lossy : Bool) : FileBuf :=
  { file with lossyLines := if lossy then saturatingAdd file.lossyLines 1 else file.lossyLines }

theorem min_lossyCount (count : Nat) (lossy : Bool) :
    min (count + if lossy = true then 1 else 0) u32Max =
      if lossy = true then saturatingAdd (min count u32Max) 1 else min count u32Max := by
  cases lossy
  · rfl
  · simp only [if_true, saturatingAdd_min]

theorem buf_extended (part : Section) (line : Str) (shaped : part.Shaped) (git : part.git = true)
    (early : part.past = false) (unbroken : part.trailing = []) (textual : part.inBinary = false)
    (read : readsExtended (trimmed line) = true) :
    Section.buf { part with extended := part.extended ++ [line] } =
      part.buf.withHeader (trimmed line) := by
  have count := lossyCount_grows _ _ _
    (Section.Grows.extended part line git early unbroken textual read) shaped
  obtain ⟨unnamed, unhunked, unopened⟩ := (past_eq_false part).1 early
  have markers : part.markers = [] := by
    simp [Section.markers, Section.bodies, unhunked, unopened]
  have markers' : Section.markers { part with extended := part.extended ++ [line] } = [] := markers
  have binary : Section.inBinary { part with extended := part.extended ++ [line] } =
      (part.inBinary || decide (trimmed line = "GIT binary patch".toList)) := by
    simp only [Section.inBinary, Section.headers, List.map_append, List.any_append, List.map_cons,
      List.map_nil, List.any_cons, List.any_nil, Bool.or_false]
  have headers : Section.headers { part with extended := part.extended ++ [line] } =
      part.headers ++ [trimmed line] := by
    simp [Section.headers]
  simp only [Section.buf, FileBuf.withHeader, moved_extended, markers, markers', count, binary,
    headers]
  simp only [writtenLine, Bool.false_eq_true, if_false, Nat.add_zero, List.map_nil, List.append_nil]
  rfl

theorem buf_binary (part : Section) (line : Str) (shaped : part.Shaped)
    (binary : part.inBinary = true) (read : isBinaryBodyLine line = true) :
    Section.buf { part with binary := part.binary ++ [line] } =
      { part.buf with binaryBody := part.binary ++ [line] } := by
  have count := lossyCount_grows _ _ _ (Section.Grows.binary part line binary read) shaped
  simp only [writtenLine, Bool.false_eq_true, if_false, Nat.add_zero] at count
  simp only [Section.buf, count]
  rfl

theorem buf_oldName (part : Section) (line : NameLine) (shaped : part.Shaped)
    (git : part.git = true) (early : part.past = false) (unbroken : part.trailing = [])
    (textual : part.inBinary = false) (old : trimmed line.text = "--- ".toList ++ line.rest)
    (named : headerName line.rest false = some line.name) :
    Section.buf { part with oldName := some line } =
      { part.buf with
        oldRaw := some line.name
        awaitingNewHeader := true
        pastHeaders := true } := by
  have count := lossyCount_grows _ _ _
    (Section.Grows.oldName part line git early unbroken textual old named) shaped
  simp only [writtenLine, Bool.false_eq_true, if_false, Nat.add_zero] at count
  obtain ⟨unnamed, unhunked, unopened⟩ := (past_eq_false part).1 early
  have unnewed := unnamed_newName part shaped unnamed
  obtain ⟨opening, opened⟩ := Option.isSome_iff_exists.1 git
  have names : part.names = (none, none, none) := by
    simp [Section.names, opened, unnamed, unnewed]
  have names' : Section.names { part with oldName := some line } = (some line.name, none, none) := by
    simp [Section.names, opened, unnewed]
  have awaiting : Section.awaiting { part with oldName := some line } = true := by
    simp [Section.awaiting, unnewed]
  have past : Section.past { part with oldName := some line } = true := by simp [Section.past]
  have epoch : Section.oldEpoch { part with oldName := some line } = part.oldEpoch := by
    simp [Section.oldEpoch, Section.git, opened]
  have idle : decide (part.trailing ≠ []) = false := by simp [unbroken]
  simp only [Section.buf, count, names, names', awaiting, past, epoch, idle, Bool.and_false]
  rfl

theorem buf_hunk (part : Section) (hunk : HunkText) (shaped : part.Shaped)
    (may : part.mayOpen = true) (textual : part.inBinary = false) (bare : hunk.body = []) :
    Section.buf { part with openHunk := some hunk } = { part.buf with pastHeaders := true } := by
  have count := lossyCount_grows _ _ _ (Section.Grows.hunk part hunk may textual bare) shaped
  simp only [writtenLine, Bool.false_eq_true, if_false, Nat.add_zero] at count
  obtain ⟨unopened, unbroken, _⟩ := (mayOpen_iff part).1 may
  have markers : Section.markers { part with openHunk := some hunk } = part.markers := by
    simp [Section.markers, Section.bodies, unopened, bare]
  have past : Section.past { part with openHunk := some hunk } = true := by simp [Section.past]
  have idle : decide (part.trailing ≠ []) = false := by simp [unbroken]
  simp only [Section.buf, count, markers, past, idle, Bool.and_false]
  rfl

theorem buf_body (part : Section) (hunk : HunkText) (line : BodyLine) (shaped : part.Shaped)
    (opened : part.openHunk = some hunk) (fits : hunk.fits line.kind = true)
    (unended : part.ended line.kind = false) (unmarked : line.marker = none)
    (unfilled : (hunk.add line).full = false) :
    Section.buf { part with openHunk := some (hunk.add line) } = part.buf.counting line.lossy := by
  have count := lossyCount_grows _ _ _
    (Section.Grows.body part hunk line opened fits unended unmarked unfilled) shaped
  have markers : Section.markers { part with openHunk := some (hunk.add line) } = part.markers := by
    simp [Section.markers, Section.bodies, opened, HunkText.add, unmarked]
  have past : Section.past { part with openHunk := some (hunk.add line) } = part.past := by
    simp [Section.past, opened]
  simp only [Section.buf, FileBuf.counting, count, markers, min_lossyCount, past]
  rfl

theorem buf_lastBody (part : Section) (hunk : HunkText) (line : BodyLine) (shaped : part.Shaped)
    (opened : part.openHunk = some hunk) (fits : hunk.fits line.kind = true)
    (unended : part.ended line.kind = false) (unmarked : line.marker = none)
    (filled : (hunk.add line).full = true) (changes : (hunk.add line).changes = true) :
    Section.buf { part with hunks := part.hunks ++ [hunk.add line], openHunk := none } =
      { part.buf.counting line.lossy with
        hunks := part.buf.hunks ++ [(hunk.add line).patch part.hunks.length] } := by
  have count := lossyCount_grows _ _ _
    (Section.Grows.lastBody part hunk line opened fits unended unmarked filled changes) shaped
  have markers : Section.markers
      { part with hunks := part.hunks ++ [hunk.add line], openHunk := none } = part.markers := by
    simp [Section.markers, Section.bodies, opened, HunkText.add, unmarked]
  have past : Section.past { part with hunks := part.hunks ++ [hunk.add line], openHunk := none } =
      part.past := by
    simp [Section.past, opened]
  simp only [Section.buf, FileBuf.counting, count, markers, min_lossyCount, past,
    numberHunks_append, numberHunks, Nat.zero_add]
  rfl

theorem buf_marker (part : Section) (hunk : HunkText) (line : BodyLine) (marker : InputLine)
    (shaped : part.Shaped) (text : marker.text = eofMarker)
    (opened : part.openHunk = some (hunk.add line)) (unmarked : line.marker = none) :
    Section.buf { part with openHunk := some (hunk.add { line with marker := some marker }) } =
      { part.buf.counting marker.lossy with
        metadata := part.buf.metadata ++ [eofMarker] } := by
  have count := lossyCount_grows _ _ _
    (Section.Grows.marker part hunk line marker text opened unmarked) shaped
  have markers : Section.markers
      { part with openHunk := some (hunk.add { line with marker := some marker }) } =
      part.markers ++ [marker] := by
    simp [Section.markers, Section.bodies, opened, HunkText.add, unmarked]
  have past : Section.past
      { part with openHunk := some (hunk.add { line with marker := some marker }) } =
      part.past := by
    simp [Section.past, opened]
  simp only [Section.buf, FileBuf.counting, count, markers, min_lossyCount, past, List.map_append,
    List.map_cons, List.map_nil, text, ← List.append_assoc]
  rfl

theorem patch_remark (hunk : HunkText) (line : BodyLine) (marker : InputLine) (id : HunkId)
    (unmarked : line.marker = none) :
    (hunk.add { line with marker := some marker }).patch id =
      { (hunk.add line).patch id with
        lines := ((hunk.add line).patch id).lines.modifyLast fun last =>
          { last with noNewline := true } } := by
  simp only [HunkText.patch, patchLines_add, List.modifyLast_concat, BodyLine.patchLine, unmarked]
  rfl

theorem buf_lastMarker (part : Section) (hunks : List HunkText) (hunk : HunkText)
    (line : BodyLine) (marker : InputLine) (shaped : part.Shaped) (text : marker.text = eofMarker)
    (unopened : part.openHunk = none) (unbroken : part.trailing = [])
    (last : part.hunks = hunks ++ [hunk.add line]) (unmarked : line.marker = none) :
    Section.buf { part with hunks := hunks ++ [hunk.add { line with marker := some marker }] } =
      { part.buf.counting marker.lossy with
        metadata := part.buf.metadata ++ [eofMarker]
        hunks := part.buf.hunks.modifyLast fun closed =>
          { closed with lines := closed.lines.modifyLast fun body =>
            { body with noNewline := true } } } := by
  have count := lossyCount_grows _ _ _
    (Section.Grows.lastMarker part hunks hunk line marker text unopened unbroken last unmarked)
    shaped
  have markers : Section.markers
      { part with hunks := hunks ++ [hunk.add { line with marker := some marker }] } =
      part.markers ++ [marker] := by
    simp [Section.markers, Section.bodies, unopened, last, HunkText.add, unmarked]
  have past : Section.past
      { part with hunks := hunks ++ [hunk.add { line with marker := some marker }] } =
      part.past := by
    simp [Section.past, last]
  have numbered : numberHunks 0 (hunks ++ [hunk.add { line with marker := some marker }]) =
      (numberHunks 0 part.hunks).modifyLast fun closed =>
        { closed with lines := closed.lines.modifyLast fun body =>
          { body with noNewline := true } } := by
    simp only [last, numberHunks_append, numberHunks, List.modifyLast_concat,
      patch_remark hunk line marker _ unmarked]
  simp only [Section.buf, FileBuf.counting, count, markers, min_lossyCount, past, List.map_append,
    List.map_cons, List.map_nil, text, ← List.append_assoc, numbered]
  rfl

theorem buf_trailing (part : Section) (line : InputLine) (shaped : part.Shaped)
    (unopened : part.openHunk = none) (settled : part.awaiting = false)
    (textual : part.inBinary = false) (framing : isFraming line.text = true)
    (plain : isExtended (trimmed line.text) = false)
    (moves : part.past = true ∨ (startsWith "rename old ".toList (trimmed line.text) = false ∧
      startsWith "rename new ".toList (trimmed line.text) = false)) :
    Section.buf { part with trailing := part.trailing ++ [line] } =
      { part.buf.counting line.lossy with
        headerEnded := part.buf.headerEnded || (part.git && !part.past) } := by
  have count := lossyCount_grows _ _ _
    (Section.Grows.trailing part line unopened settled textual framing plain moves) shaped
  have same : Section.past { part with trailing := part.trailing ++ [line] } = part.past := rfl
  have same' : Section.git { part with trailing := part.trailing ++ [line] } = part.git := rfl
  have ended : (part.git && !part.past && decide (part.trailing ++ [line] ≠ [])) =
      ((part.git && !part.past && decide (part.trailing ≠ [])) || (part.git && !part.past)) := by
    cases part.git <;> cases part.past <;> simp
  simp only [Section.buf, FileBuf.counting, count, min_lossyCount, same, same', ended]
  rfl

theorem buf_newName_git (part : Section) (line : NameLine) (shaped : part.Shaped)
    (awaiting : part.awaiting = true) (new : trimmed line.text = "+++ ".toList ++ line.rest)
    (named : headerName line.rest (!part.git && !hadCr line.text) = some line.name)
    (git : part.git = true) :
    Section.buf { part with newName := some line } =
      { part.buf with newRaw := some line.name, awaitingNewHeader := false } := by
  have count := lossyCount_grows _ _ _ (Section.Grows.newName part line awaiting new named) shaped
  simp only [writtenLine, Bool.false_eq_true, if_false, Nat.add_zero] at count
  obtain ⟨opening, opened⟩ := Option.isSome_iff_exists.1 git
  have names : Section.names { part with newName := some line } =
      (part.names.1, some line.name, part.names.2.2) := by
    simp [Section.names, opened]
  have settled : Section.awaiting { part with newName := some line } = false := by
    simp [Section.awaiting]
  have bare : Section.bare { part with newName := some line } = part.bare := by
    have same : Section.git { part with newName := some line } = true := git
    simp only [Section.bare, git, same, if_true]
  simp only [Section.buf, count, names, settled, bare]
  rfl

theorem buf_newName_traditional (part : Section) (line : NameLine) (shaped : part.Shaped)
    (awaiting : part.awaiting = true) (new : trimmed line.text = "+++ ".toList ++ line.rest)
    (named : headerName line.rest (!part.git && !hadCr line.text) = some line.name)
    (traditional : part.git = false) :
    Section.buf { part with newName := some line } =
      { part.buf with
        awaitingNewHeader := false
        p0 := part.p0 || guessesP0 line.name
        newRaw := some line.name }.nameTraditional
          (!hadCr line.text && hasEpochTimestamp line.rest) (startsWith ['"'] line.rest) := by
  have count := lossyCount_grows _ _ _ (Section.Grows.newName part line awaiting new named) shaped
  simp only [writtenLine, Bool.false_eq_true, if_false, Nat.add_zero] at count
  have unopened : part.opening = none := by simpa [Section.git] using traditional
  simp only [Section.awaiting, Bool.and_eq_true, Option.isNone_iff_eq_none] at awaiting
  obtain ⟨old, present⟩ := Option.isSome_iff_exists.1 awaiting.1
  have held : part.names = (some old.name, none, none) := by
    simp [Section.names, unopened, present, awaiting.2]
  have bare : Section.bare { part with newName := some line } =
      (part.p0 || guessesP0 line.name) := by
    have same : Section.git { part with newName := some line } = false := traditional
    simp only [Section.bare, same, Bool.false_eq_true, if_false, Option.any_some]
  have epoch : Section.oldEpoch { part with newName := some line } = part.oldEpoch := rfl
  have names : Section.names { part with newName := some line } =
      traditionalNames old.name line.name (part.p0 || guessesP0 line.name) part.oldEpoch
        (!hadCr line.text && hasEpochTimestamp line.rest) (startsWith ['"'] line.rest) := by
    simp only [Section.names, unopened, present, ← bare, ← epoch]
  have settled : Section.awaiting { part with newName := some line } = false := by
    simp [Section.awaiting]
  rw [nameTraditional_eq _ old.name line.name _ _ (by simp only [Section.buf, held]) rfl]
  simp only [Section.buf, count, names, settled, bare]
  rfl

end DeepDiffForge.Patch
