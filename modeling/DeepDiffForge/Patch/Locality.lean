import DeepDiffForge.Patch.Changes
import DeepDiffForge.Patch.Unambiguous
import DeepDiffForge.Patch.Written

/-! What a Git section's file is read from: the unbroken run of lines that its `diff --git` line
begins, and the `-p0` guess. -/

namespace DeepDiffForge.Patch
open Text DeepDiffForge.Core

/-- What a fresh parser makes of a text, under the `-p0` guess. -/
def readUnder (p0 : Bool) (text : Str) : Except PatchParseError (List ReviewFile) :=
  feedLines (splitLines text) 0 []
    { p0, unterminatedLast := if unterminated text then some (splitLines text).length else none }
    >>= Parser.finish

/-- The text of a section's lines, without the framing lines after them. -/
def Section.block (part : Section) : Str := written part.core.lines

structure ReadLocally (text : Str) (guess : Bool) (part : Section) (file : ReviewFile) : Prop where
  /-- One unbroken run: the `diff --git` line, extended headers, then names and hunks. -/
  run : ∃ before after opening, text = before ++ part.block ++ after ∧
    part.opening = some opening ∧
    splitLines part.block = opening.text :: part.extended ++ part.binary ++ part.nameLines ++
      (part.hunks.flatMap HunkText.lines).map (·.text)
  headed : part.binary = [] ∨ (part.nameLines = [] ∧ part.hunks = [])
  named : part.nameLines = [] ∨
    ∃ old new : NameLine, part.nameLines = [old.text, new.text] ∧
      startsWith "--- ".toList old.text = true ∧ startsWith "+++ ".toList new.text = true
  metadata : ∃ added, file.patchTwin.metadata =
      part.extended.map trimmed ++ part.markers.map (fun _ => eofMarker) ++ added ∧
    ∀ line ∈ added, startsWithAny movePrefixes line = true
  hunks : ∃ base, file.patchTwin.hunks = numberHunks base part.hunks
  /-- The run alone gives the file, its hunk ids aside. -/
  alone : ∃ base reviewed, readUnder guess part.block = .ok [reviewed] ∧
    file = shiftFile base reviewed

theorem shiftFile_zero (file : ReviewFile) : shiftFile 0 file = file := by
  simp [shiftFile, shiftHunks]

theorem numberHunks_zero (hunks : List HunkText) :
    shiftHunks 0 (numberHunks 0 hunks) = numberHunks 0 hunks := by
  simp [shiftHunks]

/-- The framing lines after a section are not read into its file. -/
theorem core_review (part : Section) (clean : ∀ line ∈ part.trailing, line.lossy = false) :
    part.core.review = part.review := by
  have lossy : part.trailing.countP (·.lossy) = 0 := by
    rw [List.countP_eq_zero]
    intro line member
    simp [clean line member]
  have count : part.core.lossyCount = part.lossyCount := by
    rw [Section.lossyCount, Section.lossyCount, lines_core part, List.countP_append, lossy,
      Nat.add_zero]
  have buf : part.core.buf = part.buf.reframe 0 0 none none false := by
    have reframed : part.buf.reframe 0 0 none none false =
        { part.buf with hunks := shiftHunks 0 (numberHunks 0 part.hunks), headerEnded := false } :=
      rfl
    have idle : (part.core.git && !part.core.past && decide (part.core.trailing ≠ [])) = false := by
      simp [Section.core]
    rw [reframed, numberHunks_zero]
    simp only [Section.buf, count, idle]
    rfl
  have opened : part.core.openHunk = part.openHunk := rfl
  rw [Section.review, Section.review, opened, buf, finished_reframe]
  have same : (shiftFile 0 : ReviewFile → ReviewFile) = id := funext shiftFile_zero
  rw [same, Option.map_id]
  rfl

theorem readUnder_eq_ok (p0 : Bool) (text : Str) (files : List ReviewFile) :
    readUnder p0 text = .ok files ↔ (splitLines text).length ≤ defaultLineBudget ∧
      ∃ doc, Document.GrowsBy { p0 } (textLines text) doc ∧ doc.files = some files :=
  feedLines_eq_ok (splitLines text) [] p0 _ files

theorem readUnder_block (part : Section) (reviewed : ReviewFile) (p0 : Bool)
    (built : part.Built p0 part.lines) (ok : part.review = some reviewed)
    (read : TextLines part.core.lines) (clean : ∀ line ∈ part.trailing, line.lossy = false)
    (budget : part.core.lines.length ≤ defaultLineBudget) :
    readUnder p0 part.block = .ok [reviewed] := by
  have lines := textLines_written _ read
  have core := built_core p0 part.lines part built
  have grows := growsBy_chained p0 [] [part.core] (by simp)
    ⟨core, by simp [Section.Follows], trivial⟩
  refine (readUnder_eq_ok p0 part.block [reviewed]).2
    ⟨?_, Document.extend { p0, preamble := [] } [part.core], ?_, ?_⟩
  · rw [← textLines_text, List.length_map, Section.block, lines]
    exact budget
  · rw [Section.block, lines]
    simpa using grows
  · rw [Document.files, sections_extend]
    have review : part.core.review = some reviewed := (core_review part clean).trans ok
    have empty : Document.sections { p0, preamble := [] } = [] := rfl
    rw [empty, List.nil_append]
    simp [reviewFrom, review, shiftFile_zero]

theorem reviewFrom_at (id : HunkId) (earlier later : List Section) (part : Section)
    (files : List ReviewFile) (ok : reviewFrom id (earlier ++ part :: later) = some files) :
    ∃ base reviewed, part.review = some reviewed ∧
      files[earlier.length]? = some (shiftFile base reviewed) := by
  induction earlier generalizing id files with
  | nil =>
    simp only [List.nil_append, reviewFrom, Option.bind_eq_bind, Option.bind_eq_some_iff,
      Option.pure_def] at ok
    obtain ⟨reviewed, review, others, _, ⟨⟩⟩ := ok
    exact ⟨id, reviewed, review, rfl⟩
  | cons first earlier ih =>
    simp only [List.cons_append, reviewFrom, Option.bind_eq_bind, Option.bind_eq_some_iff,
      Option.pure_def] at ok
    obtain ⟨_, _, others, rest, ⟨⟩⟩ := ok
    exact ih _ _ rest

theorem core_lines (part : Section) (opening : GitLine) (opened : part.opening = some opening)
    (unopened : part.openHunk = none) :
    part.core.lines.map (·.text) = opening.text :: part.extended ++ part.binary ++ part.nameLines ++
      (part.hunks.flatMap HunkText.lines).map (·.text) := by
  simp [Section.lines, Section.core, Section.nameLines, opened, unopened, writtenLine,
    Function.comp_def]

theorem nameLines_written (part : Section) (shaped : part.Shaped)
    (settled : part.awaiting = false) :
    part.nameLines = [] ∨ ∃ old new : NameLine, part.nameLines = [old.text, new.text] ∧
      startsWith "--- ".toList old.text = true ∧ startsWith "+++ ".toList new.text = true := by
  have begins (start line rest : Str) (ends : start.getLast? ≠ some '\r')
      (read : trimmed line = start ++ rest) : startsWith start line = true := by
    rw [← startsWith_trimEnd '\r' _ _ ends, ← trimmed, read, startsWith_append]
  rcases nameLines_cases part shaped settled with ⟨old, new⟩ | ⟨old, new, oldNamed, newNamed⟩
  · exact .inl (by simp [Section.nameLines, old, new])
  · exact .inr ⟨old, new, by simp [Section.nameLines, oldNamed, newNamed],
      begins _ _ _ (by decide) (shaped.old old oldNamed).1,
      begins _ _ _ (by decide) (shaped.new new newNamed).1⟩

/-- A Git section's file is read from one unbroken run of lines and the guess before it. -/
theorem parse_local (text : Str) (files : List ReviewFile) (doc : Document)
    (accepted : parse text = .ok files) (grown : Document.Grown (textLines text) doc)
    (earlier later : List Section) (part : Section)
    (sections : doc.sections = earlier ++ part :: later) (git : part.git = true) :
    ∃ file, files[earlier.length]? = some file ∧
      ReadLocally text (earlier.any Section.guesses) part file := by
  obtain ⟨docShaped, docLines⟩ := shaped_grown _ _ grown
  have reviews := files_of_grown text files doc accepted grown
  rw [Document.files, sections] at reviews
  obtain ⟨base, reviewed, review, place⟩ := reviewFrom_at 0 earlier later part files reviews
  obtain ⟨unopened, finished⟩ := review_cases part reviewed review
  obtain ⟨_, settled⟩ := review_ends part (by simp [review])
  have shaped := docShaped.parts part (by simp [sections])
  obtain ⟨_, chained⟩ := chained_of_grown _ _ grown
  rw [sections, chained_append] at chained
  obtain ⟨_, built, _⟩ := chained
  rw [Bool.false_or] at built
  obtain ⟨opening, opened⟩ := Option.isSome_iff_exists.1 git
  obtain ⟨whole, read⟩ := written_textLines text
  have split : textLines text = (doc.preamble ++ earlier.flatMap Section.lines) ++
      (part.core.lines ++ (part.trailing ++ later.flatMap Section.lines)) := by
    rw [← docLines, Document.lines, sections, List.flatMap_append, List.flatMap_cons,
      lines_core part]
    simp only [List.append_assoc]
  have budget : (splitLines text).length ≤ defaultLineBudget :=
    ((parse_eq_ok text files).1 accepted).1.2
  rw [← textLines_text, List.length_map] at budget
  rw [split] at whole read budget
  obtain ⟨_, fromCore⟩ := textLines_parts _ _ read
  obtain ⟨coreRead, afterRead⟩ := textLines_parts _ _ fromCore
  have clean : ∀ line ∈ part.trailing, line.lossy = false :=
    textLines_exact _ (textLines_parts _ _ afterRead).1
  have alone := readUnder_block part reviewed _ built review coreRead clean (by
    simp only [List.length_append] at budget
    omega)
  refine ⟨_, place, ?_⟩
  constructor
  · refine ⟨written (doc.preamble ++ earlier.flatMap Section.lines),
      written (part.trailing ++ later.flatMap Section.lines), opening, ?_, opened, ?_⟩
    · rw [Section.block, ← whole, written_append, written_append part.core.lines, List.append_assoc]
    · rw [← textLines_text, Section.block, textLines_written _ coreRead]
      exact core_lines part opening opened unopened
  · by_cases bare : part.binary = []
    · exact .inl bare
    · have binary := shaped.binaryHeader bare
      obtain ⟨unnamed, unhunked, _⟩ := (past_eq_false part).1 (shaped.textual binary).1
      exact .inr ⟨by simp [Section.nameLines, unnamed, unnamed_newName part shaped unnamed],
        unhunked⟩
  · exact nameLines_written part shaped settled
  · obtain ⟨added, metadata, moves⟩ := finished_metadata _ _ finished
    refine ⟨added, ?_, moves⟩
    have markers : part.markers.map (·.text) = part.markers.map (fun _ => eofMarker) :=
      List.map_congr_left shaped.markers
    rw [← markers]
    exact metadata
  · exact ⟨base, shiftFile_hunks base part reviewed review⟩
  · exact ⟨base, reviewed, alone, rfl⟩

def edit : HunkText where
  opening := "@@ -1 +1 @@".toList
  header := { oldStart := 1, oldCount := 1, newStart := 1, newCount := 1, sectionHeading := none }
  body := []
  read := by decide +kernel

def removal : BodyLine where
  text := "-a".toList
  kind := .removed
  lossy := false
  marker := none
  read := by decide

def addition : BodyLine where
  text := "+b".toList
  kind := .added
  lossy := false
  marker := none
  read := by decide

/-- A traditional section whose new name has no `/`, and a Git section to come after it. -/
def bareSection : Section where
  p0 := false
  oldName := some { text := "--- x".toList, rest := "x".toList, name := "x".toList }
  newName := some { text := "+++ x".toList, rest := "x".toList, name := "x".toList }
  hunks := [(edit.add removal).add addition]

def guessedSection : Section where
  p0 := true
  opening := some
    { rest := "a/y b/y".toList, names := (some "a/y".toList, some "b/y".toList) }
  extended := ["index 1..2".toList]
  oldName := some { text := "--- a/y".toList, rest := "a/y".toList, name := "a/y".toList }
  newName := some { text := "+++ b/y".toList, rest := "b/y".toList, name := "b/y".toList }
  hunks := [(edit.add removal).add addition]

theorem ended_unmarked (part : Section) (kind : PatchLineKind)
    (unmarked : ∀ line ∈ part.bodies, line.marker = none) : part.ended kind = false := by
  have old : part.endedOld = false := by
    rw [Section.endedOld, List.any_eq_false]
    intro line member
    simp [unmarked line member]
  have new : part.endedNew = false := by
    rw [Section.endedNew, List.any_eq_false]
    intro line member
    simp [unmarked line member]
  rw [Section.ended, old, new, Bool.and_false, Bool.and_false, Bool.or_self]

theorem built_edit (p0 : Bool) (lines : List InputLine) (part : Section)
    (built : part.Built p0 lines) (unhunked : part.hunks = []) (may : part.mayOpen = true)
    (textual : part.inBinary = false) :
    Section.Built p0 (lines ++ [writtenLine edit.opening] ++ [writtenLine removal.text] ++
        [writtenLine addition.text])
      { part with hunks := [(edit.add removal).add addition], openHunk := none } := by
  have bare : Section.bodies { part with openHunk := some edit } = [] := by
    simp only [Section.bodies, unhunked]
    rfl
  have begun : Section.bodies { part with openHunk := some (edit.add removal) } = [removal] := by
    simp only [Section.bodies, unhunked]
    rfl
  have opened := built.grows (.hunk part edit may textual rfl)
  have removed := opened.grows (.body _ edit removal rfl (by decide)
    (ended_unmarked _ _ (by rw [bare]; simp)) rfl (by decide))
  have added := removed.grows (.lastBody _ (edit.add removal) addition rfl (by decide)
    (ended_unmarked _ _ (by rw [begun]; simp [removal])) rfl (by decide) (by decide))
  have hunks : part.hunks ++ [(edit.add removal).add addition] =
      [(edit.add removal).add addition] := by
    rw [unhunked]
    rfl
  rw [← hunks]
  exact added

theorem bareSection_built : bareSection.Built false bareSection.lines := by
  have opened : Section.Built false _ _ := .opens
    (.traditional { text := "--- x".toList, rest := "x".toList, name := "x".toList }
      (by decide +kernel) (by decide +kernel))
  have named := opened.grows
    (.newName _ { text := "+++ x".toList, rest := "x".toList, name := "x".toList } rfl
      (by decide +kernel) (by decide +kernel))
  exact built_edit false _ _ named rfl rfl rfl

theorem guessedSection_built : guessedSection.Built true guessedSection.lines := by
  have opened : Section.Built true _ _ := .opens
    (.git { rest := "a/y b/y".toList, names := (some "a/y".toList, some "b/y".toList) }
      (by decide +kernel))
  have index := opened.grows
    (.extended _ "index 1..2".toList rfl rfl rfl rfl (by decide +kernel))
  have old := index.grows
    (.oldName _ { text := "--- a/y".toList, rest := "a/y".toList, name := "a/y".toList } rfl rfl
      rfl rfl (by decide +kernel) (by decide +kernel))
  have new := old.grows
    (.newName _ { text := "+++ b/y".toList, rest := "b/y".toList, name := "b/y".toList } rfl
      (by decide +kernel) (by decide +kernel))
  exact built_edit true _ _ new rfl rfl rfl

/-- A patch whose first section makes the second one's names be read as under `-p0`. -/
def guessedText : Str := written (bareSection.lines ++ guessedSection.lines)

theorem guessedText_grown :
    Document.Grown (textLines guessedText)
      (Document.extend { preamble := [] } [bareSection, guessedSection]) := by
  have lines : textLines guessedText = [] ++ [bareSection, guessedSection].flatMap Section.lines := by
    decide +kernel
  rw [lines]
  refine grown_of_chained [] [bareSection, guessedSection] (by simp)
    ⟨bareSection_built, by simp [Section.Follows], guessedSection_built, ?_, trivial⟩
  rintro _ ⟨⟩
  decide +kernel

theorem guessedText_accepted :
    ∃ files, parse guessedText = .ok files ∧ files.map (·.path) = ["x".toList, "b/y".toList] := by
  have paths : (parse guessedText).toOption.map (·.map (·.path)) =
      some ["x".toList, "b/y".toList] := by
    decide +kernel
  cases accepted : parse guessedText with
  | error _ => simp [accepted, Except.toOption] at paths
  | ok files => exact ⟨files, rfl, by simpa [accepted, Except.toOption] using paths⟩

theorem parse_local_after :
    ∃ file, ReadLocally guessedText true guessedSection file := by
  obtain ⟨files, accepted, _⟩ := guessedText_accepted
  obtain ⟨file, _, run⟩ := parse_local guessedText files _ accepted guessedText_grown [bareSection]
    [] guessedSection (sections_extend _ _) rfl
  exact ⟨file, run⟩

theorem parse_local_guess :
    ¬∀ files doc, parse guessedText = .ok files → Document.Grown (textLines guessedText) doc →
      ∀ earlier later part, doc.sections = earlier ++ part :: later → part.git = true →
        ∃ file, files[earlier.length]? = some file ∧ ReadLocally guessedText false part file := by
  intro localized
  obtain ⟨files, accepted, paths⟩ := guessedText_accepted
  obtain ⟨file, place, run⟩ := localized files _ accepted guessedText_grown [bareSection] []
    guessedSection (sections_extend _ _) rfl
  obtain ⟨base, reviewed, read, rfl⟩ := run.alone
  have alone : (readUnder false guessedSection.block).toOption.map (·.map (·.path)) =
      some ["y".toList] := by
    decide +kernel
  simp only [read, Except.toOption, Option.map_some, Option.some.injEq, List.map_cons, List.map_nil,
    List.cons.injEq, and_true] at alone
  have path := congrArg (·[1]?) paths
  simp only [List.getElem?_map] at path
  rw [List.length_singleton] at place
  rw [place, Option.map_some] at path
  have shown : reviewed.path = "b/y".toList := Option.some.inj path
  rw [alone] at shown
  revert shown
  decide

end DeepDiffForge.Patch
