import DeepDiffForge.Patch.Capture
import DeepDiffForge.Patch.Extent
import DeepDiffForge.Patch.HunkMarks

/-! What the lossy marks of a parsed patch say: which hunk lines were not UTF-8, and how many lines
of each file. -/

namespace DeepDiffForge.Patch
open Text DeepDiffForge.Core Markers

def markedLines {α : Type} (scanned : List (α × Bool)) : List α :=
  (scanned.filter (·.2)).map (·.1)

theorem markedLines_append {α : Type} (first rest : List (α × Bool)) :
    markedLines (first ++ rest) = markedLines first ++ markedLines rest := by
  rw [markedLines, List.filter_append, List.map_append, markedLines, markedLines]

theorem markedLines_plain {α : Type} (lines : List α) :
    markedLines (lines.map fun line => (line, false)) = [] := by
  induction lines with
  | nil => rfl
  | cons line lines ih => exact ih

theorem markedLines_body (body : List BodyLine) :
    markedLines (body.flatMap BodyLine.marks) = body.map BodyLine.input := by
  induction body with
  | nil => rfl
  | cons line body ih =>
    have own : markedLines line.marks = [line.input] :=
      congrArg (line.input :: ·) (markedLines_plain line.marker.toList)
    rw [List.flatMap_cons, markedLines_append, ih, own, List.map_cons, List.singleton_append]

theorem markedLines_hunks (hunks : List HunkText) :
    markedLines (hunks.flatMap HunkText.marks) = (hunks.flatMap (·.body)).map BodyLine.input := by
  induction hunks with
  | nil => rfl
  | cons hunk hunks ih =>
    have own : markedLines hunk.marks = hunk.body.map BodyLine.input := markedLines_body hunk.body
    rw [List.flatMap_cons, markedLines_append, ih, own, List.flatMap_cons, List.map_append]

theorem markedLines_section (part : Section) :
    markedLines part.marks = (part.hunks.flatMap (·.body)).map BodyLine.input := by
  rw [Section.marks, markedLines_append, markedLines_append, markedLines_plain, markedLines_hunks,
    markedLines_plain, List.nil_append, List.append_nil]

theorem markedLines_sections (parts : List Section) :
    markedLines (parts.flatMap Section.marks) =
      ((parts.flatMap (·.hunks)).flatMap (·.body)).map BodyLine.input := by
  induction parts with
  | nil => rfl
  | cons part parts ih =>
    rw [List.flatMap_cons, markedLines_append, ih, markedLines_section, List.flatMap_cons,
      List.flatMap_append, List.map_append]

def InputLine.taken (line : InputLine) : Option PatchLineKind × Bool × Str :=
  (bodyKind line.text, line.lossy, line.text.tail)

def takenLine (line : PatchLine) : Option PatchLineKind × Bool × Str :=
  (some line.kind, line.lossy, line.text)

theorem taken_numberBody (old new : Nat) (body : List BodyLine) :
    (numberBody old new body).map takenLine = (body.map BodyLine.input).map InputLine.taken := by
  induction body generalizing old new with
  | nil => rfl
  | cons line body ih =>
    have own : takenLine (line.patchLine old new) = line.input.taken := by
      rw [takenLine, InputLine.taken, BodyLine.input, line.read]
      rfl
    rw [numberBody, List.map_cons, ih, own, List.map_cons, List.map_cons]

theorem taken_numberHunks (id : HunkId) (hunks : List HunkText) :
    ((numberHunks id hunks).flatMap (·.lines)).map takenLine =
      ((hunks.flatMap (·.body)).map BodyLine.input).map InputLine.taken := by
  induction hunks generalizing id with
  | nil => rfl
  | cons hunk hunks ih =>
    rw [numberHunks, List.flatMap_cons, List.map_append, ih, List.flatMap_cons, List.map_append,
      List.map_append]
    exact congrArg (· ++ _) (taken_numberBody _ _ _)

theorem countP_marked {α : Type} (scanned : List (α × Bool)) (holds : α → Bool) :
    (scanned.map (·.1)).countP holds =
      (markedLines scanned).countP holds + scanned.countP fun line => !line.2 && holds line.1 := by
  induction scanned with
  | nil => rfl
  | cons line scanned ih =>
    obtain ⟨own, inside⟩ := line
    cases inside with
    | true =>
      have marked : markedLines ((own, true) :: scanned) = own :: markedLines scanned := rfl
      simp only [List.map_cons, List.countP_cons, marked, ih, Bool.not_true, Bool.false_and]
      simp only [Bool.false_eq_true, ↓reduceIte]
      omega
    | false =>
      have marked : markedLines ((own, false) :: scanned) = markedLines scanned := rfl
      simp only [List.map_cons, List.countP_cons, marked, ih, Bool.not_false, Bool.true_and]
      omega

theorem marks_lines (part : Section) (shaped : part.Shaped) (ends : part.review.isSome) :
    part.marks.map (·.1) = part.lines := by
  have scanned := section_marks part [] shaped ends
  rw [List.append_nil, hunkMarks_nil, List.append_nil] at scanned
  rw [← scanned, hunkMarks_lines]

theorem document_marks (doc : Document) (shaped : doc.Shaped)
    (ends : ∀ part ∈ doc.sections, part.review.isSome) :
    hunkMarks InputLine.text 0 0 doc.lines =
      doc.preamble.map (fun line => (line, false)) ++ doc.sections.flatMap Section.marks := by
  rw [Document.lines, hunkMarks_plain _ _ _ (framing_unparsed _ shaped.preamble),
    sections_marks _ shaped.parts ends]

theorem unframed_head (part : Section) (shaped : part.Shaped) (line : InputLine)
    (head : part.lines.head? = some line) : isFraming line.text = false := by
  by_contra framing
  obtain ⟨-, undiff, unnamed, -⟩ := framing_plain _ (eq_true_of_ne_false framing)
  cases opened : part.opening with
  | some git =>
    have first : part.lines.head? = some (writtenLine git.text) := by simp [Section.lines, opened]
    cases first.symm.trans head
    have begins : startsWith "diff --git ".toList git.text = true := startsWith_append _ _
    exact Bool.noConfusion (undiff.symm.trans (opensDiff_of_git _ begins))
  | none =>
    obtain ⟨named, plain⟩ := shaped.traditional (by simp [Section.git, opened])
    obtain ⟨old, present⟩ := Option.isSome_iff_exists.1 named
    have textual : part.inBinary = false := by simp [Section.inBinary, Section.headers, plain]
    have first : part.lines.head? = some (writtenLine old.text) := by
      simp [Section.lines, opened, plain, unheaded_binary part shaped textual, present]
    cases first.symm.trans head
    rw [writtenLine, (shaped.old old present).1, stripPrefix_append] at unnamed
    cases unnamed

theorem dropWhile_preamble (doc : Document) (shaped : doc.Shaped) :
    doc.lines.dropWhile (isFraming ·.text) = doc.sections.flatMap Section.lines := by
  rw [Document.lines, List.dropWhile_append_of_pos shaped.preamble]
  cases parts : doc.sections with
  | nil => rfl
  | cons part parts' =>
    have own := shaped.parts part (by simp [parts])
    rw [List.flatMap_cons]
    cases lines : part.lines with
    | nil => exact absurd lines (lines_ne_nil part own)
    | cons line rest =>
      have unframed := unframed_head part own line (by rw [lines, List.head?_cons])
      rw [List.cons_append, List.dropWhile_cons_of_neg (by simp [unframed])]

def LossyCounted (files : List ReviewFile) : Prop :=
  ∀ file ∈ files, file.patchTwin.lossyLines =
    (file.patchTwin.hunks.flatMap (·.lines)).countP (·.lossy)

/-- After the preamble, every line outside the hunks is UTF-8. -/
def NotesExact (bytes : List UInt8) : Prop :=
  ∀ line ∈ hunkMarks InputLine.text 0 0 ((byteLines bytes).dropWhile (isFraming ·.text)),
    line.2 = false → line.1.lossy = false

theorem section_counted (part : Section) (reviewed : ReviewFile) (shaped : part.Shaped)
    (ok : part.review = some reviewed) (room : part.lines.length ≤ u32Max) (base : HunkId) :
    (shiftFile base reviewed).patchTwin.lossyLines =
        ((shiftFile base reviewed).patchTwin.hunks.flatMap (·.lines)).countP (·.lossy) ↔
      ∀ line ∈ part.marks, line.2 = false → line.1.lossy = false := by
  have held : (shiftFile base reviewed).patchTwin.lossyLines = part.lossyCount := by
    have count : part.lossyCount ≤ part.lines.length := List.countP_le_length
    have kept := (finished_twin _ _ (review_cases part reviewed ok).2).2.2
    exact kept.trans (Nat.min_eq_left (by omega))
  have marked : ((shiftFile base reviewed).patchTwin.hunks.flatMap (·.lines)).countP (·.lossy) =
      (markedLines part.marks).countP (·.lossy) := by
    have taken := congrArg (List.countP (·.2.1)) (taken_numberHunks base part.hunks)
    rw [List.countP_map, List.countP_map] at taken
    rw [shiftFile_hunks base part reviewed ok, markedLines_section]
    exact taken
  have split : part.lossyCount = (markedLines part.marks).countP (·.lossy) +
      part.marks.countP fun line => !line.2 && line.1.lossy := by
    rw [Section.lossyCount, ← marks_lines part shaped (by rw [ok]; rfl)]
    exact countP_marked part.marks (·.lossy)
  rw [held, marked, split, Nat.add_eq_left, List.countP_eq_zero]
  simp

theorem lossyCounted_iff (bytes : List UInt8) (options : ParseOptions) (files : List ReviewFile)
    (accepted : parseDecoded (decodePatch bytes) options = .ok files) :
    LossyCounted files ↔ NotesExact bytes := by
  obtain ⟨-, budget, doc, grown, reviewed⟩ := (parseLines_eq_ok _ _ _ _ _).1 accepted
  rw [← length_documentLines _ (decodePatch bytes).lossyLines, captured_lines] at budget
  rw [captured_lines] at grown
  obtain ⟨shaped, lines⟩ := shaped_grown _ _ grown
  have ends := reviewFrom_isSome 0 _ _ reviewed
  have pairs := reviewFrom_forall₂ 0 doc.sections files reviewed
  have scanned : hunkMarks InputLine.text 0 0
      ((byteLines bytes).dropWhile (isFraming ·.text)) = doc.sections.flatMap Section.marks := by
    rw [← lines, dropWhile_preamble doc shaped, sections_marks _ shaped.parts ends]
  have short : ∀ part ∈ doc.sections, part.lines.length ≤ u32Max := by
    intro part listed
    have within : part.lines.length ≤ (doc.sections.flatMap Section.lines).length :=
      (List.sublist_flatten_of_mem (List.mem_map.2 ⟨part, listed, rfl⟩)).length_le
    have count := congrArg List.length lines
    rw [Document.lines, List.length_append] at count
    have limit : defaultLineBudget ≤ u32Max := by decide
    omega
  have counted : List.Forall₂ (fun part file =>
      (file.patchTwin.lossyLines = (file.patchTwin.hunks.flatMap (·.lines)).countP (·.lossy) ↔
        ∀ line ∈ part.marks, line.2 = false → line.1.lossy = false)) doc.sections files := by
    have listed := (List.forall₂_and_left (p := (· ∈ doc.sections)) _ _).2 ⟨fun _ mem => mem, pairs⟩
    refine listed.imp ?_
    rintro part file ⟨mem, base, own, ok, rfl⟩
    exact section_counted part own (shaped.parts part mem) ok (short part mem) base
  rw [LossyCounted, Fallible.forall_of_forall₂ counted, NotesExact, scanned]
  simp only [List.mem_flatMap]
  constructor
  · rintro each line ⟨part, listed, member⟩
    exact each part listed line member
  · intro each part listed line member
    exact each line ⟨part, listed, member⟩

/-- A patch of one file, with a note after it that is not UTF-8. -/
def notedBytes : List UInt8 :=
  Utf8.encode "--- a/x\n+++ b/x\n@@ -1 +1 @@\n-a\n+b\n".toList ++ [0x63, 0x61, 0x66, 0xE9, 0x0A]

def notedFile : ReviewFile where
  path := ['x']
  status := .modified
  patchTwin :=
    { binaryBody := []
      hunks :=
        [{ id := 0, oldStart := some 1, newStart := some 1, sectionHeading := none
           lines :=
             [{ noNewline := false, lossy := false, kind := .removed, oldLine := some 1,
                newLine := none, text := ['a'] },
              { noNewline := false, lossy := false, kind := .added, oldLine := none,
                newLine := some 1, text := ['b'] }] }]
      metadata := []
      lossyLines := 1 }
  semanticTwin := none
  planner := { strategy := .line, fallback := none, notes := [] }

theorem parse_noted : parseDecoded (decodePatch notedBytes) {} = .ok [notedFile] := by
  decide +kernel

theorem lossyCounted_iff_noted : LossyCounted [notedFile] ↔ NotesExact notedBytes :=
  lossyCounted_iff notedBytes {} [notedFile] parse_noted

theorem miscounts_noted :
    ¬∀ (bytes : List UInt8) (files : List ReviewFile),
      parseDecoded (decodePatch bytes) {} = .ok files → LossyCounted files := by
  intro counted
  have count := counted notedBytes [notedFile] parse_noted notedFile List.mem_cons_self
  exact absurd count (by decide)

end DeepDiffForge.Patch
