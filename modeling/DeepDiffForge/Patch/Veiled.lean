import DeepDiffForge.Patch.Changes
import DeepDiffForge.Patch.Unambiguous

/-! Lossy lines hidden: a document grows from its lines as well when only the mark is left of each
hunk line that was not UTF-8, and the files it gives are the same but for those texts. -/

namespace DeepDiffForge.Patch
open Text DeepDiffForge.Core

def kindMark : PatchLineKind → Char
  | .context => ' '
  | .added => '+'
  | .removed => '-'

theorem bodyKind_mark (kind : PatchLineKind) : bodyKind [kindMark kind] = some kind := by
  cases kind <;> rfl

/-- What is left of a hidden text: the mark of a hunk line, else U+FFFD. -/
def veilText (text : Str) : Str :=
  match bodyKind text with
  | some kind => [kindMark kind]
  | none => ['\uFFFD']

def InputLine.veil (line : InputLine) : InputLine :=
  if line.lossy then { text := veilText line.text, lossy := true } else line

def veilLine (line : PatchLine) : PatchLine :=
  if line.lossy then { line with text := [] } else line

def veilHunk (hunk : PatchHunk) : PatchHunk := { hunk with lines := hunk.lines.map veilLine }

def veilFile (file : ReviewFile) : ReviewFile := recastFile veilHunk file

def BodyLine.veil (line : BodyLine) : BodyLine where
  text := if line.lossy then [kindMark line.kind] else line.text
  kind := line.kind
  lossy := line.lossy
  marker := line.marker
  read := by
    split_ifs
    · exact bodyKind_mark line.kind
    · exact line.read

def HunkText.veil (hunk : HunkText) : HunkText :=
  { hunk with body := hunk.body.map BodyLine.veil }

def Section.veil (part : Section) : Section :=
  { part with
    hunks := part.hunks.map HunkText.veil
    openHunk := part.openHunk.map HunkText.veil
    trailing := part.trailing.map InputLine.veil }

def Document.veil (doc : Document) : Document :=
  { doc with
    preamble := doc.preamble.map InputLine.veil
    closed := doc.closed.map Section.veil
    current := doc.current.map Section.veil }

@[simp] theorem lossy_veil (line : InputLine) : line.veil.lossy = line.lossy := by
  unfold InputLine.veil
  split_ifs with lossy
  · exact lossy.symm
  · rfl

@[simp] theorem veil_written (text : Str) : (writtenLine text).veil = writtenLine text := rfl

theorem veil_body (line : BodyLine) :
    InputLine.veil { text := line.text, lossy := line.lossy } =
      { text := line.veil.text, lossy := line.veil.lossy } := by
  have hidden : veilText line.text = [kindMark line.kind] := by rw [veilText, line.read]
  by_cases lossy : line.lossy = true
  · simp [InputLine.veil, BodyLine.veil, lossy, hidden]
  · simp [InputLine.veil, BodyLine.veil, lossy]

@[simp] theorem kind_veil (line : BodyLine) : line.veil.kind = line.kind := rfl

@[simp] theorem oldUsed_veil (body : List BodyLine) :
    oldUsed (body.map BodyLine.veil) = oldUsed body := by
  rw [oldUsed, List.countP_map]
  rfl

@[simp] theorem newUsed_veil (body : List BodyLine) :
    newUsed (body.map BodyLine.veil) = newUsed body := by
  rw [newUsed, List.countP_map]
  rfl

@[simp] theorem fits_veil (hunk : HunkText) (kind : PatchLineKind) :
    hunk.veil.fits kind = hunk.fits kind := by
  simp [HunkText.fits, HunkText.veil]

@[simp] theorem full_veil (hunk : HunkText) : hunk.veil.full = hunk.full := by
  simp [HunkText.full, HunkText.veil]

@[simp] theorem changes_veil (hunk : HunkText) : hunk.veil.changes = hunk.changes := by
  rw [HunkText.changes, HunkText.veil, List.any_map]
  rfl

theorem add_veil (hunk : HunkText) (line : BodyLine) :
    (hunk.add line).veil = hunk.veil.add line.veil := by
  simp [HunkText.add, HunkText.veil]

theorem bodies_veil (part : Section) : part.veil.bodies = part.bodies.map BodyLine.veil := by
  have hunks (hunks : List HunkText) : (hunks.map HunkText.veil).flatMap (·.body) =
      (hunks.flatMap (·.body)).map BodyLine.veil := by
    rw [List.flatMap_map, List.map_flatMap]
    rfl
  have opened : (part.openHunk.map HunkText.veil).toList = part.openHunk.toList.map HunkText.veil :=
    by cases part.openHunk <;> rfl
  rw [Section.bodies, Section.veil, opened, hunks, hunks, ← List.map_append, Section.bodies]

theorem markers_veil (part : Section) : part.veil.markers = part.markers := by
  rw [Section.markers, bodies_veil, List.flatMap_map]
  rfl

@[simp] theorem ended_veil (part : Section) (kind : PatchLineKind) :
    part.veil.ended kind = part.ended kind := by
  have old : part.veil.endedOld = part.endedOld := by
    rw [Section.endedOld, bodies_veil, List.any_map]
    rfl
  have new : part.veil.endedNew = part.endedNew := by
    rw [Section.endedNew, bodies_veil, List.any_map]
    rfl
  rw [Section.ended, old, new, Section.ended]

@[simp] theorem past_veil (part : Section) : part.veil.past = part.past := by
  simp [Section.past, Section.veil]

@[simp] theorem mayOpen_veil (part : Section) : part.veil.mayOpen = part.mayOpen := by
  have hunks : decide (part.veil.hunks ≠ []) = decide (part.hunks ≠ []) := by simp [Section.veil]
  have trailing : decide (part.veil.trailing = []) = decide (part.trailing = []) := by
    simp [Section.veil]
  have opened : part.veil.openHunk.isNone = part.openHunk.isNone := by simp [Section.veil]
  rw [Section.mayOpen, hunks, trailing, opened]
  rfl

theorem needsNew_veil (part : Section) : part.veil.needsNew = part.needsNew := by
  have hunks : decide (part.veil.hunks ≠ []) = decide (part.hunks ≠ []) := by simp [Section.veil]
  rw [Section.needsNew, hunks, Section.needsNew]
  rfl

theorem veil_unsigned (text : Str) (unsigned : isSigned text = false) :
    veilText text = [' '] ∨ veilText text = ['\uFFFD'] := by
  unfold veilText bodyKind
  cases text with
  | nil => exact .inl rfl
  | cons c rest =>
    simp only [isSigned, startsWith, stripPrefix, Bool.or_eq_false_iff] at unsigned
    have plus : c ≠ '+' := by
      rintro rfl
      simp at unsigned
    have minus : c ≠ '-' := by
      rintro rfl
      simp at unsigned
    by_cases blank : c = ' '
    · subst blank
      exact .inl rfl
    · right
      simp [plus, minus, blank]

theorem veil_framing (line : InputLine) (tainted : line.lossy = true → '\uFFFD' ∈ line.text)
    (framing : isFraming line.text = true) :
    line.veil = line ∨ line.veil.text = [' '] ∨ line.veil.text = ['\uFFFD'] := by
  by_cases lossy : line.lossy = true
  · right
    have inside : '\uFFFD' ∈ trimmed line.text := by
      obtain ⟨n, whole⟩ := trimEnd_eq_append '\r' line.text
      have mem := tainted lossy
      rw [whole, List.mem_append, List.mem_replicate] at mem
      exact mem.resolve_right (by simp)
    have unsigned : isSigned line.text = false := by
      simp only [isFraming, Bool.and_eq_true, Bool.or_eq_true, Bool.not_eq_true',
        decide_eq_true_eq] at framing
      rw [← isSigned_trimmed]
      rcases framing.2 with (rule | rule) | unsigned
      · exact absurd (rule ▸ inside) (by decide)
      · exact absurd (rule ▸ inside) (by decide)
      · exact unsigned
    have text : line.veil.text = veilText line.text := by rw [InputLine.veil, if_pos lossy]
    rw [text]
    exact veil_unsigned line.text unsigned
  · exact .inl (if_neg lossy)

theorem veil_marker (line : InputLine) (tainted : line.lossy = true → '\uFFFD' ∈ line.text)
    (text : line.text = eofMarker) : line.veil = line := by
  refine if_neg fun lossy => ?_
  exact absurd (text ▸ tainted lossy) (by decide)

theorem grows_veil (part grown : Section) (input : InputLine)
    (tainted : input.lossy = true → '\uFFFD' ∈ input.text) (grows : part.Grows input grown) :
    part.veil.Grows input.veil grown.veil := by
  cases grows with
  | extended line git early unbroken textual read =>
    exact .extended part.veil line git (by simpa using early) (by simp [Section.veil, unbroken])
      textual read
  | binary line binary read => exact .binary part.veil line binary read
  | oldName line git early unbroken textual old named =>
    exact .oldName part.veil line git (by simpa using early) (by simp [Section.veil, unbroken])
      textual old named
  | newName line awaiting new named => exact .newName part.veil line awaiting new named
  | hunk hunk may textual bare =>
    exact .hunk part.veil hunk.veil (by simpa using may) textual (by simp [HunkText.veil, bare])
  | body hunk line opened fits unended unmarked unfilled =>
    rw [veil_body]
    have step := Section.Grows.body part.veil hunk.veil line.veil (by simp [Section.veil, opened])
      (by simpa using fits) (by simpa using unended) unmarked (by simpa [← add_veil] using unfilled)
    rw [← add_veil] at step
    exact step
  | lastBody hunk line opened fits unended unmarked filled changes =>
    rw [veil_body]
    have step := Section.Grows.lastBody part.veil hunk.veil line.veil
      (by simp [Section.veil, opened]) (by simpa using fits) (by simpa using unended) unmarked
      (by simpa [← add_veil] using filled) (by simpa [← add_veil] using changes)
    rw [← add_veil] at step
    simpa [Section.veil] using step
  | marker hunk line marker text opened unmarked =>
    rw [veil_marker _ tainted text]
    have step := Section.Grows.marker part.veil hunk.veil line.veil input text
      (by simp [Section.veil, opened, add_veil]) unmarked
    have marked : hunk.veil.add { line.veil with marker := some input } =
        (hunk.add { line with marker := some input }).veil := 
      (add_veil hunk { line with marker := some input }).symm
    rw [marked] at step
    exact step
  | lastMarker hunks hunk line marker text unopened unbroken last unmarked =>
    rw [veil_marker _ tainted text]
    have step := Section.Grows.lastMarker part.veil (hunks.map HunkText.veil) hunk.veil line.veil
      input text (by simp [Section.veil, unopened]) (by simp [Section.veil, unbroken])
      (by simp [Section.veil, last, add_veil]) unmarked
    have marked : hunk.veil.add { line.veil with marker := some input } =
        (hunk.add { line with marker := some input }).veil := 
      (add_veil hunk { line with marker := some input }).symm
    rw [marked] at step
    simpa [Section.veil] using step
  | trailing line unopened settled textual framing plain moves =>
    have note : isFraming input.veil.text = true ∧ isExtended (trimmed input.veil.text) = false ∧
        (part.past = true ∨ (startsWith "rename old ".toList (trimmed input.veil.text) = false ∧
          startsWith "rename new ".toList (trimmed input.veil.text) = false)) := by
      rcases veil_framing input tainted framing with same | same | same
      · rw [same]
        exact ⟨framing, plain, moves⟩
      · rw [same]
        exact ⟨by decide, by decide, .inr (by decide)⟩
      · rw [same]
        exact ⟨by decide, by decide, .inr (by decide)⟩
    have step := Section.Grows.trailing part.veil input.veil (by simp [Section.veil, unopened])
      settled textual note.1 note.2.1 (by simpa using note.2.2)
    simpa [Section.veil] using step

theorem patchLine_veil (line : BodyLine) (old new : Nat) :
    line.veil.patchLine old new = veilLine (line.patchLine old new) := by
  by_cases lossy : line.lossy = true
  · simp [BodyLine.patchLine, veilLine, BodyLine.veil, lossy]
  · simp [BodyLine.patchLine, veilLine, BodyLine.veil, lossy]

theorem numberBody_veil (old new : Nat) (body : List BodyLine) :
    numberBody old new (body.map BodyLine.veil) = (numberBody old new body).map veilLine := by
  induction body generalizing old new with
  | nil => rfl
  | cons line body ih =>
    rw [List.map_cons, numberBody, ih, patchLine_veil, numberBody, List.map_cons, kind_veil]

theorem numberHunks_veil (id : HunkId) (hunks : List HunkText) :
    numberHunks id (hunks.map HunkText.veil) = (numberHunks id hunks).map veilHunk := by
  induction hunks generalizing id with
  | nil => rfl
  | cons hunk hunks ih =>
    have own : hunk.veil.patch id = veilHunk (hunk.patch id) := by
      have lines : hunk.veil.patchLines = hunk.patchLines.map veilLine :=
        numberBody_veil _ _ hunk.body
      rw [HunkText.patch, lines]
      rfl
    rw [List.map_cons, numberHunks, ih, own, numberHunks, List.map_cons]

theorem keepsKinds_veil : KeepsKinds veilHunk := by
  intro hunk
  rw [veilHunk, List.map_map]
  refine List.map_congr_left fun line _ => ?_
  rw [Function.comp_apply, veilLine]
  split_ifs <;> rfl

theorem lossyCount_veil (part : Section) : part.veil.lossyCount = part.lossyCount := by
  have body (hunk : HunkText) : hunk.veil.lines.countP (·.lossy) = hunk.lines.countP (·.lossy) := by
    rw [HunkText.lines, HunkText.lines, HunkText.veil, List.flatMap_map, List.countP_cons,
      List.countP_cons, List.countP_flatMap, List.countP_flatMap]
    rfl
  have hunks (hunks : List HunkText) : ((hunks.map HunkText.veil).flatMap HunkText.lines).countP
      (·.lossy) = (hunks.flatMap HunkText.lines).countP (·.lossy) := by
    rw [List.flatMap_map, List.countP_flatMap, List.countP_flatMap]
    exact congrArg List.sum (List.map_congr_left fun hunk _ => body hunk)
  have trailing : (part.trailing.map InputLine.veil).countP (·.lossy) =
      part.trailing.countP (·.lossy) := by
    rw [List.countP_map]
    exact List.countP_congr fun line _ => by rw [Function.comp_apply, lossy_veil]
  have opened : (part.openHunk.map HunkText.veil).toList = part.openHunk.toList.map HunkText.veil :=
    by cases part.openHunk <;> rfl
  simp only [Section.lossyCount, Section.lines, Section.veil, List.countP_append, opened, hunks,
    trailing]

theorem buf_veil (part : Section) : part.veil.buf =
    part.buf.recast veilHunk part.buf.firstLine part.buf.eofOld part.buf.eofNew
      part.buf.headerEnded := by
  have trailing : decide (part.veil.trailing ≠ []) = decide (part.trailing ≠ []) := by
    simp [Section.veil]
  have hunks : numberHunks 0 part.veil.hunks = (numberHunks 0 part.hunks).map veilHunk :=
    numberHunks_veil 0 part.hunks
  simp only [Section.buf, markers_veil, lossyCount_veil, past_veil, trailing, hunks]
  rfl

theorem review_veil (part : Section) : part.veil.review = part.review.map veilFile := by
  have opened : part.veil.openHunk.isSome = part.openHunk.isSome := by simp [Section.veil]
  rw [Section.review, opened, buf_veil, finished_recast _ _ _ _ _ _ keepsKinds_veil, Section.review]
  split_ifs <;> rfl

theorem shiftFile_veil (base : HunkId) (file : ReviewFile) :
    shiftFile base (veilFile file) = veilFile (shiftFile base file) := by
  simp [shiftFile, shiftHunks, veilFile, recastFile, veilHunk]

theorem reviewFrom_veil (id : HunkId) (parts : List Section) :
    reviewFrom id (parts.map Section.veil) = (reviewFrom id parts).map (·.map veilFile) := by
  induction parts generalizing id with
  | nil => rfl
  | cons part parts ih =>
    have count : part.veil.hunks.length = part.hunks.length := List.length_map ..
    simp only [List.map_cons, reviewFrom, review_veil, count, ih, Option.bind_eq_bind,
      Option.pure_def]
    cases part.review with
    | none => rfl
    | some file =>
      cases reviewFrom (id + part.hunks.length) parts with
      | none => rfl
      | some files =>
        simp only [Option.map_some, Option.bind_some, shiftFile_veil, List.map_cons]

theorem sections_veil (doc : Document) : doc.veil.sections = doc.sections.map Section.veil := by
  have current : (doc.current.map Section.veil).toList = doc.current.toList.map Section.veil := by
    cases doc.current <;> rfl
  rw [Document.sections, Document.veil, current, ← List.map_append, Document.sections]

theorem files_veil (doc : Document) : doc.veil.files = doc.files.map (·.map veilFile) := by
  rw [Document.files, sections_veil, reviewFrom_veil, Document.files]

theorem guessed_veil (doc : Document) : doc.veil.guessed = doc.guessed := by
  rw [Document.guessed, sections_veil, List.any_map, Document.guessed]
  rfl

theorem opens_veil (p0 : Bool) (input : InputLine) (part : Section) (opens : part.Opens p0 input) :
    part.veil.Opens p0 input.veil := by
  cases opens with
  | git line named => exact .git line named
  | traditional line old named => exact .traditional line old named

theorem document_grows_veil (doc next : Document) (input : InputLine)
    (tainted : input.lossy = true → '\uFFFD' ∈ input.text) (grows : doc.Grows input next) :
    doc.veil.Grows input.veil next.veil := by
  cases grows with
  | preamble early framing =>
    have note : isFraming input.veil.text = true := by
      rcases veil_framing input tainted framing with same | same | same
      · rw [same]
        exact framing
      · rw [same]
        decide
      · rw [same]
        decide
    have step := Document.Grows.preamble doc.veil input.veil (by simp [Document.veil, early]) note
    simpa [Document.veil] using step
  | opening part opens ends fresh =>
    have opened : part.veil.Opens doc.veil.guessed input.veil := by
      rw [guessed_veil]
      exact opens_veil _ _ _ opens
    have step := Document.Grows.opening doc.veil input.veil part.veil opened
      (by
        intro last held
        obtain ⟨own, present, rfl⟩ := Option.map_eq_some_iff.1 held
        rw [review_veil, Option.isSome_map]
        exact ends own present)
      (by
        intro last held
        obtain ⟨own, present, rfl⟩ := Option.map_eq_some_iff.1 held
        rw [needsNew_veil]
        exact fresh own present)
    have closed : doc.veil.closed ++ doc.veil.current.toList =
        (doc.closed ++ doc.current.toList).map Section.veil := sections_veil doc
    rw [closed] at step
    exact step
  | inside part grown current grows =>
    exact .inside doc.veil input.veil part.veil grown.veil (by simp [Document.veil, current])
      (grows_veil part grown input tainted grows)

theorem grown_veil (lines : List InputLine) (doc : Document) (grown : Document.Grown lines doc)
    (tainted : ∀ line ∈ lines, line.lossy = true → '\uFFFD' ∈ line.text) :
    Document.Grown (lines.map InputLine.veil) doc.veil := by
  induction grown with
  | empty => exact .empty
  | more grown step ih =>
    simp only [List.mem_append, List.mem_singleton, or_imp, forall_and, forall_eq] at tainted
    rw [List.map_append, List.map_singleton]
    exact .more (ih tainted.1) (document_grows_veil _ _ _ tainted.2 step)

/-- Inputs that are one once hidden give files that are one once hidden. -/
theorem files_unhidden (lines others : List InputLine) (doc other : Document)
    (grown : Document.Grown lines doc) (grown' : Document.Grown others other)
    (tainted : ∀ line ∈ lines, line.lossy = true → '\uFFFD' ∈ line.text)
    (tainted' : ∀ line ∈ others, line.lossy = true → '\uFFFD' ∈ line.text)
    (same : lines.map InputLine.veil = others.map InputLine.veil) :
    doc.files.map (·.map veilFile) = other.files.map (·.map veilFile) := by
  have first := grown_veil lines doc grown tainted
  have second := grown_veil others other grown' tainted'
  rw [same] at first
  rw [← files_veil, grown_unique _ _ _ first second, files_veil]

end DeepDiffForge.Patch
