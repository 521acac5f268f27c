import DeepDiffForge.Patch.Render

/-! The documents the parser accepts, as the input lines they are made of: a preamble and
sections, each with its headers, hunks and trailing lines. `Document.Grows` is the grammar, one
line at a time; it knows no line numbers and no error. -/

namespace DeepDiffForge.Patch
open Text DeepDiffForge.Core

structure InputLine where
  text : Str
  lossy : Bool := false
  terminated : Bool := true
  deriving DecidableEq, Repr

def writtenLine (text : Str) : InputLine := { text }

def trimmed (line : Str) : Str := trimEnd '\r' line

def hadCr (line : Str) : Bool := line.getLast? = some '\r'

def onOld (kind : PatchLineKind) : Bool := kind ≠ .added

def onNew (kind : PatchLineKind) : Bool := kind ≠ .removed

def bodyKind (line : Str) : Option PatchLineKind :=
  match line.head? with
  | some ' ' | none => some .context
  | some '+' => some .added
  | some '-' => some .removed
  | _ => none

/-- A line of a hunk with the end-of-file marker that follows it. -/
structure BodyLine where
  text : Str
  kind : PatchLineKind
  lossy : Bool
  marker : Option InputLine
  read : bodyKind text = some kind
  deriving DecidableEq, Repr

def BodyLine.lines (body : BodyLine) : List InputLine :=
  { text := body.text, lossy := body.lossy } :: body.marker.toList

structure HunkText where
  opening : Str
  header : HunkHeader
  body : List BodyLine
  read : parseHunkHeader (trimmed opening) = some header
  deriving DecidableEq, Repr

def HunkText.lines (hunk : HunkText) : List InputLine :=
  writtenLine hunk.opening :: hunk.body.flatMap BodyLine.lines

def oldUsed (body : List BodyLine) : Nat := body.countP (fun line => onOld line.kind)

def newUsed (body : List BodyLine) : Nat := body.countP (fun line => onNew line.kind)

def HunkText.fits (hunk : HunkText) (kind : PatchLineKind) : Bool :=
  (!onOld kind || decide (oldUsed hunk.body < hunk.header.oldCount)) &&
    (!onNew kind || decide (newUsed hunk.body < hunk.header.newCount))

def HunkText.full (hunk : HunkText) : Bool :=
  oldUsed hunk.body = hunk.header.oldCount && newUsed hunk.body = hunk.header.newCount

def HunkText.changes (hunk : HunkText) : Bool := hunk.body.any (fun line => line.kind ≠ .context)

def HunkText.add (hunk : HunkText) (line : BodyLine) : HunkText :=
  { hunk with body := hunk.body ++ [line] }

def BodyLine.patchLine (line : BodyLine) (old new : Nat) : PatchLine where
  noNewline := line.marker.isSome
  lossy := line.lossy
  kind := line.kind
  oldLine := if onOld line.kind then some (min old u32Max) else none
  newLine := if onNew line.kind then some (min new u32Max) else none
  text := line.text.tail

/-- The patch lines of a hunk body whose next line is `old` on one side and `new` on the other. -/
def numberBody : Nat → Nat → List BodyLine → List PatchLine
  | _, _, [] => []
  | old, new, line :: rest =>
      line.patchLine old new ::
        numberBody (if onOld line.kind then old + 1 else old)
          (if onNew line.kind then new + 1 else new) rest

def HunkText.patchLines (hunk : HunkText) : List PatchLine :=
  numberBody hunk.header.oldStart hunk.header.newStart hunk.body

def HunkText.patch (hunk : HunkText) (id : HunkId) : PatchHunk where
  id := id
  oldStart := some hunk.header.oldStart
  newStart := some hunk.header.newStart
  sectionHeading := hunk.header.sectionHeading
  lines := hunk.patchLines

def numberHunks : HunkId → List HunkText → List PatchHunk
  | _, [] => []
  | id, hunk :: rest => hunk.patch id :: numberHunks (id + 1) rest

structure GitLine where
  rest : Str
  names : Option Str × Option Str
  deriving DecidableEq, Repr

def GitLine.text (line : GitLine) : Str := "diff --git ".toList ++ line.rest

/-- A `---` or `+++` line, what follows its marker, and the name it gives. -/
structure NameLine where
  text : Str
  rest : Str
  name : Str
  deriving DecidableEq, Repr

/-- A file's part of a patch; `p0` says an earlier traditional header set `-p0`. -/
structure Section where
  p0 : Bool
  opening : Option GitLine := none
  extended : List Str := []
  binary : List Str := []
  oldName : Option NameLine := none
  newName : Option NameLine := none
  hunks : List HunkText := []
  openHunk : Option HunkText := none
  trailing : List InputLine := []
  deriving DecidableEq, Repr

namespace Section

def lines (part : Section) : List InputLine :=
  part.opening.toList.map (fun git => writtenLine git.text) ++
    part.extended.map writtenLine ++ part.binary.map writtenLine ++
    part.oldName.toList.map (fun old => writtenLine old.text) ++
    part.newName.toList.map (fun new => writtenLine new.text) ++
    part.hunks.flatMap HunkText.lines ++ part.openHunk.toList.flatMap HunkText.lines ++
    part.trailing

def git (part : Section) : Bool := part.opening.isSome

def headers (part : Section) : List Str := part.extended.map trimmed

def inBinary (part : Section) : Bool := part.headers.any (· = "GIT binary patch".toList)

def awaiting (part : Section) : Bool := part.oldName.isSome && part.newName.isNone

def past (part : Section) : Bool :=
  part.oldName.isSome || part.hunks ≠ [] || part.openHunk.isSome

def bodies (part : Section) : List BodyLine :=
  part.hunks.flatMap (·.body) ++ part.openHunk.toList.flatMap (·.body)

def markers (part : Section) : List InputLine := part.bodies.flatMap (·.marker.toList)

def endedOld (part : Section) : Bool :=
  part.bodies.any (fun line => line.marker.isSome && onOld line.kind)

def endedNew (part : Section) : Bool :=
  part.bodies.any (fun line => line.marker.isSome && onNew line.kind)

def ended (part : Section) (kind : PatchLineKind) : Bool :=
  (onOld kind && part.endedOld) || (onNew kind && part.endedNew)

def lastHunk (part : Section) : Option HunkText := part.openHunk.or part.hunks.getLast?

def canMark (part : Section) : Bool :=
  part.trailing = [] && (part.lastHunk.bind (·.body.getLast?)).any (·.marker.isNone)

/-- A `@@` line may come next: after `+++`, after an extended header, or after a hunk. -/
def mayOpen (part : Section) : Bool :=
  part.openHunk.isNone && part.trailing = [] && part.binary = [] &&
    (part.newName.isSome || part.hunks ≠ [] || (part.oldName.isNone && part.extended ≠ []))

/-- A `---` line starts a new section rather than naming this one. -/
def needsNew (part : Section) : Bool := part.newName.isSome || part.hunks ≠ []

def guesses (part : Section) : Bool :=
  part.opening.isNone && part.newName.any (fun new => guessesP0 new.name)

def bare (part : Section) : Bool :=
  if part.git then part.p0 else part.newName.any (fun new => part.p0 || guessesP0 new.name)

def lossyCount (part : Section) : Nat := part.lines.countP (·.lossy)

end Section

def traditionalNames (old new : Str) (p0 oldEpoch newEpoch newQuoted : Bool) :
    Option Str × Option Str × Option Str :=
  if old = devNull then (some old, some new, (stripP new p0).map squashSlashes)
  else if new = devNull then (some old, some new, (stripP old p0).map squashSlashes)
  else
    let name := traditionalName old new p0 newQuoted
    if oldEpoch then (some devNull, some new, name)
    else if newEpoch then (some old, some devNull, name)
    else (some old, some new, name)

namespace Section

def oldEpoch (part : Section) : Bool :=
  !part.git && part.oldName.any (fun old => !hadCr old.text && hasEpochTimestamp old.rest)

def names (part : Section) : Option Str × Option Str × Option Str :=
  match part.opening, part.oldName, part.newName with
  | none, some old, some new =>
      traditionalNames old.name new.name part.bare part.oldEpoch
        (!hadCr new.text && hasEpochTimestamp new.rest) (startsWith ['"'] new.rest)
  | _, old, new => (old.map (·.name), new.map (·.name), none)

def moved (part : Section) (start : Str) : Option Str :=
  ((part.headers.filterMap (stripPrefix start)).getLast?).bind movedPath

/-- What the parser holds for the section, its hunks numbered from 0 and without line numbers. -/
def buf (part : Section) : FileBuf where
  gitOld := part.opening.bind (·.names.1)
  gitNew := part.opening.bind (·.names.2)
  oldRaw := part.names.1
  newRaw := part.names.2.1
  traditionalPath := part.names.2.2
  renameFrom := part.moved "rename from ".toList
  renameTo := part.moved "rename to ".toList
  metadata := part.headers ++ part.markers.map (·.text)
  binaryBody := part.binary
  inBinaryBody := part.inBinary
  hunks := numberHunks 0 part.hunks
  lossyLines := min part.lossyCount u32Max
  awaitingNewHeader := part.awaiting
  pastHeaders := part.past
  headerEnded := part.git && !part.past && part.trailing ≠ []
  git := part.git
  p0 := part.bare
  oldEpoch := part.oldEpoch

end Section

def shiftHunks (shift : Nat) (hunks : List PatchHunk) : List PatchHunk :=
  hunks.map fun hunk => { hunk with id := hunk.id + shift }

def shiftFile (shift : Nat) (file : ReviewFile) : ReviewFile :=
  { file with patchTwin :=
      { file.patchTwin with hunks := shiftHunks shift file.patchTwin.hunks } }

/-- What ends a section and the file it gives, without the line an error would name. -/
def FileBuf.finished (file : FileBuf) : Option ReviewFile :=
  if file.awaitingNewHeader || file.inconsistent || file.mixesTextAndBinary then none
  else
    (file.completeMoveHeaders.bind fun completed =>
      if file.hasMove then some completed else completed.recordImpliedRename).bind fun named =>
    if named.checkMoveSources named.metadata none && named.resolvePath ≠ [] &&
      !named.onlyAnUnchangedMode && !(named.hunks = [] && (!named.git || named.metadata = []))
    then some named.intoReviewFile else none

def Section.review (part : Section) : Option ReviewFile :=
  if part.openHunk.isSome then none else part.buf.finished

/-- The files sections give, hunk ids running on from `id`. -/
def reviewFrom : HunkId → List Section → Option (List ReviewFile)
  | _, [] => some []
  | id, part :: rest => do
      let file ← part.review
      let files ← reviewFrom (id + part.hunks.length) rest
      return shiftFile id file :: files

/-- A patch as its sections; `p0` is the guess it is read under from the start. -/
structure Document where
  p0 : Bool := false
  preamble : List InputLine := []
  closed : List Section := []
  current : Option Section := none
  deriving DecidableEq, Repr

namespace Document

def sections (doc : Document) : List Section := doc.closed ++ doc.current.toList

def lines (doc : Document) : List InputLine := doc.preamble ++ doc.sections.flatMap Section.lines

def files (doc : Document) : Option (List ReviewFile) := reviewFrom 0 doc.sections

def guessed (doc : Document) : Bool := doc.p0 || doc.sections.any Section.guesses

end Document

def opensDiff (line : Str) : Bool :=
  startsWith "diff --git ".toList line || startsWith "diff --cc ".toList line ||
    startsWith "diff --combined ".toList line

/-- A line no header rule reads and that is no stray change: `---` and `-- ` frame mail. -/
def isFraming (line : Str) : Bool :=
  !startsWith ['\\'] line && !opensDiff line &&
  !startsWith "--- ".toList (trimmed line) && !startsWith "+++ ".toList (trimmed line) &&
  !startsWith "@@".toList (trimmed line) &&
  (trimmed line = "---".toList || trimmed line = "-- ".toList ||
    !(startsWith ['+'] (trimmed line) || startsWith ['-'] (trimmed line)))

def readsExtended (header : Str) : Bool :=
  isExtended header &&
  ["rename from ".toList, "rename to ".toList, "copy from ".toList, "copy to ".toList].all
    (fun start => (stripPrefix start header).all (fun path => (movedPath path).isSome)) &&
  modePrefixes.all (fun start => (stripPrefix start header).all (fun mode =>
    (parseMode mode).isSome))

/-- The sections a line can open, under the `-p0` guess so far. -/
inductive Section.Opens (p0 : Bool) : InputLine → Section → Prop where
  | git (line : GitLine) (named : gitNames line.rest p0 = some line.names) :
      Opens p0 (writtenLine line.text) { p0, opening := some line }
  | traditional (line : NameLine) (old : trimmed line.text = "--- ".toList ++ line.rest)
      (named : headerName line.rest (!hadCr line.text) = some line.name) :
      Opens p0 (writtenLine line.text) { p0, oldName := some line }

inductive Section.Grows : Section → InputLine → Section → Prop where
  | extended (part : Section) (line : Str) (git : part.git = true) (early : part.past = false)
      (unbroken : part.trailing = []) (textual : part.inBinary = false)
      (read : readsExtended (trimmed line) = true) :
      Grows part (writtenLine line) { part with extended := part.extended ++ [line] }
  | binary (part : Section) (line : Str) (binary : part.inBinary = true)
      (read : isBinaryBodyLine line = true) :
      Grows part (writtenLine line) { part with binary := part.binary ++ [line] }
  | oldName (part : Section) (line : NameLine) (git : part.git = true)
      (early : part.past = false) (unbroken : part.trailing = []) (textual : part.inBinary = false)
      (old : trimmed line.text = "--- ".toList ++ line.rest)
      (named : headerName line.rest false = some line.name) :
      Grows part (writtenLine line.text) { part with oldName := some line }
  | newName (part : Section) (line : NameLine) (awaiting : part.awaiting = true)
      (new : trimmed line.text = "+++ ".toList ++ line.rest)
      (named : headerName line.rest (!part.git && !hadCr line.text) = some line.name) :
      Grows part (writtenLine line.text) { part with newName := some line }
  | hunk (part : Section) (hunk : HunkText) (may : part.mayOpen = true)
      (textual : part.inBinary = false) (bare : hunk.body = []) :
      Grows part (writtenLine hunk.opening) { part with openHunk := some hunk }
  | body (part : Section) (hunk : HunkText) (line : BodyLine) (opened : part.openHunk = some hunk)
      (fits : hunk.fits line.kind = true) (unended : part.ended line.kind = false)
      (unmarked : line.marker = none) (unfilled : (hunk.add line).full = false) :
      Grows part { text := line.text, lossy := line.lossy }
        { part with openHunk := some (hunk.add line) }
  | lastBody (part : Section) (hunk : HunkText) (line : BodyLine)
      (opened : part.openHunk = some hunk) (fits : hunk.fits line.kind = true)
      (unended : part.ended line.kind = false) (unmarked : line.marker = none)
      (filled : (hunk.add line).full = true) (changes : (hunk.add line).changes = true) :
      Grows part { text := line.text, lossy := line.lossy }
        { part with hunks := part.hunks ++ [hunk.add line], openHunk := none }
  | marker (part : Section) (hunk : HunkText) (line : BodyLine) (marker : InputLine)
      (text : marker.text = eofMarker) (opened : part.openHunk = some (hunk.add line))
      (unmarked : line.marker = none) :
      Grows part marker
        { part with openHunk := some (hunk.add { line with marker := some marker }) }
  | lastMarker (part : Section) (hunks : List HunkText) (hunk : HunkText) (line : BodyLine)
      (marker : InputLine) (text : marker.text = eofMarker) (unopened : part.openHunk = none)
      (unbroken : part.trailing = []) (last : part.hunks = hunks ++ [hunk.add line])
      (unmarked : line.marker = none) :
      Grows part marker
        { part with hunks := hunks ++ [hunk.add { line with marker := some marker }] }
  | trailing (part : Section) (line : InputLine) (unopened : part.openHunk = none)
      (settled : part.awaiting = false) (textual : part.inBinary = false)
      (framing : isFraming line.text = true) (plain : isExtended (trimmed line.text) = false)
      (moves : part.past = true ∨ (startsWith "rename old ".toList (trimmed line.text) = false ∧
        startsWith "rename new ".toList (trimmed line.text) = false)) :
      Grows part line { part with trailing := part.trailing ++ [line] }

inductive Document.Grows : Document → InputLine → Document → Prop where
  | preamble (doc : Document) (line : InputLine) (early : doc.current = none)
      (framing : isFraming line.text = true) :
      Grows doc line { doc with preamble := doc.preamble ++ [line] }
  | opening (doc : Document) (line : InputLine) (part : Section)
      (opens : part.Opens doc.guessed line) (ends : ∀ last ∈ doc.current, last.review.isSome)
      (fresh : ∀ last ∈ doc.current, part.git = true ∨ last.needsNew = true) :
      Grows doc line
        { doc with closed := doc.closed ++ doc.current.toList, current := some part }
  | inside (doc : Document) (line : InputLine) (part grown : Section)
      (current : doc.current = some part) (grows : part.Grows line grown) :
      Grows doc line { doc with current := some grown }

inductive Document.Grown : List InputLine → Document → Prop where
  | empty : Grown [] {}
  | more {lines : List InputLine} {line : InputLine} {doc next : Document} (grown : Grown lines doc)
      (step : doc.Grows line next) : Grown (lines ++ [line]) next

end DeepDiffForge.Patch
