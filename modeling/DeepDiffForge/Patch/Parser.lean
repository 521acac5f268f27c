import DeepDiffForge.Patch.Headers
import Mathlib.Data.List.ModifyLast

/-! The patch parser: one line at a time over the state of the open file and hunk. The source
mutates a parser and returns at the first error; here a step gives the next parser or the error. -/

namespace DeepDiffForge.Patch
open Text DeepDiffForge.Core

def defaultByteBudget : Nat := 64 * 1024 * 1024

def defaultLineBudget : Nat := 1000000

inductive PatchParseError where
  | invalidEofMarker (lineNumber : Nat)
  | unsupportedFormat (lineNumber : Nat)
  | invalidPath (lineNumber : Nat)
  | invalidMode (lineNumber : Nat)
  | misplacedHeader (lineNumber : Nat)
  | inconsistentHeader (lineNumber : Nat)
  | unterminatedLine (lineNumber : Nat)
  | budgetExceeded (limitBytes actualBytes : Nat)
  | lineBudgetExceeded (limitLines actualLines : Nat)
  | misplacedHunk (lineNumber : Nat)
  | hunkWithoutChange (lineNumber : Nat)
  | sectionWithoutPatch (lineNumber : Nat)
  | lossyHeader (lineNumber : Nat)
  | malformedHunkHeader (lineNumber : Nat) (text : Str)
  | bodyLineOutsideHunk (lineNumber : Nat) (text : Str)
  | truncatedHunk (lineNumber remainingOld remainingNew : Nat)
  | hunkLineCountMismatch (lineNumber : Nat) (text : Str)
  deriving DecidableEq, Repr

structure ParseOptions where
  byteBudget : Nat := defaultByteBudget

structure FileBuf where
  gitOld : Option Str := none
  gitNew : Option Str := none
  oldRaw : Option Str := none
  newRaw : Option Str := none
  renameFrom : Option Str := none
  renameTo : Option Str := none
  metadata : List Str := []
  binaryBody : List Str := []
  inBinaryBody : Bool := false
  hunks : List PatchHunk := []
  lossyLines : Nat := 0
  awaitingNewHeader : Bool := false
  pastHeaders : Bool := false
  headerEnded : Bool := false
  eofOld : Option Nat := none
  eofNew : Option Nat := none
  git : Bool := false
  p0 : Bool := false
  oldEpoch : Bool := false
  traditionalPath : Option Str := none
  firstLine : Nat := 0
  deriving DecidableEq, Repr

structure HunkBuf where
  id : HunkId
  sectionHeading : Option Str
  oldStart : Nat
  newStart : Nat
  oldLine : Nat
  newLine : Nat
  remOld : Nat
  remNew : Nat
  lines : List PatchLine
  deriving DecidableEq, Repr

structure Parser where
  files : List ReviewFile := []
  file : Option FileBuf := none
  hunk : Option HunkBuf := none
  nextHunkId : HunkId := 0
  lastLine : Nat := 0
  canMarkEof : Bool := false
  hunkMayOpen : Bool := false
  p0 : Bool := false
  unterminatedLast : Option Nat := none
  deriving DecidableEq, Repr

def eofMarker : Str := "\\ No newline at end of file".toList

def bodyLine (kind : PatchLineKind) (oldLine newLine : Option Nat) (text : Str) : PatchLine :=
  { noNewline := false, lossy := false, kind, oldLine, newLine, text }

/-- Try to consume a line as a hunk body line; `none` when it is not one. -/
def HunkBuf.consumeBody (hunk : HunkBuf) (line : Str) (lineNumber : Nat) :
    Option (Except PatchParseError HunkBuf) :=
  let mismatch := Except.error (.hunkLineCountMismatch lineNumber line)
  let text := line.tail
  match line.head? with
  | some ' ' | none =>
      if hunk.remOld = 0 || hunk.remNew = 0 then some mismatch
      else some (.ok { hunk with
        lines := hunk.lines ++ [bodyLine .context (some hunk.oldLine) (some hunk.newLine) text]
        oldLine := saturatingAdd hunk.oldLine 1
        newLine := saturatingAdd hunk.newLine 1
        remOld := hunk.remOld - 1
        remNew := hunk.remNew - 1 })
  | some '+' =>
      if hunk.remNew = 0 then some mismatch
      else some (.ok { hunk with
        lines := hunk.lines ++ [bodyLine .added none (some hunk.newLine) text]
        newLine := saturatingAdd hunk.newLine 1
        remNew := hunk.remNew - 1 })
  | some '-' =>
      if hunk.remOld = 0 then some mismatch
      else some (.ok { hunk with
        lines := hunk.lines ++ [bodyLine .removed (some hunk.oldLine) none text]
        oldLine := saturatingAdd hunk.oldLine 1
        remOld := hunk.remOld - 1 })
  | _ => none

/-- The marker that ended the side a body line adds to, if one did. -/
def FileBuf.endedSide (file : FileBuf) (line : Str) : Option Nat :=
  match line.head? with
  | some '-' => file.eofOld
  | some '+' => file.eofNew
  | _ => file.eofOld.or file.eofNew

def FileBuf.has (file : FileBuf) (start : Str) : Bool :=
  file.metadata.any (fun line => startsWith start line)

def FileBuf.hasMove (file : FileBuf) : Bool := movePrefixes.any file.has

/-- The canonical mode a mode header names: the first such line's. -/
def FileBuf.mode (file : FileBuf) (start : Str) : Option Nat :=
  ((file.metadata.findSome? (stripPrefix start)).bind parseMode).map canonMode

def FileBuf.resolveStatus (file : FileBuf) : FileStatus :=
  let oldDevnull := file.oldRaw = some devNull
  let newDevnull := file.newRaw = some devNull
  let binary := file.has "Binary files ".toList || file.has "GIT binary patch".toList
  let newFile := file.has "new file mode ".toList || oldDevnull
  let deleted := file.has "deleted file mode ".toList || newDevnull
  let modeChange := file.has "old mode ".toList || file.has "new mode ".toList
  let sameType :=
    match file.mode "old mode ".toList, file.mode "new mode ".toList with
    | some old, some new => decide (objectType old = objectType new)
    | _, _ => false
  if binary then .binaryChanged
  else if file.renameFrom.isSome || file.renameTo.isSome then .renamed
  else if file.has "copy from ".toList || file.has "copy to ".toList then .copied
  else if newFile then .added
  else if deleted then .deleted
  else if modeChange && file.hunks = [] then if sameType then .modeChanged else .typeChanged
  else if file.hunks = [] && file.metadata = [] && file.oldRaw.isNone && file.newRaw.isNone &&
    file.gitNew.isNone then .unknown
  else .modified

def namedSide (raw : Option Str) (p0 : Bool) : Option Str :=
  (raw.filter (· ≠ devNull)).map (pName · p0)

def FileBuf.resolvePath (file : FileBuf) : Str :=
  match file.renameTo with
  | some moved => moved
  | none =>
      match file.traditionalPath with
      | some path => path
      | none =>
          ((((namedSide file.newRaw file.p0).or (namedSide file.oldRaw file.p0)).or
            file.gitNew).or file.gitOld).getD []

def FileBuf.changedLines (file : FileBuf) : List PatchLine := file.hunks.flatMap (·.lines)

/-- The headers contradict each other, the hunks, or the status they give. -/
def FileBuf.inconsistent (file : FileBuf) : Bool :=
  let hasNew := file.has "new file mode ".toList
  let hasDeleted := file.has "deleted file mode ".toList
  let moved := file.hasMove
  (hasNew && hasDeleted) ||
  ((hasNew || hasDeleted) && moved) ||
  ((hasNew || (!file.git && file.resolveStatus = .added)) &&
    file.changedLines.any (fun line => line.kind ≠ .added)) ||
  ((hasDeleted || (!file.git && file.resolveStatus = .deleted)) &&
    file.changedLines.any (fun line => line.kind ≠ .removed)) ||
  (file.hunks ≠ [] &&
    ((hasNew && file.resolveStatus ≠ .added) || (hasDeleted && file.resolveStatus ≠ .deleted))) ||
  (hasNew && file.oldRaw.any (· ≠ devNull)) ||
  (hasDeleted && file.newRaw.any (· ≠ devNull)) ||
  (file.git && !moved && file.newRaw = some devNull && !hasDeleted) ||
  (file.git && !moved && file.oldRaw = some devNull && !hasNew)

def FileBuf.mixesTextAndBinary (file : FileBuf) : Bool :=
  file.hunks ≠ [] &&
    file.metadata.any (fun m => m = "GIT binary patch".toList || startsWith "Binary files ".toList m)

/-- Record the side of a move only `---`/`+++` names, as the header Git reads it as. -/
def FileBuf.completeSide (file : FileBuf) (verb side : Str) (raw : Option Str) : Option FileBuf :=
  match (namedSide raw file.p0).filter (fun name => !gitRefusesPath name) with
  | none => none
  | some name =>
      let file := { file with metadata := file.metadata ++ [verb ++ side ++ quote name] }
      if verb = "rename ".toList then
        if side = "from ".toList then some { file with renameFrom := some name }
        else some { file with renameTo := some name }
      else some file

def FileBuf.completeMoveHeaders (file : FileBuf) : Option FileBuf :=
  let complete (verb : Str) : Option FileBuf :=
    let noFrom := !file.has (verb ++ "from ".toList)
    let noTo := !file.has (verb ++ "to ".toList)
    (if noFrom then file.completeSide verb "from ".toList file.oldRaw else some file).bind
      fun file' => if noTo then file'.completeSide verb "to ".toList file.newRaw else some file'
  if file.has "rename from ".toList || file.has "rename to ".toList then complete "rename ".toList
  else if file.has "copy from ".toList || file.has "copy to ".toList then complete "copy ".toList
  else some file

/-- A Git section whose two names differ is a rename to Git: record the headers it would have
written. `none` when Git refuses either name. -/
def FileBuf.recordImpliedRename (file : FileBuf) : Option FileBuf :=
  if !file.git then some file
  else
    match namedSide file.oldRaw file.p0, namedSide file.newRaw file.p0 with
    | some old, some new =>
        if old ≠ new ∧ old ≠ [] ∧ new ≠ [] then
          if gitRefusesPath old || gitRefusesPath new then none
          else some { file with
            metadata := file.metadata ++
              ["rename from ".toList ++ quote old, "rename to ".toList ++ quote new]
            renameFrom := some old
            renameTo := some new }
        else some file
    | _, _ => some file

def moveSource (line : Str) : Option Str :=
  (stripPrefix "rename from ".toList line).or (stripPrefix "copy from ".toList line)

/-- The `rename from`/`copy from` headers name one path, the one `---` names. -/
def FileBuf.checkMoveSources (file : FileBuf) : List Str → Option Str → Bool
  | [], _ => true
  | line :: later, declared =>
      match moveSource line with
      | none => file.checkMoveSources later declared
      | some source =>
          match (decodePath source).map squashSlashes with
          | none => false
          | some source =>
              !(declared.any (· ≠ source)) &&
              !(file.oldRaw.any (fun old => pName old file.p0 ≠ source) ||
                file.newRaw = some devNull ||
                file.has "new file mode ".toList || file.has "deleted file mode ".toList) &&
              file.checkMoveSources later (some source)

/-- The mode headers are the section's only content, and Git reads no mode change in them. -/
def FileBuf.onlyAnUnchangedMode (file : FileBuf) : Bool :=
  let hasMode := (file.mode "old mode ".toList).isSome || (file.mode "new mode ".toList).isSome
  let changed :=
    match file.mode "old mode ".toList, file.mode "new mode ".toList with
    | some old, some new => decide (old ≠ new)
    | _, _ => false
  let other := file.metadata.any (startsWithAny
    ["new file mode ".toList, "deleted file mode ".toList, "rename ".toList, "copy ".toList,
      "Binary files ".toList, "GIT binary patch".toList])
  hasMode && !changed && file.hunks = [] && !other

def FileBuf.refuseWhatGitReadsNothingFrom (file : FileBuf) (lastLine : Nat) :
    Except PatchParseError Unit :=
  if file.resolvePath = [] then .error (.invalidPath file.firstLine)
  else if file.onlyAnUnchangedMode then .error (.invalidMode lastLine)
  else if file.hunks = [] && (!file.git || file.metadata = []) then
    .error (.sectionWithoutPatch file.firstLine)
  else .ok ()

def FileBuf.intoReviewFile (file : FileBuf) : ReviewFile where
  path := file.resolvePath
  status := file.resolveStatus
  patchTwin :=
    { binaryBody := file.binaryBody, hunks := file.hunks, metadata := file.metadata,
      lossyLines := file.lossyLines }
  semanticTwin := none
  planner :=
    { strategy := if file.resolveStatus = .binaryChanged then .binary else .line,
      fallback := none, notes := [] }

/-- The checks that end a section, and the file it gives. -/
def FileBuf.finish (file : FileBuf) (lastLine : Nat) : Except PatchParseError ReviewFile :=
  if file.awaitingNewHeader then .error (.misplacedHeader lastLine)
  else if file.inconsistent then .error (.inconsistentHeader lastLine)
  else if file.mixesTextAndBinary then .error (.unsupportedFormat lastLine)
  else
    match file.completeMoveHeaders with
    | none => .error (.invalidPath file.firstLine)
    | some completed =>
        match (if file.hasMove then some completed else completed.recordImpliedRename) with
        | none => .error (.invalidPath lastLine)
        | some named =>
            if named.checkMoveSources named.metadata none then do
              named.refuseWhatGitReadsNothingFrom lastLine
              return named.intoReviewFile
            else .error (.invalidPath lastLine)

def Parser.flushFile (parser : Parser) : Except PatchParseError Parser :=
  match parser.file with
  | none => .ok parser
  | some file => do
      let reviewed ← file.finish parser.lastLine
      return { parser with file := none, files := parser.files ++ [reviewed] }

def Parser.closeHunk (parser : Parser) (lineNumber : Nat) : Except PatchParseError Parser :=
  match parser.hunk with
  | none => .ok parser
  | some hunk =>
      if hunk.remOld ≠ 0 ∨ hunk.remNew ≠ 0 then
        .error (.truncatedHunk lineNumber hunk.remOld hunk.remNew)
      else if hunk.lines.all (fun line => line.kind = .context) then
        .error (.hunkWithoutChange lineNumber)
      else
        .ok { parser with
          hunk := none
          file := parser.file.map fun file =>
            { file with
              hunks := file.hunks ++
                [{ id := hunk.id, oldStart := some hunk.oldStart, newStart := some hunk.newStart,
                   sectionHeading := hunk.sectionHeading, lines := hunk.lines }] } }

def Parser.modifyLastBodyLine (parser : Parser) (change : PatchLine → PatchLine) : Parser :=
  match parser.file with
  | none => parser
  | some file =>
      match parser.hunk with
      | some hunk =>
          if hunk.lines = [] then
            { parser with file := some { file with
                hunks := file.hunks.modifyLast fun closed =>
                  { closed with lines := closed.lines.modifyLast change } } }
          else
            { parser with hunk := some { hunk with lines := hunk.lines.modifyLast change } }
      | none =>
          { parser with file := some { file with
              hunks := file.hunks.modifyLast fun closed =>
                { closed with lines := closed.lines.modifyLast change } } }

def Parser.lastBodyLine (parser : Parser) : Option PatchLine :=
  match parser.file with
  | none => none
  | some file =>
      (parser.hunk.bind (·.lines.getLast?)).or (file.hunks.getLast?.bind (·.lines.getLast?))

/-- The `\ No newline at end of file` marker, which ends the side of the line before it. -/
def Parser.markEof (parser : Parser) (line : Str) (lineNumber : Nat) : Parser :=
  let kind := parser.lastBodyLine.map (·.kind)
  let parser := parser.modifyLastBodyLine fun previous => { previous with noNewline := true }
  { parser with
    file := parser.file.map fun file =>
      { file with
        metadata := file.metadata ++ [line]
        eofOld := if kind ≠ some .added then some lineNumber else file.eofOld
        eofNew := if kind ≠ some .removed then some lineNumber else file.eofNew } }

/-- The names a `diff --git` line gives its two sides, or `none` when one is malformed. -/
def gitNames (rest : Str) (p0 : Bool) : Option (Option Str × Option Str) :=
  if startsWith ['"'] rest then
    match decodeQuotedPrefix rest with
    | none => none
    | some (old, remaining) =>
        match decodePath (trimStart remaining) with
        | none => none
        | some new => some (some (headerHalf old p0), some (headerHalf new p0))
  else
    match sameNameHalves rest p0 with
    | some name => (decodePath name).map fun name => (some name, some name)
    | none =>
        match (rfind " \"b/".toList rest).or (rfind " b/".toList rest) with
        | none => some (none, none)
        | some sep =>
            match decodePath (rest.take sep), decodePath (rest.drop (sep + 1)) with
            | some old, some new => some (some (pName old p0), some (pName new p0))
            | _, _ => none

def Parser.startGitFile (parser : Parser) (rest : Str) (lineNumber : Nat) :
    Except PatchParseError Parser := do
  let parser ← parser.closeHunk lineNumber
  let parser ← parser.flushFile
  match gitNames rest parser.p0 with
  | none => .error (.invalidPath lineNumber)
  | some (gitOld, gitNew) =>
      return { parser with
        file := some { git := true, p0 := parser.p0, firstLine := lineNumber, gitOld, gitNew } }

def FileBuf.onOldHeader (file : FileBuf) (rest : Str) (hadCr : Bool) (lineNumber : Nat) :
    Except PatchParseError FileBuf :=
  if file.oldRaw.isSome || file.headerEnded then .error (.misplacedHeader lineNumber)
  else
    match headerName rest (!file.git && !hadCr) with
    | none => .error (.invalidPath lineNumber)
    | some name =>
        .ok { file with
          oldRaw := some name
          oldEpoch := !file.git && !hadCr && hasEpochTimestamp rest
          awaitingNewHeader := true
          pastHeaders := true }

def Parser.onOldHeader (parser : Parser) (rest : Str) (hadCr : Bool) (lineNumber : Nat) :
    Except PatchParseError Parser := do
  let parser ← parser.closeHunk lineNumber
  let needsNew := parser.file.any (fun file => file.newRaw.isSome || file.hunks ≠ [])
  let parser ←
    if parser.file.isNone || needsNew then do
      let parser ← parser.flushFile
      pure { parser with file := some { firstLine := lineNumber } }
    else pure parser
  match parser.file with
  | none => return parser
  | some file => do
      let file ← file.onOldHeader rest hadCr lineNumber
      return { parser with file := some file }

def traditionalName (old new : Str) (p0 newQuoted : Bool) : Option Str :=
  match (stripP old p0).map squashSlashes, stripP new p0 with
  | some first, some second =>
      if !newQuoted && startsWith first second then some first
      else some (squashSlashes second)
  | none, some second => some (squashSlashes second)
  | first, none => first

/-- Name a traditional diff as Git names it once both headers are there. -/
def FileBuf.nameTraditional (file : FileBuf) (newEpoch newQuoted : Bool) : FileBuf :=
  match file.oldRaw, file.newRaw with
  | some old, some new =>
      if old = devNull then
        { file with traditionalPath := (stripP new file.p0).map squashSlashes }
      else if new = devNull then
        { file with traditionalPath := (stripP old file.p0).map squashSlashes }
      else
        let name := traditionalName old new file.p0 newQuoted
        if file.oldEpoch then { file with oldRaw := some devNull, traditionalPath := name }
        else if newEpoch then { file with newRaw := some devNull, traditionalPath := name }
        else { file with traditionalPath := name }
  | _, _ => file

/-- A new name with no `/` makes Git guess `-p0`. -/
def guessesP0 (name : Str) : Bool := name ≠ devNull && name ≠ [] && '/' ∉ name

def FileBuf.onNewHeader (file : FileBuf) (rest : Str) (hadCr p0 : Bool) (lineNumber : Nat) :
    Except PatchParseError FileBuf :=
  match headerName rest (!file.git && !hadCr) with
  | none => .error (.invalidPath lineNumber)
  | some name =>
      if file.git then .ok { file with awaitingNewHeader := false, newRaw := some name }
      else
        .ok ({ file with
          awaitingNewHeader := false
          p0 := p0 || guessesP0 name
          newRaw := some name }.nameTraditional
            (!hadCr && hasEpochTimestamp rest) (startsWith ['"'] rest))

def Parser.onNewHeader (parser : Parser) (rest : Str) (hadCr : Bool) (lineNumber : Nat) :
    Except PatchParseError Parser :=
  match parser.file with
  | none => .error (.misplacedHeader lineNumber)
  | some file =>
      if !file.awaitingNewHeader then .error (.misplacedHeader lineNumber)
      else do
        let named ← file.onNewHeader rest hadCr parser.p0 lineNumber
        return { parser with
          file := some named
          p0 := if file.git then parser.p0 else named.p0 }

def Parser.openHunk (parser : Parser) (line : Str) (lineNumber : Nat) (hunkMayOpen : Bool) :
    Except PatchParseError Parser :=
  match parseHunkHeader line with
  | none => .error (.malformedHunkHeader lineNumber line)
  | some header =>
      match parser.file.filter (fun _ => hunkMayOpen) with
      | none => .error (.misplacedHunk lineNumber)
      | some file =>
          .ok { parser with
            file := some { file with pastHeaders := true }
            nextHunkId := parser.nextHunkId + 1
            hunk := some
              { id := parser.nextHunkId, sectionHeading := header.sectionHeading, oldStart := header.oldStart,
                newStart := header.newStart, oldLine := header.oldStart,
                newLine := header.newStart, remOld := header.oldCount,
                remNew := header.newCount, lines := [] } }

def movedPath (path : Str) : Option Str :=
  ((decodePath path).filter (fun p => !gitRefusesPath p)).map squashSlashes

def isExtended (line : Str) : Bool :=
  startsWithAny metaPrefixes line || startsWithAny movePrefixes line

/-- Read a line as an extended header; `none` when it is not one. -/
def FileBuf.tryMetadata (file : FileBuf) (line : Str) (lineNumber : Nat) :
    Except PatchParseError (Option FileBuf) :=
  if isExtended line && (file.pastHeaders || file.headerEnded) then
    .error (.misplacedHeader lineNumber)
  else if !file.pastHeaders &&
      (startsWith "rename old ".toList line || startsWith "rename new ".toList line) then
    .error (.unsupportedFormat lineNumber)
  else
    match stripPrefix "rename from ".toList line with
    | some path =>
        match movedPath path with
        | none => .error (.invalidPath lineNumber)
        | some moved =>
            .ok (some { file with renameFrom := some moved, metadata := file.metadata ++ [line] })
    | none =>
    match stripPrefix "rename to ".toList line with
    | some path =>
        match movedPath path with
        | none => .error (.invalidPath lineNumber)
        | some moved =>
            .ok (some { file with renameTo := some moved, metadata := file.metadata ++ [line] })
    | none =>
    let copied := (stripPrefix "copy from ".toList line).or (stripPrefix "copy to ".toList line)
    if copied.any (fun path => (movedPath path).isNone) then .error (.invalidPath lineNumber)
    else if modePrefixes.any (fun p =>
        (stripPrefix p line).any (fun mode => (parseMode mode).isNone)) then
      .error (.invalidMode lineNumber)
    else if startsWithAny metaPrefixes line then
      .ok (some { file with
        inBinaryBody := file.inBinaryBody || line = "GIT binary patch".toList
        metadata := file.metadata ++ [line] })
    else .ok none

inductive LineUse where
  | interpreted | ignored
  deriving DecidableEq, Repr

def Parser.dispatchHeader (parser : Parser) (line : Str) (hadCr : Bool) (lineNumber : Nat)
    (hunkMayOpen : Bool) : Except PatchParseError (Parser × LineUse) :=
  if parser.file.any (·.awaitingNewHeader) && !startsWith "+++ ".toList line then
    .error (.misplacedHeader lineNumber)
  else
    match stripPrefix "--- ".toList line with
    | some rest => do
        let parser ← parser.onOldHeader rest hadCr lineNumber
        return (parser, .interpreted)
    | none =>
    match stripPrefix "+++ ".toList line with
    | some rest => do
        let parser ← parser.onNewHeader rest hadCr lineNumber
        return ({ parser with hunkMayOpen := true }, .interpreted)
    | none =>
    if startsWith "@@".toList line then do
      let parser ← parser.openHunk line lineNumber hunkMayOpen
      return (parser, .interpreted)
    else do
      let read ← match parser.file with
        | none => pure none
        | some file => file.tryMetadata line lineNumber
      match read with
      | some file => return ({ parser with file := some file, hunkMayOpen := true }, .interpreted)
      | none =>
          if line = "---".toList || line = "-- ".toList then return (parser, .ignored)
          else if startsWith ['+'] line || startsWith ['-'] line then
            .error (.bodyLineOutsideHunk lineNumber line)
          else return (parser, .ignored)

def Parser.dispatchNonBody (parser : Parser) (line : Str) (lineNumber : Nat)
    (hunkMayOpen : Bool) : Except PatchParseError (Parser × LineUse) :=
  if startsWith "diff --cc ".toList line || startsWith "diff --combined ".toList line then
    .error (.unsupportedFormat lineNumber)
  else
    match stripPrefix "diff --git ".toList line with
    | some rest => do
        let parser ← parser.startGitFile rest lineNumber
        return (parser, .interpreted)
    | none =>
        match parser.file.filter (·.inBinaryBody) with
        | some file =>
            if isBinaryBodyLine line then
              .ok ({ parser with
                file := some { file with binaryBody := file.binaryBody ++ [line] } },
                .interpreted)
            else .error (.unsupportedFormat lineNumber)
        | none =>
            parser.dispatchHeader (trimEnd '\r' line) (line.getLast? = some '\r') lineNumber
              hunkMayOpen

/-- A line outside a hunk body: headers must be exact UTF-8 and end in a line feed, and an
ignored line ends a Git section's extended header. -/
def Parser.feedNonBody (parser : Parser) (line : Str) (lineNumber : Nat) (lossy : Bool)
    (hunkMayOpen : Bool) : Except PatchParseError Parser := do
  let (parser, used) ← parser.dispatchNonBody line lineNumber hunkMayOpen
  match used with
  | .interpreted =>
      if lossy then .error (.lossyHeader lineNumber)
      else if parser.unterminatedLast = some lineNumber then .error (.unterminatedLine lineNumber)
      else return parser
  | .ignored =>
      return { parser with
        file := parser.file.map fun file =>
          if file.git && !file.pastHeaders then { file with headerEnded := true } else file }

def Parser.feed (parser : Parser) (line : Str) (lineNumber : Nat) (lossy : Bool) :
    Except PatchParseError Parser :=
  let canMarkEof := parser.canMarkEof
  let hunkMayOpen := parser.hunkMayOpen
  let parser := { parser with lastLine := lineNumber, canMarkEof := false, hunkMayOpen := false }
  if startsWith ['\\'] line then
    if !canMarkEof || line ≠ eofMarker then .error (.invalidEofMarker lineNumber)
    else .ok { parser.markEof line lineNumber with hunkMayOpen }
  else
    match parser.hunk with
    | none => parser.feedNonBody line lineNumber lossy hunkMayOpen
    | some hunk =>
        match (if 0 < hunk.remOld || 0 < hunk.remNew then hunk.consumeBody line lineNumber
          else none) with
        | some consumed => do
            let hunk ← consumed
            match parser.file.bind (·.endedSide line) with
            | some marker => .error (.invalidEofMarker marker)
            | none =>
                let parser := { parser with hunk := some hunk, canMarkEof := true }
                if hunk.remOld = 0 && hunk.remNew = 0 then do
                  let parser ← parser.closeHunk lineNumber
                  return { parser with hunkMayOpen := true }
                else return parser
        | none => do
            let parser ← parser.closeHunk lineNumber
            parser.feedNonBody line lineNumber lossy hunkMayOpen

/-- Mark the line just fed, which was decoded lossily, and count it for its file. -/
def Parser.markLossy (parser : Parser) : Parser :=
  let parser :=
    if parser.canMarkEof then parser.modifyLastBodyLine fun body => { body with lossy := true }
    else parser
  { parser with
    file := parser.file.map fun file =>
      { file with lossyLines := saturatingAdd file.lossyLines 1 } }

def Parser.step (parser : Parser) (line : Str) (lineNumber : Nat) (lossy : Bool) :
    Except PatchParseError Parser := do
  let fed ← parser.feed line lineNumber lossy
  if parser.unterminatedLast = some lineNumber && fed.canMarkEof then
    .error (.unterminatedLine lineNumber)
  else if lossy then return fed.markLossy
  else return fed

/-- The loop of `parse_lines`; `lossy` holds the lossy line numbers not yet passed. -/
def feedLines : List Str → Nat → List Nat → Parser → Except PatchParseError Parser
  | [], _, _, parser => .ok parser
  | line :: rest, index, lossy, parser =>
      if defaultLineBudget ≤ index then
        .error (.lineBudgetExceeded defaultLineBudget (index + 1))
      else do
        let isLossy := lossy.head? = some (index + 1)
        let parser ← parser.step line (index + 1) isLossy
        feedLines rest (index + 1) (if isLossy then lossy.tail else lossy) parser

def Parser.finish (parser : Parser) : Except PatchParseError (List ReviewFile) := do
  let parser ← parser.closeHunk parser.lastLine
  let parser ← parser.flushFile
  return parser.files

def parseLines (input : Str) (byteLen : Nat) (lossy : List Nat) (options : ParseOptions) :
    Except PatchParseError (List ReviewFile) :=
  if options.byteBudget < byteLen then
    .error (.budgetExceeded options.byteBudget byteLen)
  else do
    let lines := splitLines input
    let parser ← feedLines lines 0 lossy
      { unterminatedLast := if unterminated input then some lines.length else none }
    parser.finish

def parseWith (input : Str) (options : ParseOptions) : Except PatchParseError (List ReviewFile) :=
  parseLines input (Utf8.encode input).length [] options

def parse (input : Str) : Except PatchParseError (List ReviewFile) := parseWith input {}

end DeepDiffForge.Patch
