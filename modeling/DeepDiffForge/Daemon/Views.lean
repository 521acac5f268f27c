import DeepDiffForge.Graph.Rank
import DeepDiffForge.Core.Seal
import Mathlib.Data.List.FinRange

/-! Budgeted views of one sealed review: the outline of its files and hunks, and chosen hunks
line for line, each continued through a cursor. -/

namespace DeepDiffForge.Daemon
open Text DeepDiffForge.Core DeepDiffForge.Graph DeepDiffForge.Patch

def minMaxBytes : Nat := 1024

def maxMaxBytes : Nat := 16 * 1024 * 1024

def envelopeBytes : Nat := 512

def sectionViewBytes : Nat := 256

inductive Selection where
  | all
  | addresses (addresses : List Str)
  | paths (paths : List Str)
  deriving DecidableEq, Repr

structure Page where
  maxBytes : Nat
  cursor : Option Str
  deriving DecidableEq, Repr

inductive ViewError where
  | budget (maxBytes : Nat)
  | cursor (why : Str)
  | unknownAddress (address : Str)
  | unknownPath (path : Str)
  deriving DecidableEq, Repr

structure HunkRef (files : List ReviewFile) where
  file : Fin files.length
  hunk : Fin (files.get file).patchTwin.hunks.length
  deriving DecidableEq

def HunkRef.reviewFile {files : List ReviewFile} (ref : HunkRef files) : ReviewFile :=
  files.get ref.file

def HunkRef.patchHunk {files : List ReviewFile} (ref : HunkRef files) : PatchHunk :=
  (files.get ref.file).patchTwin.hunks.get ref.hunk

def fileHunks {files : List ReviewFile} (file : Fin files.length) : List (HunkRef files) :=
  (List.finRange (files.get file).patchTwin.hunks.length).map (HunkRef.mk file)

structure Placed (files : List ReviewFile) where
  file : Fin files.length
  score : Nat
  signals : List RiskSignal

def Placed.key {files : List ReviewFile} (placed : Placed files) : Nat × Str :=
  (placed.score, (files.get placed.file).path)

def riskOrder (scan : Scan) (files : List ReviewFile) : List (Placed files) :=
  ((List.finRange files.length).map fun file =>
    { file, score := (scoreFile scan (files.get file)).1,
      signals := (scoreFile scan (files.get file)).2 : Placed files }).mergeSort fun one two => rankLe one.key two.key

def lineCounts (hunk : PatchHunk) : Nat × Nat :=
  (hunk.lines.countP (·.kind = .added), hunk.lines.countP (·.kind = .removed))

structure HunkHead where
  address : Str
  oldStart : Option Nat
  oldLines : Nat
  newStart : Option Nat
  newLines : Nat
  sectionHeading : Option Str
  additions : Nat
  deletions : Nat
  hazards : List Str
  evidence : List Str
  sectionTruncated : Bool
  deriving DecidableEq, Repr

/-- As many characters from the start as take at most `limit` bytes. -/
def cutAt : Nat → Str → Str
  | _, [] => []
  | limit, c :: rest => if c.utf8Size ≤ limit then c :: cutAt (limit - c.utf8Size) rest else []

def hunkHead (scan : Scan) (file : ReviewFile) (hunk : PatchHunk) : HunkHead :=
  let long (heading : Str) : Bool := sectionViewBytes < (Utf8.encode heading).length
  { address := hunk.address file.path
    oldStart := hunk.oldStart
    oldLines := hunk.counts.1
    newStart := hunk.newStart
    newLines := hunk.counts.2
    sectionHeading := hunk.sectionHeading.map fun heading =>
      if long heading then cutAt sectionViewBytes heading else heading
    additions := (lineCounts hunk).1
    deletions := (lineCounts hunk).2
    hazards := (hunk.lines.flatMap fun line => textHazards line.text).eraseDups
    evidence := (scan.hunkSignals file hunk).map (·.label)
    sectionTruncated := hunk.sectionHeading.any long }

def kindLabel : PatchLineKind → Str
  | .context => "context".toList
  | .added => "added".toList
  | .removed => "removed".toList

structure LineView where
  kind : Str
  oldLine : Option Nat
  newLine : Option Nat
  text : Str
  noNewline : Bool
  lossy : Bool
  hazards : List Str
  deriving DecidableEq, Repr

def lineJson (line : PatchLine) : LineView where
  kind := kindLabel line.kind
  oldLine := line.oldLine
  newLine := line.newLine
  text := line.text
  noNewline := line.noNewline
  lossy := line.lossy
  hazards := textHazards line.text

structure HunkEntry where
  head : HunkHead
  path : Str
  lineOffset : Nat
  complete : Bool
  lines : List LineView
  deriving DecidableEq, Repr

structure FileEntry where
  path : Str
  hazards : List Str
  status : Str
  score : Nat
  signals : List Str
  hunkCount : Nat
  firstHunk : Nat
  hunks : List HunkHead
  complete : Bool
  deriving DecidableEq, Repr

structure Sizes where
  line : LineView → Nat
  hunk : HunkEntry → Nat
  head : HunkHead → Nat
  file : FileEntry → Nat

/-- The seal's first 16 hex digits, the selection's digest, then the item and the position inside
it where the next page starts. -/
def cursor (inputSeal : InputSeal) (selection : Str) (item inner : Nat) : Str :=
  inputSeal.inputSha256.take 16 ++ '.' :: ((sha256Hex (Utf8.encode selection)).take 8 ++
    '.' :: (decimal item ++ '.' :: decimal inner))

def position (text : Str) : Option Nat :=
  if text ≠ [] ∧ text.all Char.isDigit ∧ (text = ['0'] ∨ text.head? ≠ some '0') ∧
      Nat.ofDigitChars 10 text 0 ≤ usizeMax then
    some (Nat.ofDigitChars 10 text 0)
  else none

/-- The position a page starts at: one this patch's pages could have minted for this selection. -/
def resume (page : Page) (inputSeal : InputSeal) (selection : Str) (innerLen : Nat → Option Nat) :
    Except ViewError (Nat × Nat) :=
  if page.maxBytes < minMaxBytes ∨ maxMaxBytes < page.maxBytes then .error (.budget page.maxBytes)
  else
    match page.cursor with
    | none => .ok (0, 0)
    | some text =>
        match text.splitOn '.' with
        | [patch, picked, item, inner] =>
            if patch ≠ inputSeal.inputSha256.take 16 then
              .error (.cursor "it belongs to another patch".toList)
            else if picked ≠ (sha256Hex (Utf8.encode selection)).take 8 then
              .error (.cursor "it belongs to another selection".toList)
            else
              match position item, position inner with
              | some item, some inner =>
                  match innerLen item with
                  | some len =>
                      if inner = 0 ∨ inner < len then .ok (item, inner)
                      else .error (.cursor "its position is outside the selection".toList)
                  | none => .error (.cursor "its position is outside the selection".toList)
              | _, _ => .error (.cursor "its positions are not numbers".toList)
        | _ => .error (.cursor "expected four dot-separated fields".toList)

section Fill
variable (scan : Scan) (sizes : Sizes)

/-- The hunks of a file that fit from the `h`th on, what is used after them, and where they stop
short; the page's first hunk is listed even when it is over. -/
def listHunks (fresh : Bool) (budget first : Nat) :
    Nat → Nat → List HunkHead → List HunkHead × Nat × Option Nat
  | _, used, [] => ([], used, none)
  | h, used, head :: rest =>
      let cost := sizes.head head + 1
      let firstOnPage := fresh && h = first
      if budget < used + cost && !firstOnPage then ([], used, some h)
      else
        let (heads, used, stop) := listHunks fresh budget first (h + 1) (used + cost) rest
        (head :: heads, used, stop)

/-- The loop of `outline`; `fresh` says that no file is on the page yet. -/
def listFiles (files : List ReviewFile) (fresh : Bool) (budget position first : Nat) :
    List (Placed files) → List FileEntry × Option (Nat × Nat)
  | [] => ([], none)
  | placed :: rest =>
      let file := files.get placed.file
      let heads := file.patchTwin.hunks.map (hunkHead scan file)
      let entry : FileEntry :=
        { path := file.path, hazards := pathHazards file.path, status := file.status.label,
          score := placed.score, signals := placed.signals.map (·.label),
          hunkCount := heads.length, firstHunk := first, hunks := [], complete := true }
      let (listed, used, stop) :=
        listHunks sizes fresh budget first first (sizes.file entry + 1) (heads.drop first)
      match stop with
      | some h =>
          (if first < h then [{ entry with hunks := listed, complete := false }] else [],
            some (position, h))
      | none =>
          if budget < used && !fresh then ([], some (position, first))
          else
            let (entries, next) := listFiles files false (budget - used) (position + 1) 0 rest
            ({ entry with hunks := listed } :: entries, next)

structure OutlineAnswer where
  inputSha256 : Str
  toolVersion : Str
  fileCount : Nat
  hunkCount : Nat
  additions : Nat
  deletions : Nat
  files : List FileEntry
  filesListed : Nat
  nextCursor : Option Str
  deriving DecidableEq, Repr

def outline (review : SealedReview) (page : Page) : Except ViewError OutlineAnswer := do
  let order := riskOrder scan review.files
  let (startFile, startHunk) ← resume page review.inputSeal "outline".toList fun item =>
    order[item]?.map fun placed => (review.files.get placed.file).patchTwin.hunks.length
  let (entries, next) := listFiles scan sizes review.files true (page.maxBytes - envelopeBytes)
    startFile startHunk (order.drop startFile)
  let hunks := review.files.flatMap (·.patchTwin.hunks)
  return {
    inputSha256 := review.inputSeal.inputSha256
    toolVersion := review.inputSeal.toolVersion
    fileCount := review.files.length
    hunkCount := hunks.length
    additions := hunks.foldl (fun total hunk => total + (lineCounts hunk).1) 0
    deletions := hunks.foldl (fun total hunk => total + (lineCounts hunk).2) 0
    files := entries
    filesListed := entries.length
    nextCursor := next.map fun stop => cursor review.inputSeal "outline".toList stop.1 stop.2 }

/-- The lines that fit; the first line of a page is taken even when it alone is over. -/
def takeLines (forced : Bool) (budget used : Nat) : List PatchLine → List LineView × Nat
  | [] => ([], used)
  | line :: rest =>
      let value := lineJson line
      let cost := sizes.line value + 1
      if budget < used + cost && !forced then ([], used)
      else
        let (values, used) := takeLines false budget (used + cost) rest
        (value :: values, used)

/-- The loop of `hunks`; `fresh` says that nothing is on the page yet. -/
def takeHunks {files : List ReviewFile} (fresh : Bool) (budget position offset : Nat) :
    List (HunkRef files) → List HunkEntry × Option (Nat × Nat)
  | [] => ([], none)
  | unit :: rest =>
      let hunk := unit.patchHunk
      let entry : HunkEntry :=
        { head := hunkHead scan unit.reviewFile hunk, path := unit.reviewFile.path,
          lineOffset := offset, complete := true, lines := [] }
      let (lines, used) :=
        takeLines sizes fresh budget (sizes.hunk entry + 1) (hunk.lines.drop offset)
      let stop := offset + lines.length
      if stop < hunk.lines.length then
        if lines = [] then ([], some (position, offset))
        else ([{ entry with complete := false, lines }], some (position, stop))
      else
        let (entries, next) := takeHunks false (budget - used) (position + 1) 0 rest
        ({ entry with lines } :: entries, next)

structure HunksAnswer where
  inputSha256 : Str
  toolVersion : Str
  hunks : List HunkEntry
  selectedHunks : Nat
  remainingHunks : Nat
  nextCursor : Option Str
  deriving DecidableEq, Repr

end Fill

def allHunks (files : List ReviewFile) : List (HunkRef files) :=
  (List.finRange files.length).flatMap fileHunks

def addressHunks (files : List ReviewFile) (address : PatchHunk → Str → Str) (wanted : Str) :
    Except ViewError (List (HunkRef files)) :=
  let found := (allHunks files).filter fun ref =>
    address ref.patchHunk ref.reviewFile.path = wanted
  if found = [] then .error (.unknownAddress wanted) else .ok found

def pathHunks (files : List ReviewFile) (wanted : Str) : Except ViewError (List (HunkRef files)) :=
  let sections := (List.finRange files.length).filter fun file => (files.get file).path = wanted
  if sections = [] then .error (.unknownPath wanted) else .ok (sections.flatMap fileHunks)

/-- `names.join("\n")`. -/
def joinNames (names : List Str) : Str := ['\n'].intercalate names

def selectWith (scan : Scan) (files : List ReviewFile) (selection : Selection)
    (address : PatchHunk → Str → Str) : Except ViewError (List (HunkRef files) × Str) :=
  match selection with
  | .all => .ok ((riskOrder scan files).flatMap (fun placed => fileHunks placed.file), "all".toList)
  | .addresses addresses => do
      let named := addresses.eraseDups
      let units ← named.mapM (addressHunks files address)
      return (units.flatten, "a:".toList ++ joinNames named)
  | .paths paths => do
      let named := paths.eraseDups
      let units ← named.mapM (pathHunks files)
      return (units.flatten, "p:".toList ++ joinNames named)

/-- The hunks a selection names, in order, and the key its cursor is bound to. -/
def select (scan : Scan) (files : List ReviewFile) (selection : Selection) :
    Except ViewError (List (HunkRef files) × Str) :=
  selectWith scan files selection PatchHunk.address

def hunks (scan : Scan) (sizes : Sizes) (review : SealedReview) (selection : Selection)
    (page : Page) : Except ViewError HunksAnswer := do
  let (units, key) ← select scan review.files selection
  let (startUnit, startLine) ← resume page review.inputSeal key fun item =>
    units[item]?.map fun unit => unit.patchHunk.lines.length
  let (out, next) := takeHunks scan sizes true (page.maxBytes - envelopeBytes) startUnit startLine
    (units.drop startUnit)
  let finished := out.countP (·.complete)
  return {
    inputSha256 := review.inputSeal.inputSha256
    toolVersion := review.inputSeal.toolVersion
    hunks := out
    selectedHunks := units.length
    remainingHunks := units.length - min startUnit units.length - finished
    nextCursor := next.map fun stop => cursor review.inputSeal key stop.1 stop.2 }

end DeepDiffForge.Daemon
