import DeepDiffForge.Lib.Decimal
import DeepDiffForge.Lib.Fallible
import DeepDiffForge.Lib.Markers
import DeepDiffForge.Lib.Utf8
import DeepDiffForge.Patch.Capture

/-! Git's raw records and the patch blocks they are paired with: one `git diff --raw -z --patch`
stream after another, each taken whole or refused. -/

namespace DeepDiffForge.Git
open Text Tiling Markers Fallible

def ascii (text : String) : List UInt8 := Utf8.encode text.toList

structure GitPath where
  bytes : List UInt8
  deriving DecidableEq, Repr

inductive GitChangeKind where
  | added | deleted | modified | renamed | copied | typeChanged
  deriving DecidableEq, Repr

def GitChangeKind.blockCount (kind : GitChangeKind) : Nat := if kind = .typeChanged then 2 else 1

inductive GitChangeOrigin where
  | tracked | untracked
  deriving DecidableEq, Repr

structure GitChange where
  kind : GitChangeKind
  score : Option Nat
  oldMode : Option Nat
  newMode : Option Nat
  oldBlob : Option Str
  newBlob : Option Str
  oldPath : Option GitPath
  newPath : Option GitPath
  origin : GitChangeOrigin
  binary : Bool
  patchRange : Nat × Nat
  blockCount : Nat
  deriving DecidableEq, Repr

inductive GitAcquireError where
  | malformedRaw (offset : Nat) (detail : Str)
  | unsupportedStatus (record : Nat) (status : Char)
  | countMismatch (records expectedBlocks blocks : Nat)
  | identityMismatch (record : Nat) (detail : Str)
  | nonUtf8Path (record : Nat)
  | parse (failure : Patch.PatchParseError)
  | parsedFileCountMismatch (blocks files : Nat)
  deriving DecidableEq

structure RawRecord where
  kind : GitChangeKind
  score : Option Nat
  oldMode : Nat
  newMode : Nat
  oldOid : Str
  newOid : Str
  oldPath : Option GitPath
  newPath : Option GitPath
  deriving DecidableEq, Repr

def malformed (offset : Nat) (detail : String) : GitAcquireError :=
  .malformedRaw offset detail.toList

/-- One NUL-terminated field at a position, and the position after the terminator. -/
def field (output : List UInt8) (pos : Nat) : Except GitAcquireError (List UInt8 × Nat) :=
  match splitOnce 0 (output.drop pos) with
  | some (bytes, _) => .ok (bytes, pos + bytes.length + 1)
  | none => .error (malformed pos "unterminated field")

def pathField (output : List UInt8) (pos : Nat) : Except GitAcquireError (GitPath × Nat) := do
  let (bytes, next) ← field output pos
  if bytes = [] then .error (malformed pos "empty path") else return (⟨bytes⟩, next)

def parseMode (offset : Nat) (text : Str) : Except GitAcquireError Nat :=
  if text.length = 6 ∧ text.all (fun c => '0' ≤ c ∧ c ≤ '7') = true then
    .ok (Nat.ofDigitChars 8 text 0)
  else .error (malformed offset "invalid mode")

def parseOid (offset : Nat) (text : Str) : Except GitAcquireError Str :=
  if (text.length = 40 ∨ text.length = 64) ∧
      text.all (fun c => c.isDigit ∨ 'a' ≤ c ∧ c ≤ 'f') = true then .ok text
  else .error (malformed offset "object ID is not full-length lowercase hex")

def parseScore (offset : Nat) (digits : Str) : Except GitAcquireError (Option Nat) :=
  if digits = [] then .ok none
  else if digits.all Char.isDigit = true ∧ Nat.ofDigitChars 10 digits 0 ≤ 100 then
    .ok (some (Nat.ofDigitChars 10 digits 0))
  else .error (malformed offset "invalid similarity score")

def parseKind (index : Nat) (letter : Char) : Except GitAcquireError GitChangeKind :=
  if letter = 'A' then .ok .added
  else if letter = 'D' then .ok .deleted
  else if letter = 'M' then .ok .modified
  else if letter = 'R' then .ok .renamed
  else if letter = 'C' then .ok .copied
  else if letter = 'T' then .ok .typeChanged
  else .error (.unsupportedStatus index letter)

def parseHeader (header : List UInt8) (offset index : Nat) : Except GitAcquireError RawRecord :=
  match Utf8.decode header with
  | none => .error (malformed offset "non-ASCII record header")
  | some text =>
      match stripPrefix [':'] text with
      | none => .error (malformed offset "record header lacks `:`")
      | some rest =>
          match rest.splitOn ' ' with
          | [oldMode, newMode, oldOid, newOid, status] => do
              let oldOid ← parseOid offset oldOid
              let newOid ← parseOid offset newOid
              if oldOid.length ≠ newOid.length then
                .error (malformed offset "object IDs have different lengths")
              else
                match status with
                | [] => .error (malformed offset "empty status")
                | letter :: digits => do
                    let score ← parseScore offset digits
                    let kind ← parseKind index letter
                    let scored := kind = .renamed ∨ kind = .copied
                    if ¬(scored ↔ score.isSome) ∧ ¬(kind = .modified ∧ score.isSome) then
                      .error (malformed offset "similarity score present on the wrong status")
                    else do
                      let oldMode ← parseMode offset oldMode
                      let newMode ← parseMode offset newMode
                      return { kind, score, oldMode, newMode, oldOid, newOid, oldPath := none,
                               newPath := none }
          | _ => .error (malformed offset "record header does not have five fields")

def rawRecord (output : List UInt8) (pos index : Nat) :
    Except GitAcquireError (RawRecord × Nat) := do
  let (header, next) ← field output pos
  let record ← parseHeader header pos index
  let (first, next) ← pathField output next
  match record.kind with
  | .added => return ({ record with newPath := some first }, next)
  | .deleted => return ({ record with oldPath := some first }, next)
  | .renamed | .copied =>
      let (second, next) ← pathField output next
      return ({ record with oldPath := some first, newPath := some second }, next)
  | .modified | .typeChanged =>
      return ({ record with oldPath := some first, newPath := some first }, next)

theorem field_next (output bytes : List UInt8) (pos next : Nat)
    (read : field output pos = .ok (bytes, next)) : pos < next := by
  unfold field at read
  split at read
  · obtain ⟨rfl, rfl⟩ := Prod.mk.inj (Except.ok.inj read)
    omega
  · cases read

theorem pathField_next (output : List UInt8) (name : GitPath) (pos next : Nat)
    (read : pathField output pos = .ok (name, next)) : pos < next := by
  unfold pathField at read
  obtain ⟨⟨bytes, after⟩, first, rest⟩ := (bind_eq_ok _ _ _).1 read
  have grows := field_next output bytes pos after first
  dsimp only at rest
  split at rest
  · cases rest
  · obtain ⟨rfl, rfl⟩ := Prod.mk.inj (Except.ok.inj rest)
    exact grows

theorem rawRecord_next (output : List UInt8) (pos index : Nat) (record : RawRecord) (next : Nat)
    (read : rawRecord output pos index = .ok (record, next)) : pos < next := by
  unfold rawRecord at read
  obtain ⟨⟨header, after⟩, first, read⟩ := (bind_eq_ok _ _ _).1 read
  obtain ⟨raw, parsed, read⟩ := (bind_eq_ok _ _ _).1 read
  obtain ⟨⟨one, later⟩, second, read⟩ := (bind_eq_ok _ _ _).1 read
  have grows := field_next output header pos after first
  have more := pathField_next output one after later second
  dsimp only at read
  cases kind : raw.kind with
  | added | deleted | modified | typeChanged =>
    simp only [kind] at read
    obtain ⟨-, rfl⟩ := Prod.mk.inj (Except.ok.inj read)
    omega
  | renamed | copied =>
    simp only [kind] at read
    obtain ⟨⟨two, last⟩, third, read⟩ := (bind_eq_ok _ _ _).1 read
    have most := pathField_next output two later last third
    obtain ⟨-, rfl⟩ := Prod.mk.inj (Except.ok.inj read)
    omega

def rawRecords (output : List UInt8) (pos : Nat) (records : List RawRecord) :
    Except GitAcquireError (List RawRecord × Nat) :=
  match _ : output[pos]? with
  | none =>
      if records = [] then .ok (records, pos)
      else .error (malformed pos "missing NUL separator before the patch section")
  | some byte =>
      if byte = 0 then .ok (records, pos + 1)
      else if byte = 0x3A then
        match _ : rawRecord output pos records.length with
        | .error failure => .error failure
        | .ok (record, next) => rawRecords output next (records ++ [record])
      else .error (malformed pos "expected `:` or the section separator")
  termination_by output.length - pos
  decreasing_by
    have within := (List.getElem?_eq_some_iff.1 ‹output[pos]? = some byte›).1
    have grows := rawRecord_next output pos records.length record next ‹_›
    omega

def parseRawSection (output : List UInt8) : Except GitAcquireError (List RawRecord × Nat) :=
  rawRecords output 0 []

def marker : List UInt8 := ascii "diff --git "

def splitBlocks (patch : List UInt8) : List (Nat × Nat) := blocks 0x0A marker patch

def needsEscape (b : UInt8) : Bool := b < 0x20 || b = 0x7F || b = 0x22 || b = 0x5C

def octal (b : UInt8) : List UInt8 := [0x30 + b / 64, 0x30 + b / 8 % 8, 0x30 + b % 8]

def quoteByte (b : UInt8) : List UInt8 :=
  if b = 7 then ascii "\\a"
  else if b = 8 then ascii "\\b"
  else if b = 9 then ascii "\\t"
  else if b = 10 then ascii "\\n"
  else if b = 11 then ascii "\\v"
  else if b = 12 then ascii "\\f"
  else if b = 13 then ascii "\\r"
  else if b = 0x22 then ascii "\\\""
  else if b = 0x5C then ascii "\\\\"
  else if needsEscape b then 0x5C :: octal b
  else [b]

def gitQuote (before path : List UInt8) : List UInt8 :=
  if (before ++ path).any needsEscape then 0x22 :: (before ++ path).flatMap quoteByte ++ [0x22]
  else before ++ path

inductive BlockRole where
  | whole | typeDeletion | typeCreation
  deriving DecidableEq, Repr

def isNullOid (oid : Str) : Bool := oid.all (· = '0')

structure BlockFacts where
  binary : Bool
  index : Option (Str × Str)

def headerLine (old new : List UInt8) : List UInt8 :=
  ascii "diff --git " ++ gitQuote (ascii "a/") old ++ [0x20] ++ gitQuote (ascii "b/") new

/-- The parts before and after the first `..`. -/
def splitDots : Str → Option (Str × Str)
  | '.' :: '.' :: rest => some ([], rest)
  | c :: rest => (splitDots rest).map fun parts => (c :: parts.1, parts.2)
  | [] => none

def mismatch (record : Nat) (detail : String) : GitAcquireError :=
  .identityMismatch record detail.toList

/-- The object IDs of an `index` line. -/
def indexLine (record oidLen : Nat) (rest : List UInt8) : Except GitAcquireError (Str × Str) :=
  match Utf8.decode rest with
  | none => .error (mismatch record "non-ASCII `index` line")
  | some text =>
      match splitDots ((text.splitOn ' ').headD []) with
      | none => .error (mismatch record "malformed `index` line")
      | some (old, new) =>
          if byteLength old ≠ oidLen ∨ byteLength new ≠ oidLen then
            .error (mismatch record "`index` line object IDs are abbreviated")
          else .ok (old, new)

/-- Object IDs from the last of a block's `index` lines, if it has one. -/
def indexIds (record oidLen : Nat) (extended : List (List UInt8)) :
    Except GitAcquireError (Option (Str × Str)) :=
  extended.foldlM (fun index line =>
    match stripPrefix (ascii "index ") line with
    | some rest => do
        let ids ← indexLine record oidLen rest
        return some ids
    | none => return index) none

/-- A block's extended header: its lines up to the first that is not one. -/
def extendedLines (lines : List (List UInt8)) : List (List UInt8) :=
  lines.takeWhile fun l =>
    !(l = [] || startsWith (ascii "--- ") l || startsWith (ascii "@@") l ||
      startsWith (ascii "Binary files ") l || l = ascii "GIT binary patch")

def modeLine (key : String) (mode : Nat) : List UInt8 :=
  ascii key ++ Utf8.encode
    (List.replicate (6 - (Nat.toDigits 8 mode).length) '0' ++ Nat.toDigits 8 mode)

def moveKeys : GitChangeKind → Option (String × String)
  | .renamed => some ("rename from ", "rename to ")
  | .copied => some ("copy from ", "copy to ")
  | _ => none

def refuse (refused : Bool) (record : Nat) (detail : Str) : Except GitAcquireError Unit :=
  if refused then .error (.identityMismatch record detail) else .ok ()

def checkMove (record : Nat) (kind : GitChangeKind) (old new : List UInt8)
    (extended : List (List UInt8)) : Except GitAcquireError Unit :=
  match moveKeys kind with
  | some (source, target) =>
      refuse (!extended.contains (ascii source ++ gitQuote [] old) ||
          !extended.contains (ascii target ++ gitQuote [] new)) record
        ("missing matching `".toList ++ source.toList.rdropWhile isWhitespace ++ "`/`".toList ++
          target.toList.rdropWhile isWhitespace ++ "` lines".toList)
  | none =>
      refuse (extended.any fun l => startsWith (ascii "rename ") l || startsWith (ascii "copy ") l)
        record "unexpected rename/copy lines".toList

def checkBlock (record : Nat) (raw : RawRecord) (role : BlockRole) (block : List UInt8) :
    Except GitAcquireError BlockFacts := do
  let old := ((raw.oldPath.or raw.newPath).map (·.bytes)).getD []
  let new := ((raw.newPath.or raw.oldPath).map (·.bytes)).getD []
  let lines := block.splitOn 0x0A
  refuse (lines.head? ≠ some (headerLine old new)) record
    "`diff --git` header names different paths".toList
  let extended := extendedLines lines.tail
  let has (key : String) (mode : Nat) : Bool := extended.contains (modeLine key mode)
  let wantNew : Bool := raw.kind = .added || role = .typeCreation
  let wantDeleted : Bool := !wantNew && (raw.kind = .deleted || role = .typeDeletion)
  refuse (wantNew && !has "new file mode " raw.newMode) record
    "missing matching `new file mode` line".toList
  refuse (wantDeleted && !has "deleted file mode " raw.oldMode) record
    "missing matching `deleted file mode` line".toList
  refuse (!wantNew && extended.any (startsWith (ascii "new file mode "))) record
    "unexpected `new file mode` line".toList
  refuse (!wantDeleted && extended.any (startsWith (ascii "deleted file mode "))) record
    "unexpected `deleted file mode` line".toList
  checkMove record raw.kind old new extended
  refuse (role = .whole && !wantNew && !wantDeleted && raw.oldMode ≠ raw.newMode &&
      (!has "old mode " raw.oldMode || !has "new mode " raw.newMode)) record
    "missing matching `old mode`/`new mode` lines".toList
  let index ← indexIds record (byteLength raw.oldOid) extended
  return { binary := lines.any fun l =>
             l = ascii "GIT binary patch" || startsWith (ascii "Binary files ") l
           index }

/-- An object ID of an `index` line against the one known for its side. -/
def checkBlob (index : Nat) (side : String) (raw found : Str) (slot : Option Str) :
    Except GitAcquireError (Option Str) :=
  if isNullOid found then .ok slot
  else
    match slot with
    | some known =>
        if known ≠ found then
          .error (.identityMismatch index (side.toList ++ " object ID ".toList ++ found ++
            " in `index` line disagrees with raw ".toList ++ raw))
        else .ok slot
    | none => .ok (some found)

structure Blobs where
  binary : Bool
  old : Option Str
  new : Option Str

def pairBlock (index : Nat) (record : RawRecord) (patch : List UInt8) (blobs : Blobs)
    (owned : BlockRole × Nat × Nat) : Except GitAcquireError Blobs := do
  let facts ← checkBlock index record owned.1 (slice patch owned.2)
  let binary := blobs.binary || facts.binary
  match facts.index with
  | none => return { blobs with binary }
  | some ids =>
      let old ← if owned.1 = .typeCreation then .ok blobs.old
        else checkBlob index "old" record.oldOid ids.1 blobs.old
      let new ← if owned.1 = .typeDeletion then .ok blobs.new
        else checkBlob index "new" record.newOid ids.2 blobs.new
      return { binary, old, new }

def roles (kind : GitChangeKind) : List BlockRole :=
  if kind = .typeChanged then [.typeDeletion, .typeCreation] else [.whole]

def pair (index : Nat) (record : RawRecord) (patch : List UInt8) (owned : List (Nat × Nat))
    (origin : GitChangeOrigin) (patchRange : Nat × Nat) : Except GitAcquireError GitChange := do
  let known (oid : Str) : Option Str := if isNullOid oid then none else some oid
  let blobs ← ((roles record.kind).zip owned).foldlM (pairBlock index record patch)
    ⟨false, known record.oldOid, known record.newOid⟩
  let existsOld := record.kind ≠ .added
  let existsNew := record.kind ≠ .deleted
  return { kind := record.kind
           score := record.score
           oldMode := if existsOld then some record.oldMode else none
           newMode := if existsNew then some record.newMode else none
           oldBlob := if existsOld then blobs.old else none
           newBlob := if existsNew then blobs.new else none
           oldPath := record.oldPath
           newPath := record.newPath
           origin
           binary := blobs.binary
           patchRange
           blockCount := (roles record.kind).length }

/-- The records paired with the blocks from `nextBlock` on; the counts match, so each has its own. -/
def pairAll (patch : List UInt8) (origin : GitChangeOrigin) (base : Nat) (index nextBlock : Nat) :
    List RawRecord → Except GitAcquireError (List GitChange)
  | [] => .ok []
  | record :: records => do
      let stop := nextBlock + record.kind.blockCount
      let owned := slice (splitBlocks patch) (nextBlock, stop)
      let range := ((owned.headD (0, 0)).1, (owned.getLastD (0, 0)).2)
      let change ← pair index record patch owned origin (base + range.1, base + range.2)
      let changes ← pairAll patch origin base (index + 1) stop records
      return change :: changes

structure StructuredDiff where
  patch : List UInt8
  changes : List GitChange
  deriving DecidableEq, Repr

def StructuredDiff.default : StructuredDiff := ⟨[], []⟩

/-- The patch and the changes of a stream, for a diff whose patch ends at `base`. -/
def readStream (output : List UInt8) (origin : GitChangeOrigin) (base : Nat) :
    Except GitAcquireError (List UInt8 × List GitChange) := do
  let (records, patchOffset) ← parseRawSection output
  let patch := output.drop patchOffset
  let found := splitBlocks patch
  if (∃ first ∈ found.head?, first.1 ≠ 0) ∨ (found = [] ∧ patch ≠ []) then
    .error (malformed patchOffset "patch section does not start with a `diff --git` block")
  else
    let expectedBlocks := records.foldr (fun record sum => record.kind.blockCount + sum) 0
    if expectedBlocks ≠ found.length then
      .error (.countMismatch records.length expectedBlocks found.length)
    else do
      let changes ← pairAll patch origin base 0 0 records
      return (patch, changes)

def StructuredDiff.appendStream (diff : StructuredDiff) (output : List UInt8)
    (origin : GitChangeOrigin) : StructuredDiff × Except GitAcquireError (List GitChange) :=
  match readStream output origin diff.patch.length with
  | .error failure => (diff, .error failure)
  | .ok (patch, changes) => (⟨diff.patch ++ patch, diff.changes ++ changes⟩, .ok changes)

def StructuredDiff.changePatch (diff : StructuredDiff) (change : GitChange) : List UInt8 :=
  if change.patchRange.1 ≤ change.patchRange.2 ∧ change.patchRange.2 ≤ diff.patch.length then
    slice diff.patch change.patchRange
  else []

end DeepDiffForge.Git
