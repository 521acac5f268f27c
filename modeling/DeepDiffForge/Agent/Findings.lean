import DeepDiffForge.Core.Display
import DeepDiffForge.Core.Seal

/-! Agent findings checked against a review: where each points must exist, and what is kept of it
is normalised from the review. JSON is read by a parser that is a parameter here. -/

namespace DeepDiffForge.Agent
open Text DeepDiffForge.Core

def findingSchema : Str := "deep-diff-forge.finding.v0".toList

def maxFindings : Nat := 10000

def maxTitleChars : Nat := 200

def maxBodyLen : Nat := 4096

def maxFindingBodyChars : Nat := maxBodyLen

def maxEvidenceItems : Nat := 16

def maxEvidenceChars : Nat := 500

def lineTextBytes : Nat := 200

def excerptBytes : Nat := 120

def fields : List Str :=
  ["agent".toList, "severity".toList, "title".toList, "body".toList, "address".toList,
    "path".toList, "side".toList, "line".toList, "review".toList, "id".toList, "model".toList,
    "evidence".toList, "schema".toList]

/-- A JSON value; a number is what `as_u64` reads of it. -/
inductive Value where
  | null
  | bool (value : Bool)
  | number (asU64 : Option Nat)
  | string (text : Str)
  | array (items : List Value)
  | object (members : List (Str × Value))

inductive Severity where
  | info | low | medium | high | critical
  deriving DecidableEq, Repr

def Severity.all : List Severity := [.info, .low, .medium, .high, .critical]

def Severity.label : Severity → Str
  | .info => "info".toList
  | .low => "low".toList
  | .medium => "medium".toList
  | .high => "high".toList
  | .critical => "critical".toList

def Severity.parse (label : Str) : Option Severity := Severity.all.find? (·.label = label)

inductive Refusal where
  | malformed | staleReview | unknownPath | unknownAddress | lineOutsideHunk | duplicate | tooLong
  deriving DecidableEq, Repr

inductive LineSide where
  | new | old
  deriving DecidableEq, Repr

inductive AnchorKind where
  | address | line | file
  deriving DecidableEq, Repr

structure AcceptedLine where
  side : LineSide
  number : Nat
  kind : Str
  text : Str
  deriving DecidableEq, Repr

structure Accepted where
  index : Nat
  agent : Str
  model : Option Str
  id : Option Str
  severity : Severity
  title : Str
  body : Str
  path : Str
  anchor : AnchorKind
  address : Option Str
  line : Option AcceptedLine
  evidence : List Str
  deriving DecidableEq, Repr

structure Refused where
  index : Nat
  reason : Refusal
  excerpt : Str
  deriving DecidableEq, Repr

structure Verdict where
  accepted : List Accepted
  refused : List Refused
  overLimit : Nat
  deriving DecidableEq, Repr

def Verdict.total (verdict : Verdict) : Nat :=
  verdict.accepted.length + verdict.refused.length + verdict.overLimit

structure DuplicateKey where
  agent : Str
  title : Str
  path : Str
  address : Option Str
  line : Option (LineSide × Nat)
  deriving DecidableEq, Repr

def DuplicateKey.of (found : Accepted) : DuplicateKey where
  agent := found.agent
  title := found.title
  path := found.path
  address := found.address
  line := found.line.map fun line => (line.side, line.number)

/-- An untrusted body without its unsafe characters, cut and trimmed. -/
def sanitizeBody (raw : Str) : Str :=
  trim ((raw.filter fun c => !isUnsafeInUntrustedText c).take maxBodyLen)

def refuseIf (bad : Bool) (reason : Refusal) : Except Refusal Unit :=
  if bad then .error reason else .ok ()

def okOr {α : Type} (found : Option α) (reason : Refusal) : Except Refusal α :=
  match found with
  | some value => .ok value
  | none => .error reason

section Fields
variable (members : List (Str × Value))

def get (key : Str) : Option Value := (members.find? (·.1 = key)).map (·.2)

def stringField (key : Str) : Except Refusal (Option Str) :=
  match get members key with
  | none => .ok none
  | some (.string text) => .ok (some text)
  | some _ => .error .malformed

def required (key : Str) : Except Refusal Str := do
  let text ← stringField members key
  okOr text .malformed

def sideField : Except Refusal LineSide := do
  match ← stringField members "side".toList with
  | none => return .new
  | some side =>
      if side = "new".toList then return .new
      else if side = "old".toList then return .old
      else throw .malformed

def lineField : Except Refusal (Option Nat) :=
  match get members "line".toList with
  | none => .ok none
  | some (.number (some n)) => if n ≤ u32Max ∧ 0 < n then .ok (some n) else .error .malformed
  | some _ => .error .malformed

def evidenceItem : Value → Except Refusal Str
  | .string text => .ok text
  | _ => .error .malformed

def evidenceField : Except Refusal (List Str) :=
  match get members "evidence".toList with
  | none => .ok []
  | some (.array items) => items.mapM evidenceItem
  | some _ => .error .malformed

end Fields

def orInsert {β : Type} (map : List (Str × β)) (entry : Str × β) : List (Str × β) :=
  if map.any (·.1 = entry.1) then map else map ++ [entry]

def byAddress (files : List ReviewFile) : List (Str × ReviewFile × PatchHunk) :=
  (files.flatMap fun file => file.patchTwin.hunks.map fun hunk =>
    (hunk.address file.path, file, hunk)).foldl orInsert []

def findAddress (files : List ReviewFile) (address : Str) : Option (ReviewFile × PatchHunk) :=
  ((byAddress files).find? (·.1 = address)).map (·.2)

def PatchLineKind.label : PatchLineKind → Str
  | .added => "added".toList
  | .removed => "removed".toList
  | .context => "context".toList

def lineNumber (side : LineSide) (line : PatchLine) : Option Nat :=
  match side with
  | .new => line.newLine
  | .old => line.oldLine

/-- Line `number` on `side` of `hunk`, as the review has it. -/
def lineIn (hunk : PatchHunk) (side : LineSide) (number : Nat) : Option AcceptedLine :=
  (hunk.lines.find? fun line => lineNumber side line = some number).map fun line =>
    { side, number, kind := PatchLineKind.label line.kind,
      text := displaySafeBounded line.text lineTextBytes }

def resolve (files : List ReviewFile) (path address : Option Str) (line : Option Nat)
    (side : LineSide) : Except Refusal (ReviewFile × AnchorKind × Option PatchHunk) :=
  match address with
  | some address =>
      match findAddress files address with
      | some (file, hunk) =>
          if path.all (· = file.path) then .ok (file, .address, some hunk)
          else .error .unknownAddress
      | none => .error .unknownAddress
  | none =>
      match path with
      | none => .error .malformed
      | some path =>
          match files.filter (·.path = path) with
          | [] => .error .unknownPath
          | first :: later =>
              match line with
              | none => .ok (first, .file, none)
              | some number =>
                  okOr ((first :: later).findSome? fun file =>
                    (file.patchTwin.hunks.find? fun hunk => (lineIn hunk side number).isSome).map
                      fun hunk => (file, .line, some hunk)) .lineOutsideHunk

def acceptedLine (line : Option Nat) (hunk : Option PatchHunk) (side : LineSide) :
    Except Refusal (Option AcceptedLine) :=
  match line, hunk with
  | some number, some hunk =>
      match lineIn hunk side number with
      | some found => .ok (some found)
      | none => .error .lineOutsideHunk
  | some _, none => .error .lineOutsideHunk
  | none, _ => .ok none

section Check
variable (fromStr : Str → Option Value) (files : List ReviewFile) (inputSha256 : Str)

def readObject (raw : Str) : Except Refusal (List (Str × Value)) :=
  match fromStr raw with
  | some (.object members) => .ok members
  | _ => .error .malformed

def check (raw : Str) (index : Nat) : Except Refusal Accepted := do
  let members ← readObject fromStr raw
  refuseIf (members.any fun member => member.1 ∉ fields) .malformed
  let schema ← stringField members "schema".toList
  refuseIf (schema.any (· ≠ findingSchema)) .malformed
  let agent ← required members "agent".toList
  let severity ← okOr (Severity.parse (← required members "severity".toList)) .malformed
  let title ← required members "title".toList
  let body ← required members "body".toList
  let side ← sideField members
  let line ← lineField members
  let evidence ← evidenceField members
  let address ← stringField members "address".toList
  let path ← stringField members "path".toList
  let model ← stringField members "model".toList
  let id ← stringField members "id".toList
  refuseIf (trim agent = [] || (address.isNone && path.isNone)) .malformed
  let review ← stringField members "review".toList
  refuseIf (review.any (· ≠ inputSha256)) .staleReview
  refuseIf (maxTitleChars < title.length || maxFindingBodyChars < body.length ||
    maxEvidenceItems < evidence.length || evidence.any fun e => maxEvidenceChars < e.length) .tooLong
  let (file, anchor, hunk) ← resolve files path address line side
  let quoted ← acceptedLine line hunk side
  return {
    index
    agent := sanitizeBody agent
    model := model.map sanitizeBody
    id := id.map sanitizeBody
    severity
    title := sanitizeBody title
    body := sanitizeBody body
    path := file.path
    anchor
    address := hunk.map fun hunk => hunk.address file.path
    line := quoted
    evidence := evidence.map sanitizeBody }

structure Progress where
  verdict : Verdict
  seen : List DuplicateKey
  index : Nat

def Progress.refuse (progress : Progress) (raw : Str) (reason : Refusal) : Progress :=
  { progress with
    verdict := { progress.verdict with
      refused := progress.verdict.refused ++
        [{ index := progress.index, reason, excerpt := displaySafeBounded raw excerptBytes }] }
    index := progress.index + 1 }

def verifyEntry (progress : Progress) (raw : Str) : Progress :=
  if trim raw = [] then progress
  else if maxFindings ≤ progress.index then
    { progress with verdict :=
      { progress.verdict with overLimit := progress.verdict.overLimit + 1 } }
  else
    match check fromStr files inputSha256 raw progress.index with
    | .error reason => progress.refuse raw reason
    | .ok found =>
        let key := DuplicateKey.of found
        if key ∈ progress.seen then progress.refuse raw .duplicate
        else
          { verdict := { progress.verdict with accepted := progress.verdict.accepted ++ [found] }
            seen := progress.seen ++ [key]
            index := progress.index + 1 }

/-- Verify findings, one JSON object an entry; blank entries are skipped and not counted. -/
def verify (findings : List Str) : Verdict :=
  (findings.foldl (verifyEntry fromStr files inputSha256) ⟨⟨[], [], 0⟩, [], 0⟩).verdict

end Check

end DeepDiffForge.Agent
