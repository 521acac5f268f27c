import DeepDiffForge.Core.Seal
import DeepDiffForge.Lib.SortedMap
import DeepDiffForge.Lib.Utf8
import Mathlib.Data.Char
import Mathlib.Data.Finset.Basic
import Mathlib.Data.List.Infix
import Mathlib.Data.List.Lex
import Mathlib.Data.List.Sort
import Mathlib.Data.Prod.Lex

/-! A tuicr session as the importer reads it, and the export ledger it is compared with. -/

namespace DeepDiffForge.Review
open Text DeepDiffForge.Core

def tagCap : Nat := 256

inductive Lifecycle where
  | localDraft | pushedDraft | submitted
  deriving DecidableEq, Repr

inductive Anchor where
  | review
  | file (file : Str)
  | lines (file side : Str) (startLine endLine : Nat)
  deriving DecidableEq, Repr

def Anchor.path : Anchor → Option Str
  | .review => none
  | .file named | .lines named _ _ _ => some named

def Anchor.overlaps : Anchor → Anchor → Bool
  | .lines named side startLine endLine, .lines named' side' startLine' endLine' =>
      named = named' && side = side' && startLine ≤ endLine' && startLine' ≤ endLine
  | _, _ => false

inductive LinkBasis where
  | tag | anchor
  deriving DecidableEq, Repr

structure Link where
  key : Str
  tuicrCommentId : Str
  basis : LinkBasis
  deriving DecidableEq, Repr

structure RawComment where
  id : Str
  content : Str
  commentType : Option Str
  author : Str
  lifecycleState : Option Lifecycle
  side : Option Str
  lineRange : Option (Nat × Nat)

structure RawFile where
  reviewed : Bool
  fileComments : List RawComment
  lineComments : SortedMap Str (List RawComment)
  reviewedHunks : Finset Str
  contentHash : Option Nat

structure RawSession where
  reviewComments : List RawComment
  files : SortedMap Str RawFile

structure Observed where
  id : Str
  content : Str
  sha256 : Str
  commentType : Option Str
  author : Str
  lifecycle : Lifecycle
  anchor : Anchor
  contentHash : Option Nat
  deriving DecidableEq, Repr

inductive Unsafe where
  | commentId
  | fileKey (path : Str)
  | lineKey (key path : Str)
  | commentSide (side : Str)
  | duplicateId (id : Str)
  deriving DecidableEq, Repr

inductive TuicrImportError where
  | session (reason : Str)
  | staleFile (path reason : Str)
  | staleReviewMark (path reason : Str)
  | unsafeSession (reason : Unsafe)
  | journal (reason : Str)
  deriving DecidableEq, Repr

def identifier (value : Str) : Bool :=
  value ≠ [] && (Utf8.encode value).length ≤ 80 &&
    value.all fun c => c.isAlphanum || c = '_' || c = '-'

/-- Only normal components: no root, no parent, and no leading `.`; the others are dropped. -/
def safePath (path : Str) : Bool :=
  let components := path.splitOn '/'
  path ≠ [] && byteLength path ≤ 4096 && path.head? ≠ some '/' &&
    components.head? ≠ some ['.'] && components.all (· ≠ ['.', '.'])

def observe (raw : RawComment) (anchor : Anchor) (contentHash : Option Nat) :
    Except TuicrImportError Observed :=
  if identifier raw.id then
    .ok { sha256 := sha256Hex (Utf8.encode raw.content), id := raw.id, content := raw.content,
          commentType := raw.commentType, author := raw.author,
          lifecycle := raw.lifecycleState.getD .localDraft, anchor, contentHash }
  else .error (.unsafeSession .commentId)

def observeLine (path : Str) (contentHash : Option Nat) (line : Nat) (raw : RawComment) :
    Except TuicrImportError Observed := do
  let range := match raw.lineRange with
    | none => (line, line)
    | some (start, stop) => (min start stop, max start stop)
  let side ← match raw.side with
    | none => .ok "new".toList
    | some side =>
        if side = "new".toList ∨ side = "old".toList then .ok side
        else .error (.unsafeSession (.commentSide side))
  observe raw (.lines path side range.1 range.2) contentHash

def lineKey (path : Str) (entry : Str × List RawComment) :
    Except TuicrImportError (Nat × List RawComment) :=
  match parseU32 entry.1 with
  | some line => .ok (line, entry.2)
  | none => .error (.unsafeSession (.lineKey entry.1 path))

def observeFile (path : Str) (file : RawFile) : Except TuicrImportError (List Observed) := do
  if safePath path = false then throw (.unsafeSession (.fileKey path))
  let whole ← file.fileComments.mapM fun raw => observe raw (.file path) file.contentHash
  let lines ← file.lineComments.entries.mapM (lineKey path)
  let sorted := lines.mergeSort fun one two => one.1 ≤ two.1
  let placed ← sorted.mapM fun entry =>
    entry.2.mapM (observeLine path file.contentHash entry.1)
  return whole ++ placed.flatten

def firstDuplicate (seen : List Str) : List Observed → Option Observed
  | [] => none
  | c :: rest => if c.id ∈ seen then some c else firstDuplicate (c.id :: seen) rest

/-- Every comment in a deterministic order; duplicate ids and unsafe paths are refused. -/
def observedComments (raw : RawSession) :
    Except TuicrImportError (List Observed × SortedMap Str RawFile) := do
  let review ← raw.reviewComments.mapM fun c => observe c .review none
  let files ← raw.files.entries.mapM fun entry => observeFile entry.1 entry.2
  let out := review ++ files.flatten
  match firstDuplicate [] out with
  | some dup => throw (.unsafeSession (.duplicateId dup.id))
  | none => return (out, raw.files)

structure LedgerEntry where
  key : Str
  runId : Str
  sessionId : Str
  tuicrCommentId : Str
  contentSha256 : Str
  deriving DecidableEq, Repr

/-- Comments this run's export wrote into the session, keyed by tuicr comment id. -/
structure Ledger where
  byComment : SortedMap Str LedgerEntry

def isFinding (key : Str) : Bool := key.tails.any (startsWith "/finding/".toList)

def Ledger.findingByKey (ledger : Ledger) (key : Str) : Option LedgerEntry :=
  ledger.byComment.values.find? fun e => e.key = key && isFinding e.key

/-- What stands between each occurrence of a tag's opening and the bracket that closes it. -/
def bracketed (opening content : Str) : List Str :=
  content.tails.filterMap fun rest =>
    match (stripPrefix opening rest).bind (splitOnce ']') with
    | some (body, _) => if byteLength body ≤ tagCap then some body else none
    | none => none

def field (name body : Str) : Option Str :=
  (splitWhitespace body).findSome? fun word => (stripPrefix name word).bind (stripPrefix ['='])

def headerKey (runId body : Str) : Option Str := do
  let run ← field "run".toList body
  let reviewer ← field "reviewer".toList body
  let round ← field "round".toList body
  let finding ← field "finding".toList body
  if run = runId then
    some (reviewer ++ '/' :: round ++ "/finding/".toList ++ finding)
  else none

def taggedKeys (content runId : Str) : List Str :=
  let direct := (bracketed "[ddf:".toList content).map trim
  let quoted := (bracketed "[DDF-COUNCIL ".toList content).filterMap (headerKey runId)
  ((direct ++ quoted).foldl (fun keys key => keys.insert key ())
    (SortedMap.empty : SortedMap Str Unit)).keys

def links (comment : Observed) (runId : Str) (ledger : Ledger) (notes : List Observed) :
    List Link :=
  let tagged := (taggedKeys comment.content runId).filterMap fun key =>
    (ledger.findingByKey key).map fun e => Link.mk e.key e.tuicrCommentId .tag
  if tagged ≠ [] then tagged
  else
    let anchored := ((notes.filter fun note => note.anchor.overlaps comment.anchor).filterMap
      fun note => ledger.byComment.get note.id).filter fun e => isFinding e.key
    (anchored.map fun e => Link.mk e.key e.tuicrCommentId .anchor).mergeSort
      fun one two => one.key ≤ two.key

theorem firstDuplicate_none (seen : List Str) (comments : List Observed)
    (absent : firstDuplicate seen comments = none) :
    (comments.map (·.id)).Nodup ∧ ∀ c ∈ comments, c.id ∉ seen := by
  induction comments generalizing seen with
  | nil => exact ⟨List.nodup_nil, by simp⟩
  | cons c rest ih =>
    rw [firstDuplicate] at absent
    split_ifs at absent with known
    obtain ⟨once, apart⟩ := ih (c.id :: seen) absent
    constructor
    · refine List.nodup_cons.2 ⟨?_, once⟩
      intro member
      obtain ⟨other, listed, same⟩ := List.mem_map.1 member
      exact apart other listed (same ▸ List.mem_cons_self ..)
    · intro other member
      rcases List.mem_cons.1 member with rfl | later
      · exact known
      · intro listed
        exact apart other later (List.mem_cons_of_mem _ listed)

theorem observedComments_once (raw : RawSession) (comments : List Observed)
    (files : SortedMap Str RawFile) (accepted : observedComments raw = .ok (comments, files)) :
    (comments.map (·.id)).Nodup ∧ files = raw.files := by
  unfold observedComments at accepted
  cases review : raw.reviewComments.mapM fun c => observe c .review none with
  | error error =>
    rw [review] at accepted
    cases accepted
  | ok reviewed =>
    rw [review] at accepted
    cases listed : raw.files.entries.mapM fun entry => observeFile entry.1 entry.2 with
    | error error =>
      rw [listed] at accepted
      cases accepted
    | ok placed =>
      rw [listed] at accepted
      change (match firstDuplicate [] (reviewed ++ placed.flatten) with
        | some dup => Except.error (TuicrImportError.unsafeSession (.duplicateId dup.id))
        | none => Except.ok (reviewed ++ placed.flatten, raw.files)) = _ at accepted
      cases search : firstDuplicate [] (reviewed ++ placed.flatten) with
      | some dup =>
        rw [search] at accepted
        cases accepted
      | none =>
        rw [search] at accepted
        cases accepted
        exact ⟨(firstDuplicate_none _ _ search).1, rfl⟩

end DeepDiffForge.Review
