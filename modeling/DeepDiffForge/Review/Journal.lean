import DeepDiffForge.Lib.Decimal
import DeepDiffForge.Review.Session
import Mathlib.Data.Finset.Sort

/-! The decision journal: its verified replay, and the events an import plans from a session, the
export ledger and the replayed state. What the run sealed and the session shows of a file is read
from the file system, so it is a parameter, as are an event's serialized size and its digest. -/

namespace DeepDiffForge.Review
open Text DeepDiffForge.Core

def eventSchema : Str := "deep-diff-forge.decision.v1".toList

def journalCap : Nat := 64 * 1024 * 1024

inductive EventKind where
  | commentAdded | disposition | revised | restored | lifecycle | deleted | fileReview
  deriving DecidableEq, Repr

inductive ActorBasis where
  | tuicrAuthor | unrecorded
  deriving DecidableEq, Repr

structure Actor where
  name : Str
  basis : ActorBasis
  deriving DecidableEq, Repr

structure SessionRevision where
  diffSource : Str
  baseCommit : Str
  newSide : Str
  deriving DecidableEq, Repr

structure DecisionEvent where
  schema : Str
  seq : Nat
  prev : Str
  runId : Str
  sessionId : Str
  revision : SessionRevision
  kind : EventKind
  actor : Actor
  commentId : Option Str
  ddfAuthored : Bool
  commentType : Option Str
  lifecycleState : Option Lifecycle
  previousLifecycleState : Option Lifecycle
  anchor : Option Anchor
  contentHash : Option Nat
  contentSha256 : Option Str
  content : Option Str
  links : List Link
  reviewed : Option Bool
  reviewedHunks : Option (List Str)
  conflict : Option Str
  supersedes : Option Str
  hash : Str
  deriving DecidableEq, Repr

/-- What the code reads of the outside: the serialized size of an event, the hash over one, and
for a path whether the inventory holds it, its sealed bytes and the bytes the session shows. -/
structure World where
  size : DecisionEvent → Nat
  sha : DecisionEvent → Str
  contains : Str → Bool
  snapshot : Str → Except Str (Option (List UInt8))
  sessionBytes : Str → Except Str (List UInt8)

/-- An event's hash is taken with the hash left empty. -/
def DecisionEvent.digest (world : World) (event : DecisionEvent) : Str :=
  world.sha { event with hash := [] }

structure CommentState where
  last : Option Str
  sha256 : Str
  lifecycle : Lifecycle
  deleted : Bool
  deriving DecidableEq, Repr

structure FileState where
  last : Option Str
  reviewed : Bool
  hunks : Finset Str
  pinned : Option Nat
  deriving DecidableEq

def FileState.blank : FileState := ⟨none, false, ∅, none⟩

structure Journal where
  bytes : Nat
  events : List DecisionEvent
  comments : SortedMap (Str ×ₗ Str) CommentState
  files : SortedMap (Str ×ₗ Str) FileState

def Journal.blank : Journal := ⟨0, [], SortedMap.empty, SortedMap.empty⟩

def genesis : Str := List.replicate 64 '0'

def Journal.head (journal : Journal) : Nat × Str :=
  match journal.events.getLast? with
  | none => (0, genesis)
  | some e => (e.seq + 1, e.hash)

def CommentState.next (old : Option CommentState) (event : DecisionEvent) : CommentState :=
  let state := old.getD ⟨none, [], .localDraft, false⟩
  { last := some event.hash
    sha256 := event.contentSha256.getD state.sha256
    lifecycle := event.lifecycleState.getD state.lifecycle
    deleted := event.kind = .deleted }

def FileState.next (old : Option FileState) (event : DecisionEvent) : FileState :=
  let state := old.getD .blank
  let reviewed := event.reviewed.getD false
  let hunks := (event.reviewedHunks.getD []).toFinset
  { last := some event.hash
    reviewed, hunks
    pinned :=
      if state.pinned = none ∧ (reviewed = true ∨ hunks ≠ ∅) then event.contentHash
      else state.pinned }

def Journal.replay (journal : Journal) (event : DecisionEvent) : Journal :=
  match event.commentId with
  | some id =>
      let key := toLex (event.sessionId, id)
      { journal with
        comments := journal.comments.insert key (CommentState.next (journal.comments.get key) event) }
  | none =>
      match event.kind, event.anchor.bind Anchor.path with
      | .fileReview, some path =>
          let key := toLex (event.sessionId, path)
          { journal with
            files := journal.files.insert key (FileState.next (journal.files.get key) event) }
      | _, _ => journal

def Journal.record (world : World) (journal : Journal) (event : DecisionEvent) : Journal :=
  { journal.replay event with
    bytes := journal.bytes + world.size event + 1, events := journal.events ++ [event] }

def corrupt (seq : Nat) : TuicrImportError :=
  .journal ("event ".toList ++ decimal seq ++
    " was modified or reordered: its chain or hash does not verify".toList)

def Chained (world : World) (runId : Str) (seq : Nat) (prev : Str) (event : DecisionEvent) :
    Prop :=
  event.schema = eventSchema ∧ event.seq = seq ∧ event.prev = prev ∧ event.runId = runId ∧
    event.digest world = event.hash

instance (world : World) (runId : Str) (seq : Nat) (prev : Str) (event : DecisionEvent) :
    Decidable (Chained world runId seq prev event) :=
  inferInstanceAs (Decidable (_ ∧ _ ∧ _ ∧ _ ∧ _))

def verify (world : World) (runId : Str) :
    Nat → Str → Journal → List DecisionEvent → Except TuicrImportError Journal
  | _, _, journal, [] => .ok journal
  | seq, prev, journal, event :: events =>
      if Chained world runId seq prev event then
        verify world runId (seq + 1) event.hash (journal.record world event) events
      else .error (corrupt seq)

/-- The journal of the events read, a line being its event's own serialization. -/
def loadJournal (world : World) (runId : Str) (events : List DecisionEvent) :
    Except TuicrImportError Journal :=
  if journalCap < events.foldr (fun event sum => world.size event + 1 + sum) 0 then
    .error (.journal "artifact exceeds acquisition budget".toList)
  else verify world runId 0 genesis .blank events

def checkFile (world : World) (newSide path : Str) : Except TuicrImportError Unit :=
  if world.contains path = false then
    .error (.staleFile path "outside the run's sealed source inventory".toList)
  else
    match world.snapshot path with
    | .error reason => .error (.session reason)
    | .ok sealedBytes =>
        match sealedBytes, world.sessionBytes path with
        | some _, .error reason => .error (.staleFile path reason)
        | none, .ok _ => .error (.staleFile path "absent from the sealed snapshot".toList)
        | some one, .ok two =>
            if one = two then .ok ()
            else .error (.staleFile path ("the ".toList ++ newSide ++
              " bytes the session reviews differ from the sealed snapshot".toList))
        | none, .error _ => .ok ()

def checkScope (world : World) (newSide : Str) : List Str → Except TuicrImportError Unit
  | [] => .ok ()
  | path :: paths =>
      if world.contains path then
        (checkFile world newSide path).bind fun _ => checkScope world newSide paths
      else
        match world.sessionBytes path with
        | .ok _ => .error (.staleFile path
            "the session shows a file outside the run's sealed source inventory".toList)
        | .error _ => checkScope world newSide paths

structure Scope where
  runId : Str
  sessionId : Str
  revision : SessionRevision

/-- Events built in order, chained from the journal head. -/
structure Planner where
  scope : Scope
  next : Nat
  prev : Str
  events : List DecisionEvent

def Scope.blank (scope : Scope) (kind : EventKind) (actor : Actor) : DecisionEvent where
  schema := eventSchema
  seq := 0
  prev := []
  runId := scope.runId
  sessionId := scope.sessionId
  revision := scope.revision
  kind := kind
  actor := actor
  commentId := none
  ddfAuthored := false
  commentType := none
  lifecycleState := none
  previousLifecycleState := none
  anchor := none
  contentHash := none
  contentSha256 := none
  content := none
  links := []
  reviewed := none
  reviewedHunks := none
  conflict := none
  supersedes := none
  hash := []

def Scope.comment (scope : Scope) (kind : EventKind) (actor : Actor) (c : Observed) (ddf : Bool) :
    DecisionEvent :=
  { scope.blank kind actor with
    commentId := some c.id
    ddfAuthored := ddf
    commentType := c.commentType
    lifecycleState := some c.lifecycle
    anchor := some c.anchor
    contentHash := c.contentHash
    contentSha256 := some c.sha256
    content := some c.content }

def Planner.push (world : World) (p : Planner) (event : DecisionEvent) : Planner :=
  let chained := { event with seq := p.next, prev := p.prev }
  let sealedEvent := { chained with hash := chained.digest world }
  { p with next := p.next + 1, prev := sealedEvent.hash, events := p.events ++ [sealedEvent] }

structure Inputs where
  ledger : Ledger
  journal : Journal
  comments : List Observed
  files : SortedMap Str RawFile

def unrecorded : Actor := ⟨"unrecorded".toList, .unrecorded⟩

def actorFor (c : Observed) (ddf : Bool) : Actor :=
  if ddf then unrecorded else ⟨c.author, .tuicrAuthor⟩

/-- An exported note never journaled counts as a local draft of what was exported. -/
def LedgerEntry.state (entry : LedgerEntry) : CommentState :=
  ⟨none, entry.contentSha256, .localDraft, false⟩

def Inputs.prior (x : Inputs) (sessionId id : Str) : Option CommentState :=
  (x.journal.comments.get (toLex (sessionId, id))).or
    ((x.ledger.byComment.get id).map LedgerEntry.state)

def editedOutside : Str :=
  "a council-authored note was edited outside DDF; its content no longer matches the export ledger".toList

def plannedComment (scope : Scope) (x : Inputs) (c : Observed) : List DecisionEvent :=
  let ddf := (x.ledger.byComment.get c.id).isSome
  let notes := x.comments.filter fun note => (x.ledger.byComment.get note.id).isSome
  let links := if ddf then [] else links c scope.runId x.ledger notes
  match x.prior scope.sessionId c.id with
  | none =>
      let kind := if links = [] then EventKind.commentAdded else .disposition
      [{ scope.comment kind (actorFor c false) c false with links }]
  | some prior =>
      if prior.deleted then
        [{ scope.comment .restored (actorFor c ddf) c ddf with links, supersedes := prior.last }]
      else
        (if prior.sha256 ≠ c.sha256 then
          [{ scope.comment .revised (actorFor c ddf) c ddf with
              links
              conflict := if ddf then some editedOutside else none
              supersedes := prior.last }]
        else []) ++
        if prior.lifecycle ≠ c.lifecycle then
          [{ scope.comment .lifecycle (actorFor c ddf) c ddf with
              previousLifecycleState := some prior.lifecycle
              supersedes := if prior.sha256 ≠ c.sha256 then none else prior.last }]
        else []

/-- The check a comment's event asks for: its file, or once the whole scope. -/
def checkComment (world : World) (x : Inputs) (newSide : Str) (c : Observed)
    (scopeChecked : Bool) : Except TuicrImportError Bool :=
  match c.anchor.path with
  | some file => (checkFile world newSide file).map fun _ => scopeChecked
  | none =>
      if scopeChecked then .ok true
      else (checkScope world newSide x.files.keys).map fun _ => true

def Planner.superseding (p : Planner) (event : DecisionEvent) : DecisionEvent :=
  if event.kind = .lifecycle ∧ event.supersedes = none then
    match p.events.getLast?.filter fun last => last.commentId = event.commentId with
    | some last => { event with supersedes := some last.hash }
    | none => event
  else event

def pushComment (world : World) (x : Inputs) (c : Observed) (state : Planner × Bool)
    (event : DecisionEvent) : Except TuicrImportError (Planner × Bool) :=
  (checkComment world x state.1.scope.revision.newSide c state.2).map fun scopeChecked =>
    (state.1.push world (state.1.superseding event), scopeChecked)

def planComments (world : World) (x : Inputs) (p : Planner) : Except TuicrImportError Planner :=
  (x.comments.foldlM (fun state c =>
    (plannedComment p.scope x c).foldlM (pushComment world x c) state) (p, false)).map (·.1)

def goneComments (scope : Scope) (x : Inputs) : SortedMap Str (Option Str) :=
  let present := x.comments.map (·.id)
  let journaled := (x.journal.comments.entries.filter fun entry =>
    (ofLex entry.1).1 = scope.sessionId && !entry.2.deleted && (ofLex entry.1).2 ∉ present).foldl
      (fun gone entry => gone.insert (ofLex entry.1).2 entry.2.last) SortedMap.empty
  (x.ledger.byComment.keys.filter fun id =>
    (x.journal.comments.get (toLex (scope.sessionId, id))).isNone && id ∉ present).foldl
      (fun gone id => gone.insert id none) journaled

def lastAuthor (sessionId id : Str) (events : List DecisionEvent) : Actor :=
  match events.reverse.find? fun e =>
    e.sessionId = sessionId && e.commentId = some id && e.actor.basis = .tuicrAuthor with
  | some e => ⟨e.actor.name, .tuicrAuthor⟩
  | none => ⟨"unrecorded".toList, .tuicrAuthor⟩

def tombstone (scope : Scope) (x : Inputs) (entry : Str × Option Str) : DecisionEvent :=
  let ddf := (x.ledger.byComment.get entry.1).isSome
  let actor := if ddf then unrecorded else lastAuthor scope.sessionId entry.1 x.journal.events
  { scope.blank .deleted actor with
    commentId := some entry.1, ddfAuthored := ddf, supersedes := entry.2 }

/-- Tombstones for journaled or exported comments no longer in the session. -/
def planTombstones (world : World) (x : Inputs) (p : Planner) : Planner :=
  ((goneComments p.scope x).entries.map (tombstone p.scope x)).foldl (Planner.push world) p

def Inputs.priorFile (x : Inputs) (sessionId path : Str) : FileState :=
  (x.journal.files.get (toLex (sessionId, path))).getD .blank

def checkMark (path : Str) (prior : FileState) (file : RawFile) : Except TuicrImportError Unit :=
  if file.reviewed = true ∨ file.reviewedHunks ≠ ∅ then
    match file.contentHash, prior.pinned with
    | none, _ => .error (.staleReviewMark path
        "the reviewed mark carries no tuicr content_hash".toList)
    | some hash, some pinned =>
        if pinned = hash then .ok ()
        else .error (.staleReviewMark path ("tuicr content_hash ".toList ++ decimal hash ++
          " differs from ".toList ++ decimal pinned ++
          " journaled for this file; the mark was made on a different diff".toList))
    | some _, none => .ok ()
  else .ok ()

def fileMark (scope : Scope) (prior : FileState) (path : Str) (file : RawFile) : DecisionEvent :=
  { scope.blank .fileReview unrecorded with
    anchor := some (.file path)
    contentHash := file.contentHash
    reviewed := some file.reviewed
    reviewedHunks := some (file.reviewedHunks.sort (· ≤ ·))
    supersedes := prior.last }

def planFile (world : World) (x : Inputs) (p : Planner) (entry : Str × RawFile) :
    Except TuicrImportError Planner := do
  let prior := x.priorFile p.scope.sessionId entry.1
  if prior.reviewed = entry.2.reviewed ∧ prior.hunks = entry.2.reviewedHunks then return p
  checkMark entry.1 prior entry.2
  checkFile world p.scope.revision.newSide entry.1
  return p.push world (fileMark p.scope prior entry.1 entry.2)

def planFiles (world : World) (x : Inputs) (p : Planner) : Except TuicrImportError Planner :=
  x.files.entries.foldlM (planFile world x) p

def encode (world : World) (verifiedLen : Nat) (events : List DecisionEvent) :
    Except TuicrImportError Unit :=
  let bytes := events.foldr (fun event sum => world.size event + 1 + sum) 0
  if journalCap < verifiedLen + bytes then
    .error (.journal ("appending ".toList ++ decimal bytes ++ " bytes of events to the ".toList ++
      decimal verifiedLen ++ "-byte journal would pass its ".toList ++ decimal journalCap ++
      "-byte cap; nothing was appended".toList))
  else .ok ()

def plan (world : World) (scope : Scope) (x : Inputs) : Except TuicrImportError Planner := do
  let head := x.journal.head
  let p ← planComments world x { scope, next := head.1, prev := head.2, events := [] }
  planFiles world x (planTombstones world x p)

def importTuicr (world : World) (scope : Scope) (ledger : Ledger) (raw : RawSession)
    (journaled : List DecisionEvent) : Except TuicrImportError (List DecisionEvent) := do
  let (comments, files) ← observedComments raw
  let journal ← loadJournal world scope.runId journaled
  let p ← plan world scope { ledger, journal, comments, files }
  encode world journal.bytes p.events
  return p.events

end DeepDiffForge.Review
