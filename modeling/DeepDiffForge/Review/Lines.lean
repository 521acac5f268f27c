import DeepDiffForge.Core.Digest
import DeepDiffForge.Lib.Fallible
import DeepDiffForge.Lib.Json
import DeepDiffForge.Lib.Lossy
import DeepDiffForge.Lib.Markers
import DeepDiffForge.Review.Reimport

/-! The journal as it is stored: one line for each event, the checkpoints beside it, and how it is
read and appended to. How a line is read as an event is a parameter. -/

namespace DeepDiffForge.Review
open Text Markers DeepDiffForge.Core

def entryCap : Nat := 100000

def EventKind.label : EventKind → Str
  | .commentAdded => "comment_added".toList
  | .disposition => "disposition".toList
  | .revised => "revised".toList
  | .restored => "restored".toList
  | .lifecycle => "lifecycle".toList
  | .deleted => "deleted".toList
  | .fileReview => "file_review".toList

def ActorBasis.label : ActorBasis → Str
  | .tuicrAuthor => "tuicr_author".toList
  | .unrecorded => "unrecorded".toList

def Lifecycle.label : Lifecycle → Str
  | .localDraft => "local_draft".toList
  | .pushedDraft => "pushed_draft".toList
  | .submitted => "submitted".toList

def LinkBasis.label : LinkBasis → Str
  | .tag => "tag".toList
  | .anchor => "anchor".toList

def Actor.json (actor : Actor) : Str :=
  Json.object
    [("name".toList, Json.string actor.name), ("basis".toList, Json.string actor.basis.label)]

def SessionRevision.json (revision : SessionRevision) : Str :=
  Json.object
    [("diff_source".toList, Json.string revision.diffSource),
      ("base_commit".toList, Json.string revision.baseCommit),
      ("new_side".toList, Json.string revision.newSide)]

def Anchor.json : Anchor → Str
  | .review => Json.object [("type".toList, Json.string "review".toList)]
  | .file named => Json.object
      [("type".toList, Json.string "file".toList), ("file".toList, Json.string named)]
  | .lines named side startLine endLine => Json.object
      [("type".toList, Json.string "lines".toList), ("file".toList, Json.string named),
        ("side".toList, Json.string side), ("start_line".toList, Json.number startLine),
        ("end_line".toList, Json.number endLine)]

def Link.json (link : Link) : Str :=
  Json.object
    [("key".toList, Json.string link.key),
      ("tuicr_comment_id".toList, Json.string link.tuicrCommentId),
      ("basis".toList, Json.string link.basis.label)]

def DecisionEvent.line (event : DecisionEvent) : Str :=
  Json.object
    [("schema".toList, Json.string event.schema),
      ("seq".toList, Json.number event.seq),
      ("prev".toList, Json.string event.prev),
      ("run_id".toList, Json.string event.runId),
      ("session_id".toList, Json.string event.sessionId),
      ("revision".toList, event.revision.json),
      ("kind".toList, Json.string event.kind.label),
      ("actor".toList, event.actor.json),
      ("comment_id".toList, Json.optional Json.string event.commentId),
      ("ddf_authored".toList, Json.bool event.ddfAuthored),
      ("comment_type".toList, Json.optional Json.string event.commentType),
      ("lifecycle_state".toList,
        Json.optional (fun state => Json.string (Lifecycle.label state)) event.lifecycleState),
      ("previous_lifecycle_state".toList,
        Json.optional (fun state => Json.string (Lifecycle.label state))
          event.previousLifecycleState),
      ("anchor".toList, Json.optional Anchor.json event.anchor),
      ("content_hash".toList, Json.optional Json.number event.contentHash),
      ("content_sha256".toList, Json.optional Json.string event.contentSha256),
      ("content".toList, Json.optional Json.string event.content),
      ("links".toList, Json.array (event.links.map Link.json)),
      ("reviewed".toList, Json.optional Json.bool event.reviewed),
      ("reviewed_hunks".toList,
        Json.optional (fun hunks => Json.array (hunks.map Json.string)) event.reviewedHunks),
      ("conflict".toList, Json.optional Json.string event.conflict),
      ("supersedes".toList, Json.optional Json.string event.supersedes),
      ("hash".toList, Json.string event.hash)]

/-- What the code reads of the outside: a line as an event, and what the run sealed and the session
shows of a path. -/
structure Outside where
  read : Str → Except Str DecisionEvent
  contains : Str → Bool
  snapshot : Str → Except Str (Option (List UInt8))
  sessionBytes : Str → Except Str (List UInt8)

def Outside.world (outside : Outside) : World where
  size event := (Utf8.encode event.line).length
  sha event := sha256Hex (Utf8.encode event.line)
  contains := outside.contains
  snapshot := outside.snapshot
  sessionBytes := outside.sessionBytes

structure Checkpoint where
  seq : Nat
  hash : Str
  deriving DecidableEq, Repr

structure JournalDir where
  file : Option (List UInt8)
  checkpoints : List (Str × Except Str Checkpoint)

def JournalDir.none : JournalDir := ⟨Option.none, []⟩

/-- `str::lines`: split after each line feed, which goes with a carriage return before it. -/
def strLine (piece : Str) : Str :=
  if piece.getLast? = some '\n' then
    if piece.dropLast.getLast? = some '\r' then piece.dropLast.dropLast else piece.dropLast
  else piece

def strLines (text : Str) : List Str := (pieces '\n' text).map strLine

/-- The lines verified one by one, each its event's own serialization and the next of the chain. -/
def verifyLines (outside : Outside) (runId : Str) :
    Nat → Str → Journal → List Str → Except TuicrImportError Journal
  | _, _, journal, [] => .ok journal
  | seq, prev, journal, line :: lines =>
      match outside.read line with
      | .error reason => .error (.journal ("line ".toList ++ decimal seq ++
          " is not a decision event: ".toList ++ reason))
      | .ok event =>
          if event.line ≠ line ∨ ¬Chained outside.world runId seq prev event then
            .error (corrupt seq)
          else
            verifyLines outside runId (seq + 1) event.hash
              { journal.replay event with events := journal.events ++ [event] } lines

def loadLines (outside : Outside) (runId : Str) (bytes : List UInt8) :
    Except TuicrImportError Journal :=
  if journalCap < bytes.length then
    .error (.journal "artifact exceeds acquisition budget".toList)
  else
    match Utf8.decode bytes with
    | none => .error (.journal "not UTF-8".toList)
    | some text =>
        if unterminated text then
          .error (.journal "the last line is incomplete (truncated)".toList)
        else
          verifyLines outside runId 0 genesis { Journal.blank with bytes := bytes.length }
            (strLines text)

def padded (width n : Nat) : Str := List.replicate (width - (decimal n).length) '0' ++ decimal n

def checkpointName (seq : Nat) : Str := padded 20 seq ++ ".json".toList

example : checkpointName 7 = "00000000000000000007.json".toList := by decide +kernel

def checkCheckpoint (events : List DecisionEvent) (entry : (Str × Except Str Checkpoint) × Nat) :
    Except TuicrImportError Unit :=
  if entryCap ≤ entry.2 then .error (.journal "too many checkpoints".toList)
  else
    match entry.1.2 with
    | .error reason =>
        .error (.journal ("checkpoint ".toList ++ entry.1.1 ++ ": ".toList ++ reason))
    | .ok checkpoint =>
        if entry.1.1 ≠ checkpointName checkpoint.seq then
          .error (.journal ("checkpoint ".toList ++ entry.1.1 ++ " is misnamed".toList))
        else if (events[checkpoint.seq]?.map (·.hash)) ≠ some checkpoint.hash then
          .error (.journal ("checkpoint ".toList ++ decimal checkpoint.seq ++
            " names an event the journal no longer holds (truncated or rewritten)".toList))
        else .ok ()

def loadFile (outside : Outside) (runId : Str) : Option (List UInt8) →
    Except TuicrImportError Journal
  | none => .ok .blank
  | some bytes => loadLines outside runId bytes

def loadDir (outside : Outside) (runId : Str) (dir : JournalDir) :
    Except TuicrImportError Journal := do
  let journal ← loadFile outside runId dir.file
  dir.checkpoints.zipIdx.forM (checkCheckpoint journal.events)
  return journal

def encodeLines (events : List DecisionEvent) : List UInt8 :=
  events.flatMap fun event => Utf8.encode (event.line ++ ['\n'])

def importDir (outside : Outside) (scope : Scope) (ledger : Ledger) (raw : RawSession)
    (dir : JournalDir) : Except TuicrImportError (List DecisionEvent) := do
  let (comments, files) ← observedComments raw
  let journal ← loadDir outside scope.runId dir
  let p ← plan outside.world scope { ledger, journal, comments, files }
  encode outside.world journal.bytes p.events
  return p.events

theorem unbroken_line (event : DecisionEvent) : Json.Unbroken event.line := by
  apply Json.unbroken_object
  simp only [List.forall_mem_cons, List.not_mem_nil, false_implies, implies_true, and_true]
  refine ⟨Json.unbroken_string _, Json.unbroken_number _, Json.unbroken_string _,
    Json.unbroken_string _, Json.unbroken_string _, ?revision, Json.unbroken_string _, ?actor,
    Json.unbroken_optional _ Json.unbroken_string _, Json.unbroken_bool _,
    Json.unbroken_optional _ Json.unbroken_string _,
    Json.unbroken_optional _ (fun _ => Json.unbroken_string _) _,
    Json.unbroken_optional _ (fun _ => Json.unbroken_string _) _,
    Json.unbroken_optional _ ?anchor _, Json.unbroken_optional _ Json.unbroken_number _,
    Json.unbroken_optional _ Json.unbroken_string _,
    Json.unbroken_optional _ Json.unbroken_string _, Json.unbroken_array _ ?links,
    Json.unbroken_optional _ Json.unbroken_bool _,
    Json.unbroken_optional _ (fun _ => Json.unbroken_array _ ?hunks) _,
    Json.unbroken_optional _ Json.unbroken_string _,
    Json.unbroken_optional _ Json.unbroken_string _, Json.unbroken_string _⟩
  case revision =>
    apply Json.unbroken_object
    simp [Json.unbroken_string]
  case actor =>
    apply Json.unbroken_object
    simp [Json.unbroken_string]
  case anchor =>
    intro anchor
    cases anchor <;> apply Json.unbroken_object <;>
      simp [Json.unbroken_string, Json.unbroken_number]
  case links =>
    intro item listed
    obtain ⟨link, -, rfl⟩ := List.mem_map.1 listed
    apply Json.unbroken_object
    simp [Json.unbroken_string]
  case hunks =>
    intro item listed
    obtain ⟨hunk, -, rfl⟩ := List.mem_map.1 listed
    exact Json.unbroken_string hunk

def ChainedFrom (world : World) (runId : Str) : Nat → Str → List DecisionEvent → Prop
  | _, _, [] => True
  | seq, prev, event :: events =>
      Chained world runId seq prev event ∧ ChainedFrom world runId (seq + 1) event.hash events

theorem verify_eq_ok (world : World) (runId : Str) (events : List DecisionEvent) (seq : Nat)
    (prev : Str) (journal last : Journal) :
    verify world runId seq prev journal events = .ok last ↔
      ChainedFrom world runId seq prev events ∧
        last = events.foldl (Journal.record world) journal := by
  induction events generalizing seq prev journal with
  | nil =>
    rw [verify, Except.ok.injEq, eq_comm]
    exact ⟨fun same => ⟨trivial, same⟩, And.right⟩
  | cons event events ih =>
    rw [verify, ChainedFrom]
    split_ifs with chained
    · rw [ih, List.foldl_cons, and_assoc]
      exact (and_iff_right chained).symm
    · refine ⟨?_, fun held => absurd held.1.1 chained⟩
      rintro ⟨⟩

theorem replay_bytes (journal : Journal) (bytes : Nat) (event : DecisionEvent) :
    ({ journal with bytes } : Journal).replay event = { journal.replay event with bytes } := by
  unfold Journal.replay
  cases event.commentId with
  | some id => rfl
  | none =>
    dsimp only
    split <;> rfl

/-- How many bytes were read does not change what events replay to. -/
theorem record_bytes (world : World) (events : List DecisionEvent) (journal : Journal)
    (bytes total : Nat) :
    { events.foldl (Journal.record world) { journal with bytes } with bytes := total } =
      { events.foldl (Journal.record world) journal with bytes := total } := by
  induction events generalizing journal bytes with
  | nil => rfl
  | cons event events ih =>
    rw [List.foldl_cons, List.foldl_cons]
    have here : Journal.record world { journal with bytes } event =
        { journal.record world event with bytes := bytes + world.size event + 1 } := by
      rw [Journal.record, replay_bytes]
      rfl
    rw [here]
    exact ih _ _

def Outside.Reads (outside : Outside) (event : DecisionEvent) (line : Str) : Prop :=
  outside.read line = .ok event ∧ event.line = line

theorem verifyLines_eq_ok (outside : Outside) (runId : Str) (lines : List Str) (seq : Nat)
    (prev : Str) (journal last : Journal) :
    verifyLines outside runId seq prev journal lines = .ok last ↔
      ∃ events, List.Forall₂ outside.Reads events lines ∧
        ChainedFrom outside.world runId seq prev events ∧
          last = { events.foldl (Journal.record outside.world) journal with
            bytes := journal.bytes } := by
  induction lines generalizing seq prev journal with
  | nil =>
    rw [verifyLines, Except.ok.injEq]
    constructor
    · rintro rfl
      exact ⟨[], .nil, trivial, rfl⟩
    · rintro ⟨events, reads, -, rfl⟩
      cases reads
      rfl
  | cons line lines ih =>
    have recorded (event : DecisionEvent) (events : List DecisionEvent) :
        { events.foldl (Journal.record outside.world)
            { journal.replay event with
              bytes := journal.bytes, events := journal.events ++ [event] } with
          bytes := journal.bytes } =
          { (event :: events).foldl (Journal.record outside.world) journal with
            bytes := journal.bytes } := by
      rw [List.foldl_cons]
      exact (record_bytes outside.world events _ _ _).symm
    have kept (event : DecisionEvent) :
        ({ journal.replay event with events := journal.events ++ [event] } : Journal).bytes =
          journal.bytes := by
      unfold Journal.replay
      cases event.commentId with
      | some id => rfl
      | none =>
        dsimp only
        split <;> rfl
    rw [verifyLines]
    cases read : outside.read line with
    | error reason =>
      constructor
      · intro failed
        cases failed
      · rintro ⟨events, reads, -⟩
        cases reads with
        | cons own rest =>
          rw [own.1] at read
          cases read
    | ok event =>
      dsimp only
      split_ifs with refused
      · constructor
        · intro failed
          cases failed
        · rintro ⟨events, reads, chained, -⟩
          cases reads with
          | cons own rest =>
            obtain rfl := Except.ok.inj (own.1.symm.trans read)
            exact absurd refused (by simp [own.2, chained.1])
      · rw [not_or, not_not, not_not] at refused
        rw [ih, kept]
        constructor
        · rintro ⟨events, reads, chained, rfl⟩
          exact ⟨event :: events, .cons ⟨read, refused.1⟩ reads, ⟨refused.2, chained⟩,
            recorded event events⟩
        · rintro ⟨events, reads, chained, rfl⟩
          cases reads with
          | cons own rest =>
            obtain rfl := Except.ok.inj (own.1.symm.trans read)
            exact ⟨_, rest, chained.2, (recorded _ _).symm⟩

theorem loadLines_eq_ok (outside : Outside) (runId : Str) (bytes : List UInt8)
    (journal : Journal) :
    loadLines outside runId bytes = .ok journal ↔
      bytes.length ≤ journalCap ∧ ∃ text, Utf8.decode bytes = some text ∧
        unterminated text = false ∧ ∃ events, List.Forall₂ outside.Reads events (strLines text) ∧
          ChainedFrom outside.world runId 0 genesis events ∧
            journal = { replayed outside.world events with bytes := bytes.length } := by
  unfold loadLines
  split_ifs with heavy
  · exact ⟨False.elim, fun held => absurd held.1 (Nat.not_le.2 heavy)⟩
  cases read : Utf8.decode bytes with
  | none =>
    constructor
    · intro failed
      cases failed
    · rintro ⟨-, text, absent, -⟩
      cases absent
  | some text =>
    dsimp only
    split_ifs with opened
    · constructor
      · intro failed
        cases failed
      · rintro ⟨-, other, same, ended, -⟩
        rw [← Option.some.inj same, opened] at ended
        cases ended
    · rw [verifyLines_eq_ok]
      have blank (events : List DecisionEvent) :
          { events.foldl (Journal.record outside.world)
              { Journal.blank with bytes := bytes.length } with bytes := bytes.length } =
            { replayed outside.world events with bytes := bytes.length } :=
        record_bytes outside.world events _ _ _
      constructor
      · rintro ⟨events, reads, chained, rfl⟩
        exact ⟨Nat.not_lt.1 heavy, text, rfl, eq_false_of_ne_true opened, events, reads, chained,
          blank events⟩
      · rintro ⟨-, other, same, -, events, reads, chained, rfl⟩
        obtain rfl := Option.some.inj same
        exact ⟨events, reads, chained, (blank events).symm⟩

theorem events_replayed (world : World) (events : List DecisionEvent) (journal : Journal) :
    (events.foldl (Journal.record world) journal).events = journal.events ++ events := by
  induction events generalizing journal with
  | nil => exact (List.append_nil _).symm
  | cons event events ih =>
    rw [List.foldl_cons, ih]
    simp [Journal.record]

theorem loadDir_eq_ok (outside : Outside) (runId : Str) (dir : JournalDir) (journal : Journal) :
    loadDir outside runId dir = .ok journal ↔
      loadFile outside runId dir.file = .ok journal ∧
      dir.checkpoints.zipIdx.forM (checkCheckpoint journal.events) = .ok () := by
  unfold loadDir
  constructor
  · intro loaded
    obtain ⟨found, read, loaded⟩ := (Fallible.bind_eq_ok _ _ _).1 loaded
    obtain ⟨⟨⟩, held, loaded⟩ := (Fallible.bind_eq_ok _ _ _).1 loaded
    obtain rfl := Except.ok.inj loaded
    exact ⟨read, held⟩
  · rintro ⟨read, held⟩
    refine (Fallible.bind_eq_ok _ _ _).2 ⟨journal, read, ?_⟩
    exact (Fallible.bind_eq_ok _ _ _).2 ⟨(), held, rfl⟩

theorem strLines_line (line rest : Str) (plain : '\n' ∉ line) (last : line.getLast? ≠ some '\r') :
    strLines (line ++ '\n' :: rest) = line :: strLines rest := by
  have own : strLine (line ++ ['\n']) = line := by
    rw [strLine, List.getLast?_concat, if_pos rfl, List.dropLast_concat, if_neg last]
  rw [strLines, pieces_line _ line rest plain, List.map_cons, own]
  rfl

/-- With no carriage return the lines are what stands between the line feeds. -/
theorem unlines_strLines (text : Str) (ended : unterminated text = false) (plain : '\r' ∉ text) :
    unlines (strLines text) = text := by
  induction text using by_lines '\n' with
  | empty => rfl
  | last line bare present =>
    have last : line.getLast? ≠ some '\n' := fun last => bare (List.mem_of_getLast? last)
    simp [unterminated, present, last] at ended
  | line line rest bare ih =>
    rw [List.mem_append, List.mem_cons, not_or, not_or] at plain
    have last : line.getLast? ≠ some '\r' := fun last => plain.1 (List.mem_of_getLast? last)
    have later : unterminated rest = false := by
      cases rest with
      | nil => rfl
      | cons c rest =>
        rw [unterminated, List.append_cons, List.getLast?_append_of_ne_nil _ (by simp)] at ended
        simpa [unterminated] using ended
    rw [strLines_line line rest bare last, unlines, List.flatMap_cons]
    rw [unlines] at ih
    rw [ih later plain.2.2, List.append_assoc]
    rfl

theorem encodeLines_eq (events : List DecisionEvent) :
    encodeLines events = Utf8.encode (unlines (events.map DecisionEvent.line)) := by
  rw [encodeLines, unlines, Utf8.encode, List.flatMap_map, List.flatMap_assoc]
  rfl

theorem reads_lines (outside : Outside) (events : List DecisionEvent) (lines : List Str)
    (reads : List.Forall₂ outside.Reads events lines) :
    lines = events.map DecisionEvent.line := by
  induction reads with
  | nil => rfl
  | cons own rest ih => rw [List.map_cons, own.2, ih]

theorem plain_lines (events : List DecisionEvent) (c : Char) (control : c.toNat < 0x20)
    (other : c ≠ '\n') : c ∉ unlines (events.map DecisionEvent.line) := by
  intro listed
  rw [unlines, List.flatMap_map, List.mem_flatMap] at listed
  obtain ⟨event, -, inside⟩ := listed
  rcases List.mem_append.1 inside with own | last
  · exact absurd (unbroken_line event c own) (by omega)
  · exact other (List.mem_singleton.1 last)

/-- A journal file that loads is the lines of its events exactly when no byte of it is a carriage
return. -/
theorem loaded_exact (outside : Outside) (runId : Str) (dir : JournalDir) (bytes : List UInt8)
    (journal : Journal) (file : dir.file = some bytes)
    (loaded : loadDir outside runId dir = .ok journal) :
    bytes = encodeLines journal.events ↔ 0x0D ∉ bytes := by
  have read := ((loadDir_eq_ok outside runId dir journal).1 loaded).1
  rw [file] at read
  obtain ⟨-, text, chars, ended, events, reads, -, rfl⟩ :=
    (loadLines_eq_ok outside runId bytes journal).1 read
  have held : (replayed outside.world events).events = events := events_replayed _ events .blank
  have turn := Utf8.mem_decode bytes text chars 0x0D (by decide)
  dsimp only
  rw [held, encodeLines_eq, turn]
  constructor
  · intro exactly
    have same := Utf8.decode_encode (unlines (events.map DecisionEvent.line))
    rw [← exactly, chars] at same
    rw [Option.some.inj same]
    exact plain_lines events _ (by decide) (by decide)
  · intro plain
    rw [← reads_lines outside events _ reads, unlines_strLines text ended plain]
    exact (Utf8.encode_decode bytes text chars).symm

section Extend
variable (outside : Outside) (runId : Str)

theorem loadFile_getD (file : Option (List UInt8)) :
    loadFile outside runId file = loadLines outside runId (file.getD []) := by
  cases file with
  | none => rfl
  | some bytes => rfl

theorem chainedFrom_append (world : World) (first second : List DecisionEvent) (seq : Nat)
    (prev : Str) : ChainedFrom world runId seq prev (first ++ second) ↔
      ChainedFrom world runId seq prev first ∧
        ChainedFrom world runId (seq + first.length) (lastHash prev first) second := by
  induction first generalizing seq prev with
  | nil => exact ⟨fun rest => ⟨trivial, rest⟩, And.right⟩
  | cons event first ih =>
    have last : lastHash event.hash first = lastHash prev (event :: first) := by
      rw [lastHash, lastHash, List.getLast?_cons]
      cases first.getLast? <;> rfl
    rw [List.cons_append, ChainedFrom, ChainedFrom, ih, last, List.length_cons, Nat.add_assoc,
      Nat.add_comm 1, and_assoc]

theorem length_encodeLines (events : List DecisionEvent) : (encodeLines events).length =
    events.foldr (fun event sum => outside.world.size event + 1 + sum) 0 := by
  induction events with
  | nil => rfl
  | cons event events ih =>
    have line : (Utf8.encode (event.line ++ ['\n'])).length = outside.world.size event + 1 := by
      rw [Utf8.encode, List.flatMap_append, List.length_append]
      rfl
    rw [encodeLines] at ih ⊢
    rw [List.flatMap_cons, List.length_append, ih, line, List.foldr_cons]

theorem strLines_unlines (events : List DecisionEvent) :
    strLines (unlines (events.map DecisionEvent.line)) = events.map DecisionEvent.line := by
  induction events with
  | nil => rfl
  | cons event events ih =>
    have plain (c : Char) (control : c.toNat < 0x20) : c ∉ event.line := fun listed =>
      absurd (unbroken_line event c listed) (by omega)
    have last : event.line.getLast? ≠ some '\r' := fun last =>
      plain '\r' (by decide) (List.mem_of_getLast? last)
    rw [unlines] at ih ⊢
    rw [List.map_cons, List.flatMap_cons, List.append_assoc, List.singleton_append,
      strLines_line event.line _ (plain '\n' (by decide)) last, ih]

theorem endsLine_terminated (text : Str) (ended : unterminated text = false) :
    EndsLine '\n' text := by
  rw [EndsLine]
  simpa [unterminated, or_iff_not_imp_left] using ended

theorem unterminated_unlines (text : Str) (ended : unterminated text = false)
    (lines : List Str) : unterminated (text ++ unlines lines) = false := by
  rcases List.eq_nil_or_concat lines with rfl | ⟨front, last, rfl⟩
  · rw [unlines, List.flatMap_nil, List.append_nil]
    exact ended
  · rw [List.concat_eq_append, unlines, List.flatMap_append, List.flatMap_singleton,
      ← List.append_assoc, ← List.append_assoc, unterminated, List.getLast?_concat]
    simp

def Held (events : List DecisionEvent) (entry : Str × Except Str Checkpoint) : Prop :=
  ∃ checkpoint, entry = (checkpointName checkpoint.seq, .ok checkpoint) ∧
    events[checkpoint.seq]?.map (·.hash) = some checkpoint.hash

theorem checkCheckpoint_eq_ok (events : List DecisionEvent) (entry : Str × Except Str Checkpoint)
    (i : Nat) :
    checkCheckpoint events (entry, i) = .ok () ↔ i < entryCap ∧ Held events entry := by
  obtain ⟨name, read⟩ := entry
  unfold checkCheckpoint Held
  dsimp only
  constructor
  · intro accepted
    split_ifs at accepted with many
    cases read with
    | error reason => cases accepted
    | ok checkpoint =>
      dsimp only at accepted
      split_ifs at accepted with named known
      exact ⟨Nat.not_le.1 many, checkpoint, by rw [not_not.1 named], not_not.1 known⟩
  · rintro ⟨few, checkpoint, same, known⟩
    obtain ⟨rfl, rfl⟩ := Prod.mk.inj same
    rw [if_neg (Nat.not_le.2 few)]
    dsimp only
    rw [if_neg (not_not.2 rfl), if_neg (not_not.2 known)]

theorem checkpoints_eq_ok (events : List DecisionEvent)
    (checkpoints : List (Str × Except Str Checkpoint)) :
    checkpoints.zipIdx.forM (checkCheckpoint events) = .ok () ↔
      checkpoints.length ≤ entryCap ∧ ∀ entry ∈ checkpoints, Held events entry := by
  rw [Fallible.forM_ok]
  constructor
  · intro all
    have each (i : Nat) (within : i < checkpoints.length) :
        i < entryCap ∧ Held events checkpoints[i] := by
      rw [← checkCheckpoint_eq_ok]
      exact all _ (List.mk_mem_zipIdx_iff_getElem?.2 (List.getElem?_eq_getElem within))
    constructor
    · by_contra many
      have within : entryCap < checkpoints.length := Nat.not_le.1 many
      exact absurd (each entryCap within).1 (Nat.lt_irrefl _)
    · intro entry listed
      obtain ⟨i, within, rfl⟩ := List.mem_iff_getElem.1 listed
      exact (each i within).2
  · rintro ⟨few, each⟩ ⟨entry, i⟩ listed
    have found := List.mk_mem_zipIdx_iff_getElem?.1 listed
    have within := (List.getElem?_eq_some_iff.1 found).1
    rw [checkCheckpoint_eq_ok]
    exact ⟨Nat.lt_of_lt_of_le within few, each entry (List.mem_of_getElem? found)⟩

theorem held_more (events more : List DecisionEvent) (entry : Str × Except Str Checkpoint)
    (held : Held events entry) : Held (events ++ more) entry := by
  obtain ⟨checkpoint, same, known⟩ := held
  refine ⟨checkpoint, same, ?_⟩
  obtain ⟨event, found, -⟩ := Option.map_eq_some_iff.1 known
  rw [List.getElem?_append_left (List.getElem?_eq_some_iff.1 found).1, known]

theorem loadLines_extends (bytes : List UInt8) (journal : Journal) (more : List DecisionEvent)
    (loaded : loadLines outside runId bytes = .ok journal)
    (chained : ChainedFrom outside.world runId journal.head.1 journal.head.2 more)
    (readable : ∀ event ∈ more, outside.read event.line = .ok event)
    (fits : journal.bytes + (encodeLines more).length ≤ journalCap) :
    loadLines outside runId (bytes ++ encodeLines more) =
      .ok (more.foldl (Journal.record outside.world) journal) := by
  obtain ⟨-, text, chars, ended, events, reads, first, rfl⟩ :=
    (loadLines_eq_ok outside runId bytes journal).1 loaded
  have written : bytes ++ encodeLines more =
      Utf8.encode (text ++ unlines (more.map DecisionEvent.line)) := by
    rw [encodeLines_eq, ← Utf8.encode_decode bytes text chars, Utf8.encode, Utf8.encode,
      Utf8.encode, List.flatMap_append]
  have lines : strLines (text ++ unlines (more.map DecisionEvent.line)) =
      strLines text ++ more.map DecisionEvent.line := by
    have own := strLines_unlines more
    rw [strLines] at own
    rw [strLines, strLines, pieces_append _ _ _ (endsLine_terminated text ended), List.map_append,
      own]
  have later : List.Forall₂ outside.Reads more (more.map DecisionEvent.line) := by
    rw [List.forall₂_map_right_iff, List.forall₂_same]
    exact fun event listed => ⟨readable event listed, rfl⟩
  have head : ({ replayed outside.world events with bytes := bytes.length } : Journal).head =
      (0 + events.length, lastHash genesis events) := by
    have verified := (verify_eq_ok outside.world runId events 0 genesis .blank _).2 ⟨first, rfl⟩
    exact verify_head outside.world runId events 0 genesis .blank (replayed outside.world events)
      rfl verified
  rw [head] at chained
  refine (loadLines_eq_ok outside runId _ _).2
    ⟨?_, text ++ unlines (more.map DecisionEvent.line), ?_, unterminated_unlines text ended _,
      events ++ more, ?_, ?_, ?_⟩
  · rw [List.length_append]
    exact fits
  · rw [written]
    exact Utf8.decode_encode _
  · rw [lines]
    exact List.rel_append reads later
  · exact (chainedFrom_append runId outside.world events more 0 genesis).2 ⟨first, chained⟩
  · have total := foldl_record_bytes outside.world more
      { replayed outside.world events with bytes := bytes.length }
    rw [← length_encodeLines outside more] at total
    have same := record_bytes outside.world more (replayed outside.world events) bytes.length
      (bytes ++ encodeLines more).length
    have whole : replayed outside.world (events ++ more) =
        more.foldl (Journal.record outside.world) (replayed outside.world events) :=
      List.foldl_append ..
    rw [whole, ← same, List.length_append, ← total]

theorem loadDir_extends (dir : JournalDir) (journal : Journal) (more : List DecisionEvent)
    (loaded : loadDir outside runId dir = .ok journal)
    (chained : ChainedFrom outside.world runId journal.head.1 journal.head.2 more)
    (readable : ∀ event ∈ more, outside.read event.line = .ok event)
    (fits : journal.bytes + (encodeLines more).length ≤ journalCap) :
    loadDir outside runId { dir with file := some (dir.file.getD [] ++ encodeLines more) } =
      .ok (more.foldl (Journal.record outside.world) journal) := by
  rw [loadDir_eq_ok] at loaded ⊢
  obtain ⟨read, held⟩ := loaded
  rw [loadFile_getD] at read
  refine ⟨loadLines_extends outside runId _ journal more read chained readable fits, ?_⟩
  rw [checkpoints_eq_ok] at held ⊢
  rw [events_replayed]
  exact ⟨held.1, fun entry listed => held_more _ more entry (held.2 entry listed)⟩

end Extend

def readOnly (event : DecisionEvent) : Outside where
  read line := if line = event.line then .ok event else .error "invalid line".toList
  contains _ := true
  snapshot _ := .ok none
  sessionBytes _ := .error []

/-- A journal of one line, with or without a carriage return before its line feed. -/
def oneLine (event : DecisionEvent) (turn : Bool) : JournalDir :=
  ⟨some (Utf8.encode (event.line ++ if turn then ['\r', '\n'] else ['\n'])), []⟩

theorem oneLine_loads (event : DecisionEvent) (turn : Bool)
    (chained : Chained (readOnly event).world event.runId 0 genesis event)
    (fits : (Utf8.encode event.line).length + 2 ≤ journalCap) :
    ∃ journal, loadDir (readOnly event) event.runId (oneLine event turn) = .ok journal ∧
      journal.events = [event] := by
  have plain : '\n' ∉ event.line := fun listed => absurd (unbroken_line event _ listed) (by decide)
  have bare : '\r' ∉ event.line := fun listed => absurd (unbroken_line event _ listed) (by decide)
  have last : event.line.getLast? ≠ some '\r' := fun last => bare (List.mem_of_getLast? last)
  have lines : strLines (event.line ++ if turn then ['\r', '\n'] else ['\n']) = [event.line] := by
    cases turn with
    | false => exact strLines_line event.line [] plain last
    | true =>
      have whole : '\n' ∉ event.line ++ ['\r'] := by simp [plain]
      have split := pieces_line '\n' (event.line ++ ['\r']) [] whole
      have joined : event.line ++ ['\r', '\n'] = event.line ++ ['\r'] ++ ['\n'] :=
        List.append_cons ..
      rw [if_pos rfl, strLines, joined, split, pieces, List.map_singleton, strLine,
        List.getLast?_concat, if_pos rfl, List.dropLast_concat, List.getLast?_concat, if_pos rfl,
        List.dropLast_concat]
  have ended : unterminated (event.line ++ if turn then ['\r', '\n'] else ['\n']) = false := by
    cases turn <;> simp [unterminated]
  have bytes : (Utf8.encode (event.line ++ if turn then ['\r', '\n'] else ['\n'])).length ≤
      journalCap := by
    rw [Utf8.encode, List.flatMap_append, List.length_append]
    rw [Utf8.encode] at fits
    refine Nat.le_trans (Nat.add_le_add_left ?_ _) fits
    cases turn <;> decide
  have reads : List.Forall₂ (readOnly event).Reads [event]
      (strLines (event.line ++ if turn then ['\r', '\n'] else ['\n'])) := by
    rw [lines]
    exact .cons ⟨if_pos rfl, rfl⟩ .nil
  have read := (loadLines_eq_ok (readOnly event) event.runId _ _).2
    ⟨bytes, _, Utf8.decode_encode _, ended, [event], reads, ⟨chained, trivial⟩, rfl⟩
  exact ⟨_, (loadDir_eq_ok _ _ (oneLine event turn) _).2 ⟨read, rfl⟩,
    events_replayed (readOnly event).world [event] .blank⟩

/-- Events hashed on numbers. -/
theorem world_digest (outside : Outside) : outside.world =
    { outside.world with sha := fun event => digestHex (Utf8.encode event.line) } := by
  rw [Outside.world]
  congr 1
  funext event
  exact sha256Hex_eq _

theorem sampleMark_line :
    Chained (readOnly sampleMark).world sampleMark.runId 0 genesis sampleMark ∧
      (Utf8.encode sampleMark.line).length + 2 ≤ journalCap := by
  rw [world_digest]
  decide +kernel

/-- A line that ends in a carriage return and a line feed loads, and is not the event's own. -/
theorem loaded_with_turn : ∃ journal,
    loadDir (readOnly sampleMark) sampleMark.runId (oneLine sampleMark true) = .ok journal ∧
      (oneLine sampleMark true).file ≠ some (encodeLines journal.events) := by
  obtain ⟨journal, loaded, held⟩ :=
    oneLine_loads sampleMark true sampleMark_line.1 sampleMark_line.2
  refine ⟨journal, loaded, fun same => ?_⟩
  have bytes := congrArg List.length (Option.some.inj same)
  rw [held, encodeLines, List.flatMap_singleton, Utf8.encode, Utf8.encode, if_pos rfl,
    List.flatMap_append, List.flatMap_append, List.length_append, List.length_append] at bytes
  exact absurd (Nat.add_left_cancel bytes) (by decide)

theorem loaded_exact_sample : ∃ journal bytes,
    loadDir (readOnly sampleMark) sampleMark.runId (oneLine sampleMark false) = .ok journal ∧
      (bytes = encodeLines journal.events ↔ 0x0D ∉ bytes) := by
  obtain ⟨journal, loaded, -⟩ :=
    oneLine_loads sampleMark false sampleMark_line.1 sampleMark_line.2
  exact ⟨journal, _, loaded, loaded_exact _ _ (oneLine sampleMark false) _ journal rfl loaded⟩

end DeepDiffForge.Review
