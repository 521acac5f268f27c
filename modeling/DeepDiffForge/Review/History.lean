import DeepDiffForge.Lib.HashChain
import DeepDiffForge.Review.Recovery

/-! Imports one after another, each over the journal the ones before it left. -/

namespace DeepDiffForge.Review
open Text Markers DeepDiffForge.Core

def commitId (value : Str) : Bool :=
  (byteLength value = 40 || byteLength value = 64) &&
    value.all fun c => c.isDigit || ('a' ≤ c && c ≤ 'f') || ('A' ≤ c && c ≤ 'F')

/-- What is checked of the run and the session before anything is planned: the run's id is the
digest of its manifest, and the session's base is a commit. -/
structure Opened (scope : Scope) : Prop where
  run : ∃ manifest, scope.runId = sha256Hex manifest
  base : commitId scope.revision.baseCommit = true

def JournalDir.append (dir : JournalDir) (events : List DecisionEvent) : JournalDir :=
  match events.getLast? with
  | .none => dir
  | .some last =>
      { file := some (dir.file.getD [] ++ encodeLines events)
        checkpoints := dir.checkpoints ++ [(checkpointName last.seq, .ok ⟨last.seq, last.hash⟩)] }

def executeImport (outside : Outside) (scope : Scope) (ledger : Ledger) (raw : RawSession)
    (dir : JournalDir) : JournalDir :=
  match importDir outside scope ledger raw dir with
  | .error _ => dir
  | .ok events => dir.append events

/-- The directories executed imports of one run leave, with all that was planned for them. Sessions,
ledgers and what is read of the files may change between imports; how a line is read does not. -/
inductive History (read : Str → Except Str DecisionEvent) (runId : Str) :
    JournalDir → List DecisionEvent → Prop where
  | start : History read runId JournalDir.none []
  | imported (dir : JournalDir) (events more : List DecisionEvent) (outside : Outside)
      (scope : Scope) (ledger : Ledger) (raw : RawSession) (before : History read runId dir events)
      (reader : outside.read = read) (own : scope.runId = runId) (opened : Opened scope)
      (accepted : importDir outside scope ledger raw dir = .ok more)
      (readable : ∀ event ∈ more, read event.line = .ok event) :
      History read runId (executeImport outside scope ledger raw dir) (events ++ more)
  | refused (dir : JournalDir) (events : List DecisionEvent) (outside : Outside) (scope : Scope)
      (ledger : Ledger) (raw : RawSession) (failure : TuicrImportError)
      (before : History read runId dir events)
      (failed : importDir outside scope ledger raw dir = .error failure) :
      History read runId (executeImport outside scope ledger raw dir) events

def DecisionEvent.unsealed (event : DecisionEvent) : DecisionEvent := { event with hash := [] }

structure Sound (outside : Outside) (runId : Str) (dir : JournalDir)
    (events : List DecisionEvent) : Prop where
  loads : ∃ journal, loadDir outside runId dir = .ok journal ∧ journal.events = events
  seq : ∀ i (event : DecisionEvent), events[i]? = some event → event.seq = i
  first : ∀ event, events[0]? = some event → event.prev = genesis
  next : ∀ i event later, events[i]? = some event → events[i + 1]? = some later →
    later.prev = event.hash
  checkpoint : ∀ entry ∈ dir.checkpoints, Held events entry
  apart : (dir.checkpoints.map (·.1)).Nodup
  cap : (dir.file.getD []).length ≤ journalCap
  full : ∀ scope ledger raw comments files journal p failure,
    observedComments raw = .ok (comments, files) → loadDir outside scope.runId dir = .ok journal →
    plan outside.world scope { ledger, journal, comments, files } = .ok p →
    encode outside.world journal.bytes p.events = .error failure →
    executeImport outside scope ledger raw dir = dir
  tamper : ∀ file journal, loadDir outside runId { dir with file } = .ok journal →
    (∀ a ∈ events, ∀ b ∈ journal.events, a.digest outside.world = b.digest outside.world →
      a.unsealed = b.unsealed) → events <+: journal.events

section Reader
variable (outside outside' : Outside) (same : outside.read = outside'.read) (runId : Str)
include same

/-- What a journal loads as depends on how a line is read only. -/
theorem verifyLines_reader (lines : List Str) (seq : Nat) (prev : Str) (journal : Journal) :
    verifyLines outside runId seq prev journal lines =
      verifyLines outside' runId seq prev journal lines := by
  induction lines generalizing seq prev journal with
  | nil => rfl
  | cons line lines ih =>
    rw [verifyLines, verifyLines, same]
    cases outside'.read line with
    | error reason => rfl
    | ok event =>
      have chained : Chained outside.world runId seq prev event ↔
          Chained outside'.world runId seq prev event := Iff.rfl
      simp only [chained, ih]

theorem loadDir_reader (dir : JournalDir) :
    loadDir outside runId dir = loadDir outside' runId dir := by
  have files : loadFile outside runId dir.file = loadFile outside' runId dir.file := by
    cases dir.file with
    | none => rfl
    | some bytes =>
      unfold loadFile loadLines
      simp only [verifyLines_reader outside outside' same runId]
  rw [loadDir, loadDir, files]

end Reader

section Length

theorem length_encode (text : Str) : text.length ≤ (Utf8.encode text).length := by
  induction text with
  | nil => exact Nat.zero_le _
  | cons c text ih =>
    have first : 1 ≤ (String.utf8EncodeChar c).length := by
      rw [String.length_utf8EncodeChar]
      exact c.utf8Size_pos
    rw [Utf8.encode] at ih ⊢
    rw [List.flatMap_cons, List.length_append, List.length_cons]
    omega

/-- A line is never short: it holds three digests and a commit. -/
theorem line_long (event : DecisionEvent) (run : 64 ≤ event.runId.length)
    (prev : 64 ≤ event.prev.length) (hash : 64 ≤ event.hash.length)
    (base : 40 ≤ event.revision.baseCommit.length) (schema : event.schema = eventSchema) :
    671 ≤ event.line.length := by
  have text (text : Str) : 2 ≤ (Json.string text).length :=
    Nat.le_trans (Nat.le_add_left ..) (Json.length_string text)
  have maybe (value : Option Str) : 2 ≤ (Json.optional Json.string value).length :=
    Json.length_optional Json.string 2 (by decide) text value
  have states (value : Option Lifecycle) : 2 ≤ (Json.optional
      (fun state => Json.string (Lifecycle.label state)) value).length :=
    Json.length_optional _ 2 (by decide) (fun _ => text _) value
  have object (members : List (Str × Str)) : 2 ≤ (Json.object members).length := by
    rw [Json.object, List.length_cons, List.length_append, List.length_singleton]
    omega
  have anchor : 2 ≤ (Json.optional Anchor.json event.anchor).length := by
    refine Json.length_optional _ 2 (by decide) (fun anchor => ?_) _
    cases anchor <;> exact object _
  have hunks := Json.length_optional (fun hunks => Json.array (hunks.map Json.string)) 2 (by decide)
    (fun _ => Json.length_array _) event.reviewedHunks
  have reviewed := Json.length_optional Json.bool 2 (by decide)
    (fun value => Nat.le_trans (by decide) (Json.length_bool value)) event.reviewed
  have revision : 87 ≤ event.revision.json.length := by
    have source := text event.revision.diffSource
    have base' := Json.length_string event.revision.baseCommit
    have side := text event.revision.newSide
    refine Nat.le_trans ?_ (Json.length_members _ (by simp))
    simp only [List.foldr_cons, List.foldr_nil, String.reduceToList, List.length_cons,
      List.length_nil]
    omega
  have schemas : 29 ≤ (Json.string event.schema).length := by
    rw [schema]
    exact Nat.le_trans (by decide) (Json.length_string eventSchema)
  have seq := Json.length_number event.seq
  have runs := Json.length_string event.runId
  have prevs := Json.length_string event.prev
  have session := text event.sessionId
  have kind : 9 ≤ (Json.string event.kind.label).length := by cases event.kind <;> decide
  have actor : 32 ≤ event.actor.json.length := by
    have name := text event.actor.name
    have basis : 12 ≤ (Json.string event.actor.basis.label).length := by
      cases event.actor.basis <;> decide
    refine Nat.le_trans ?_ (Json.length_members _ (by simp))
    simp only [List.foldr_cons, List.foldr_nil, String.reduceToList, List.length_cons,
      List.length_nil]
    omega
  have comment := maybe event.commentId
  have ddf := Json.length_bool event.ddfAuthored
  have type := maybe event.commentType
  have state := states event.lifecycleState
  have state' := states event.previousLifecycleState
  have content := Json.length_optional Json.number 1 (by decide) Json.length_number event.contentHash
  have digest := maybe event.contentSha256
  have body := maybe event.content
  have links := Json.length_array (event.links.map Link.json)
  have conflict := maybe event.conflict
  have supersedes := maybe event.supersedes
  have hashes := Json.length_string event.hash
  refine Nat.le_trans ?_ (Json.length_members _ (by simp))
  simp only [List.foldr_cons, List.foldr_nil, String.reduceToList, List.length_cons,
    List.length_nil]
  omega

end Length

section Chain
variable (world : World) (runId : Str)

theorem chained_mem (events : List DecisionEvent) (seq : Nat) (prev : Str)
    (chained : ChainedFrom world runId seq prev events) (i : Nat) (event : DecisionEvent)
    (found : events[i]? = some event) : ∃ before, Chained world runId (seq + i) before event := by
  induction events generalizing seq prev i with
  | nil => cases found
  | cons head events ih =>
    cases i with
    | zero =>
      obtain rfl := Option.some.inj found
      exact ⟨prev, chained.1⟩
    | succ i =>
      obtain ⟨before, here⟩ := ih (seq + 1) head.hash chained.2 i found
      rw [Nat.add_right_comm] at here
      exact ⟨before, here⟩

theorem chained_digest (events : List DecisionEvent) (seq : Nat) (prev : Str)
    (chained : ChainedFrom world runId seq prev events) :
    ∀ event ∈ events, event.digest world = event.hash := by
  intro event listed
  obtain ⟨i, found⟩ := List.mem_iff_getElem?.1 listed
  obtain ⟨before, chain⟩ := chained_mem world runId events seq prev chained i event found
  exact chain.2.2.2.2

theorem chained_linked (events : List DecisionEvent) (seq : Nat) (prev : Str)
    (chained : ChainedFrom world runId seq prev events) :
    HashChain.Linked DecisionEvent.hash DecisionEvent.prev prev events := by
  induction events generalizing seq prev with
  | nil => trivial
  | cons event events ih => exact ⟨chained.1.2.2.1, ih (seq + 1) event.hash chained.2⟩

/-- Every line of a journal planned over commits is long. -/
theorem chained_long (outside : Outside) (run : 64 ≤ runId.length) (events : List DecisionEvent)
    (seq : Nat) (prev : Str) (long : 64 ≤ prev.length)
    (base : ∀ event ∈ events, 40 ≤ event.revision.baseCommit.length)
    (chained : ChainedFrom outside.world runId seq prev events) :
    672 * events.length ≤ (encodeLines events).length := by
  induction events generalizing seq prev with
  | nil => exact Nat.zero_le _
  | cons event events ih =>
    rw [List.forall_mem_cons] at base
    obtain ⟨⟨schema, -, before, own, digest⟩, rest⟩ := chained
    have hash : 64 ≤ event.hash.length := by
      rw [← digest]
      exact (length_sha256Hex _).ge
    have line := line_long event (own ▸ run) (before ▸ long) hash base.1 schema
    have bytes := length_encode event.line
    have more := ih (seq + 1) event.hash hash base.2 rest
    have joined : encodeLines (event :: events) =
        Utf8.encode (event.line ++ ['\n']) ++ encodeLines events := rfl
    rw [joined, List.length_append, List.length_cons, Utf8.encode, List.flatMap_append,
      List.length_append, ← Utf8.encode, ← Utf8.encode]
    have feed : (Utf8.encode ['\n']).length = 1 := by decide
    omega

end Chain

theorem imported_loads (outside : Outside) (scope : Scope) (ledger : Ledger) (raw : RawSession)
    (dir : JournalDir) (more : List DecisionEvent) (journal : Journal)
    (loaded : loadDir outside scope.runId dir = .ok journal)
    (accepted : importDir outside scope ledger raw dir = .ok more)
    (readable : ∀ event ∈ more, outside.read event.line = .ok event) :
    loadDir outside scope.runId
        { dir with file := some (dir.file.getD [] ++ encodeLines more) } =
      .ok (more.foldl (Journal.record outside.world) journal) := by
  obtain ⟨comments, files, journal', p, -, loaded', built, fits, rfl⟩ :=
    (importDir_eq_ok ..).1 accepted
  obtain rfl := Except.ok.inj (loaded.symm.trans loaded')
  exact loadDir_extends outside scope.runId dir journal p.events loaded
    (plan_chained outside.world scope _ p built) readable ((encode_eq_ok ..).1 fits)

theorem loaded_chained (outside : Outside) (runId : Str) (dir : JournalDir) (journal : Journal)
    (loaded : loadDir outside runId dir = .ok journal) :
    ChainedFrom outside.world runId 0 genesis journal.events ∧
      (dir.file.getD []).length ≤ journalCap := by
  have read := ((loadDir_eq_ok outside runId dir journal).1 loaded).1
  rw [loadFile_getD] at read
  obtain ⟨fits, text, -, -, events, -, chained, rfl⟩ := (loadLines_eq_ok outside runId _ _).1 read
  have held : (replayed outside.world events).events = events := events_replayed _ events .blank
  dsimp only
  rw [held]
  exact ⟨chained, fits⟩

theorem events_few (outside : Outside) (runId : Str) (dir : JournalDir) (journal : Journal)
    (loaded : loadDir outside runId dir = .ok journal) (run : 64 ≤ runId.length)
    (file : dir.file.getD [] = encodeLines journal.events)
    (base : ∀ event ∈ journal.events, 40 ≤ event.revision.baseCommit.length) :
    journal.events.length ≤ entryCap := by
  obtain ⟨chained, fits⟩ := loaded_chained outside runId dir journal loaded
  have long := chained_long runId outside run journal.events 0 genesis (by decide) base chained
  rw [file] at fits
  have cap : journalCap = 67108864 := rfl
  have entries : entryCap = 100000 := rfl
  omega

theorem planned_revision (world : World) (scope : Scope) (x : Inputs) (p : Planner)
    (built : plan world scope x = .ok p) : ∀ event ∈ p.events, event.revision = scope.revision := by
  intro event listed
  have cores := plan_cores world scope x p built
  have inside : event.core ∈ p.events.map DecisionEvent.core := List.mem_map_of_mem listed
  rw [cores] at inside
  have named := (planned_named scope x event.core inside).2.2
  exact named

theorem length_commitId (value : Str) (commit : commitId value = true) : 40 ≤ value.length := by
  simp only [commitId, Bool.and_eq_true, Bool.or_eq_true, decide_eq_true_eq] at commit
  obtain ⟨width, digits⟩ := commit
  have ascii : byteLength value = value.length := by
    apply Json.encode_printable
    intro c listed
    have digit := List.all_eq_true.1 digits c listed
    simp only [Bool.or_eq_true, Bool.and_eq_true, decide_eq_true_eq, Char.isDigit, Char.le_def,
      UInt32.le_iff_toNat_le] at digit
    have low : ('0'.val.toNat, '9'.val.toNat, 'a'.val.toNat, 'f'.val.toNat, 'A'.val.toNat,
      'F'.val.toNat) = (48, 57, 97, 102, 65, 70) := rfl
    simp only [Json.printable, Bool.and_eq_true, decide_eq_true_eq, Char.toNat]
    simp only [Prod.mk.injEq] at low
    omega
  omega

structure Kept (outside : Outside) (runId : Str) (dir : JournalDir)
    (events : List DecisionEvent) (held : List Checkpoint) : Prop where
  loads : ∃ journal, loadDir outside runId dir = .ok journal ∧ journal.events = events
  file : dir.file.getD [] = encodeLines events
  base : ∀ event ∈ events, 40 ≤ event.revision.baseCommit.length
  checkpoints : dir.checkpoints = held.map fun checkpoint =>
    (checkpointName checkpoint.seq, .ok checkpoint)
  order : held.Pairwise fun one two => one.seq < two.seq
  within : ∀ checkpoint ∈ held, checkpoint.seq < events.length
  last : events ≠ [] → ∃ checkpoint ∈ held, checkpoint.seq + 1 = events.length

section Step
variable (outside : Outside) (runId : Str) (dir : JournalDir) (events : List DecisionEvent)
  (held : List Checkpoint)

theorem kept_start : Kept outside runId JournalDir.none [] [] where
  loads := ⟨.blank, rfl, rfl⟩
  file := rfl
  base := by simp
  checkpoints := rfl
  order := List.Pairwise.nil
  within := by simp
  last := fun present => absurd rfl present

variable (kept : Kept outside runId dir events held)
include kept

theorem held_length : held.length ≤ events.length := by
  have once : (held.map Checkpoint.seq).Nodup :=
    List.pairwise_map.2 (kept.order.imp Nat.ne_of_lt)
  have inside : held.map Checkpoint.seq ⊆ List.range events.length := by
    intro seq listed
    obtain ⟨checkpoint, member, rfl⟩ := List.mem_map.1 listed
    exact List.mem_range.2 (kept.within checkpoint member)
  have fewer := (List.subperm_of_subset once inside).length_le
  rwa [List.length_map, List.length_range] at fewer

theorem kept_imported (more : List DecisionEvent) (scope : Scope) (ledger : Ledger)
    (raw : RawSession) (own : scope.runId = runId) (opened : Opened scope)
    (accepted : importDir outside scope ledger raw dir = .ok more)
    (readable : ∀ event ∈ more, outside.read event.line = .ok event) :
    ∃ held, Kept outside runId (executeImport outside scope ledger raw dir) (events ++ more)
      held := by
  subst own
  obtain ⟨journal, loaded, rfl⟩ := kept.loads
  have longer := imported_loads outside scope ledger raw dir more journal loaded accepted readable
  have first := accepted
  obtain ⟨comments, files, journal', p, -, -, built, -, rfl⟩ := (importDir_eq_ok ..).1 first
  have revision := planned_revision outside.world scope _ p built
  have grown := events_replayed outside.world p.events journal
  have step : executeImport outside scope ledger raw dir = dir.append p.events := by
    rw [executeImport, accepted]
  rw [step]
  rcases List.eq_nil_or_concat p.events with absent | ⟨front, last, ends⟩
  · rw [absent, List.append_nil]
    exact ⟨held, kept⟩
  rw [List.concat_eq_append] at ends
  have appended : dir.append p.events =
      { file := some (dir.file.getD [] ++ encodeLines p.events)
        checkpoints := dir.checkpoints ++
          [(checkpointName last.seq, .ok ⟨last.seq, last.hash⟩)] } := by
    rw [JournalDir.append.eq_def, ends, List.getLast?_concat]
  have file : dir.file.getD [] ++ encodeLines p.events =
      encodeLines (journal.events ++ p.events) := by
    rw [kept.file, encodeLines_append]
  have base : ∀ event ∈ journal.events ++ p.events, 40 ≤ event.revision.baseCommit.length := by
    intro event listed
    rcases List.mem_append.1 listed with early | late
    · exact kept.base event early
    · rw [revision event late]
      exact length_commitId _ opened.base
  have run : 64 ≤ scope.runId.length := by
    obtain ⟨manifest, same⟩ := opened.run
    rw [same]
    exact (length_sha256Hex manifest).ge
  have here : (journal.events ++ p.events)[journal.events.length + front.length]? = some last := by
    rw [ends, List.getElem?_append_right (Nat.le_add_right ..)]
    simp
  have width : (journal.events ++ p.events).length = journal.events.length + front.length + 1 := by
    rw [ends]
    simp [Nat.add_assoc]
  obtain ⟨whole, -⟩ := loaded_chained outside scope.runId _ _ longer
  rw [grown] at whole
  obtain ⟨before, chain⟩ := chained_mem outside.world scope.runId _ 0 genesis whole _ last here
  have seq : last.seq = journal.events.length + front.length :=
    chain.2.1.trans (Nat.zero_add _)
  have few := events_few outside scope.runId _ _ longer run (by rw [grown]; exact file)
    (by rw [grown]; exact base)
  rw [grown] at few
  have fewer := held_length outside scope.runId dir journal.events held kept
  rw [appended]
  refine ⟨held ++ [⟨last.seq, last.hash⟩], ?_⟩
  constructor
  case loads =>
    refine ⟨_, (loadDir_eq_ok ..).2 ⟨((loadDir_eq_ok ..).1 longer).1, ?_⟩, grown⟩
    have checked := ((loadDir_eq_ok ..).1 longer).2
    rw [checkpoints_eq_ok, grown] at checked ⊢
    refine ⟨?_, fun entry listed => ?_⟩
    · rw [kept.checkpoints, List.length_append, List.length_map, List.length_singleton]
      omega
    · rcases List.mem_append.1 listed with early | late
      · exact checked.2 entry early
      · rw [List.mem_singleton.1 late]
        exact ⟨⟨last.seq, last.hash⟩, rfl, by rw [seq, here]; rfl⟩
  case file => exact file
  case base => exact base
  case checkpoints => rw [kept.checkpoints, List.map_append, List.map_singleton]
  case order =>
    rw [List.pairwise_append]
    refine ⟨kept.order, List.pairwise_singleton _ _, ?_⟩
    intro one early two late
    have earlier := kept.within one early
    rw [List.mem_singleton.1 late]
    dsimp only
    omega
  case within =>
    intro checkpoint listed
    rcases List.mem_append.1 listed with early | late
    · have earlier := kept.within checkpoint early
      omega
    · rw [List.mem_singleton.1 late]
      dsimp only
      omega
  case last =>
    intro _
    exact ⟨⟨last.seq, last.hash⟩, by simp, by dsimp only; omega⟩

end Step

/-- A number is read back from its padded form. -/
theorem padded_injective (width n m : Nat) (same : padded width n = padded width m) : n = m := by
  have read (k : Nat) : Nat.ofDigitChars 10 (padded width k) 0 = k := by
    rw [padded]
    induction width - (decimal k).length with
    | zero => exact ofDigitChars_decimal k
    | succ zeros ih =>
      rw [List.replicate_succ, List.cons_append, Nat.ofDigitChars_cons]
      exact ih
  rw [← read n, same, read]

theorem checkpointName_injective (n m : Nat) (same : checkpointName n = checkpointName m) :
    n = m :=
  padded_injective 20 n m (List.append_cancel_right same)

theorem seal_injective (one two : DecisionEvent) (same : one.unsealed = two.unsealed)
    (hash : one.hash = two.hash) : one = two := by
  have first : ({ one.unsealed with hash := one.hash } : DecisionEvent) = one := rfl
  rw [← first, same, hash]
  rfl

section Sound
variable (outside : Outside) (runId : Str) (dir : JournalDir) (events : List DecisionEvent)
  (held : List Checkpoint) (kept : Kept outside runId dir events held)

theorem kept_reader (outside' : Outside) (same : outside'.read = outside.read)
    (kept : Kept outside runId dir events held) : Kept outside' runId dir events held :=
  { kept with loads := by rw [loadDir_reader outside' outside same runId dir]; exact kept.loads }

include kept

/-- A journal that satisfies every checkpoint goes on from the events they were made for. -/
theorem tamper_prefix (file : Option (List UInt8)) (journal : Journal)
    (loaded : loadDir outside runId { dir with file } = .ok journal)
    (unique : ∀ a ∈ events, ∀ b ∈ journal.events, a.digest outside.world = b.digest outside.world →
      a.unsealed = b.unsealed) : events <+: journal.events := by
  by_cases absent : events = []
  · rw [absent]
    exact List.nil_prefix
  obtain ⟨original, own, rfl⟩ := kept.loads
  obtain ⟨checkpoint, member, last⟩ := kept.last absent
  have entry : (checkpointName checkpoint.seq, .ok checkpoint) ∈ dir.checkpoints := by
    rw [kept.checkpoints]
    exact List.mem_map_of_mem member
  have named (journal : Journal) (file : Option (List UInt8))
      (loaded : loadDir outside runId { dir with file } = .ok journal) :
      ∃ event, journal.events[checkpoint.seq]? = some event ∧ event.hash = checkpoint.hash := by
    have checked := ((loadDir_eq_ok ..).1 loaded).2
    rw [checkpoints_eq_ok] at checked
    obtain ⟨other, same, known⟩ := checked.2 _ entry
    obtain rfl := Except.ok.inj (Prod.mk.inj same).2
    exact Option.map_eq_some_iff.1 known
  obtain ⟨first, -⟩ := loaded_chained outside runId dir original own
  obtain ⟨second, -⟩ := loaded_chained outside runId _ journal loaded
  have apart : ∀ a ∈ original.events, ∀ b ∈ journal.events, a.hash = b.hash → a = b := by
    intro a listed b listed' same
    refine seal_injective a b (unique a listed b listed' ?_) same
    rw [chained_digest outside.world runId _ 0 genesis first a listed,
      chained_digest outside.world runId _ 0 genesis second b listed', same]
  obtain ⟨a, here, hash⟩ := named original dir.file own
  obtain ⟨b, there, hash'⟩ := named journal file loaded
  have same := HashChain.take_of_hash DecisionEvent.hash DecisionEvent.prev genesis genesis
    original.events journal.events (chained_linked outside.world runId _ 0 genesis first)
    (chained_linked outside.world runId _ 0 genesis second) apart checkpoint.seq a b here there
    (hash.trans hash'.symm)
  rw [last, List.take_length] at same
  rw [same]
  exact List.take_prefix ..

theorem kept_sound : Sound outside runId dir events := by
  obtain ⟨journal, loaded, same⟩ := kept.loads
  obtain ⟨chained, fits⟩ := loaded_chained outside runId dir journal loaded
  rw [same] at chained
  have linked := chained_linked outside.world runId events 0 genesis chained
  have checked := ((loadDir_eq_ok ..).1 loaded).2
  rw [checkpoints_eq_ok, same] at checked
  constructor
  case loads => exact ⟨journal, loaded, same⟩
  case seq =>
    intro i event found
    obtain ⟨before, chain⟩ := chained_mem outside.world runId events 0 genesis chained i event found
    exact chain.2.1.trans (Nat.zero_add i)
  case first => exact HashChain.linked_first _ _ genesis events linked
  case next => exact HashChain.linked_next _ _ genesis events linked
  case checkpoint => exact checked.2
  case apart =>
    rw [kept.checkpoints, List.map_map]
    refine List.pairwise_map.2 (kept.order.imp ?_)
    intro one two less equal
    exact less.ne (checkpointName_injective _ _ equal)
  case cap => exact fits
  case full =>
    intro scope ledger raw comments files journal p failure observed loaded built refused
    rw [executeImport]
    cases accepted : importDir outside scope ledger raw dir with
    | error failure => rfl
    | ok more =>
      obtain ⟨comments', files', journal', p', observed', loaded', built', fits', -⟩ :=
        (importDir_eq_ok ..).1 accepted
      obtain ⟨rfl, rfl⟩ := Prod.mk.inj (Except.ok.inj (observed.symm.trans observed'))
      obtain rfl := Except.ok.inj (loaded.symm.trans loaded')
      obtain rfl := Except.ok.inj (built.symm.trans built')
      rw [refused] at fits'
      cases fits'
  case tamper => exact tamper_prefix outside runId dir events held kept

end Sound

theorem history_kept (read : Str → Except Str DecisionEvent) (runId : Str) (dir : JournalDir)
    (events : List DecisionEvent) (history : History read runId dir events) (outside : Outside)
    (reader : outside.read = read) : ∃ held, Kept outside runId dir events held := by
  induction history with
  | start => exact ⟨[], kept_start outside runId⟩
  | imported dir events more other scope ledger raw before reader' own opened accepted readable ih =>
    obtain ⟨held, kept⟩ := ih
    have same : other.read = outside.read := reader'.trans reader.symm
    have swapped := kept_reader outside runId dir events held other same kept
    rw [← reader'] at readable
    obtain ⟨held', kept'⟩ := kept_imported other runId dir events held swapped more scope ledger raw
      own opened accepted readable
    exact ⟨held', kept_reader other runId _ _ held' outside same.symm kept'⟩
  | refused dir events other scope ledger raw failure before failed ih =>
    rw [executeImport, failed]
    exact ih

/-- Whatever executed imports a run saw, its journal is sound. -/
theorem journal_sound (read : Str → Except Str DecisionEvent) (runId : Str) (dir : JournalDir)
    (events : List DecisionEvent) (history : History read runId dir events) (outside : Outside)
    (reader : outside.read = read) : Sound outside runId dir events := by
  obtain ⟨held, kept⟩ := history_kept read runId dir events history outside reader
  exact kept_sound outside runId dir events held kept

def manifestScope : Scope := { sampleScope with runId := sha256Hex [] }

def runRevised : DecisionEvent :=
  { partRevised with
    runId := manifestScope.runId
    hash := "097eb3653797eaa17a357a5fcebddf7b5cca9e34437c3627d8a54f4b3a17db55".toList }

def runTombstone : DecisionEvent :=
  { manifestScope.blank .deleted unrecorded with
    seq := 1, prev := runRevised.hash, commentId := some "c1".toList, ddfAuthored := true
    supersedes := some runRevised.hash
    hash := "98ab1f6d983735fadb617db3f75102a93802fe8088d4724803aca9040209c822".toList }

abbrev runReader : Outside := readAll [runRevised, runTombstone]

/-- What the import of an edited note leaves. -/
def revisedDir : JournalDir :=
  ⟨some (encodeLines [runRevised]), [(checkpointName 0, .ok ⟨0, runRevised.hash⟩)]⟩

theorem runRevised_import : importDir runReader manifestScope noteLedger partSession
    JournalDir.none = .ok [runRevised] ∧ runRevised.line ≠ runTombstone.line := by
  rw [importDir, world_digest]
  decide +kernel

theorem runReader_line :
    ∀ event ∈ [runRevised, runTombstone], runReader.read event.line = .ok event :=
  readAll_line runRevised runTombstone runRevised_import.2

theorem revisedDir_loads : loadDir runReader manifestScope.runId revisedDir =
    .ok ([runRevised].foldl (Journal.record runReader.world) .blank) := by
  have file := imported_loads runReader manifestScope noteLedger partSession JournalDir.none
    [runRevised] .blank rfl runRevised_import.1
    (List.forall_mem_singleton.2 (runReader_line _ List.mem_cons_self))
  exact (loadDir_eq_ok ..).2 ⟨((loadDir_eq_ok ..).1 file).1, rfl⟩

theorem runTombstone_import : importDir runReader manifestScope noteLedger emptySession revisedDir =
    .ok [runTombstone] := by
  rw [importDir, revisedDir_loads, world_digest]
  decide +kernel

theorem executeImport_revised :
    executeImport runReader manifestScope noteLedger partSession JournalDir.none = revisedDir := by
  rw [executeImport, runRevised_import.1]
  rfl

theorem run_history : History runReader.read manifestScope.runId
    (executeImport runReader manifestScope noteLedger emptySession revisedDir)
    [runRevised, runTombstone] := by
  have opened : Opened manifestScope := ⟨⟨[], rfl⟩, by decide⟩
  have first := History.imported JournalDir.none [] [runRevised] runReader manifestScope noteLedger
    partSession .start rfl rfl opened runRevised_import.1
    (List.forall_mem_singleton.2 (runReader_line _ List.mem_cons_self))
  rw [executeImport_revised] at first
  exact .imported revisedDir [runRevised] [runTombstone] runReader manifestScope noteLedger
    emptySession first rfl rfl opened runTombstone_import
    (List.forall_mem_singleton.2 (runReader_line _ (List.mem_cons_of_mem _ List.mem_cons_self)))

/-- The journal of a run that saw its one note edited, and then gone. -/
theorem journal_sound_sample : Sound runReader manifestScope.runId
    (executeImport runReader manifestScope noteLedger emptySession revisedDir)
    [runRevised, runTombstone] :=
  journal_sound runReader.read manifestScope.runId _ _ run_history runReader rfl

end DeepDiffForge.Review
