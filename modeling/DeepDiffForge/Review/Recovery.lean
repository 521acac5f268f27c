import DeepDiffForge.Review.Interrupted

/-! An append that stops after some of its bytes: what is left is read again, or refused. -/

namespace DeepDiffForge.Review
open Text Markers DeepDiffForge.Core

/-- What an append leaves that stops after so many of its bytes. -/
def JournalDir.cut (dir : JournalDir) (events : List DecisionEvent) (n : Nat) : JournalDir :=
  { dir with file := some (dir.file.getD [] ++ (encodeLines events).take n) }

/-- After a whole line the rest is told again and nothing else; after anything else the journal is
refused. -/
structure Recovers (outside : Outside) (scope : Scope) (ledger : Ledger) (raw : RawSession)
    (dir : JournalDir) (events : List DecisionEvent) (n : Nat) : Prop where
  boundary : ∀ k, n = (encodeLines (events.take k)).length →
    ∃ journal again, loadDir outside scope.runId (dir.cut events n) = .ok journal ∧
      importDir outside scope ledger raw (dir.cut events n) = .ok again ∧
        ∀ fact, fact ∈ again.map DecisionEvent.fact ↔
          fact ∈ (events.drop k).map DecisionEvent.fact
  inside : (∀ k, n ≠ (encodeLines (events.take k)).length) →
    (∃ failure, loadDir outside scope.runId (dir.cut events n) = .error failure) ∧
      ∃ failure, importDir outside scope ledger raw (dir.cut events n) = .error failure

theorem importDir_eq_ok (outside : Outside) (scope : Scope) (ledger : Ledger) (raw : RawSession)
    (dir : JournalDir) (events : List DecisionEvent) :
    importDir outside scope ledger raw dir = .ok events ↔
      ∃ comments files journal p, observedComments raw = .ok (comments, files) ∧
        loadDir outside scope.runId dir = .ok journal ∧
        plan outside.world scope { ledger, journal, comments, files } = .ok p ∧
        encode outside.world journal.bytes p.events = .ok () ∧ events = p.events := by
  unfold importDir
  constructor
  · intro accepted
    obtain ⟨⟨comments, files⟩, observed, accepted⟩ := (Fallible.bind_eq_ok _ _ _).1 accepted
    obtain ⟨journal, loaded, accepted⟩ := (Fallible.bind_eq_ok _ _ _).1 accepted
    obtain ⟨p, built, accepted⟩ := (Fallible.bind_eq_ok _ _ _).1 accepted
    obtain ⟨⟨⟩, fits, accepted⟩ := (Fallible.bind_eq_ok _ _ _).1 accepted
    exact ⟨comments, files, journal, p, observed, loaded, built, fits,
      (Except.ok.inj accepted).symm⟩
  · rintro ⟨comments, files, journal, p, observed, loaded, built, fits, rfl⟩
    refine (Fallible.bind_eq_ok _ _ _).2 ⟨(comments, files), observed, ?_⟩
    refine (Fallible.bind_eq_ok _ _ _).2 ⟨journal, loaded, ?_⟩
    refine (Fallible.bind_eq_ok _ _ _).2 ⟨p, built, ?_⟩
    exact (Fallible.bind_eq_ok _ _ _).2 ⟨(), fits, rfl⟩

theorem importDir_refused (outside : Outside) (scope : Scope) (ledger : Ledger) (raw : RawSession)
    (dir : JournalDir) (failure : TuicrImportError)
    (refused : loadDir outside scope.runId dir = .error failure) :
    ∃ failure, importDir outside scope ledger raw dir = .error failure := by
  cases accepted : importDir outside scope ledger raw dir with
  | error failure => exact ⟨failure, rfl⟩
  | ok events =>
    obtain ⟨-, -, journal, -, -, loaded, -⟩ :=
      (importDir_eq_ok outside scope ledger raw dir events).1 accepted
    rw [refused] at loaded
    cases loaded

theorem encode_eq_ok (outside : Outside) (bytes : Nat) (events : List DecisionEvent) :
    encode outside.world bytes events = .ok () ↔
      bytes + (encodeLines events).length ≤ journalCap := by
  rw [encode, ← length_encodeLines]
  split_ifs with heavy
  · refine ⟨?_, fun light => absurd light (Nat.not_le.2 heavy)⟩
    rintro ⟨⟩
  · exact ⟨fun _ => Nat.not_lt.1 heavy, fun _ => rfl⟩

theorem plan_chained (world : World) (scope : Scope) (x : Inputs) (p : Planner)
    (built : plan world scope x = .ok p) :
    ChainedFrom world scope.runId x.journal.head.1 x.journal.head.2 p.events := by
  have start : Continues world scope.runId x.journal.head.1 x.journal.head.2
      (Planner.first scope x.journal) := ⟨rfl, rfl, fun _ => rfl⟩
  have continues := pushes_continues world scope.runId _ _ _ p _
    (plan_pushes world scope x p built)
    (fun event member => (planned_named scope x event member).imp_right And.left) start
  exact ((verify_eq_ok world scope.runId p.events _ _ .blank _).1 (continues.2.2 .blank)).1

section Cuts

theorem encodeLines_append (first second : List DecisionEvent) :
    encodeLines (first ++ second) = encodeLines first ++ encodeLines second :=
  List.flatMap_append

theorem take_encodeLines (events : List DecisionEvent) (k : Nat) :
    (encodeLines events).take (encodeLines (events.take k)).length =
      encodeLines (events.take k) := by
  have whole : encodeLines events =
      encodeLines (events.take k) ++ encodeLines (events.drop k) := by
    rw [← encodeLines_append, List.take_append_drop]
  rw [whole, List.take_left]

theorem cut_open (events : List DecisionEvent) (n : Nat) (within : n ≤ (encodeLines events).length)
    (apart : ∀ k, n ≠ (encodeLines (events.take k)).length) :
    ∃ byte, ((encodeLines events).take n).getLast? = some byte ∧ byte ≠ 0x0A := by
  induction events generalizing n with
  | nil => exact absurd (Nat.le_zero.1 within) (apart 0)
  | cons event events ih =>
    obtain ⟨line, own⟩ : ∃ line, line = Utf8.encode event.line := ⟨_, rfl⟩
    have cons (events : List DecisionEvent) :
        encodeLines (event :: events) = line ++ [0x0A] ++ encodeLines events := by
      rw [encodeLines, List.flatMap_cons, own, Utf8.encode, List.flatMap_append]
      rfl
    have positive : n ≠ 0 := apart 0
    rcases Nat.lt_or_ge n (line ++ [0x0A]).length with short | long
    · rw [List.length_append, List.length_singleton] at short
      have few : n ≤ line.length := by omega
      rw [cons, List.append_assoc, List.take_append_of_le_length few]
      have left : line.take n ≠ [] := by
        rw [Ne, List.take_eq_nil_iff]
        rintro (zero | absent)
        · exact positive zero
        · rw [absent, List.length_nil] at few
          omega
      refine ⟨(line.take n).getLast left, List.getLast?_eq_some_getLast left, fun feed => ?_⟩
      have inside : (0x0A : UInt8) ∈ line := by
        rw [← feed]
        exact List.mem_of_mem_take (List.getLast_mem left)
      have chars : Utf8.decode line = some event.line := by rw [own, Utf8.decode_encode]
      rw [Utf8.mem_decode line event.line chars 0x0A (by decide)] at inside
      exact absurd (unbroken_line event _ inside) (by decide)
    · obtain ⟨m, rfl⟩ := Nat.exists_eq_add_of_le long
      have rest : m ≤ (encodeLines events).length := by
        simp only [cons, List.length_append] at within
        omega
      have apart' : ∀ k, m ≠ (encodeLines (events.take k)).length := by
        rintro k rfl
        apply apart (k + 1)
        rw [List.take_succ_cons, cons]
        exact List.length_append.symm
      obtain ⟨byte, last, plain⟩ := ih m rest apart'
      refine ⟨byte, ?_, plain⟩
      have more : (encodeLines events).take m ≠ [] := by
        intro absent
        rw [absent] at last
        cases last
      rw [cons, List.take_length_add_append, List.getLast?_append_of_ne_nil _ more, last]

/-- Bytes that do not end in a line feed are refused. -/
theorem loadLines_open (outside : Outside) (runId : Str) (bytes : List UInt8) (byte : UInt8)
    (last : bytes.getLast? = some byte) (unended : byte ≠ 0x0A) :
    ∃ failure, loadLines outside runId bytes = .error failure := by
  cases loaded : loadLines outside runId bytes with
  | error failure => exact ⟨failure, rfl⟩
  | ok journal =>
    obtain ⟨-, text, chars, ended, -⟩ := (loadLines_eq_ok outside runId bytes journal).1 loaded
    have own := Utf8.encode_decode bytes text chars
    rcases List.eq_nil_or_concat text with rfl | ⟨front, c, rfl⟩
    · rw [← own] at last
      cases last
    · rw [List.concat_eq_append] at own ended
      rw [unterminated, List.getLast?_concat] at ended
      have feed : c = '\n' := by simpa using ended
      have newline : Utf8.encode ['\n'] = [0x0A] := by decide
      rw [feed, Utf8.encode, List.flatMap_append, ← Utf8.encode, ← Utf8.encode, newline] at own
      rw [← own, List.getLast?_concat] at last
      exact absurd (Option.some.inj last).symm unended

end Cuts

section Recover
variable (outside : Outside) (scope : Scope) (ledger : Ledger) (raw : RawSession)
  (dir : JournalDir) (events : List DecisionEvent)

/-- A cut that is not within a line keeps the events before it. -/
theorem cut_boundary (k : Nat) :
    dir.cut events (encodeLines (events.take k)).length =
      { dir with file := some (dir.file.getD [] ++ encodeLines (events.take k)) } := by
  rw [JournalDir.cut, take_encodeLines]

theorem cut_inside (n : Nat) (within : n ≤ (encodeLines events).length)
    (apart : ∀ k, n ≠ (encodeLines (events.take k)).length) :
    ∃ failure, loadDir outside scope.runId (dir.cut events n) = .error failure := by
  obtain ⟨byte, last, opened⟩ := cut_open events n within apart
  cases loaded : loadDir outside scope.runId (dir.cut events n) with
  | error failure => exact ⟨failure, rfl⟩
  | ok journal =>
    have read := ((loadDir_eq_ok outside scope.runId _ journal).1 loaded).1
    have nonempty : (encodeLines events).take n ≠ [] := by
      intro absent
      rw [absent] at last
      cases last
    have ends : (dir.file.getD [] ++ (encodeLines events).take n).getLast? = some byte := by
      rw [List.getLast?_append_of_ne_nil _ nonempty, last]
    obtain ⟨failure, refused⟩ := loadLines_open outside scope.runId _ byte ends opened
    change loadLines outside scope.runId _ = _ at read
    rw [refused] at read
    cases read

variable (accepted : importDir outside scope ledger raw dir = .ok events)
  (readable : ∀ event ∈ events, outside.read event.line = .ok event)
include accepted readable

theorem cut_loads (k : Nat) : ∃ comments files journal p,
    observedComments raw = .ok (comments, files) ∧
      plan outside.world scope { ledger, journal, comments, files } = .ok p ∧ events = p.events ∧
      loadDir outside scope.runId (dir.cut events (encodeLines (events.take k)).length) =
        .ok ((p.events.take k).foldl (Journal.record outside.world) journal) ∧
      ∀ again, again = events.drop k → encode outside.world
        ((p.events.take k).foldl (Journal.record outside.world) journal).bytes again = .ok () := by
  obtain ⟨comments, files, journal, p, observed, loaded, built, fits, rfl⟩ :=
    (importDir_eq_ok outside scope ledger raw dir events).1 accepted
  rw [encode_eq_ok] at fits
  have whole : (encodeLines p.events).length =
      (encodeLines (p.events.take k)).length + (encodeLines (p.events.drop k)).length := by
    rw [← List.length_append, ← encodeLines_append, List.take_append_drop]
  have chained := plan_chained outside.world scope _ p built
  rw [← List.take_append_drop k p.events] at chained
  have first := ((chainedFrom_append scope.runId outside.world _ _ _ _).1 chained).1
  refine ⟨comments, files, journal, p, observed, built, rfl, ?_, ?_⟩
  · rw [cut_boundary]
    refine loadDir_extends outside scope.runId dir journal _ loaded first ?_ (by omega)
    exact fun event listed => readable event (List.mem_of_mem_take listed)
  · rintro again rfl
    rw [encode_eq_ok, foldl_record_bytes, ← length_encodeLines]
    omega

theorem cut_recovers (k : Nat) (whole : ¬Torn events k) : ∃ journal again,
    loadDir outside scope.runId (dir.cut events (encodeLines (events.take k)).length) =
        .ok journal ∧
      importDir outside scope ledger raw
        (dir.cut events (encodeLines (events.take k)).length) = .ok again ∧
      again = events.drop k := by
  obtain ⟨comments, files, journal, p, observed, built, rfl, loads, fits⟩ :=
    cut_loads outside scope ledger raw dir events accepted readable k
  have once := (observedComments_once raw comments files observed).1
  have again (k : Nat) := plan_again outside.world scope _ p built once k
  have cores := plan_cores outside.world scope _ p built
  have torn (a b : DecisionEvent) := asked_torn scope
    { ledger, journal, comments, files } once k a b
  have clear : ∀ event ∈ p.events.drop k, fresh (p.events.take k) event = true := by
    intro event late
    by_contra stale
    rw [fresh, List.all_eq_true] at stale
    push Not at stale
    obtain ⟨other, early, same⟩ := stale
    have topics : other.topic = event.topic := by simpa using same
    have early' : other.core ∈ (p.events.take k).map DecisionEvent.core :=
      List.mem_map_of_mem early
    have late' : event.core ∈ (p.events.drop k).map DecisionEvent.core :=
      List.mem_map_of_mem late
    rw [List.map_take, cores, ← List.map_take] at early'
    rw [List.map_drop, cores, ← List.map_drop] at late'
    obtain ⟨a, first, core⟩ := List.mem_map.1 early'
    obtain ⟨b, second, core'⟩ := List.mem_map.1 late'
    have same' : a.topic = b.topic :=
      (topic_of_core a other core).trans (topics.trans (topic_of_core b event core').symm)
    exact whole (torn_cores _ _ cores.symm k (torn a b first second same'))
  by_cases short : k ≤ p.events.length
  · obtain ⟨last, again, rest⟩ := again k short clear
    refine ⟨_, _, loads, (importDir_eq_ok ..).2 ⟨comments, files, _, last, observed, loads, again,
      fits _ rest, rfl⟩, rest⟩
  · have all : p.events.take p.events.length = p.events.take k := by
      rw [List.take_length, List.take_of_length_le (by omega)]
    have absent : p.events.drop p.events.length = p.events.drop k := by
      rw [List.drop_length, List.drop_eq_nil_of_le (by omega)]
    obtain ⟨last, again, rest⟩ := again p.events.length le_rfl (by simp)
    rw [all] at again
    rw [absent] at rest
    refine ⟨_, _, loads, (importDir_eq_ok ..).2 ⟨comments, files, _, last, observed, loads, again,
      fits _ rest, rfl⟩, rest⟩

/-- A change of state cut off from its comment's revision is not told again. -/
theorem cut_loses (m : Nat) (first second : DecisionEvent) (here : events[m]? = some first)
    (next : events[m + 1]? = some second) (kind : first.kind = .revised)
    (kind' : second.kind = .lifecycle) (named : first.commentId = second.commentId)
    (again : List DecisionEvent)
    (second' : importDir outside scope ledger raw
      (dir.cut events (encodeLines (events.take (m + 1))).length) = .ok again) :
    second.fact ∉ again.map DecisionEvent.fact := by
  obtain ⟨comments, files, journal, p, observed, built, rfl, loads, -⟩ :=
    cut_loads outside scope ledger raw dir events accepted readable (m + 1)
  obtain ⟨comments', files', journal', last, observed', loads', built', -, rfl⟩ :=
    (importDir_eq_ok ..).1 second'
  obtain ⟨rfl, rfl⟩ := Prod.mk.inj (Except.ok.inj (observed.symm.trans observed'))
  obtain rfl := Except.ok.inj (loads.symm.trans loads')
  have once := (observedComments_once raw comments files observed).1
  refine plan_loses outside.world scope _ p built once (m + 1) second ?_ last built'
  have early : first ∈ p.events.take (m + 1) := by
    refine List.mem_of_getElem? (i := m) ?_
    rw [List.getElem?_take_of_succ, here]
  have topics : first.topic = second.topic := by
    simp [DecisionEvent.topic, DecisionEvent.marks, kind, kind', named]
  rw [fresh, List.all_eq_false]
  exact ⟨first, early, by simp [topics]⟩

end Recover

/-- An append that stops anywhere loses nothing, unless it stops right after a comment's revision
whose batch goes on with that comment's change of state. -/
theorem interrupted_append (outside : Outside) (scope : Scope) (ledger : Ledger)
    (raw : RawSession) (dir : JournalDir) (events : List DecisionEvent) (n : Nat)
    (accepted : importDir outside scope ledger raw dir = .ok events)
    (readable : ∀ event ∈ events, outside.read event.line = .ok event)
    (within : n ≤ (encodeLines events).length) :
    Recovers outside scope ledger raw dir events n ↔
      ¬∃ k, n = (encodeLines (events.take k)).length ∧ Torn events k := by
  constructor
  · rintro recovers ⟨k, boundary, torn⟩
    obtain ⟨journal, again, -, second', told⟩ := recovers.boundary k boundary
    rw [boundary] at second'
    obtain ⟨m, one, two, rfl, here, next, kind, kind', named⟩ := torn
    refine cut_loses outside scope ledger raw dir events accepted readable m one two here next
      kind kind' named again second' ?_
    rw [told]
    refine List.mem_map_of_mem (List.mem_of_getElem? (i := 0) ?_)
    rw [List.getElem?_drop]
    exact next
  · intro whole
    refine ⟨fun k boundary => ?_, fun apart => ?_⟩
    · obtain ⟨journal, again, loads, second', rest⟩ := cut_recovers outside scope ledger raw dir
        events accepted readable k fun torn => whole ⟨k, boundary, torn⟩
      rw [boundary]
      exact ⟨journal, again, loads, second', fun fact => by rw [rest]⟩
    · obtain ⟨failure, refused⟩ := cut_inside outside scope dir events n within apart
      exact ⟨⟨failure, refused⟩, importDir_refused outside scope ledger raw _ failure refused⟩

def readAll (events : List DecisionEvent) : Outside where
  read line := match events.find? fun event => event.line = line with
    | some event => .ok event
    | none => .error "invalid line".toList
  contains _ := true
  snapshot _ := .ok none
  sessionBytes _ := .error []

def exportedNote : LedgerEntry :=
  ⟨"a/independent/finding/F1".toList, "r1".toList, "s1".toList, "c1".toList, List.replicate 64 'b'⟩

def noteLedger : Ledger := ⟨SortedMap.empty.insert "c1".toList exportedNote⟩

def editedSession : RawSession :=
  ⟨[⟨"c1".toList, "x".toList, none, "a".toList, some .submitted, none, none⟩], SortedMap.empty⟩

def editedNote : Observed :=
  ⟨"c1".toList, "x".toList,
    "2d711642b726b04401627ca9fbac32f5c8530fb1903cc4db02258717921a4881".toList, none, "a".toList,
    .submitted, .review, none⟩

def noteRevised : DecisionEvent :=
  { sampleScope.comment .revised unrecorded editedNote true with
    prev := genesis, conflict := some editedOutside
    hash := "e352ecfb7689ffb3f0bf61bdc7784f7e5a4fb3317334cbc67e1c6f6f8d10e1c5".toList }

def noteSubmitted : DecisionEvent :=
  { sampleScope.comment .lifecycle unrecorded editedNote true with
    seq := 1, prev := noteRevised.hash, previousLifecycleState := some .localDraft
    supersedes := some noteRevised.hash
    hash := "2afc5fe73360b71f5b4a99ed7d9fea79aae1dd8e579ec5f6e99bf49883cee3d9".toList }

theorem editedSession_import : importDir (readAll [noteRevised, noteSubmitted]) sampleScope
    noteLedger editedSession JournalDir.none = .ok [noteRevised, noteSubmitted] ∧
      noteRevised.line ≠ noteSubmitted.line := by
  rw [importDir, world_digest]
  decide +kernel

theorem readAll_line (first second : DecisionEvent) (apart : first.line ≠ second.line) :
    ∀ event ∈ [first, second], (readAll [first, second]).read event.line = .ok event := by
  intro event listed
  rcases List.mem_pair.1 listed with rfl | rfl
  · simp [readAll]
  · simp [readAll, apart]

theorem edited_readable : ∀ event ∈ [noteRevised, noteSubmitted],
    (readAll [noteRevised, noteSubmitted]).read event.line = .ok event :=
  readAll_line noteRevised noteSubmitted editedSession_import.2

theorem pair_loses (outside : Outside) (scope : Scope) (ledger : Ledger) (raw : RawSession)
    (dir : JournalDir) (first second : DecisionEvent)
    (accepted : importDir outside scope ledger raw dir = .ok [first, second])
    (readable : ∀ event ∈ [first, second], outside.read event.line = .ok event)
    (kind : first.kind = .revised) (kind' : second.kind = .lifecycle)
    (named : first.commentId = second.commentId) :
    ¬Recovers outside scope ledger raw dir [first, second] (encodeLines [first]).length := by
  intro recovers
  obtain ⟨-, again, -, accepted', told⟩ := recovers.boundary 1 rfl
  refine cut_loses outside scope ledger raw dir _ accepted readable 0 first second rfl rfl kind
    kind' named again accepted' ?_
  rw [told]
  exact List.mem_map_of_mem (List.mem_singleton_self second)

/-- Stopped after the revision, the append loses that the note was submitted. -/
theorem interrupted_append_loses :
    importDir (readAll [noteRevised, noteSubmitted]) sampleScope noteLedger editedSession
        JournalDir.none = .ok [noteRevised, noteSubmitted] ∧
      (∀ event ∈ [noteRevised, noteSubmitted],
        (readAll [noteRevised, noteSubmitted]).read event.line = .ok event) ∧
      ¬Recovers (readAll [noteRevised, noteSubmitted]) sampleScope noteLedger editedSession
        JournalDir.none [noteRevised, noteSubmitted] (encodeLines [noteRevised]).length :=
  ⟨editedSession_import.1, edited_readable,
    pair_loses _ sampleScope noteLedger editedSession JournalDir.none noteRevised noteSubmitted
      editedSession_import.1 edited_readable (Eq.refl EventKind.revised)
      (Eq.refl EventKind.lifecycle) (Eq.refl (some editedNote.id))⟩

/-- A run that exported two notes. -/
def pairLedger : Ledger :=
  ⟨noteLedger.byComment.insert "c2".toList
    { exportedNote with key := "a/independent/finding/F2".toList, tuicrCommentId := "c2".toList }⟩

/-- A session in which the first note was edited, and that no longer has the second. -/
def partSession : RawSession :=
  ⟨[⟨"c1".toList, "x".toList, none, "a".toList, none, none, none⟩], SortedMap.empty⟩

def partRevised : DecisionEvent :=
  { noteRevised with
    lifecycleState := some .localDraft
    hash := "c71693a81521f1447a5a1e8cbc7f2280fdc9a88ef2a52d733df300267b610c8c".toList }

def partDeleted : DecisionEvent :=
  { sampleScope.blank .deleted unrecorded with
    seq := 1, prev := partRevised.hash, commentId := some "c2".toList, ddfAuthored := true
    hash := "78f4f566f716bab632ab9c5042dcb2e59987a27b2b81993e0c12c175b30775de".toList }

theorem partSession_import : importDir (readAll [partRevised, partDeleted]) sampleScope pairLedger
    partSession JournalDir.none = .ok [partRevised, partDeleted] ∧
      partRevised.line ≠ partDeleted.line := by
  rw [importDir, world_digest]
  decide +kernel

theorem whole_of_kinds (events : List DecisionEvent) (k : Nat)
    (kinds : ∀ event ∈ events, event.kind ≠ .lifecycle) : ¬Torn events k := by
  rintro ⟨m, first, second, -, -, next, -, changed, -⟩
  exact kinds second (List.mem_of_getElem? next) changed

theorem cut_within (first second : List DecisionEvent) :
    (encodeLines first).length ≤ (encodeLines (first ++ second)).length := by
  rw [encodeLines_append, List.length_append]
  exact Nat.le_add_right ..

/-- An append stopped after the first of two notes. -/
theorem interrupted_append_sample :
    Recovers (readAll [partRevised, partDeleted]) sampleScope pairLedger partSession
      JournalDir.none [partRevised, partDeleted] (encodeLines [partRevised]).length :=
  (interrupted_append (readAll [partRevised, partDeleted]) sampleScope pairLedger partSession
    JournalDir.none [partRevised, partDeleted] (encodeLines [partRevised]).length
    partSession_import.1 (readAll_line partRevised partDeleted partSession_import.2)
    (cut_within [partRevised] [partDeleted])).2 fun torn => torn.elim fun k cut =>
      whole_of_kinds [partRevised, partDeleted] k (by decide) cut.2

end DeepDiffForge.Review
