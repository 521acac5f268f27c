import DeepDiffForge.Review.Replay

/-! The journal against the session after an import: what mirrors it, and that importing the same
session again plans nothing. -/

namespace DeepDiffForge.Review
open Text DeepDiffForge.Core

def replayed (world : World) (events : List DecisionEvent) : Journal :=
  events.foldl (Journal.record world) .blank

/-- A comment's digest and lifecycle while it stands; an exported note never journaled counts. -/
def standing (ledger : Ledger) (journal : Journal) (sessionId id : Str) :
    Option (Str × Lifecycle) :=
  (((journal.facts sessionId id).or
    ((ledger.byComment.get id).map fun e => e.state.facts)).filter fun facts => !facts.2.2).map
      fun facts => (facts.1, facts.2.1)

def unmarked : Mark := (false, ∅)

def RawFile.mark (file : RawFile) : Mark := (file.reviewed, file.reviewedHunks)

structure Mirrors (ledger : Ledger) (comments : List Observed) (files : SortedMap Str RawFile)
    (sessionId : Str) (journal : Journal) : Prop where
  comment : ∀ id, standing ledger journal sessionId id =
    (comments.find? fun c => c.id = id).map fun c => (c.sha256, c.lifecycle)
  file : ∀ path, (journal.mark sessionId path).getD unmarked =
    ((files.get path).map RawFile.mark).getD unmarked

section Comments
variable (scope : Scope) (x : Inputs)

theorem prior_facts (id : Str) : (x.prior scope.sessionId id).map CommentState.facts =
    (x.journal.facts scope.sessionId id).or
      ((x.ledger.byComment.get id).map fun e => e.state.facts) := by
  simp only [Inputs.prior, Journal.facts]
  cases x.journal.comments.get (toLex (scope.sessionId, id)) <;>
    simp [Option.or, Function.comp_def]

theorem plannedComment_carries (c : Observed) (event : DecisionEvent)
    (member : event ∈ plannedComment scope x c) :
    event.sessionId = scope.sessionId ∧ event.commentId = some c.id ∧
      ∀ old, factsNext old event = (c.sha256, c.lifecycle, false) := by
  unfold plannedComment at member
  dsimp only at member
  cases prior : x.prior scope.sessionId c.id with
  | none =>
    rw [prior] at member
    rw [List.mem_singleton.1 member]
    refine ⟨rfl, rfl, ?_⟩
    intro old
    dsimp only [Scope.comment, Scope.blank, factsNext, Option.getD_some]
    split_ifs <;> rfl
  | some state =>
    rw [prior] at member
    dsimp only at member
    split_ifs at member <;> simp only [List.mem_append, List.mem_singleton, List.append_nil,
      List.nil_append, List.not_mem_nil] at member
    all_goals
      first
        | (obtain rfl := member; exact ⟨rfl, rfl, fun _ => rfl⟩)
        | (rcases member with rfl | rfl <;> exact ⟨rfl, rfl, fun _ => rfl⟩)

theorem plannedComment_nil (c : Observed) : plannedComment scope x c = [] ↔
    (x.prior scope.sessionId c.id).map CommentState.facts =
      some (c.sha256, c.lifecycle, false) := by
  unfold plannedComment
  dsimp only
  cases x.prior scope.sessionId c.id with
  | none => simp
  | some state =>
    simp only [Option.map_some, Option.some.injEq, CommentState.facts, Prod.mk.injEq]
    cases gone : state.deleted with
    | true => simp
    | false =>
      by_cases digest : state.sha256 = c.sha256 <;>
        by_cases cycle : state.lifecycle = c.lifecycle <;> simp [digest, cycle]

theorem about_comment (c : Observed) (id : Str) :
    (plannedComment scope x c).filter (about scope.sessionId id) =
      if c.id = id then plannedComment scope x c else [] := by
  split_ifs with same
  · rw [List.filter_eq_self]
    intro event member
    obtain ⟨session, named, -⟩ := plannedComment_carries scope x c event member
    simp [about, session, named, same]
  · rw [List.filter_eq_nil_iff]
    intro event member
    obtain ⟨-, named, -⟩ := plannedComment_carries scope x c event member
    simp [about, named, same]

/-- The events about a comment are those its own entry in the session asks for. -/
theorem about_comments (comments : List Observed) (once : (comments.map (·.id)).Nodup) (id : Str) :
    (comments.flatMap (plannedComment scope x)).filter (about scope.sessionId id) =
      ((comments.find? fun c => c.id = id).map (plannedComment scope x)).getD [] := by
  induction comments with
  | nil => rfl
  | cons c comments ih =>
    obtain ⟨apart, once'⟩ := List.nodup_cons.1 once
    rw [List.flatMap_cons, List.filter_append, about_comment, ih once']
    by_cases same : c.id = id
    · have absent : (comments.find? fun c => c.id = id) = none := by
        rw [List.find?_eq_none]
        intro other listed
        rw [decide_eq_true_eq]
        intro equal
        exact apart (List.mem_map.2 ⟨other, listed, equal.trans same.symm⟩)
      rw [if_pos same, absent, List.find?_cons_of_pos (by simpa using same)]
      simp
    · rw [if_neg same, List.find?_cons_of_neg (by simpa using same), List.nil_append]

theorem mem_goneComments (id : Str) : id ∈ (goneComments scope x).keys ↔
    id ∉ x.comments.map (·.id) ∧
      ((∃ facts, x.journal.facts scope.sessionId id = some facts ∧ facts.2.2 = false) ∨
        (x.journal.facts scope.sessionId id = none ∧ (x.ledger.byComment.get id).isSome)) := by
  unfold goneComments
  dsimp only
  rw [SortedMap.mem_keys_foldl (fun id => id) (fun _ => none),
    SortedMap.mem_keys_foldl (fun entry : (Str ×ₗ Str) × CommentState => (ofLex entry.1).2)
      (fun entry => entry.2.last)]
  simp only [List.mem_filter, Bool.and_eq_true, decide_eq_true_eq, Bool.not_eq_true',
    Option.isNone_iff_eq_none, exists_eq_right, Journal.facts, Option.map_eq_some_iff,
    Option.map_eq_none_iff, SortedMap.mem_keys, SortedMap.get_empty, Option.isSome_none,
    Bool.false_eq_true, false_or]
  constructor
  · rintro (⟨entry, ⟨member, ⟨session, live⟩, absent⟩, rfl⟩ | ⟨exported, unknown, absent⟩)
    · refine ⟨absent, .inl ⟨_, ⟨entry.2, ?_, rfl⟩, live⟩⟩
      rw [SortedMap.get_eq_some, ← session]
      exact member
    · exact ⟨absent, .inr ⟨unknown, exported⟩⟩
  · rintro ⟨absent, ⟨facts, ⟨state, known, rfl⟩, live⟩ | ⟨unknown, exported⟩⟩
    · exact .inl ⟨_, ⟨(SortedMap.get_eq_some _ _ _).1 known, ⟨rfl, live⟩, absent⟩, rfl⟩
    · exact .inr ⟨exported, unknown, absent⟩

end Comments

theorem foldl_facts (events : List DecisionEvent) (first : Option Facts) (good : Facts → Prop)
    (each : ∀ event ∈ events, ∀ old, good (factsNext old event)) :
    (events = [] ∧
      events.foldl (fun old event => some (factsNext old event)) first = first) ∨
    ∃ facts, events.foldl (fun old event => some (factsNext old event)) first = some facts ∧
      good facts := by
  rcases List.eq_nil_or_concat events with rfl | ⟨front, last, rfl⟩
  · exact .inl ⟨rfl, rfl⟩
  · rw [List.concat_eq_append] at each ⊢
    refine .inr ⟨_, List.foldl_append .., ?_⟩
    exact each last (List.mem_append_right _ (List.mem_singleton_self _)) _

theorem foldl_mark (events : List DecisionEvent) (first : Option Mark) :
    (events = [] ∧ events.foldl (fun _ event => some event.mark) first = first) ∨
    ∃ event ∈ events, events.foldl (fun _ event => some event.mark) first = some event.mark := by
  rcases List.eq_nil_or_concat events with rfl | ⟨front, last, rfl⟩
  · exact .inl ⟨rfl, rfl⟩
  · rw [List.concat_eq_append]
    exact .inr ⟨last, List.mem_append_right _ (List.mem_singleton_self _), List.foldl_append ..⟩

section Plan
variable (world : World) (scope : Scope) (x : Inputs)

theorem planned_about (once : (x.comments.map (·.id)).Nodup) (id : Str) :
    (planned scope x).filter (about scope.sessionId id) =
      ((((x.comments.find? fun c => c.id = id).map (plannedComment scope x)).getD []) ++
        ((goneComments scope x).entries.filter fun entry => entry.1 = id).map
          (tombstone scope x)).map DecisionEvent.core := by
  have cores : (about scope.sessionId id ∘ DecisionEvent.core) = about scope.sessionId id := rfl
  have marks : ((x.files.entries.filter (x.differs scope.sessionId)).map
      (x.fileMark scope)).filter (about scope.sessionId id) = [] := by
    rw [List.filter_eq_nil_iff]
    intro event member
    obtain ⟨entry, -, rfl⟩ := List.mem_map.1 member
    simp [about, Inputs.fileMark, fileMark, Scope.blank]
  have tombs : (about scope.sessionId id ∘ tombstone scope x) =
      fun entry : Str × Option Str => decide (entry.1 = id) := by
    funext entry
    simp [about, tombstone, Scope.blank]
  rw [planned, List.filter_map, cores, List.filter_append, List.filter_append, marks,
    about_comments scope x x.comments once, List.filter_map, tombs, List.append_nil]

theorem comment_mirrors (once : (x.comments.map (·.id)).Nodup) (p : Planner)
    (accepted : plan world scope x = .ok p) (id : Str) :
    standing x.ledger (p.events.foldl (Journal.record world) x.journal) scope.sessionId id =
      (x.comments.find? fun c => c.id = id).map fun c => (c.sha256, c.lifecycle) := by
  have cores := pushes_cores world _ _ _ (plan_pushes world scope x p accepted)
  rw [Planner.first, List.map_nil, List.nil_append] at cores
  rw [standing, facts_foldl, cores, planned_about scope x once]
  cases search : x.comments.find? fun c => c.id = id with
  | some c =>
    have named : c.id = id := by simpa using List.find?_some search
    have present : id ∈ x.comments.map (·.id) :=
      List.mem_map.2 ⟨c, List.mem_of_find?_eq_some search, named⟩
    have kept : ((goneComments scope x).entries.filter fun entry => entry.1 = id) = [] := by
      rw [List.filter_eq_nil_iff]
      intro entry member
      rw [decide_eq_true_eq]
      rintro rfl
      exact ((mem_goneComments scope x entry.1).1 (List.mem_map_of_mem member)).1 present
    rw [kept, List.map_nil, List.append_nil, Option.map_some, Option.getD_some, Option.map_some]
    rcases foldl_facts ((plannedComment scope x c).map DecisionEvent.core)
      (x.journal.facts scope.sessionId id) (· = (c.sha256, c.lifecycle, false)) (by
        intro event member old
        obtain ⟨event, listed, rfl⟩ := List.mem_map.1 member
        exact (plannedComment_carries scope x c event listed).2.2 old) with
      ⟨missing, same⟩ | ⟨facts, last, rfl⟩
    · have stands := (plannedComment_nil scope x c).1 (List.map_eq_nil_iff.1 missing)
      rw [same, ← named, ← prior_facts, stands]
      rfl
    · rw [last]
      rfl
  | none =>
    have absent : id ∉ x.comments.map (·.id) := by
      intro member
      obtain ⟨c, listed, named⟩ := List.mem_map.1 member
      exact List.find?_eq_none.1 search c listed (by simpa using named)
    rw [Option.map_none, Option.getD_none, List.nil_append, Option.map_none]
    rcases foldl_facts ((((goneComments scope x).entries.filter fun entry => entry.1 = id).map
      (tombstone scope x)).map DecisionEvent.core) (x.journal.facts scope.sessionId id)
      (fun facts => facts.2.2 = true) (by
        intro event member old
        obtain ⟨event, listed, rfl⟩ := List.mem_map.1 member
        obtain ⟨entry, -, rfl⟩ := List.mem_map.1 listed
        rfl) with ⟨missing, same⟩ | ⟨facts, last, gone⟩
    · have kept : id ∉ (goneComments scope x).keys := by
        intro member
        obtain ⟨entry, listed, rfl⟩ := List.mem_map.1 member
        have filtered := List.filter_eq_nil_iff.1
          (List.map_eq_nil_iff.1 (List.map_eq_nil_iff.1 missing)) entry listed
        simp at filtered
      rw [mem_goneComments, not_and_or, not_or] at kept
      obtain ⟨live, unknown⟩ := kept.resolve_left (not_not.2 absent)
      rw [same]
      cases known : x.journal.facts scope.sessionId id with
      | none =>
        rw [known] at unknown
        cases exported : x.ledger.byComment.get id with
        | none => rfl
        | some entry => simp [exported] at unknown
      | some facts =>
        cases dead : facts.2.2 with
        | false => exact absurd ⟨facts, known, dead⟩ live
        | true => simp [dead]
    · rw [last]
      simp [gone]

theorem planned_marked (path : Str) :
    (planned scope x).filter (marked scope.sessionId path) =
      (((x.files.entries.filter (x.differs scope.sessionId)).filter fun entry =>
        entry.1 = path).map (x.fileMark scope)).map DecisionEvent.core := by
  have cores : (marked scope.sessionId path ∘ DecisionEvent.core) =
      marked scope.sessionId path := rfl
  have comments : (x.comments.flatMap (plannedComment scope x)).filter
      (marked scope.sessionId path) = [] := by
    rw [List.filter_eq_nil_iff]
    intro event member
    obtain ⟨c, -, listed⟩ := List.mem_flatMap.1 member
    obtain ⟨-, named, -⟩ := plannedComment_carries scope x c event listed
    simp [marked, DecisionEvent.marks, named]
  have tombs : ((goneComments scope x).entries.map (tombstone scope x)).filter
      (marked scope.sessionId path) = [] := by
    rw [List.filter_eq_nil_iff]
    intro event member
    obtain ⟨entry, -, rfl⟩ := List.mem_map.1 member
    simp [marked, DecisionEvent.marks, tombstone]
  have files : (marked scope.sessionId path ∘ x.fileMark scope) =
      fun entry : Str × RawFile => decide (entry.1 = path) := by
    funext entry
    simp [marked, DecisionEvent.marks, Inputs.fileMark, fileMark, Scope.blank, Anchor.path]
  rw [planned, List.filter_map, cores, List.filter_append, List.filter_append, comments, tombs,
    List.filter_map, files, List.nil_append, List.nil_append]

theorem priorFile_mark (sessionId path : Str) :
    ((x.priorFile sessionId path).reviewed, (x.priorFile sessionId path).hunks) =
      (x.journal.mark sessionId path).getD unmarked := by
  simp only [Inputs.priorFile, Journal.mark]
  cases x.journal.files.get (toLex (sessionId, path)) <;> rfl

theorem file_mirrors (p : Planner) (accepted : plan world scope x = .ok p) (path : Str) :
    ((p.events.foldl (Journal.record world) x.journal).mark scope.sessionId path).getD unmarked =
      ((x.files.get path).map RawFile.mark).getD
        ((x.journal.mark scope.sessionId path).getD unmarked) := by
  have cores := pushes_cores world _ _ _ (plan_pushes world scope x p accepted)
  rw [Planner.first, List.map_nil, List.nil_append] at cores
  rw [mark_foldl, cores, planned_marked]
  have entry_of (entry : Str × RawFile) (member : entry ∈ x.files.entries)
      (named : entry.1 = path) : x.files.get path = some entry.2 := by
    rw [SortedMap.get_eq_some, ← named]
    exact member
  rcases foldl_mark ((((x.files.entries.filter (x.differs scope.sessionId)).filter fun entry =>
    entry.1 = path).map (x.fileMark scope)).map DecisionEvent.core)
    (x.journal.mark scope.sessionId path) with ⟨absent, same⟩ | ⟨event, member, same⟩
  · rw [same]
    cases listed : x.files.get path with
    | none => rfl
    | some file =>
      have entry := (SortedMap.get_eq_some _ _ _).1 listed
      have agrees : x.differs scope.sessionId (path, file) = false := by
        by_contra differs
        have kept := List.filter_eq_nil_iff.1
          (List.map_eq_nil_iff.1 (List.map_eq_nil_iff.1 absent)) (path, file)
          (List.mem_filter.2 ⟨entry, Bool.not_eq_false _ ▸ differs⟩)
        simp at kept
      simp only [Inputs.differs, Bool.not_eq_false', Bool.and_eq_true, decide_eq_true_eq] at agrees
      rw [← priorFile_mark, agrees.1, agrees.2]
      rfl
  · rw [same]
    obtain ⟨event, listed, rfl⟩ := List.mem_map.1 member
    obtain ⟨entry, kept, rfl⟩ := List.mem_map.1 listed
    obtain ⟨within, named⟩ := List.mem_filter.1 kept
    rw [decide_eq_true_eq] at named
    rw [entry_of entry (List.mem_filter.1 within).1 named, mark_core]
    simp [DecisionEvent.mark, Inputs.fileMark, fileMark, RawFile.mark, Finset.sort_toFinset]

/-- A session the journal mirrors plans nothing. -/
theorem planned_nil
    (comments : ∀ id, standing x.ledger x.journal scope.sessionId id =
      (x.comments.find? fun c => c.id = id).map fun c => (c.sha256, c.lifecycle))
    (once : (x.comments.map (·.id)).Nodup)
    (files : ∀ entry ∈ x.files.entries,
      (x.journal.mark scope.sessionId entry.1).getD unmarked = entry.2.mark) :
    planned scope x = [] := by
  have noComments : x.comments.flatMap (plannedComment scope x) = [] := by
    rw [List.flatMap_eq_nil_iff]
    intro c member
    have stands := comments c.id
    have found : (x.comments.find? fun other => other.id = c.id) = some c := by
      cases search : x.comments.find? fun other => other.id = c.id with
      | none => simpa using List.find?_eq_none.1 search c member
      | some other =>
        have same : other.id = c.id := by simpa using List.find?_some search
        rw [List.inj_on_of_nodup_map once (List.mem_of_find?_eq_some search) member same]
    rw [found, standing, ← prior_facts] at stands
    rw [plannedComment_nil]
    cases known : (x.prior scope.sessionId c.id).map CommentState.facts with
    | none => simp [known] at stands
    | some facts =>
      obtain ⟨digest, cycle, dead⟩ := facts
      cases dead with
      | true => simp [known] at stands
      | false => simpa [known] using stands
  have noTombs : (goneComments scope x).entries = [] := by
    rw [List.eq_nil_iff_forall_not_mem]
    intro entry member
    obtain ⟨absent, live⟩ :=
      (mem_goneComments scope x entry.1).1 (List.mem_map_of_mem member)
    have stands := comments entry.1
    have missing : (x.comments.find? fun c => c.id = entry.1) = none := by
      rw [List.find?_eq_none]
      intro c listed
      rw [decide_eq_true_eq]
      intro named
      exact absent (List.mem_map.2 ⟨c, listed, named⟩)
    rw [missing, standing] at stands
    rcases live with ⟨facts, known, alive⟩ | ⟨unknown, exported⟩
    · simp [known, alive] at stands
    · obtain ⟨e, found⟩ := Option.isSome_iff_exists.1 exported
      simp [unknown, found, LedgerEntry.state, CommentState.facts] at stands
  have noFiles : x.files.entries.filter (x.differs scope.sessionId) = [] := by
    rw [List.filter_eq_nil_iff]
    intro entry member
    have same := files entry member
    rw [← priorFile_mark] at same
    obtain ⟨flag, hunks⟩ := Prod.mk.inj same
    simp [Inputs.differs, flag, hunks]
  rw [planned, noComments, noTombs, noFiles]
  rfl

end Plan

section Import
variable (world : World) (scope : Scope) (ledger : Ledger) (raw : RawSession)
  (journaled : List DecisionEvent)

theorem verify_replays (runId : Str) (events : List DecisionEvent) (seq : Nat) (prev : Str)
    (journal last : Journal) (verified : verify world runId seq prev journal events = .ok last) :
    last = events.foldl (Journal.record world) journal := by
  induction events generalizing seq prev journal with
  | nil => exact (Except.ok.inj verified).symm
  | cons event events ih =>
    rw [verify] at verified
    split_ifs at verified
    exact ih _ _ _ verified

theorem loadJournal_replays (runId : Str) (journal : Journal)
    (loaded : loadJournal world runId journaled = .ok journal) :
    journal = replayed world journaled := by
  rw [loadJournal] at loaded
  split_ifs at loaded
  exact verify_replays world runId journaled 0 genesis .blank journal loaded

theorem importTuicr_ok (events : List DecisionEvent)
    (accepted : importTuicr world scope ledger raw journaled = .ok events) :
    ∃ comments files journal p, observedComments raw = .ok (comments, files) ∧
      loadJournal world scope.runId journaled = .ok journal ∧
      plan world scope { ledger, journal, comments, files } = .ok p ∧
      encode world journal.bytes p.events = .ok () ∧ events = p.events := by
  unfold importTuicr at accepted
  cases observed : observedComments raw with
  | error error =>
    rw [observed] at accepted
    cases accepted
  | ok result =>
    obtain ⟨comments, files⟩ := result
    rw [observed] at accepted
    cases loaded : loadJournal world scope.runId journaled with
    | error error =>
      rw [loaded] at accepted
      cases accepted
    | ok journal =>
      rw [loaded] at accepted
      cases built : plan world scope { ledger, journal, comments, files } with
      | error error =>
        simp only [bind, Except.bind] at accepted
        rw [built] at accepted
        cases accepted
      | ok p =>
        simp only [bind, Except.bind] at accepted
        rw [built] at accepted
        dsimp only at accepted
        cases fits : encode world journal.bytes p.events with
        | error error =>
          rw [fits] at accepted
          cases accepted
        | ok _ =>
          rw [fits] at accepted
          exact ⟨comments, files, journal, p, rfl, rfl, built, fits, (Except.ok.inj accepted).symm⟩

/-- After an accepted import the journal mirrors the session exactly when every file it has marked
for the session is still listed. -/
theorem import_mirrors (comments : List Observed) (files : SortedMap Str RawFile)
    (events : List DecisionEvent) (observed : observedComments raw = .ok (comments, files))
    (accepted : importTuicr world scope ledger raw journaled = .ok events) :
    Mirrors ledger comments files scope.sessionId (replayed world (journaled ++ events)) ↔
      ∀ path, files.get path = none →
        ((replayed world journaled).mark scope.sessionId path).getD unmarked = unmarked := by
  obtain ⟨comments', files', journal, p, observed', loaded, built, -, rfl⟩ :=
    importTuicr_ok world scope ledger raw journaled events accepted
  obtain ⟨rfl, rfl⟩ := Prod.mk.inj (Except.ok.inj (observed.symm.trans observed'))
  obtain rfl := loadJournal_replays world journaled scope.runId journal loaded
  have once := (observedComments_once raw comments files observed).1
  have whole : replayed world (journaled ++ p.events) =
      p.events.foldl (Journal.record world) (replayed world journaled) := List.foldl_append ..
  have marks := file_mirrors world scope _ p built
  dsimp only at marks
  rw [whole]
  constructor
  · intro mirrors path unlisted
    have same := mirrors.file path
    rw [marks, unlisted] at same
    exact same
  · intro listed
    refine ⟨comment_mirrors world scope _ once p built, ?_⟩
    intro path
    rw [marks]
    cases found : files.get path with
    | some file => rfl
    | none => exact listed path found

end Import

/-- A journal that holds one reviewed mark. -/
def sampleScope : Scope :=
  ⟨"r1".toList, "s1".toList, "working_tree".toList, List.replicate 40 'a', "working_tree".toList⟩

def sampleHash : Str :=
  "ea095e78a842fdbfa973ae5c71ae037596c114a7fbea99b87a072eede746b337".toList

def sampleMark : DecisionEvent :=
  { sampleScope.blank .fileReview unrecorded with
    prev := genesis, anchor := some (.file "a.txt".toList), contentHash := some 7
    reviewed := some true, reviewedHunks := some [], hash := sampleHash }

/-- The hash and the size are those of the mark's own line. -/
def sampleWorld : World :=
  ⟨fun _ => 714, fun _ => sampleHash, fun _ => true, fun _ => .ok none, fun _ => .error []⟩

def sampleLedger : Ledger := ⟨SortedMap.empty⟩

/-- A session that no longer lists the file. -/
def emptySession : RawSession := ⟨[], SortedMap.empty⟩

theorem emptySession_import :
    importTuicr sampleWorld sampleScope sampleLedger emptySession [sampleMark] = .ok [] := by
  rfl

/-- The mark of a file the session no longer lists stays in the journal. -/
theorem vanished_mark_stays :
    importTuicr sampleWorld sampleScope sampleLedger emptySession [sampleMark] = .ok [] ∧
      ¬ Mirrors sampleLedger [] SortedMap.empty sampleScope.sessionId
        (replayed sampleWorld ([sampleMark] ++ [])) := by
  refine ⟨emptySession_import, ?_⟩
  intro mirrors
  have flag := congrArg Prod.fst (mirrors.file "a.txt".toList)
  exact absurd flag (by decide)

def watchedFile : RawFile := ⟨true, [], SortedMap.empty, {"h1".toList}, some 7⟩

/-- A session with a comment, and with a file whose hunk was marked since. -/
def watchedSession : RawSession :=
  ⟨[⟨"c1".toList, ['x'], none, ['a'], some .submitted, none, none⟩],
    SortedMap.empty.insert "a.txt".toList watchedFile⟩

def watchedNote : Observed :=
  ⟨"c1".toList, ['x'], sha256Hex (Utf8.encode ['x']), none, ['a'], .submitted, .review, none⟩

def watchedAdded : DecisionEvent :=
  { sampleScope.comment .commentAdded unrecorded watchedNote false with
    seq := 1, prev := sampleHash, actor := ⟨['a'], .tuicrAuthor⟩
    hash := "cd5a7b8afceb65037d0dd1d3db9b09587ed4e25015da87c0c7c7400012f91374".toList }

def watchedMark : DecisionEvent :=
  { fileMark sampleScope ⟨some sampleHash, true, ∅, some 7⟩ "a.txt".toList watchedFile with
    seq := 2, prev := watchedAdded.hash
    hash := "0ee6556187fe33add04fb13915087d1ff6fe561537622ca3b70c6584607d97a7".toList }

def watchedWorld : World where
  size event := if event.seq = 0 then 714 else if event.seq = 1 then 769 else 780
  sha event := if event.seq = 0 then sampleHash else if event.seq = 1 then watchedAdded.hash
    else watchedMark.hash
  contains _ := true
  snapshot _ := .ok none
  sessionBytes _ := .error []

theorem watchedSession_observed :
    observedComments watchedSession = .ok ([watchedNote], watchedSession.files) := by
  have file : observeFile "a.txt".toList watchedFile = .ok [] := by
    unfold observeFile
    change ([].mergeSort fun one two : Nat × List RawComment => one.1 ≤ two.1).mapM
      (fun entry => entry.2.mapM (observeLine "a.txt".toList (some 7) entry.1)) >>=
        (fun placed => Except.ok ([] ++ placed.flatten)) = _
    rw [List.mergeSort_nil]
    rfl
  unfold observedComments
  change ([("a.txt".toList, watchedFile)].mapM fun entry => observeFile entry.1 entry.2) >>= _ = _
  rw [List.mapM_cons, file]
  rfl

def watchedInputs : Inputs :=
  ⟨sampleLedger, replayed watchedWorld [sampleMark], [watchedNote], watchedSession.files⟩

theorem watched_planned : plannedComment sampleScope watchedInputs watchedNote =
    [sampleScope.comment .commentAdded ⟨['a'], .tuicrAuthor⟩ watchedNote false] := by
  have untagged : links watchedNote sampleScope.runId sampleLedger [] = [] := by
    unfold links
    exact List.mergeSort_nil
  have notes : (watchedInputs.comments.filter fun note =>
      (watchedInputs.ledger.byComment.get note.id).isSome) = [] := rfl
  have absent : watchedInputs.prior sampleScope.sessionId watchedNote.id = none := rfl
  unfold plannedComment
  dsimp only
  rw [absent, notes]
  dsimp only
  have unlinked : (if (watchedInputs.ledger.byComment.get watchedNote.id).isSome = true then []
      else links watchedNote sampleScope.runId watchedInputs.ledger []) = [] := untagged
  rw [unlinked]
  rfl

theorem watchedSession_import : importTuicr watchedWorld sampleScope sampleLedger watchedSession
    [sampleMark] = .ok [watchedAdded, watchedMark] := by
  have planned : planComments watchedWorld watchedInputs
      { scope := sampleScope, next := 1, prev := sampleHash, events := [] } =
        .ok { scope := sampleScope, next := 2, prev := watchedAdded.hash,
              events := [watchedAdded] } := by
    unfold planComments
    change Except.map _ ([watchedNote].foldlM (fun state c =>
      (plannedComment sampleScope watchedInputs c).foldlM _ state) _) = _
    rw [List.foldlM_cons, watched_planned]
    rfl
  rw [importTuicr, watchedSession_observed]
  change (do
    let p ← do
      let p ← planComments watchedWorld watchedInputs
        { scope := sampleScope, next := 1, prev := sampleHash, events := [] }
      planFiles watchedWorld watchedInputs (planTombstones watchedWorld watchedInputs p)
    encode watchedWorld (replayed watchedWorld [sampleMark]).bytes p.events
    return p.events) = _
  rw [planned]
  rfl

/-- An import of a new comment and of a file's new mark. -/
theorem import_mirrors_sample :
    Mirrors sampleLedger [watchedNote] watchedSession.files sampleScope.sessionId
        (replayed watchedWorld ([sampleMark] ++ [watchedAdded, watchedMark])) ↔
      ∀ path, watchedSession.files.get path = none →
        ((replayed watchedWorld [sampleMark]).mark sampleScope.sessionId path).getD unmarked =
          unmarked :=
  import_mirrors watchedWorld sampleScope sampleLedger watchedSession [sampleMark] [watchedNote]
    watchedSession.files [watchedAdded, watchedMark] watchedSession_observed watchedSession_import

end DeepDiffForge.Review
