import DeepDiffForge.Lib.Threads
import DeepDiffForge.Review.History

/-! What a planned event supersedes: the latest event before it about the same comment or file. -/

namespace DeepDiffForge.Review
open Text Threads DeepDiffForge.Core

def DecisionEvent.subject (event : DecisionEvent) : Str × Option Str × Option Str :=
  (event.sessionId, event.topic)

abbrev Linked (earlier events : List DecisionEvent) : Prop :=
  Threaded DecisionEvent.subject DecisionEvent.hash DecisionEvent.supersedes earlier events

section Last
variable (world : World) (sessionId : Str)

omit sessionId in
theorem subject_named (id : Str) (event : DecisionEvent) (named : event.commentId = some id) :
    event.subject = (event.sessionId, some id, none) := by
  rw [DecisionEvent.subject, DecisionEvent.topic, DecisionEvent.marks, named, if_neg (by simp)]

theorem subject_about (id : Str) (event : DecisionEvent) :
    event.subject = (sessionId, some id, none) ↔ about sessionId id event = true := by
  unfold DecisionEvent.subject DecisionEvent.topic about
  rw [Bool.and_eq_true, decide_eq_true_eq, decide_eq_true_eq, Prod.mk.injEq, Prod.mk.injEq]
  refine and_congr_right fun _ => and_iff_left_of_imp fun named => ?_
  rw [DecisionEvent.marks, named, if_neg (by simp)]

theorem subject_marked (path : Str) (event : DecisionEvent) :
    event.subject = (sessionId, none, some path) ↔ marked sessionId path event = true := by
  unfold DecisionEvent.subject DecisionEvent.topic marked
  rw [Bool.and_eq_true, decide_eq_true_eq, decide_eq_true_eq, Prod.mk.injEq, Prod.mk.injEq]
  refine and_congr_right fun _ => and_iff_right_of_imp fun marks => ?_
  rw [DecisionEvent.marks] at marks
  split_ifs at marks with both
  exact both.1

theorem comment_last (events : List DecisionEvent) (id : Str) :
    ((replayed world events).comments.get (toLex (sessionId, id))).bind CommentState.last =
      latest DecisionEvent.subject DecisionEvent.hash events (sessionId, some id, none) := by
  unfold replayed
  induction events using List.reverseRecOn with
  | nil => rfl
  | append_singleton events event ih =>
    rw [List.foldl_append, List.foldl_cons, List.foldl_nil, comments_record]
    by_cases own : about sessionId id event = true
    · rw [if_pos own, ← (subject_about sessionId id event).2 own, latest_concat]
      rfl
    · rw [if_neg own, ih, latest_apart]
      intro other listed
      rwa [List.mem_singleton.1 listed, Ne, subject_about]

theorem file_last (events : List DecisionEvent) (path : Str) :
    ((replayed world events).files.get (toLex (sessionId, path))).bind FileState.last =
      latest DecisionEvent.subject DecisionEvent.hash events (sessionId, none, some path) := by
  unfold replayed
  induction events using List.reverseRecOn with
  | nil => rfl
  | append_singleton events event ih =>
    rw [List.foldl_append, List.foldl_cons, List.foldl_nil, files_record]
    by_cases own : marked sessionId path event = true
    · rw [if_pos own, ← (subject_marked sessionId path event).2 own, latest_concat]
      rfl
    · rw [if_neg own, ih, latest_apart]
      intro other listed
      rwa [List.mem_singleton.1 listed, Ne, subject_marked]

end Last

section Plan
variable (world : World) (scope : Scope) (x : Inputs) (journaled : List DecisionEvent)

structure Replays : Prop where
  comments : x.journal.comments = (replayed world journaled).comments
  files : x.journal.files = (replayed world journaled).files

/-- What is asked for about one subject names the latest event of the journal about it; a change of
state that follows a revision names none yet. -/
inductive Asks : List DecisionEvent → Prop where
  | none : Asks []
  | one (event : DecisionEvent)
      (link : event.supersedes =
        latest DecisionEvent.subject DecisionEvent.hash journaled event.subject) : Asks [event]
  | two (revision change : DecisionEvent)
      (link : revision.supersedes =
        latest DecisionEvent.subject DecisionEvent.hash journaled revision.subject)
      (same : change.subject = revision.subject) (kind : revision.kind = .revised)
      (kind' : change.kind = .lifecycle) (opened : change.supersedes = Option.none) :
      Asks [revision, change]

variable (replays : Replays world x journaled)
include replays

theorem prior_last (id : Str) :
    (x.prior scope.sessionId id).bind CommentState.last =
      latest DecisionEvent.subject DecisionEvent.hash journaled (scope.sessionId, some id, none) := by
  rw [← comment_last world scope.sessionId journaled id, ← replays.comments, Inputs.prior]
  cases x.journal.comments.get (toLex (scope.sessionId, id)) with
  | some state => rfl
  | none => cases x.ledger.byComment.get id <;> rfl

theorem plannedComment_asks (c : Observed) : Asks journaled (plannedComment scope x c) := by
  have link (event : DecisionEvent) (session : event.sessionId = scope.sessionId)
      (named : event.commentId = some c.id) :
      latest DecisionEvent.subject DecisionEvent.hash journaled event.subject =
        (x.prior scope.sessionId c.id).bind CommentState.last := by
    rw [prior_last world scope x journaled replays, subject_named c.id event named, session]
  unfold plannedComment
  dsimp only
  cases prior : x.prior scope.sessionId c.id with
  | none =>
    rw [prior] at link
    exact .one _ (link _ rfl rfl).symm
  | some state =>
    rw [prior] at link
    dsimp only
    by_cases gone : state.deleted = true
    · rw [if_pos gone]
      exact .one _ (link _ rfl rfl).symm
    · rw [if_neg gone]
      by_cases digest : state.sha256 ≠ c.sha256
      · rw [if_pos digest]
        by_cases cycle : state.lifecycle ≠ c.lifecycle
        · rw [if_pos cycle, if_pos digest]
          have same := (subject_named c.id
            { scope.comment .lifecycle (actorFor c (x.ledger.byComment.get c.id).isSome) c
                (x.ledger.byComment.get c.id).isSome with
              previousLifecycleState := some state.lifecycle, supersedes := none } rfl)
          exact .two _ _ (link _ rfl rfl).symm (same.trans (subject_named c.id _ rfl).symm) rfl rfl
            rfl
        · rw [if_neg cycle, List.append_nil]
          exact .one _ (link _ rfl rfl).symm
      · rw [if_neg digest, List.nil_append]
        by_cases cycle : state.lifecycle ≠ c.lifecycle
        · rw [if_pos cycle, if_neg digest]
          exact .one _ (link _ rfl rfl).symm
        · rw [if_neg cycle]
          exact .none

theorem tombstone_asks (entry : Str × Option Str) (listed : entry ∈ (goneComments scope x).entries) :
    Asks journaled [tombstone scope x entry] := by
  refine .one _ ?_
  have last := comment_last world scope.sessionId journaled entry.1
  rw [← replays.comments] at last
  rw [subject_named entry.1 (tombstone scope x entry) rfl]
  refine Eq.trans ?_ last
  have found := (SortedMap.get_eq_some ..).2 listed
  rw [get_goneComments] at found
  have absent : entry.1 ∉ x.comments.map (·.id) :=
    ((mem_goneComments scope x entry.1).1 (List.mem_map_of_mem listed)).1
  rw [if_neg absent] at found
  cases known : x.journal.comments.get (toLex (scope.sessionId, entry.1)) with
  | some state =>
    rw [known] at found
    dsimp only at found
    split_ifs at found
    exact (Option.some.inj found).symm
  | none =>
    rw [known] at found
    dsimp only at found
    split_ifs at found
    exact (Option.some.inj found).symm

theorem fileMark_asks (entry : Str × RawFile) : Asks journaled [x.fileMark scope entry] := by
  refine .one _ ?_
  have last := file_last world scope.sessionId journaled entry.1
  rw [← replays.files] at last
  have subject : (x.fileMark scope entry).subject = (scope.sessionId, none, some entry.1) :=
    congrArg (Prod.mk scope.sessionId) (topic_mark scope x entry)
  rw [subject, ← last]
  change (x.priorFile scope.sessionId entry.1).last = _
  rw [Inputs.priorFile]
  cases x.journal.files.get (toLex (scope.sessionId, entry.1)) <;> rfl

theorem askedGroups_asks (group : List DecisionEvent) (listed : group ∈ askedGroups scope x) :
    Asks journaled group := by
  unfold askedGroups at listed
  rcases List.mem_append.1 listed with listed | marks
  · rcases List.mem_append.1 listed with comments | gone
    · obtain ⟨c, -, rfl⟩ := List.mem_map.1 comments
      exact plannedComment_asks world scope x journaled replays c
    · obtain ⟨entry, member, rfl⟩ := List.mem_map.1 gone
      exact tombstone_asks world scope x journaled replays entry member
  · obtain ⟨entry, -, rfl⟩ := List.mem_map.1 marks
    exact fileMark_asks world scope x journaled replays entry

end Plan

section Chain
variable (world : World) (journaled : List DecisionEvent)

/-- What a chained event keeps of the one asked for. -/
theorem add_one (p : Planner) (event : DecisionEvent) :
    ∃ one, (p.add world event).events = p.events ++ [one] ∧ one.subject = event.subject ∧
      one.commentId = event.commentId ∧ one.supersedes = (p.superseding event).supersedes := by
  have core := superseding_core p event
  have session : (p.superseding event).core.sessionId = event.core.sessionId := by rw [core]
  have named : (p.superseding event).core.commentId = event.core.commentId := by rw [core]
  have subject : (p.superseding event).subject = event.subject :=
    congrArg₂ Prod.mk session (topic_of_core _ _ core)
  exact ⟨_, rfl, subject, named, rfl⟩

theorem superseding_fresh (p : Planner) (event : DecisionEvent)
    (named : event.kind = .lifecycle → event.commentId ≠ none)
    (apart : ∀ other ∈ p.events, other.topic ≠ event.topic) : p.superseding event = event := by
  unfold Planner.superseding
  split_ifs with lifecycle
  · have absent : (p.events.getLast?.filter fun last => last.commentId = event.commentId) = none := by
      rw [Option.filter_eq_none_iff]
      intro last found same
      have same := of_decide_eq_true same
      obtain ⟨id, own⟩ := Option.ne_none_iff_exists'.1 (named lifecycle.1)
      refine apart last (List.mem_of_getLast? found) ?_
      unfold DecisionEvent.topic DecisionEvent.marks
      rw [same, own, if_neg (by simp), if_neg (by simp)]
    rw [absent]
  · rfl

theorem add_group (group : List DecisionEvent) (asks : Asks journaled group) (p : Planner)
    (named : ∀ event ∈ group, event.kind = .lifecycle → event.commentId ≠ none)
    (apart : ∀ other ∈ p.events, ∀ event ∈ group, other.topic ≠ event.topic)
    (linked : Linked journaled p.events) :
    Linked journaled (group.foldl (Planner.add world) p).events := by
  have first (event : DecisionEvent) (kind : event.kind = .lifecycle → event.commentId ≠ none)
      (apart : ∀ other ∈ p.events, other.topic ≠ event.topic)
      (link : event.supersedes =
        latest DecisionEvent.subject DecisionEvent.hash journaled event.subject) :
      ∃ one, (p.add world event).events = p.events ++ [one] ∧ one.subject = event.subject ∧
        one.commentId = event.commentId ∧ Linked journaled (p.events ++ [one]) := by
    obtain ⟨one, grown, subject, commentId, supersedes⟩ := add_one world p event
    refine ⟨one, grown, subject, commentId, (threaded_append ..).2 ⟨linked, ?_, trivial⟩⟩
    rw [supersedes, superseding_fresh p event kind apart, subject, latest_apart, link]
    intro other listed same
    exact apart other listed (congrArg Prod.snd same)
  cases asks with
  | none => exact linked
  | one event link =>
    rw [List.forall_mem_singleton] at named
    obtain ⟨one, grown, -, -, held⟩ := first event named
      (fun other listed => apart other listed event (List.mem_singleton_self _)) link
    rw [List.foldl_cons, List.foldl_nil, grown]
    exact held
  | two revision change link same kind kind' opened =>
    obtain ⟨one, grown, subject, commentId, held⟩ := first revision
      (fun other => by rw [kind] at other; cases other)
      (fun other listed => apart other listed revision List.mem_cons_self) link
    obtain ⟨two, grown', subject', -, supersedes⟩ := add_one world (p.add world revision) change
    rw [List.foldl_cons, List.foldl_cons, List.foldl_nil, grown', grown]
    refine (threaded_append ..).2 ⟨held, ?_, trivial⟩
    have own : one.commentId = change.commentId := by
      rw [commentId]
      exact (congrArg (fun subject => subject.2.1) same).symm
    have last : (p.add world revision).superseding change =
        { change with supersedes := some one.hash } := by
      have kept : ((some one).filter fun last => last.commentId = change.commentId) = some one := by
        rw [Option.filter_some, if_pos (decide_eq_true own)]
      unfold Planner.superseding
      rw [if_pos ⟨kind', opened⟩, grown, List.getLast?_concat, kept]
    rw [supersedes, last, subject', same, ← subject, ← List.append_assoc]
    exact (latest_concat ..).symm

theorem add_groups (groups : List (List DecisionEvent))
    (asks : ∀ group ∈ groups, Asks journaled group)
    (named : ∀ group ∈ groups, ∀ event ∈ group, event.kind = .lifecycle → event.commentId ≠ none)
    (apart : groups.Pairwise fun one two => ∀ a ∈ one, ∀ b ∈ two, a.topic ≠ b.topic) (p : Planner)
    (fresh : ∀ other ∈ p.events, ∀ group ∈ groups, ∀ event ∈ group, other.topic ≠ event.topic)
    (linked : Linked journaled p.events) :
    Linked journaled (groups.flatten.foldl (Planner.add world) p).events := by
  induction groups generalizing p with
  | nil => exact linked
  | cons group groups ih =>
    rw [List.forall_mem_cons] at asks named
    obtain ⟨before, rest⟩ := List.pairwise_cons.1 apart
    rw [List.flatten_cons, List.foldl_append]
    refine ih asks.2 named.2 rest _ ?_ ?_
    · intro other listed later member event own
      obtain ⟨more, grown, cores⟩ := add_events world group p
      rw [grown, List.mem_append] at listed
      rcases listed with listed | listed
      · exact fresh other listed later (List.mem_cons_of_mem _ member) event own
      · have core : other.core ∈ group.map DecisionEvent.core :=
          cores ▸ List.mem_map_of_mem listed
        obtain ⟨one, asked, same⟩ := List.mem_map.1 core
        rw [← topic_of_core one other same]
        exact before later member one asked event own
    · exact add_group world journaled group asks.1 p named.1
        (fun other listed => fresh other listed group List.mem_cons_self) linked

theorem plan_linked (scope : Scope) (x : Inputs) (replays : Replays world x journaled)
    (once : (x.comments.map (·.id)).Nodup) (p : Planner) (built : plan world scope x = .ok p) :
    Linked journaled p.events := by
  obtain ⟨-, rfl⟩ := (plan_eq_ok world scope x p).1 built
  rw [← askedGroups_flatten]
  refine add_groups world journaled (askedGroups scope x)
    (askedGroups_asks world scope x journaled replays) ?_ (askedGroups_apart scope x once)
    (Planner.first scope x.journal) ?_ trivial
  · intro group listed event member kind
    refine asked_named scope x event ?_ kind
    rw [← askedGroups_flatten]
    exact List.mem_flatten.2 ⟨group, listed, member⟩
  · intro other listed
    cases listed

end Chain

section Run

theorem loadDir_replays (outside : Outside) (runId : Str) (dir : JournalDir) (journal : Journal)
    (loaded : loadDir outside runId dir = .ok journal) :
    journal.comments = (replayed outside.world journal.events).comments ∧
      journal.files = (replayed outside.world journal.events).files := by
  have read := ((loadDir_eq_ok outside runId dir journal).1 loaded).1
  rw [loadFile_getD] at read
  obtain ⟨-, text, -, -, events, -, -, rfl⟩ := (loadLines_eq_ok outside runId _ _).1 read
  have held : (replayed outside.world events).events = events := events_replayed _ events .blank
  dsimp only
  rw [held]
  exact ⟨rfl, rfl⟩

/-- Every event of a run's journal supersedes the latest before it about its own subject. -/
theorem history_linked (read : Str → Except Str DecisionEvent) (runId : Str) (dir : JournalDir)
    (events : List DecisionEvent) (history : History read runId dir events) :
    Linked [] events := by
  induction history with
  | start => trivial
  | refused dir events other scope ledger raw failure before failed ih => exact ih
  | imported dir events more outside scope ledger raw before reader own opened accepted readable ih =>
    obtain ⟨held, kept⟩ := history_kept read runId dir events before outside reader
    obtain ⟨journal, loaded, same⟩ := kept.loads
    obtain ⟨comments, files, journal', p, observed, loaded', built, -, rfl⟩ :=
      (importDir_eq_ok ..).1 accepted
    rw [own] at loaded'
    obtain rfl := Except.ok.inj (loaded.symm.trans loaded')
    obtain ⟨comments', files'⟩ := loadDir_replays outside runId dir journal loaded
    rw [same] at comments' files'
    have once := (observedComments_once raw comments files observed).1
    exact (threaded_append ..).2 ⟨ih, plan_linked outside.world events scope _ ⟨comments', files'⟩
      once p built⟩

theorem hashes_once (world : World) (runId : Str) (events : List DecisionEvent)
    (chained : ChainedFrom world runId 0 genesis events)
    (unique : ∀ a ∈ events, ∀ b ∈ events, a.digest world = b.digest world →
      a.unsealed = b.unsealed) : (events.map DecisionEvent.hash).Nodup := by
  rw [List.nodup_iff_getElem?_ne_getElem?]
  intro i j less within same
  rw [List.length_map] at within
  rw [List.getElem?_map, List.getElem?_map, List.getElem?_eq_getElem (less.trans within),
    List.getElem?_eq_getElem within] at same
  have hash := Option.some.inj same
  obtain ⟨_, first⟩ := chained_mem world runId events 0 genesis chained i _
    (List.getElem?_eq_getElem (less.trans within))
  obtain ⟨_, second⟩ := chained_mem world runId events 0 genesis chained j _
    (List.getElem?_eq_getElem within)
  have digest := (first.2.2.2.2.trans hash).trans second.2.2.2.2.symm
  have unsealed := unique _ (List.getElem_mem _) _ (List.getElem_mem _) digest
  have seq : events[i].unsealed.seq = events[j].unsealed.seq := by rw [unsealed]
  change events[i].seq = events[j].seq at seq
  rw [first.2.1, second.2.1] at seq
  omega

/-- Each event an import plans supersedes the latest before it, in the journal or in its own batch,
about the same comment or file, and none where there is none; and in a run's journal, where no
digest confuses two events, going from the last event about a subject to what each supersedes meets
all events about it, the newest first. -/
theorem supersedes_latest :
    (∀ world scope ledger raw journaled events,
      importTuicr world scope ledger raw journaled = .ok events →
      ∀ i event, events[i]? = some event → event.supersedes =
        latest DecisionEvent.subject DecisionEvent.hash (journaled ++ events.take i)
          event.subject) ∧
    ∀ read runId dir events, History read runId dir events →
      ∀ outside : Outside, outside.read = read →
      (∀ a ∈ events, ∀ b ∈ events, a.digest outside.world = b.digest outside.world →
        a.unsealed = b.unsealed) →
      ∀ which last, (thread DecisionEvent.subject events which).getLast? = some last →
        trail DecisionEvent.hash DecisionEvent.supersedes events events.length last =
          (thread DecisionEvent.subject events which).reverse := by
  refine ⟨?_, ?_⟩
  · intro world scope ledger raw journaled events accepted i event here
    obtain ⟨comments, files, journal, p, observed, loaded, built, -, rfl⟩ :=
      importTuicr_ok world scope ledger raw journaled events accepted
    obtain rfl := loadJournal_replays world journaled scope.runId journal loaded
    have once := (observedComments_once raw comments files observed).1
    exact threaded_getElem _ _ _ journaled p.events
      (plan_linked world journaled scope _ ⟨rfl, rfl⟩ once p built) i event here
  · intro read runId dir events history outside reader unique which last found
    obtain ⟨held, kept⟩ := history_kept read runId dir events history outside reader
    obtain ⟨journal, loaded, same⟩ := kept.loads
    obtain ⟨chained, -⟩ := loaded_chained outside runId dir journal loaded
    rw [same] at chained
    exact trail_thread _ _ _ events events List.prefix_rfl
      (history_linked read runId dir events history)
      (hashes_once outside.world runId events chained unique) which last found events.length
      (Nat.le_refl _)

/-- A note edited and submitted at once, and a run that saw its one note edited and then gone. -/
theorem supersedes_latest_sample :
    noteSubmitted.supersedes = latest DecisionEvent.subject DecisionEvent.hash
        ([] ++ [noteRevised, noteSubmitted].take 1) noteSubmitted.subject ∧
      trail DecisionEvent.hash DecisionEvent.supersedes [runRevised, runTombstone] 2 runTombstone =
        [runTombstone, runRevised] := by
  have accepted : importTuicr (readAll [noteRevised, noteSubmitted]).world sampleScope noteLedger
      editedSession [] = .ok [noteRevised, noteSubmitted] := editedSession_import.1
  have unique : ∀ a ∈ [runRevised, runTombstone], ∀ b ∈ [runRevised, runTombstone],
      a.digest runReader.world = b.digest runReader.world → a.unsealed = b.unsealed := by
    obtain ⟨held, kept⟩ := history_kept _ _ _ _ run_history runReader rfl
    obtain ⟨journal, loaded, same⟩ := kept.loads
    have chained := (loaded_chained _ _ _ journal loaded).1
    rw [same] at chained
    have own := chained_digest _ _ _ 0 genesis chained
    have apart : runRevised.hash ≠ runTombstone.hash := by decide +kernel
    intro a first b second equal
    rw [own a first, own b second] at equal
    rcases List.mem_pair.1 first with rfl | rfl
    · rcases List.mem_pair.1 second with rfl | rfl
      · rfl
      · exact absurd equal apart
    · rcases List.mem_pair.1 second with rfl | rfl
      · exact absurd equal.symm apart
      · rfl
  have thread : thread DecisionEvent.subject [runRevised, runTombstone] runTombstone.subject =
      [runRevised, runTombstone] := by decide +kernel
  have walked := supersedes_latest.2 _ _ _ _ run_history runReader rfl unique runTombstone.subject
    runTombstone (by rw [thread]; rfl)
  rw [thread] at walked
  exact ⟨supersedes_latest.1 _ _ _ _ _ _ accepted 1 noteSubmitted rfl, walked⟩

end Run

end DeepDiffForge.Review
