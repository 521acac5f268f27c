import DeepDiffForge.Review.Journal

/-! What replay keeps of an event, and what a plan pushes. -/

namespace DeepDiffForge.Review
open Text DeepDiffForge.Core

/-- An event without its place in the chain. -/
def DecisionEvent.core (event : DecisionEvent) : DecisionEvent :=
  { event with seq := 0, prev := [], supersedes := none, hash := [] }

def about (sessionId id : Str) (event : DecisionEvent) : Bool :=
  event.sessionId = sessionId && event.commentId = some id

def DecisionEvent.marks (event : DecisionEvent) : Option Str :=
  if event.commentId = none ∧ event.kind = .fileReview then event.anchor.bind Anchor.path else none

def marked (sessionId path : Str) (event : DecisionEvent) : Bool :=
  event.sessionId = sessionId && event.marks = some path

abbrev Facts := Str × Lifecycle × Bool

def CommentState.facts (state : CommentState) : Facts :=
  (state.sha256, state.lifecycle, state.deleted)

def factsNext (old : Option Facts) (event : DecisionEvent) : Facts :=
  (event.contentSha256.getD ((old.map (·.1)).getD []),
    event.lifecycleState.getD ((old.map (·.2.1)).getD .localDraft), event.kind = .deleted)

def Journal.facts (journal : Journal) (sessionId id : Str) : Option Facts :=
  (journal.comments.get (toLex (sessionId, id))).map CommentState.facts

abbrev Mark := Bool × Finset Str

def DecisionEvent.mark (event : DecisionEvent) : Mark :=
  (event.reviewed.getD false, (event.reviewedHunks.getD []).toFinset)

def Journal.mark (journal : Journal) (sessionId path : Str) : Option Mark :=
  (journal.files.get (toLex (sessionId, path))).map fun state => (state.reviewed, state.hunks)

theorem facts_next (old : Option CommentState) (event : DecisionEvent) :
    (CommentState.next old event).facts = factsNext (old.map CommentState.facts) event := by
  cases old <;> rfl

@[simp] theorem about_core (sessionId id : Str) (event : DecisionEvent) :
    about sessionId id event.core = about sessionId id event := rfl

@[simp] theorem marked_core (sessionId path : Str) (event : DecisionEvent) :
    marked sessionId path event.core = marked sessionId path event := rfl

theorem factsNext_core (old : Option Facts) (event : DecisionEvent) :
    factsNext old event.core = factsNext old event := rfl

theorem mark_core (event : DecisionEvent) : event.core.mark = event.mark := rfl

theorem replay_comment (journal : Journal) (event : DecisionEvent) (id : Str)
    (named : event.commentId = some id) :
    journal.replay event =
      { journal with
        comments := journal.comments.insert (toLex (event.sessionId, id))
          (CommentState.next (journal.comments.get (toLex (event.sessionId, id))) event) } := by
  unfold Journal.replay
  rw [named]

theorem replay_mark (journal : Journal) (event : DecisionEvent) (path : Str)
    (marks : event.marks = some path) :
    journal.replay event =
      { journal with
        files := journal.files.insert (toLex (event.sessionId, path))
          (FileState.next (journal.files.get (toLex (event.sessionId, path))) event) } := by
  unfold DecisionEvent.marks at marks
  split_ifs at marks with kind
  unfold Journal.replay
  rw [kind.1, kind.2, marks]

theorem replay_other (journal : Journal) (event : DecisionEvent) (unnamed : event.commentId = none)
    (unmarked : event.marks = none) : journal.replay event = journal := by
  unfold DecisionEvent.marks at unmarked
  unfold Journal.replay
  rw [unnamed]
  dsimp only
  split
  · next kind anchored =>
    rw [if_pos ⟨unnamed, kind⟩, anchored] at unmarked
    cases unmarked
  · rfl

theorem comments_record (world : World) (journal : Journal) (event : DecisionEvent)
    (sessionId id : Str) :
    (journal.record world event).comments.get (toLex (sessionId, id)) =
      if about sessionId id event then
        some (CommentState.next (journal.comments.get (toLex (sessionId, id))) event)
      else journal.comments.get (toLex (sessionId, id)) := by
  simp only [Journal.record]
  cases named : event.commentId with
  | none =>
    have same : (journal.replay event).comments = journal.comments := by
      cases marks : event.marks with
      | none => rw [replay_other journal event named marks]
      | some path => rw [replay_mark journal event path marks]
    rw [same, if_neg (by simp [about, named])]
  | some other =>
    rw [replay_comment journal event other named, SortedMap.get_insert]
    by_cases same : event.sessionId = sessionId ∧ other = id
    · obtain ⟨rfl, rfl⟩ := same
      simp [about, named]
    · have apart : toLex (event.sessionId, other) ≠ toLex (sessionId, id) := by
        intro equal
        exact same (Prod.mk.inj (toLex_inj.1 equal))
      rw [if_neg apart, if_neg]
      simpa [about, named] using same

theorem files_record (world : World) (journal : Journal) (event : DecisionEvent)
    (sessionId path : Str) :
    (journal.record world event).files.get (toLex (sessionId, path)) =
      if marked sessionId path event then
        some (FileState.next (journal.files.get (toLex (sessionId, path))) event)
      else journal.files.get (toLex (sessionId, path)) := by
  simp only [Journal.record]
  cases marks : event.marks with
  | none =>
    have same : (journal.replay event).files = journal.files := by
      cases named : event.commentId with
      | none => rw [replay_other journal event named marks]
      | some id => rw [replay_comment journal event id named]
    rw [same, if_neg (by simp [marked, marks])]
  | some other =>
    rw [replay_mark journal event other marks, SortedMap.get_insert]
    by_cases same : event.sessionId = sessionId ∧ other = path
    · obtain ⟨rfl, rfl⟩ := same
      simp [marked, marks]
    · have apart : toLex (event.sessionId, other) ≠ toLex (sessionId, path) := by
        intro equal
        exact same (Prod.mk.inj (toLex_inj.1 equal))
      rw [if_neg apart, if_neg]
      simpa [marked, marks] using same

theorem facts_record (world : World) (journal : Journal) (event : DecisionEvent)
    (sessionId id : Str) :
    (journal.record world event).facts sessionId id =
      if about sessionId id event then some (factsNext (journal.facts sessionId id) event)
      else journal.facts sessionId id := by
  rw [Journal.facts, comments_record]
  split_ifs
  · rw [Option.map_some, facts_next]
    rfl
  · rfl

theorem mark_record (world : World) (journal : Journal) (event : DecisionEvent)
    (sessionId path : Str) :
    (journal.record world event).mark sessionId path =
      if marked sessionId path event then some event.mark else journal.mark sessionId path := by
  rw [Journal.mark, files_record]
  split_ifs
  · rfl
  · rfl

section Replay
variable (world : World) (sessionId : Str)

/-- Events about other comments leave one's state as it was. -/
theorem comments_apart (id : Str) (events : List DecisionEvent) (journal : Journal)
    (apart : ∀ event ∈ events, about sessionId id event = false) :
    (events.foldl (Journal.record world) journal).comments.get (toLex (sessionId, id)) =
      journal.comments.get (toLex (sessionId, id)) := by
  induction events generalizing journal with
  | nil => rfl
  | cons event events ih =>
    rw [List.forall_mem_cons] at apart
    rw [List.foldl_cons, ih _ apart.2, comments_record, apart.1]
    rfl

theorem files_apart (path : Str) (events : List DecisionEvent) (journal : Journal)
    (apart : ∀ event ∈ events, marked sessionId path event = false) :
    (events.foldl (Journal.record world) journal).files.get (toLex (sessionId, path)) =
      journal.files.get (toLex (sessionId, path)) := by
  induction events generalizing journal with
  | nil => rfl
  | cons event events ih =>
    rw [List.forall_mem_cons] at apart
    rw [List.foldl_cons, ih _ apart.2, files_record, apart.1]
    rfl

/-- Replay of a run of events, from each one's core. -/
theorem facts_foldl (id : Str) (events : List DecisionEvent) (journal : Journal) :
    (events.foldl (Journal.record world) journal).facts sessionId id =
      ((events.map DecisionEvent.core).filter (about sessionId id)).foldl
        (fun old event => some (factsNext old event)) (journal.facts sessionId id) := by
  induction events generalizing journal with
  | nil => rfl
  | cons event events ih =>
    rw [List.foldl_cons, ih, facts_record, List.map_cons, List.filter_cons, about_core]
    split_ifs with here
    · rw [List.foldl_cons, factsNext_core]
    · rfl

theorem mark_foldl (path : Str) (events : List DecisionEvent) (journal : Journal) :
    (events.foldl (Journal.record world) journal).mark sessionId path =
      ((events.map DecisionEvent.core).filter (marked sessionId path)).foldl
        (fun _ event => some event.mark) (journal.mark sessionId path) := by
  induction events generalizing journal with
  | nil => rfl
  | cons event events ih =>
    rw [List.foldl_cons, ih, mark_record, List.map_cons, List.filter_cons, marked_core]
    split_ifs with here
    · rw [List.foldl_cons, mark_core]
    · rfl

end Replay

inductive Pushes (world : World) : Planner → List DecisionEvent → Planner → Prop where
  | done (p : Planner) : Pushes world p [] p
  | push (p last : Planner) (event : DecisionEvent) (cores : List DecisionEvent)
      (rest : Pushes world (p.push world event) cores last) :
      Pushes world p (event.core :: cores) last

section Pushes
variable (world : World)

theorem pushes_append (p middle last : Planner) (first second : List DecisionEvent)
    (one : Pushes world p first middle) (two : Pushes world middle second last) :
    Pushes world p (first ++ second) last := by
  induction one with
  | done => exact two
  | push p middle event cores rest ih => exact .push p last event _ (ih two)

theorem pushes_scope (p last : Planner) (cores : List DecisionEvent)
    (pushed : Pushes world p cores last) : last.scope = p.scope := by
  induction pushed with
  | done => rfl
  | push p last event cores rest ih => exact ih

theorem pushes_cores (p last : Planner) (cores : List DecisionEvent)
    (pushed : Pushes world p cores last) :
    last.events.map DecisionEvent.core = p.events.map DecisionEvent.core ++ cores := by
  induction pushed with
  | done => exact (List.append_nil _).symm
  | push p last event cores rest ih =>
    rw [ih, Planner.push, List.map_append, List.append_assoc]
    rfl

theorem superseding_core (p : Planner) (event : DecisionEvent) :
    (p.superseding event).core = event.core := by
  unfold Planner.superseding
  split_ifs
  · split <;> rfl
  · rfl

theorem pushComment_pushes (x : Inputs) (c : Observed) (state state' : Planner × Bool)
    (event : DecisionEvent) (accepted : pushComment world x c state event = .ok state') :
    Pushes world state.1 [event.core] state'.1 := by
  unfold pushComment at accepted
  cases checked : checkComment world x state.1.scope.revision.newSide c state.2 with
  | error error =>
    rw [checked] at accepted
    cases accepted
  | ok flag =>
    rw [checked] at accepted
    obtain rfl := Except.ok.inj accepted
    rw [← superseding_core state.1 event]
    exact .push _ _ _ _ (.done _)

theorem pushComments_pushes (x : Inputs) (c : Observed) (events : List DecisionEvent)
    (state state' : Planner × Bool)
    (accepted : events.foldlM (pushComment world x c) state = .ok state') :
    Pushes world state.1 (events.map DecisionEvent.core) state'.1 := by
  induction events generalizing state with
  | nil =>
    obtain rfl := Except.ok.inj accepted
    exact .done _
  | cons event events ih =>
    rw [List.foldlM_cons] at accepted
    cases first : pushComment world x c state event with
    | error error =>
      rw [first] at accepted
      cases accepted
    | ok middle =>
      rw [first] at accepted
      exact pushes_append world _ _ _ [event.core] _
        (pushComment_pushes world x c state middle event first) (ih middle accepted)

theorem planComments_pushes (x : Inputs) (p p' : Planner)
    (accepted : planComments world x p = .ok p') :
    Pushes world p ((x.comments.flatMap (plannedComment p.scope x)).map DecisionEvent.core) p' := by
  have every (comments : List Observed) (scope : Scope) (state state' : Planner × Bool)
      (folded : comments.foldlM (fun state c =>
        (plannedComment scope x c).foldlM (pushComment world x c) state) state = .ok state') :
      Pushes world state.1 ((comments.flatMap (plannedComment scope x)).map DecisionEvent.core)
        state'.1 := by
    induction comments generalizing state with
    | nil =>
      obtain rfl := Except.ok.inj folded
      exact .done _
    | cons c comments ih =>
      rw [List.foldlM_cons] at folded
      cases first : (plannedComment scope x c).foldlM (pushComment world x c) state with
      | error error =>
        rw [first] at folded
        cases folded
      | ok middle =>
        rw [first] at folded
        rw [List.flatMap_cons, List.map_append]
        exact pushes_append world _ _ _ _ _
          (pushComments_pushes world x c _ state middle first) (ih middle folded)
  rw [planComments] at accepted
  cases folded : x.comments.foldlM (fun state c =>
      (plannedComment p.scope x c).foldlM (pushComment world x c) state) (p, false) with
  | error error =>
    rw [folded] at accepted
    cases accepted
  | ok state' =>
    rw [folded] at accepted
    obtain rfl := Except.ok.inj accepted
    exact every x.comments p.scope (p, false) state' folded

theorem planTombstones_pushes (x : Inputs) (p : Planner) :
    Pushes world p (((goneComments p.scope x).entries.map (tombstone p.scope x)).map
      DecisionEvent.core) (planTombstones world x p) := by
  rw [planTombstones]
  generalize (goneComments p.scope x).entries.map (tombstone p.scope x) = events
  induction events generalizing p with
  | nil => exact .done _
  | cons event events ih => exact .push p _ event _ (ih (p.push world event))

def Inputs.differs (x : Inputs) (sessionId : Str) (entry : Str × RawFile) : Bool :=
  !((x.priorFile sessionId entry.1).reviewed = entry.2.reviewed &&
    (x.priorFile sessionId entry.1).hunks = entry.2.reviewedHunks)

def Inputs.fileMark (x : Inputs) (scope : Scope) (entry : Str × RawFile) : DecisionEvent :=
  Review.fileMark scope (x.priorFile scope.sessionId entry.1) entry.1 entry.2

theorem planFile_pushes (x : Inputs) (p p' : Planner) (entry : Str × RawFile)
    (accepted : planFile world x p entry = .ok p') :
    Pushes world p ((([entry].filter (x.differs p.scope.sessionId)).map (x.fileMark p.scope)).map
      DecisionEvent.core) p' := by
  unfold planFile at accepted
  dsimp only at accepted
  split_ifs at accepted with same
  · obtain rfl := Except.ok.inj accepted
    have agrees : x.differs p.scope.sessionId entry = false := by
      simp [Inputs.differs, same.1, same.2]
    rw [List.filter_cons_of_neg (by simp [agrees])]
    exact .done _
  · have differs : x.differs p.scope.sessionId entry = true := by
      simp only [Inputs.differs, Bool.not_eq_true', Bool.and_eq_false_iff, decide_eq_false_iff_not]
      exact not_and_or.1 same
    rw [List.filter_cons_of_pos differs]
    cases fresh : checkMark entry.1 (x.priorFile p.scope.sessionId entry.1) entry.2 with
    | error error =>
      rw [fresh] at accepted
      cases accepted
    | ok _ =>
      rw [fresh] at accepted
      cases bytes : checkFile world p.scope.revision.newSide entry.1 with
      | error error =>
        rw [bytes] at accepted
        cases accepted
      | ok _ =>
        rw [bytes] at accepted
        obtain rfl := Except.ok.inj accepted
        exact .push _ _ _ _ (.done _)

theorem planFiles_pushes (x : Inputs) (p p' : Planner) (accepted : planFiles world x p = .ok p') :
    Pushes world p (((x.files.entries.filter (x.differs p.scope.sessionId)).map
      (x.fileMark p.scope)).map DecisionEvent.core) p' := by
  rw [planFiles] at accepted
  generalize x.files.entries = entries at accepted ⊢
  induction entries generalizing p with
  | nil =>
    obtain rfl := Except.ok.inj accepted
    exact .done _
  | cons entry entries ih =>
    rw [List.foldlM_cons] at accepted
    cases first : planFile world x p entry with
    | error error =>
      rw [first] at accepted
      cases accepted
    | ok middle =>
      rw [first] at accepted
      have here := planFile_pushes world x p middle entry first
      have rest := ih middle accepted
      rw [pushes_scope world p middle _ here] at rest
      have whole := pushes_append world _ _ _ _ _ here rest
      rwa [← List.map_append, ← List.map_append, ← List.filter_append, List.singleton_append]
        at whole

def planned (scope : Scope) (x : Inputs) : List DecisionEvent :=
  ((x.comments.flatMap (plannedComment scope x)) ++
    (goneComments scope x).entries.map (tombstone scope x) ++
    (x.files.entries.filter (x.differs scope.sessionId)).map (x.fileMark scope)).map
      DecisionEvent.core

def Planner.first (scope : Scope) (journal : Journal) : Planner :=
  { scope, next := journal.head.1, prev := journal.head.2, events := [] }

theorem plan_pushes (scope : Scope) (x : Inputs) (p : Planner)
    (accepted : plan world scope x = .ok p) :
    Pushes world (Planner.first scope x.journal) (planned scope x) p := by
  unfold plan at accepted
  change (planComments world x (Planner.first scope x.journal)).bind
    (fun middle => planFiles world x (planTombstones world x middle)) = .ok p at accepted
  cases comments : planComments world x (Planner.first scope x.journal) with
  | error error =>
    rw [comments] at accepted
    cases accepted
  | ok middle =>
    rw [comments] at accepted
    have one := planComments_pushes world x _ middle comments
    have two := planTombstones_pushes world x middle
    have three := planFiles_pushes world x _ p accepted
    rw [pushes_scope world _ _ _ two] at three
    rw [pushes_scope world _ _ _ one] at two three
    rw [planned, List.map_append, List.map_append]
    exact pushes_append world _ _ _ _ _ (pushes_append world _ _ _ _ _ one two) three

end Pushes

end DeepDiffForge.Review
