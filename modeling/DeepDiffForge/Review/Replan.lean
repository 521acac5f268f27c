import DeepDiffForge.Lib.Fallible
import DeepDiffForge.Review.Reimport

/-! Planning again over a journal that holds only the first events of a batch: what is asked for is
what was asked for about the comments and files those events do not name. -/

namespace DeepDiffForge.Review
open Text DeepDiffForge.Core

def DecisionEvent.topic (event : DecisionEvent) : Option Str × Option Str :=
  (event.commentId, event.marks)

def fresh (earlier : List DecisionEvent) (event : DecisionEvent) : Bool :=
  earlier.all fun other => other.topic ≠ event.topic

def asked (scope : Scope) (x : Inputs) : List DecisionEvent :=
  x.comments.flatMap (plannedComment scope x) ++
    (goneComments scope x).entries.map (tombstone scope x) ++
    (x.files.entries.filter (x.differs scope.sessionId)).map (x.fileMark scope)

def Planner.add (world : World) (p : Planner) (event : DecisionEvent) : Planner :=
  p.push world (p.superseding event)

@[simp] theorem add_scope (world : World) (p : Planner) (event : DecisionEvent) :
    (p.add world event).scope = p.scope := rfl

theorem add_foldl_scope (world : World) (events : List DecisionEvent) (p : Planner) :
    (events.foldl (Planner.add world) p).scope = p.scope := by
  induction events generalizing p with
  | nil => rfl
  | cons event events ih => rw [List.foldl_cons, ih, add_scope]

theorem push_eq_add (world : World) (p : Planner) (event : DecisionEvent)
    (other : event.kind ≠ .lifecycle) : p.push world event = p.add world event := by
  rw [Planner.add, Planner.superseding, if_neg fun both => other both.1]

theorem topic_of_core (one two : DecisionEvent) (same : one.core = two.core) :
    one.topic = two.topic := by
  have topics : one.core.topic = two.core.topic := by rw [same]
  exact topics

section Checked
variable (world : World) (scope : Scope) (x : Inputs)

def Cleared (c : Observed) : Prop :=
  match c.anchor.path with
  | some named => checkFile world scope.revision.newSide named = .ok ()
  | none => checkScope world scope.revision.newSide x.files.keys = .ok ()

structure Checked : Prop where
  comment : ∀ c ∈ x.comments, plannedComment scope x c ≠ [] → Cleared world scope x c
  mark : ∀ entry ∈ x.files.entries, x.differs scope.sessionId entry = true →
    checkMark entry.1 (x.priorFile scope.sessionId entry.1) entry.2 = .ok () ∧
      checkFile world scope.revision.newSide entry.1 = .ok ()

def Flagged (flag : Bool) : Prop :=
  flag = true → checkScope world scope.revision.newSide x.files.keys = .ok ()

theorem checkComment_ok (c : Observed) (flag flag' : Bool) (flagged : Flagged world scope x flag)
    (accepted : checkComment world x scope.revision.newSide c flag = .ok flag') :
    Cleared world scope x c ∧ Flagged world scope x flag' := by
  unfold checkComment at accepted
  unfold Cleared
  cases anchored : c.anchor.path with
  | some named =>
    rw [anchored] at accepted
    dsimp only at accepted ⊢
    cases checked : checkFile world scope.revision.newSide named with
    | error failure =>
      rw [checked] at accepted
      cases accepted
    | ok _ =>
      rw [checked] at accepted
      obtain rfl := Except.ok.inj accepted
      exact ⟨rfl, flagged⟩
  | none =>
    rw [anchored] at accepted
    dsimp only at accepted ⊢
    split_ifs at accepted with raised
    · exact ⟨flagged raised, fun _ => flagged raised⟩
    · cases checked : checkScope world scope.revision.newSide x.files.keys with
      | error failure =>
        rw [checked] at accepted
        cases accepted
      | ok _ => exact ⟨rfl, fun _ => checked⟩

theorem checkComment_cleared (c : Observed) (flag : Bool) (cleared : Cleared world scope x c) :
    ∃ flag', checkComment world x scope.revision.newSide c flag = .ok flag' := by
  unfold checkComment
  unfold Cleared at cleared
  cases anchored : c.anchor.path with
  | some named =>
    rw [anchored] at cleared
    dsimp only at cleared ⊢
    rw [cleared]
    exact ⟨flag, rfl⟩
  | none =>
    rw [anchored] at cleared
    dsimp only at cleared ⊢
    split_ifs
    · exact ⟨true, rfl⟩
    · rw [cleared]
      exact ⟨true, rfl⟩

theorem pushComments_ok (c : Observed) (events : List DecisionEvent) (state state' : Planner × Bool)
    (own : state.1.scope = scope) (flagged : Flagged world scope x state.2)
    (accepted : events.foldlM (pushComment world x c) state = .ok state') :
    (events ≠ [] → Cleared world scope x c) ∧ Flagged world scope x state'.2 ∧
      state'.1 = events.foldl (Planner.add world) state.1 := by
  induction events generalizing state with
  | nil =>
    obtain rfl := Except.ok.inj accepted
    exact ⟨fun present => absurd rfl present, flagged, rfl⟩
  | cons event events ih =>
    rw [List.foldlM_cons] at accepted
    obtain ⟨middle, first, rest⟩ := (Fallible.bind_eq_ok _ _ _).1 accepted
    unfold pushComment at first
    rw [own] at first
    cases checked : checkComment world x scope.revision.newSide c state.2 with
    | error failure =>
      rw [checked] at first
      cases first
    | ok flag =>
      rw [checked] at first
      obtain rfl := Except.ok.inj first
      obtain ⟨cleared, flagged'⟩ := checkComment_ok world scope x c state.2 flag flagged checked
      obtain ⟨-, raised, last⟩ := ih (state.1.push world (state.1.superseding event), flag) own
        flagged' rest
      exact ⟨fun _ => cleared, raised, last⟩

theorem pushComments_cleared (c : Observed) (events : List DecisionEvent) (state : Planner × Bool)
    (own : state.1.scope = scope) (cleared : events ≠ [] → Cleared world scope x c) :
    ∃ flag, events.foldlM (pushComment world x c) state =
      .ok (events.foldl (Planner.add world) state.1, flag) := by
  induction events generalizing state with
  | nil => exact ⟨state.2, rfl⟩
  | cons event events ih =>
    have here := cleared (List.cons_ne_nil _ _)
    obtain ⟨flag, checked⟩ := checkComment_cleared world scope x c state.2 here
    have first : pushComment world x c state event = .ok (state.1.add world event, flag) := by
      rw [pushComment, own, checked]
      rfl
    obtain ⟨last, rest⟩ := ih (state.1.add world event, flag) own fun _ => here
    exact ⟨last, by rw [List.foldlM_cons, first]; exact rest⟩

theorem commentLists_ok (comments : List Observed) (state state' : Planner × Bool)
    (own : state.1.scope = scope) (flagged : Flagged world scope x state.2)
    (accepted : comments.foldlM (fun state c =>
      (plannedComment scope x c).foldlM (pushComment world x c) state) state = .ok state') :
    (∀ c ∈ comments, plannedComment scope x c ≠ [] → Cleared world scope x c) ∧
      state'.1 = (comments.flatMap (plannedComment scope x)).foldl (Planner.add world) state.1 := by
  induction comments generalizing state with
  | nil =>
    obtain rfl := Except.ok.inj accepted
    exact ⟨by simp, rfl⟩
  | cons c comments ih =>
    rw [List.foldlM_cons] at accepted
    obtain ⟨middle, first, rest⟩ := (Fallible.bind_eq_ok _ _ _).1 accepted
    obtain ⟨cleared, flagged', here⟩ :=
      pushComments_ok world scope x c _ state middle own flagged first
    have own' : middle.1.scope = scope := by rw [here, add_foldl_scope, own]
    obtain ⟨others, last⟩ := ih middle own' flagged' rest
    refine ⟨List.forall_mem_cons.2 ⟨cleared, others⟩, ?_⟩
    rw [last, here, List.flatMap_cons, List.foldl_append]

theorem commentLists_cleared (comments : List Observed) (state : Planner × Bool)
    (own : state.1.scope = scope)
    (cleared : ∀ c ∈ comments, plannedComment scope x c ≠ [] → Cleared world scope x c) :
    ∃ flag, comments.foldlM (fun state c =>
      (plannedComment scope x c).foldlM (pushComment world x c) state) state =
        .ok ((comments.flatMap (plannedComment scope x)).foldl (Planner.add world) state.1,
          flag) := by
  induction comments generalizing state with
  | nil => exact ⟨state.2, rfl⟩
  | cons c comments ih =>
    rw [List.forall_mem_cons] at cleared
    obtain ⟨flag, first⟩ := pushComments_cleared world scope x c _ state own cleared.1
    obtain ⟨last, rest⟩ := ih ((plannedComment scope x c).foldl (Planner.add world) state.1, flag)
      (by rw [add_foldl_scope, own]) cleared.2
    refine ⟨last, ?_⟩
    rw [List.foldlM_cons, first, List.flatMap_cons, List.foldl_append]
    exact rest

theorem planTombstones_add (p : Planner) (own : p.scope = scope) :
    planTombstones world x p =
      ((goneComments scope x).entries.map (tombstone scope x)).foldl (Planner.add world) p := by
  rw [planTombstones, own]
  generalize (goneComments scope x).entries = entries
  induction entries generalizing p with
  | nil => rfl
  | cons entry entries ih =>
    rw [List.map_cons, List.foldl_cons, List.foldl_cons, push_eq_add world p _ (by simp [tombstone,
      Scope.blank])]
    exact ih _ own

theorem planFile_eq_ok (p last : Planner) (entry : Str × RawFile) (own : p.scope = scope) :
    planFile world x p entry = .ok last ↔
      (x.differs scope.sessionId entry = true →
        checkMark entry.1 (x.priorFile scope.sessionId entry.1) entry.2 = .ok () ∧
          checkFile world scope.revision.newSide entry.1 = .ok ()) ∧
      last = (([entry].filter (x.differs scope.sessionId)).map (x.fileMark scope)).foldl
        (Planner.add world) p := by
  unfold planFile
  dsimp only
  rw [own]
  split_ifs with same
  · have agrees : x.differs scope.sessionId entry = false := by
      simp [Inputs.differs, same.1, same.2]
    rw [List.filter_cons_of_neg (by simp [agrees]), agrees]
    constructor
    · intro accepted
      refine ⟨?_, (Except.ok.inj accepted).symm⟩
      rintro ⟨⟩
    · rintro ⟨-, rfl⟩
      rfl
  · have differs : x.differs scope.sessionId entry = true := by
      simp only [Inputs.differs, Bool.not_eq_true', Bool.and_eq_false_iff, decide_eq_false_iff_not]
      exact not_and_or.1 same
    have added : p.push world (fileMark scope (x.priorFile scope.sessionId entry.1) entry.1 entry.2) =
        (([entry].filter (x.differs scope.sessionId)).map (x.fileMark scope)).foldl
          (Planner.add world) p := by
      rw [List.filter_cons_of_pos differs, push_eq_add world p _ (by simp [fileMark, Scope.blank])]
      rfl
    rw [← added]
    constructor
    · intro accepted
      obtain ⟨⟨⟩, fresh, accepted⟩ := (Fallible.bind_eq_ok _ _ _).1 accepted
      obtain ⟨⟨⟩, bytes, accepted⟩ := (Fallible.bind_eq_ok _ _ _).1 accepted
      exact ⟨fun _ => ⟨fresh, bytes⟩, (Except.ok.inj accepted).symm⟩
    · rintro ⟨checked, rfl⟩
      obtain ⟨fresh, bytes⟩ := checked differs
      rw [fresh, bytes]
      rfl

theorem planFiles_eq_ok (entries : List (Str × RawFile)) (p last : Planner) (own : p.scope = scope) :
    entries.foldlM (planFile world x) p = .ok last ↔
      (∀ entry ∈ entries, x.differs scope.sessionId entry = true →
        checkMark entry.1 (x.priorFile scope.sessionId entry.1) entry.2 = .ok () ∧
          checkFile world scope.revision.newSide entry.1 = .ok ()) ∧
      last = ((entries.filter (x.differs scope.sessionId)).map (x.fileMark scope)).foldl
        (Planner.add world) p := by
  induction entries generalizing p with
  | nil =>
    constructor
    · intro accepted
      exact ⟨by simp, (Except.ok.inj accepted).symm⟩
    · rintro ⟨-, rfl⟩
      rfl
  | cons entry entries ih =>
    have joined : (((entry :: entries).filter (x.differs scope.sessionId)).map
        (x.fileMark scope)).foldl (Planner.add world) p =
        ((entries.filter (x.differs scope.sessionId)).map (x.fileMark scope)).foldl
          (Planner.add world) ((([entry].filter (x.differs scope.sessionId)).map
            (x.fileMark scope)).foldl (Planner.add world) p) := by
      rw [← List.singleton_append, List.filter_append, List.map_append, List.foldl_append]
    rw [List.foldlM_cons, List.forall_mem_cons, joined]
    constructor
    · intro accepted
      obtain ⟨middle, first, rest⟩ := (Fallible.bind_eq_ok _ _ _).1 accepted
      obtain ⟨here, rfl⟩ := (planFile_eq_ok world scope x p middle entry own).1 first
      obtain ⟨others, whole⟩ := (ih _ (by rw [add_foldl_scope, own])).1 rest
      exact ⟨⟨here, others⟩, whole⟩
    · rintro ⟨⟨here, others⟩, whole⟩
      have first := (planFile_eq_ok world scope x p _ entry own).2 ⟨here, rfl⟩
      rw [first]
      exact (ih _ (by rw [add_foldl_scope, own])).2 ⟨others, whole⟩

/-- A plan is accepted when everything it checks passes, and chains what it asks for. -/
theorem plan_eq_ok (p : Planner) : plan world scope x = .ok p ↔
    Checked world scope x ∧
      p = (asked scope x).foldl (Planner.add world) (Planner.first scope x.journal) := by
  have placed (comments : List DecisionEvent) :
      (planTombstones world x (comments.foldl (Planner.add world)
        (Planner.first scope x.journal))).scope = scope := by
    rw [planTombstones_add world scope x _ (by rw [add_foldl_scope]; rfl), add_foldl_scope,
      add_foldl_scope]
    rfl
  have chained : (asked scope x).foldl (Planner.add world) (Planner.first scope x.journal) =
      ((x.files.entries.filter (x.differs scope.sessionId)).map (x.fileMark scope)).foldl
        (Planner.add world) (planTombstones world x ((x.comments.flatMap
          (plannedComment scope x)).foldl (Planner.add world)
            (Planner.first scope x.journal))) := by
    rw [planTombstones_add world scope x _ (by rw [add_foldl_scope]; rfl), asked,
      List.foldl_append, List.foldl_append]
  have steps : plan world scope x = (planComments world x (Planner.first scope x.journal)).bind
      fun middle => planFiles world x (planTombstones world x middle) := rfl
  rw [steps, chained]
  unfold planComments
  constructor
  · intro accepted
    obtain ⟨middle, first, rest⟩ := (Fallible.bind_eq_ok _ _ _).1 accepted
    cases folded : x.comments.foldlM (fun state c =>
        (plannedComment (Planner.first scope x.journal).scope x c).foldlM (pushComment world x c)
          state) (Planner.first scope x.journal, false) with
    | error failure =>
      rw [folded] at first
      cases first
    | ok state =>
      rw [folded] at first
      obtain rfl := Except.ok.inj first
      have lowered : Flagged world scope x false := fun raised => by cases raised
      obtain ⟨cleared, whole⟩ :=
        commentLists_ok world scope x x.comments _ state rfl lowered folded
      dsimp only at rest whole
      rw [whole] at rest
      obtain ⟨marks, last⟩ := (planFiles_eq_ok world scope x _ _ p (placed _)).1 rest
      exact ⟨⟨cleared, marks⟩, last⟩
  · rintro ⟨⟨cleared, marks⟩, rfl⟩
    obtain ⟨flag, folded⟩ := commentLists_cleared world scope x x.comments
      (Planner.first scope x.journal, false) rfl cleared
    refine (Fallible.bind_eq_ok _ _ _).2 ⟨_, ?_, (planFiles_eq_ok world scope x _ _ _ (placed _)).2
      ⟨marks, rfl⟩⟩
    change Except.map _ (x.comments.foldlM (fun state c =>
      (plannedComment scope x c).foldlM (pushComment world x c) state) _) = _
    rw [folded]
    rfl

end Checked

section Topics
variable (scope : Scope) (x : Inputs)

theorem topic_comment (c : Observed) (event : DecisionEvent)
    (member : event ∈ plannedComment scope x c) : event.topic = (some c.id, none) := by
  obtain ⟨-, named, -⟩ := plannedComment_carries scope x c event member
  rw [DecisionEvent.topic, DecisionEvent.marks, named, if_neg (by simp)]

theorem topic_tombstone (entry : Str × Option Str) :
    (tombstone scope x entry).topic = (some entry.1, none) := by
  simp [DecisionEvent.topic, DecisionEvent.marks, tombstone, Scope.blank]

theorem topic_mark (entry : Str × RawFile) :
    (x.fileMark scope entry).topic = (none, some entry.1) := by
  simp [DecisionEvent.topic, DecisionEvent.marks, Inputs.fileMark, fileMark, Scope.blank,
    Anchor.path]

omit scope x in
theorem fresh_comment (earlier : List DecisionEvent) (event : DecisionEvent) (id : Str)
    (topic : event.topic = (some id, none)) :
    fresh earlier event = earlier.all fun other => other.commentId ≠ some id := by
  rw [fresh, topic, Bool.eq_iff_iff, List.all_eq_true, List.all_eq_true]
  refine forall₂_congr fun other _ => ?_
  rw [decide_eq_true_eq, decide_eq_true_eq, not_iff_not, DecisionEvent.topic, Prod.mk.injEq]
  refine and_iff_left_of_imp fun named => ?_
  rw [DecisionEvent.marks, named, if_neg (by simp)]

omit scope x in
theorem fresh_mark (earlier : List DecisionEvent) (event : DecisionEvent) (path : Str)
    (topic : event.topic = (none, some path)) :
    fresh earlier event = earlier.all fun other => other.marks ≠ some path := by
  rw [fresh, topic, Bool.eq_iff_iff, List.all_eq_true, List.all_eq_true]
  refine forall₂_congr fun other _ => ?_
  rw [decide_eq_true_eq, decide_eq_true_eq, not_iff_not, DecisionEvent.topic, Prod.mk.injEq]
  refine and_iff_right_of_imp fun marks => ?_
  rw [DecisionEvent.marks] at marks
  split_ifs at marks with both
  exact both.1

theorem asked_session (event : DecisionEvent) (member : event ∈ asked scope x) :
    event.sessionId = scope.sessionId := by
  rcases List.mem_append.1 member with listed | marks
  · rcases List.mem_append.1 listed with comments | tombs
    · obtain ⟨c, -, own⟩ := List.mem_flatMap.1 comments
      exact (plannedComment_carries scope x c event own).1
    · obtain ⟨entry, -, rfl⟩ := List.mem_map.1 tombs
      rfl
  · obtain ⟨entry, -, rfl⟩ := List.mem_map.1 marks
    rfl

theorem get_goneComments (id : Str) : (goneComments scope x).get id =
    if id ∈ x.comments.map (·.id) then none
    else
      match x.journal.comments.get (toLex (scope.sessionId, id)) with
      | some state => if state.deleted then none else some state.last
      | none => if (x.ledger.byComment.get id).isSome then some none else none := by
  have listed := mem_goneComments scope x id
  rw [SortedMap.mem_keys] at listed
  simp only [Journal.facts] at listed
  by_cases present : id ∈ x.comments.map (·.id)
  · rw [if_pos present, ← Option.not_isSome_iff_eq_none, listed]
    exact fun gone => gone.1 present
  rw [if_neg present]
  clear listed
  unfold goneComments
  dsimp only
  cases known : x.journal.comments.get (toLex (scope.sessionId, id)) with
  | none =>
    dsimp only
    by_cases exported : (x.ledger.byComment.get id).isSome
    · rw [if_pos exported]
      refine SortedMap.get_foldl_present (fun id => id) (fun _ => none) _ _ id ?_ (by simp)
      rw [List.mem_filter, SortedMap.mem_keys]
      simp [exported, known, present]
    · rw [if_neg exported, SortedMap.get_foldl_absent (fun id => id) (fun _ => none),
        SortedMap.get_foldl_absent (fun entry : (Str ×ₗ Str) × CommentState => (ofLex entry.1).2)
          (fun entry => entry.2.last)]
      · rfl
      · rintro ⟨key, state⟩ member rfl
        simp only [List.mem_filter, Bool.and_eq_true, decide_eq_true_eq] at member
        obtain ⟨entry, ⟨session, -⟩, -⟩ := member
        rw [← SortedMap.get_eq_some] at entry
        rw [← session] at known
        exact absurd (known.symm.trans entry) (by simp)
      · rintro other member rfl
        rw [List.mem_filter, SortedMap.mem_keys] at member
        exact exported member.1
  | some state =>
    rw [SortedMap.get_foldl_absent (fun id => id) (fun _ => none)]
    · have entry := (SortedMap.get_eq_some _ _ _).1 known
      dsimp only
      split_ifs with dead
      · rw [SortedMap.get_foldl_absent
          (fun entry : (Str ×ₗ Str) × CommentState => (ofLex entry.1).2) (fun entry => entry.2.last)]
        · rfl
        · rintro ⟨key, other⟩ member rfl
          simp only [List.mem_filter, Bool.and_eq_true, decide_eq_true_eq] at member
          obtain ⟨own, ⟨session, live⟩, -⟩ := member
          rw [← SortedMap.get_eq_some] at own
          rw [← session] at known
          obtain rfl := Option.some.inj (own.symm.trans known)
          simp [dead] at live
      · have member : (toLex (scope.sessionId, id), state) ∈
            x.journal.comments.entries.filter fun entry =>
              (ofLex entry.1).1 = scope.sessionId && !entry.2.deleted &&
                (ofLex entry.1).2 ∉ x.comments.map (·.id) := by
          rw [List.mem_filter]
          simp only [ofLex_toLex, Bool.and_eq_true, decide_eq_true_eq]
          exact ⟨entry, ⟨trivial, by simp [dead]⟩, decide_eq_true present⟩
        refine SortedMap.get_foldl_present
          (fun entry : (Str ×ₗ Str) × CommentState => (ofLex entry.1).2) (fun entry => entry.2.last)
          _ _ _ member ?_
        rintro ⟨key, other⟩ own same
        simp only [List.mem_filter, Bool.and_eq_true, decide_eq_true_eq, ofLex_toLex] at own same
        obtain ⟨listed', ⟨session, -⟩, -⟩ := own
        have key' : key = toLex (scope.sessionId, id) := by
          rw [← session, ← same]
          rfl
        rw [key', ← SortedMap.get_eq_some] at listed'
        rw [Option.some.inj (known.symm.trans listed')]
    · rintro other member rfl
      rw [List.mem_filter] at member
      simp [known] at member

end Topics

end DeepDiffForge.Review
