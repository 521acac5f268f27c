import DeepDiffForge.Review.Mirror

/-! The events of an import extend the verified journal, and importing the same session over the
longer journal plans nothing. -/

namespace DeepDiffForge.Review
open Text DeepDiffForge.Core

def lastHash (prev : Str) (events : List DecisionEvent) : Str :=
  (events.getLast?.map (·.hash)).getD prev

section Chain
variable (world : World) (runId : Str)

theorem verify_append (first second : List DecisionEvent) (seq : Nat) (prev : Str)
    (journal : Journal) :
    verify world runId seq prev journal (first ++ second) =
      (verify world runId seq prev journal first).bind fun middle =>
        verify world runId (seq + first.length) (lastHash prev first) middle second := by
  induction first generalizing seq prev journal with
  | nil => rfl
  | cons event first ih =>
    rw [List.cons_append, verify, verify]
    split_ifs with chained
    · have last : lastHash event.hash first = lastHash prev (event :: first) := by
        rw [lastHash, lastHash, List.getLast?_cons]
        cases first.getLast? <;> rfl
      rw [ih, List.length_cons, last, Nat.add_assoc, Nat.add_comm 1]
    · rfl

def Continues (seq : Nat) (prev : Str) (p : Planner) : Prop :=
  p.next = seq + p.events.length ∧ p.prev = lastHash prev p.events ∧
    ∀ journal, verify world runId seq prev journal p.events =
      .ok (p.events.foldl (Journal.record world) journal)

theorem push_continues (seq : Nat) (prev : Str) (p : Planner) (event : DecisionEvent)
    (schema : event.schema = eventSchema) (run : event.runId = runId)
    (continues : Continues world runId seq prev p) :
    Continues world runId seq prev (p.push world event) := by
  obtain ⟨next, last, verified⟩ := continues
  refine ⟨?_, ?_, ?_⟩
  · rw [Planner.push, List.length_append, next]
    rfl
  · simp [Planner.push, lastHash]
  · intro journal
    rw [Planner.push, verify_append, verified journal, List.foldl_append, ← next, ← last]
    dsimp only [Except.bind]
    rw [verify, if_pos ⟨schema, rfl, rfl, run, rfl⟩]
    rfl

theorem pushes_continues (seq : Nat) (prev : Str) (p last : Planner) (cores : List DecisionEvent)
    (pushed : Pushes world p cores last)
    (named : ∀ event ∈ cores, event.schema = eventSchema ∧ event.runId = runId)
    (continues : Continues world runId seq prev p) : Continues world runId seq prev last := by
  induction pushed with
  | done => exact continues
  | push p last event cores rest ih =>
    obtain ⟨schema, run⟩ := named event.core (List.mem_cons_self ..)
    refine ih (fun other member => named other (List.mem_cons_of_mem _ member)) ?_
    exact push_continues world runId seq prev p event schema run continues

theorem plannedComment_named (scope : Scope) (x : Inputs) (c : Observed) (event : DecisionEvent)
    (member : event ∈ plannedComment scope x c) :
    event.schema = eventSchema ∧ event.runId = scope.runId ∧ event.revision = scope.revision := by
  unfold plannedComment at member
  dsimp only at member
  cases prior : x.prior scope.sessionId c.id with
  | none =>
    rw [prior] at member
    rw [List.mem_singleton.1 member]
    exact ⟨rfl, rfl, rfl⟩
  | some state =>
    rw [prior] at member
    dsimp only at member
    split_ifs at member <;> simp only [List.mem_append, List.mem_singleton, List.append_nil,
      List.nil_append, List.not_mem_nil] at member
    all_goals
      first
        | (obtain rfl := member; exact ⟨rfl, rfl, rfl⟩)
        | (rcases member with rfl | rfl <;> exact ⟨rfl, rfl, rfl⟩)

theorem planned_named (scope : Scope) (x : Inputs) (event : DecisionEvent)
    (member : event ∈ planned scope x) :
    event.schema = eventSchema ∧ event.runId = scope.runId ∧ event.revision = scope.revision := by
  obtain ⟨event, listed, rfl⟩ := List.mem_map.1 member
  rcases List.mem_append.1 listed with listed | marks
  · rcases List.mem_append.1 listed with comments | tombs
    · obtain ⟨c, -, planned⟩ := List.mem_flatMap.1 comments
      exact plannedComment_named scope x c event planned
    · obtain ⟨entry, -, rfl⟩ := List.mem_map.1 tombs
      exact ⟨rfl, rfl, rfl⟩
  · obtain ⟨entry, -, rfl⟩ := List.mem_map.1 marks
    exact ⟨rfl, rfl, rfl⟩

theorem verify_head (events : List DecisionEvent) (seq : Nat) (prev : Str) (journal last : Journal)
    (head : journal.head = (seq, prev))
    (verified : verify world runId seq prev journal events = .ok last) :
    last.head = (seq + events.length, lastHash prev events) := by
  induction events generalizing seq prev journal with
  | nil =>
    obtain rfl := Except.ok.inj verified
    exact head
  | cons event events ih =>
    rw [verify] at verified
    split_ifs at verified with chained
    have after : (journal.record world event).head = (seq + 1, event.hash) := by
      simp [Journal.head, Journal.record, chained.2.1]
    have hash : lastHash event.hash events = lastHash prev (event :: events) := by
      rw [lastHash, lastHash, List.getLast?_cons]
      cases events.getLast? <;> rfl
    rw [ih (seq + 1) event.hash _ after verified, hash, List.length_cons, Nat.add_assoc,
      Nat.add_comm 1]

theorem foldl_record_bytes (events : List DecisionEvent) (journal : Journal) :
    (events.foldl (Journal.record world) journal).bytes =
      journal.bytes + events.foldr (fun event sum => world.size event + 1 + sum) 0 := by
  induction events generalizing journal with
  | nil => rfl
  | cons event events ih =>
    rw [List.foldl_cons, ih]
    simp only [Journal.record, List.foldr_cons]
    omega

theorem size_append (first second : List DecisionEvent) :
    (first ++ second).foldr (fun event sum => world.size event + 1 + sum) 0 =
      first.foldr (fun event sum => world.size event + 1 + sum) 0 +
        second.foldr (fun event sum => world.size event + 1 + sum) 0 := by
  induction first with
  | nil => simp
  | cons event first ih =>
    simp only [List.cons_append, List.foldr_cons, ih]
    omega

theorem loadJournal_extends (scope : Scope) (x : Inputs) (journaled : List DecisionEvent)
    (p : Planner) (loaded : loadJournal world scope.runId journaled = .ok x.journal)
    (built : plan world scope x = .ok p)
    (fits : encode world x.journal.bytes p.events = .ok ()) :
    loadJournal world scope.runId (journaled ++ p.events) =
      .ok (p.events.foldl (Journal.record world) x.journal) := by
  have replays := loadJournal_replays world journaled scope.runId x.journal loaded
  rw [loadJournal] at loaded ⊢
  split_ifs at loaded with heavy
  have bytes : x.journal.bytes =
      journaled.foldr (fun event sum => world.size event + 1 + sum) 0 := by
    rw [replays, replayed, foldl_record_bytes]
    exact Nat.zero_add _
  have light : ¬ journalCap < x.journal.bytes +
      p.events.foldr (fun event sum => world.size event + 1 + sum) 0 := by
    intro large
    rw [encode] at fits
    rw [if_pos large] at fits
    cases fits
  have head := verify_head world scope.runId journaled 0 genesis .blank x.journal rfl loaded
  have start : Continues world scope.runId (0 + journaled.length) (lastHash genesis journaled)
      (Planner.first scope x.journal) := by
    refine ⟨?_, ?_, fun _ => rfl⟩
    · rw [Planner.first, head]
      rfl
    · rw [Planner.first, head]
      rfl
  have continues := pushes_continues world scope.runId _ _ _ p _
    (plan_pushes world scope x p built)
    (fun event member => (planned_named scope x event member).imp_right And.left) start
  rw [size_append, ← bytes, if_neg light, verify_append, loaded]
  exact continues.2.2 x.journal

end Chain

/-- With nothing to plan, planning is accepted and pushes nothing. -/
theorem plan_nil (world : World) (scope : Scope) (x : Inputs) (empty : planned scope x = []) :
    plan world scope x = .ok (Planner.first scope x.journal) := by
  rw [planned, List.map_eq_nil_iff, List.append_eq_nil_iff, List.append_eq_nil_iff,
    List.flatMap_eq_nil_iff, List.map_eq_nil_iff, List.map_eq_nil_iff,
    List.filter_eq_nil_iff] at empty
  obtain ⟨⟨comments, tombs⟩, files⟩ := empty
  have first : planComments world x (Planner.first scope x.journal) =
      .ok (Planner.first scope x.journal) := by
    have every (list : List Observed) (quiet : ∀ c ∈ list, plannedComment scope x c = [])
        (state : Planner × Bool) :
        list.foldlM (fun state c =>
          (plannedComment scope x c).foldlM (pushComment world x c) state) state = .ok state := by
      induction list with
      | nil => rfl
      | cons c list ih =>
        rw [List.foldlM_cons, quiet c (List.mem_cons_self ..)]
        exact ih fun other member => quiet other (List.mem_cons_of_mem _ member)
    rw [planComments]
    change Except.map _ (x.comments.foldlM (fun state c =>
      (plannedComment scope x c).foldlM (pushComment world x c) state) _) = _
    rw [every x.comments comments]
    rfl
  have second : planTombstones world x (Planner.first scope x.journal) =
      Planner.first scope x.journal := by
    rw [planTombstones]
    change (List.map (tombstone scope x) (goneComments scope x).entries).foldl _ _ = _
    rw [tombs]
    rfl
  have third : planFiles world x (Planner.first scope x.journal) =
      .ok (Planner.first scope x.journal) := by
    rw [planFiles]
    generalize x.files.entries = entries at files
    induction entries with
    | nil => rfl
    | cons entry entries ih =>
      have quiet := files entry (List.mem_cons_self ..)
      simp only [Inputs.differs, Bool.not_eq_true', Bool.not_eq_false, Bool.and_eq_true,
        decide_eq_true_eq] at quiet
      have here : planFile world x (Planner.first scope x.journal) entry =
          .ok (Planner.first scope x.journal) := if_pos quiet
      rw [List.foldlM_cons, here]
      exact ih fun other member => files other (List.mem_cons_of_mem _ member)
  unfold plan
  change (planComments world x (Planner.first scope x.journal)).bind
    (fun middle => planFiles world x (planTombstones world x middle)) = _
  rw [first, Except.bind, second, third]

/-- Importing an unchanged session over the journal with what was planned for it plans nothing. -/
theorem reimport_plans_nothing (world : World) (scope : Scope) (ledger : Ledger)
    (raw : RawSession) (journaled events : List DecisionEvent)
    (accepted : importTuicr world scope ledger raw journaled = .ok events) :
    importTuicr world scope ledger raw (journaled ++ events) = .ok [] := by
  obtain ⟨comments, files, journal, p, observed, loaded, built, fits, rfl⟩ :=
    importTuicr_ok world scope ledger raw journaled events accepted
  have once := (observedComments_once raw comments files observed).1
  have longer := loadJournal_extends world scope { ledger, journal, comments, files } journaled p
    loaded built fits
  have light : encode world (p.events.foldl (Journal.record world) journal).bytes [] = .ok () := by
    rw [encode]
    rw [if_neg]
    intro large
    rw [foldl_record_bytes, List.foldr_nil, Nat.add_zero] at large
    rw [encode] at fits
    rw [if_pos large] at fits
    cases fits
  have quiet : planned scope
      { ledger, journal := p.events.foldl (Journal.record world) journal, comments, files } = [] := by
    refine planned_nil scope _ (comment_mirrors world scope _ once p built) once ?_
    intro entry member
    have mark := file_mirrors world scope _ p built entry.1
    rw [(SortedMap.get_eq_some files entry.1 entry.2).2 member] at mark
    exact mark
  have again := plan_nil world scope _ quiet
  unfold importTuicr
  rw [observed]
  simp only [bind, Except.bind]
  rw [longer]
  dsimp only
  rw [again]
  dsimp only [Planner.first]
  rw [light]
  rfl

/-- The second import of a session with a comment and a marked file. -/
theorem reimport_plans_nothing_sample :
    importTuicr watchedWorld sampleScope sampleLedger watchedSession
      ([sampleMark] ++ [watchedAdded, watchedMark]) = .ok [] :=
  reimport_plans_nothing watchedWorld sampleScope sampleLedger watchedSession [sampleMark]
    [watchedAdded, watchedMark] watchedSession_import

end DeepDiffForge.Review
