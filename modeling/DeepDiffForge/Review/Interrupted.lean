import DeepDiffForge.Review.Lines
import DeepDiffForge.Review.Replan

/-! An append that stops early: what importing the same session again tells. -/

namespace DeepDiffForge.Review
open Text Markers DeepDiffForge.Core

section Asked
variable (scope : Scope) (x : Inputs) (once : (x.comments.map (·.id)).Nodup)
include once

theorem asked_comment (c : Observed) (listed : c ∈ x.comments) (event : DecisionEvent)
    (member : event ∈ asked scope x) (named : event.commentId = some c.id) :
    event ∈ plannedComment scope x c := by
  rcases List.mem_append.1 member with own | marks
  · rcases List.mem_append.1 own with comments | tombs
    · obtain ⟨other, listed', planned⟩ := List.mem_flatMap.1 comments
      obtain ⟨-, named', -⟩ := plannedComment_carries scope x other event planned
      have same : other.id = c.id := Option.some.inj (named'.symm.trans named)
      rwa [List.inj_on_of_nodup_map once listed' listed same] at planned
    · obtain ⟨entry, gone, rfl⟩ := List.mem_map.1 tombs
      have same : entry.1 = c.id := Option.some.inj named
      obtain ⟨absent, -⟩ := (mem_goneComments scope x entry.1).1 (List.mem_map_of_mem gone)
      exact absurd (List.mem_map.2 ⟨c, listed, same.symm⟩) absent
  · obtain ⟨entry, -, rfl⟩ := List.mem_map.1 marks
    cases named

omit once in
theorem asked_gone (id : Str) (absent : id ∉ x.comments.map (·.id)) (event : DecisionEvent)
    (member : event ∈ asked scope x) (named : event.commentId = some id) :
    event.kind = .deleted := by
  rcases List.mem_append.1 member with own | marks
  · rcases List.mem_append.1 own with comments | tombs
    · obtain ⟨c, listed, planned⟩ := List.mem_flatMap.1 comments
      obtain ⟨-, named', -⟩ := plannedComment_carries scope x c event planned
      have same : c.id = id := Option.some.inj (named'.symm.trans named)
      exact absurd (List.mem_map.2 ⟨c, listed, same⟩) absent
    · obtain ⟨entry, -, rfl⟩ := List.mem_map.1 tombs
      rfl
  · obtain ⟨entry, -, rfl⟩ := List.mem_map.1 marks
    cases named

omit once in
theorem asked_mark (path : Str) (event : DecisionEvent) (member : event ∈ asked scope x)
    (marks : event.marks = some path) :
    ∃ file, (path, file) ∈ x.files.entries ∧ event = x.fileMark scope (path, file) := by
  rcases List.mem_append.1 member with own | listed
  · have unmarked : event.marks = none := by
      rcases List.mem_append.1 own with comments | tombs
      · obtain ⟨c, -, planned⟩ := List.mem_flatMap.1 comments
        exact congrArg Prod.snd (topic_comment scope x c event planned)
      · obtain ⟨entry, -, rfl⟩ := List.mem_map.1 tombs
        exact congrArg Prod.snd (topic_tombstone scope x entry)
    rw [unmarked] at marks
    cases marks
  · obtain ⟨entry, kept, rfl⟩ := List.mem_map.1 listed
    have same : entry.1 = path :=
      Option.some.inj ((congrArg Prod.snd (topic_mark scope x entry)).symm.trans marks)
    subst same
    exact ⟨entry.2, (List.mem_filter.1 kept).1, rfl⟩

end Asked

section Again
variable (world : World) (scope : Scope) (x : Inputs) (written : List DecisionEvent)
  (part : ∀ event ∈ written, ∃ one ∈ asked scope x, event.core = one.core)

def Inputs.after (x : Inputs) (world : World) (written : List DecisionEvent) : Inputs :=
  { x with journal := written.foldl (Journal.record world) x.journal }

include part

theorem written_asked (event : DecisionEvent) (listed : event ∈ written) :
    event.sessionId = scope.sessionId ∧ ∃ one ∈ asked scope x,
      one.commentId = event.commentId ∧ one.marks = event.marks ∧ event.core = one.core := by
  obtain ⟨one, member, same⟩ := part event listed
  have session := asked_session scope x one member
  refine ⟨?_, one, member, ?_, ?_, same⟩
  · exact (congrArg DecisionEvent.sessionId same).trans session
  · exact (congrArg DecisionEvent.commentId same).symm
  · exact (congrArg DecisionEvent.marks same).symm

theorem written_about (id : Str) (event : DecisionEvent) (listed : event ∈ written) :
    about scope.sessionId id event = true ↔ event.commentId = some id := by
  have session := (written_asked scope x written part event listed).1
  simp [about, session]

theorem written_marked (path : Str) (event : DecisionEvent) (listed : event ∈ written) :
    marked scope.sessionId path event = true ↔ event.marks = some path := by
  have session := (written_asked scope x written part event listed).1
  simp [marked, session]

theorem after_comment (id : Str) (apart : ∀ event ∈ written, event.commentId ≠ some id) :
    (x.after world written).journal.comments.get (toLex (scope.sessionId, id)) =
      x.journal.comments.get (toLex (scope.sessionId, id)) := by
  apply comments_apart
  intro event listed
  rw [← Bool.not_eq_true, written_about scope x written part id event listed]
  exact apart event listed

theorem after_file (path : Str) (apart : ∀ event ∈ written, event.marks ≠ some path) :
    (x.after world written).priorFile scope.sessionId path = x.priorFile scope.sessionId path := by
  rw [Inputs.priorFile, Inputs.priorFile]
  congr 1
  apply files_apart
  intro event listed
  rw [← Bool.not_eq_true, written_marked scope x written part path event listed]
  exact apart event listed

theorem after_facts (id : Str) (good : Facts → Prop) (event : DecisionEvent)
    (listed : event ∈ written) (named : event.commentId = some id)
    (each : ∀ one ∈ asked scope x, one.commentId = some id → ∀ old, good (factsNext old one)) :
    ∃ facts, (x.after world written).journal.facts scope.sessionId id = some facts ∧
      good facts := by
  rw [Inputs.after, facts_foldl]
  rcases foldl_facts ((written.map DecisionEvent.core).filter (about scope.sessionId id))
    (x.journal.facts scope.sessionId id) good (by
      intro core member old
      obtain ⟨inside, names⟩ := List.mem_filter.1 member
      obtain ⟨other, own, rfl⟩ := List.mem_map.1 inside
      obtain ⟨-, one, asks, same, -, cores⟩ := written_asked scope x written part other own
      rw [about_core, written_about scope x written part id other own] at names
      rw [cores, factsNext_core]
      exact each one asks (same.trans names) old) with ⟨absent, -⟩ | found
  · have inside : event.core ∈
        (written.map DecisionEvent.core).filter (about scope.sessionId id) := by
      refine List.mem_filter.2 ⟨List.mem_map_of_mem listed, ?_⟩
      rw [about_core, written_about scope x written part id event listed]
      exact named
    rw [absent] at inside
    cases inside
  · exact found

theorem plannedComment_after (once : (x.comments.map (·.id)).Nodup) (c : Observed)
    (listed : c ∈ x.comments) : plannedComment scope (x.after world written) c =
      (plannedComment scope x c).filter (fresh written) := by
  by_cases known : ∃ event ∈ written, event.commentId = some c.id
  · obtain ⟨event, own, named⟩ := known
    have stale : (plannedComment scope x c).filter (fresh written) = [] := by
      rw [List.filter_eq_nil_iff]
      intro planned member
      rw [fresh_comment written planned c.id (topic_comment scope x c planned member)]
      simpa using ⟨event, own, named⟩
    obtain ⟨facts, last, rfl⟩ := after_facts world scope x written part c.id
      (· = (c.sha256, c.lifecycle, false)) event own named fun one asks same old =>
        (plannedComment_carries scope x c one
          (asked_comment scope x once c listed one asks same)).2.2 old
    rw [stale, plannedComment_nil, prior_facts, last]
    rfl
  · have apart : ∀ event ∈ written, event.commentId ≠ some c.id := fun event own named =>
      known ⟨event, own, named⟩
    have kept : (plannedComment scope x c).filter (fresh written) = plannedComment scope x c := by
      rw [List.filter_eq_self]
      intro planned member
      rw [fresh_comment written planned c.id (topic_comment scope x c planned member)]
      simpa using apart
    have prior : (x.after world written).prior scope.sessionId c.id =
        x.prior scope.sessionId c.id := by
      rw [Inputs.prior, Inputs.prior, after_comment world scope x written part c.id apart]
      rfl
    rw [kept, plannedComment, plannedComment, prior]
    rfl

theorem goneComments_after : goneComments scope (x.after world written) =
    (goneComments scope x).filter fun id =>
      written.all fun event => event.commentId ≠ some id := by
  apply SortedMap.ext_get
  intro id
  rw [SortedMap.get_filter, get_goneComments, get_goneComments]
  change (if id ∈ x.comments.map (·.id) then none else _) = _
  by_cases present : id ∈ x.comments.map (·.id)
  · rw [if_pos present, if_pos present, ite_self]
  · rw [if_neg present, if_neg present]
    by_cases known : ∃ event ∈ written, event.commentId = some id
    · obtain ⟨event, own, named⟩ := known
      obtain ⟨facts, last, gone⟩ := after_facts world scope x written part id
        (fun facts => facts.2.2 = true) event own named fun one asks same old => by
          have kind := asked_gone scope x id present one asks same
          simp [factsNext, kind]
      obtain ⟨state, found, rfl⟩ := Option.map_eq_some_iff.1 last
      have dead : state.deleted = true := gone
      have stale : (written.all fun event => decide (event.commentId ≠ some id)) = false := by
        rw [List.all_eq_false]
        exact ⟨event, own, by simp [named]⟩
      rw [found, stale]
      simp [dead]
    · have apart : ∀ event ∈ written, event.commentId ≠ some id := fun event own named =>
        known ⟨event, own, named⟩
      have kept : (written.all fun event => decide (event.commentId ≠ some id)) = true := by
        simpa using apart
      rw [after_comment world scope x written part id apart, kept]
      rfl

omit part in
theorem tombstone_after (entry : Str × Option Str)
    (apart : ∀ event ∈ written, event.commentId ≠ some entry.1) :
    tombstone scope (x.after world written) entry = tombstone scope x entry := by
  have author : lastAuthor scope.sessionId entry.1 (x.after world written).journal.events =
      lastAuthor scope.sessionId entry.1 x.journal.events := by
    rw [Inputs.after, events_replayed, lastAuthor, lastAuthor, List.reverse_append,
      List.find?_append, List.find?_eq_none.2]
    · rfl
    · intro event listed
      simp [apart event (List.mem_reverse.1 listed)]
  rw [tombstone, tombstone, author]
  rfl

theorem differs_after (entry : Str × RawFile) (listed : entry ∈ x.files.entries) :
    (x.after world written).differs scope.sessionId entry =
      (x.differs scope.sessionId entry && written.all fun event => event.marks ≠ some entry.1) := by
  by_cases known : ∃ event ∈ written, event.marks = some entry.1
  · obtain ⟨event, own, named⟩ := known
    have stale : (written.all fun event => decide (event.marks ≠ some entry.1)) = false := by
      rw [List.all_eq_false]
      exact ⟨event, own, by simp [named]⟩
    have last : (x.after world written).journal.mark scope.sessionId entry.1 =
        some entry.2.mark := by
      rw [Inputs.after, mark_foldl]
      rcases foldl_mark ((written.map DecisionEvent.core).filter
        (marked scope.sessionId entry.1)) (x.journal.mark scope.sessionId entry.1) with
        ⟨absent, -⟩ | ⟨core, member, same⟩
      · have inside : event.core ∈
            (written.map DecisionEvent.core).filter (marked scope.sessionId entry.1) := by
          refine List.mem_filter.2 ⟨List.mem_map_of_mem own, ?_⟩
          rw [marked_core, written_marked scope x written part entry.1 event own]
          exact named
        rw [absent] at inside
        cases inside
      · rw [same]
        obtain ⟨inside, marks⟩ := List.mem_filter.1 member
        obtain ⟨other, own', rfl⟩ := List.mem_map.1 inside
        obtain ⟨-, one, asks, -, marks', cores⟩ := written_asked scope x written part other own'
        rw [marked_core, written_marked scope x written part entry.1 other own'] at marks
        obtain ⟨file, within, rfl⟩ := asked_mark scope x entry.1 one asks (marks'.trans marks)
        have file' : file = entry.2 := by
          rw [← SortedMap.get_eq_some] at within
          have own := (SortedMap.get_eq_some x.files entry.1 entry.2).2 listed
          exact Option.some.inj (within.symm.trans own)
        rw [cores, mark_core, file']
        simp [DecisionEvent.mark, Inputs.fileMark, fileMark, RawFile.mark, Finset.sort_toFinset]
    have agrees := priorFile_mark (x.after world written) scope.sessionId entry.1
    rw [last] at agrees
    obtain ⟨flag, hunks⟩ := Prod.mk.inj agrees
    rw [stale, Bool.and_false]
    simp [Inputs.differs, flag, hunks]
  · have apart : ∀ event ∈ written, event.marks ≠ some entry.1 := fun event own named =>
      known ⟨event, own, named⟩
    have kept : (written.all fun event => decide (event.marks ≠ some entry.1)) = true := by
      simpa using apart
    rw [kept, Bool.and_true, Inputs.differs, Inputs.differs,
      after_file world scope x written part entry.1 apart]

/-- A second plan asks for what the first did about what is not yet written. -/
theorem asked_after (once : (x.comments.map (·.id)).Nodup) :
    asked scope (x.after world written) = (asked scope x).filter (fresh written) := by
  have comments : (x.after world written).comments.flatMap
      (plannedComment scope (x.after world written)) =
        (x.comments.flatMap (plannedComment scope x)).filter (fresh written) := by
    rw [List.filter_flatMap]
    apply List.flatMap_congr
    intro c listed
    exact plannedComment_after world scope x written part once c listed
  have tombs : (goneComments scope (x.after world written)).entries.map
      (tombstone scope (x.after world written)) =
        ((goneComments scope x).entries.map (tombstone scope x)).filter (fresh written) := by
    have keeps : (fresh written ∘ tombstone scope x) = fun entry : Str × Option Str =>
        written.all fun event => event.commentId ≠ some entry.1 :=
      funext fun entry => fresh_comment written _ entry.1 (topic_tombstone scope x entry)
    rw [goneComments_after world scope x written part, List.filter_map, keeps]
    apply List.map_congr_left
    intro entry member
    apply tombstone_after world scope x written entry
    have apart := (List.mem_filter.1 member).2
    simpa using apart
  have marks : ((x.after world written).files.entries.filter
      ((x.after world written).differs scope.sessionId)).map
        ((x.after world written).fileMark scope) =
        ((x.files.entries.filter (x.differs scope.sessionId)).map (x.fileMark scope)).filter
          (fresh written) := by
    have keeps : (fresh written ∘ x.fileMark scope) = fun entry : Str × RawFile =>
        written.all fun event => event.marks ≠ some entry.1 :=
      funext fun entry => fresh_mark written _ entry.1 (topic_mark scope x entry)
    have chosen : x.files.entries.filter ((x.after world written).differs scope.sessionId) =
        (x.files.entries.filter (x.differs scope.sessionId)).filter fun entry =>
          written.all fun event => event.marks ≠ some entry.1 := by
      rw [List.filter_filter]
      apply List.filter_congr
      intro entry listed
      rw [differs_after world scope x written part entry listed, Bool.and_comm]
    rw [List.filter_map, keeps, ← chosen]
    apply List.map_congr_left
    intro entry member
    change entry ∈ x.files.entries.filter _ at member
    rw [chosen] at member
    have apart := (List.mem_filter.1 member).2
    have prior := after_file world scope x written part entry.1 (by simpa using apart)
    rw [Inputs.fileMark, Inputs.fileMark, prior]
  rw [asked, asked, List.filter_append, List.filter_append, comments, tombs, marks]

/-- What a second plan checks was checked by the first. -/
theorem checked_after (once : (x.comments.map (·.id)).Nodup) (checked : Checked world scope x) :
    Checked world scope (x.after world written) := by
  constructor
  · intro c listed present
    apply checked.comment c listed
    intro absent
    rw [plannedComment_after world scope x written part once c listed, absent] at present
    exact present rfl
  · intro entry listed differs
    rw [differs_after world scope x written part entry listed, Bool.and_eq_true] at differs
    have prior := after_file world scope x written part entry.1 (by simpa using differs.2)
    rw [prior]
    exact checked.mark entry listed differs.1

end Again

section Chain
variable (world : World)

/-- Chained events are those asked for, in order, after the ones there were. -/
theorem add_events (events : List DecisionEvent) (p : Planner) :
    ∃ more, (events.foldl (Planner.add world) p).events = p.events ++ more ∧
      more.map DecisionEvent.core = events.map DecisionEvent.core := by
  induction events generalizing p with
  | nil => exact ⟨[], (List.append_nil _).symm, rfl⟩
  | cons event events ih =>
    obtain ⟨more, grown, cores⟩ := ih (p.add world event)
    have here : ∃ one, (p.add world event).events = p.events ++ [one] ∧ one.core = event.core :=
      ⟨_, rfl, superseding_core p event⟩
    obtain ⟨one, added, core⟩ := here
    refine ⟨one :: more, ?_, ?_⟩
    · rw [List.foldl_cons, grown, added, List.append_assoc]
      rfl
    · rw [List.map_cons, List.map_cons, cores, core]

theorem head_foldl (journal : Journal) (events : List DecisionEvent) (p : Planner)
    (head : (p.events.foldl (Journal.record world) journal).head = (p.next, p.prev)) :
    ((events.foldl (Planner.add world) p).events.foldl (Journal.record world) journal).head =
      ((events.foldl (Planner.add world) p).next, (events.foldl (Planner.add world) p).prev) := by
  induction events generalizing p with
  | nil => exact head
  | cons event events ih =>
    rw [List.foldl_cons]
    apply ih
    rw [Planner.add, Planner.push]
    dsimp only
    rw [List.foldl_append]
    simp [Journal.head, Journal.record]

theorem add_suffix (before events : List DecisionEvent) (p : Planner)
    (apart : p.events = [] → ∀ event ∈ events.head?, event.kind = .lifecycle →
      ∀ last ∈ before.getLast?, last.commentId ≠ event.commentId) :
    events.foldl (Planner.add world) { p with events := before ++ p.events } =
      { events.foldl (Planner.add world) p with
        events := before ++ (events.foldl (Planner.add world) p).events } := by
  induction events generalizing p with
  | nil => rfl
  | cons event events ih =>
    have same : Planner.superseding { p with events := before ++ p.events } event =
        p.superseding event := by
      rw [Planner.superseding, Planner.superseding]
      split_ifs with lifecycle
      · dsimp only
        by_cases absent : p.events = []
        · have other := apart absent event rfl lifecycle.1
          rw [absent, List.append_nil, List.getLast?_nil]
          cases last : before.getLast? with
          | none => rfl
          | some one =>
            have filtered : (some one).filter (fun last => decide (last.commentId = event.commentId))
                = none := by
              simp [other one (by rw [last]; rfl)]
            rw [filtered]
            rfl
        · rw [List.getLast?_append_of_ne_nil _ absent]
      · rfl
    have step : Planner.add world { p with events := before ++ p.events } event =
        { p.add world event with events := before ++ (p.add world event).events } := by
      rw [Planner.add, same, Planner.add, Planner.push, Planner.push]
      dsimp only
      rw [List.append_assoc]
    rw [List.foldl_cons, List.foldl_cons, step]
    apply ih
    intro absent
    simp [Planner.add, Planner.push] at absent

end Chain

section Groups
variable {α τ : Type}

theorem cut_group (topic : α → τ) (groups : List (List α))
    (apart : groups.Pairwise fun one two => ∀ a ∈ one, ∀ b ∈ two, topic a ≠ topic b) (k : Nat)
    (a b : α) (early : a ∈ groups.flatten.take k) (late : b ∈ groups.flatten.drop k)
    (same : topic a = topic b) :
    ∃ front before after back, before ++ after ∈ groups ∧ before ≠ [] ∧ after ≠ [] ∧
      groups.flatten = front ++ (before ++ after) ++ back ∧ k = front.length + before.length := by
  induction groups generalizing k with
  | nil => simp at early
  | cons group groups ih =>
    rw [List.pairwise_cons] at apart
    have far (one : α) (own : one ∈ group) (other : α) (rest : other ∈ groups.flatten) :
        topic one ≠ topic other := by
      obtain ⟨two, listed, inside⟩ := List.mem_flatten.1 rest
      exact apart.1 two listed one own other inside
    rw [List.flatten_cons] at early late ⊢
    rcases Nat.le_total k group.length with short | long
    · rw [List.take_append_of_le_length short] at early
      rw [List.drop_append_of_le_length short] at late
      rcases List.mem_append.1 late with own | rest
      · refine ⟨[], group.take k, group.drop k, groups.flatten, ?_, ?_, ?_, ?_, ?_⟩
        · simp
        · exact List.ne_nil_of_mem early
        · exact List.ne_nil_of_mem own
        · rw [List.take_append_drop]
          rfl
        · simp [short]
      · exact absurd same (far a (List.mem_of_mem_take early) b rest)
    · obtain ⟨more, rfl⟩ := Nat.exists_eq_add_of_le long
      rw [List.take_length_add_append] at early
      rw [List.drop_length_add_append] at late
      rcases List.mem_append.1 early with own | rest
      · exact absurd same (far a own b (List.mem_of_mem_drop late))
      · obtain ⟨front, before, after, back, member, present, follows, whole, length⟩ :=
          ih apart.2 more rest late
        refine ⟨group ++ front, before, after, back, List.mem_cons_of_mem _ member, present, follows,
          ?_, ?_⟩
        · rw [whole]
          simp only [List.append_assoc]
        · rw [List.length_append, length, Nat.add_assoc]

end Groups

section Torn
variable (scope : Scope) (x : Inputs)

theorem asked_named (event : DecisionEvent) (member : event ∈ asked scope x)
    (kind : event.kind = .lifecycle) : event.commentId ≠ none := by
  rcases List.mem_append.1 member with own | marks
  · rcases List.mem_append.1 own with comments | tombs
    · obtain ⟨c, -, planned⟩ := List.mem_flatMap.1 comments
      rw [(plannedComment_carries scope x c event planned).2.1]
      exact Option.some_ne_none _
    · obtain ⟨entry, -, rfl⟩ := List.mem_map.1 tombs
      cases kind
  · obtain ⟨entry, -, rfl⟩ := List.mem_map.1 marks
    cases kind

/-- Only a revision and a change of state are asked for together. -/
theorem plannedComment_two (c : Observed) (before after : List DecisionEvent)
    (nonempty : before ≠ []) (follows : after ≠ [])
    (whole : plannedComment scope x c = before ++ after) :
    ∃ first second, before = [first] ∧ after = [second] ∧ first.kind = .revised ∧
      second.kind = .lifecycle := by
  have short (one : DecisionEvent) (alone : [one] = before ++ after) : False := by
    have length := congrArg List.length alone
    have first := List.length_pos_iff.2 nonempty
    have second := List.length_pos_iff.2 follows
    rw [List.length_append, List.length_singleton] at length
    omega
  unfold plannedComment at whole
  dsimp only at whole
  cases prior : x.prior scope.sessionId c.id with
  | none =>
    rw [prior] at whole
    exact (short _ whole).elim
  | some state =>
    rw [prior] at whole
    dsimp only at whole
    by_cases gone : state.deleted = true
    · rw [if_pos gone] at whole
      exact (short _ whole).elim
    rw [if_neg gone] at whole
    by_cases digest : state.sha256 ≠ c.sha256
    · rw [if_pos digest, List.singleton_append] at whole
      cases before with
      | nil => exact absurd rfl nonempty
      | cons first before =>
        obtain ⟨rfl, rest⟩ := List.cons.inj whole
        by_cases cycle : state.lifecycle ≠ c.lifecycle
        · rw [if_pos cycle] at rest
          cases before with
          | nil => exact ⟨_, _, rfl, rest.symm, rfl, rfl⟩
          | cons other before =>
            have absent := (List.append_eq_nil_iff.1 (List.cons.inj rest).2.symm).2
            exact absurd absent follows
        · rw [if_neg cycle] at rest
          exact absurd (List.append_eq_nil_iff.1 rest.symm).2 follows
    · rw [if_neg digest, List.nil_append] at whole
      by_cases cycle : state.lifecycle ≠ c.lifecycle
      · rw [if_pos cycle] at whole
        exact (short _ whole).elim
      · rw [if_neg cycle] at whole
        exact absurd (List.append_eq_nil_iff.1 whole.symm).1 nonempty

def askedGroups : List (List DecisionEvent) :=
  x.comments.map (plannedComment scope x) ++
    ((goneComments scope x).entries.map fun entry => [tombstone scope x entry]) ++
    (x.files.entries.filter (x.differs scope.sessionId)).map fun entry => [x.fileMark scope entry]

theorem askedGroups_flatten : (askedGroups scope x).flatten = asked scope x := by
  have single {β : Type} (f : β → DecisionEvent) (items : List β) :
      (items.map fun item => [f item]).flatten = items.map f := by
    induction items with
    | nil => rfl
    | cons item items ih => rw [List.map_cons, List.flatten_cons, ih, List.map_cons]; rfl
  rw [askedGroups, List.flatten_append, List.flatten_append, single, single, asked,
    List.flatMap_def]

theorem askedGroups_apart (once : (x.comments.map (·.id)).Nodup) :
    (askedGroups scope x).Pairwise fun one two =>
      ∀ a ∈ one, ∀ b ∈ two, a.topic ≠ b.topic := by
  rw [askedGroups, List.pairwise_append, List.pairwise_append, List.pairwise_map,
    List.pairwise_map, List.pairwise_map]
  refine ⟨⟨?_, ?_, ?_⟩, ?_, ?_⟩
  · refine (List.pairwise_map.1 once).imp ?_
    intro c c' differ a first b second same
    rw [topic_comment scope x c a first, topic_comment scope x c' b second] at same
    exact differ (Option.some.inj (Prod.mk.inj same).1)
  · refine (goneComments scope x).sorted.imp ?_
    intro entry entry' less a first b second same
    rw [List.mem_singleton.1 first, List.mem_singleton.1 second, topic_tombstone,
      topic_tombstone] at same
    exact less.ne (Option.some.inj (Prod.mk.inj same).1)
  · intro one listed two gone a first b second same
    obtain ⟨c, present, rfl⟩ := List.mem_map.1 listed
    obtain ⟨entry, member, rfl⟩ := List.mem_map.1 gone
    rw [List.mem_singleton.1 second, topic_comment scope x c a first, topic_tombstone] at same
    have absent := ((mem_goneComments scope x entry.1).1 (List.mem_map_of_mem member)).1
    exact absent (List.mem_map.2 ⟨c, present, Option.some.inj (Prod.mk.inj same).1⟩)
  · refine (x.files.sorted.filter _).imp ?_
    intro entry entry' less a first b second same
    rw [List.mem_singleton.1 first, List.mem_singleton.1 second, topic_mark, topic_mark] at same
    exact less.ne (Option.some.inj (Prod.mk.inj same).2)
  · intro one listed two marks a first b second same
    obtain ⟨entry, -, rfl⟩ := List.mem_map.1 marks
    rw [List.mem_singleton.1 second, topic_mark] at same
    rcases List.mem_append.1 listed with comments | tombs
    · obtain ⟨c, -, rfl⟩ := List.mem_map.1 comments
      rw [topic_comment scope x c a first] at same
      cases same
    · obtain ⟨other, -, rfl⟩ := List.mem_map.1 tombs
      rw [List.mem_singleton.1 first, topic_tombstone] at same
      cases same

/-- A batch cut after its revision of a comment and before that comment's change of state. -/
def Torn (events : List DecisionEvent) (k : Nat) : Prop :=
  ∃ m first second, k = m + 1 ∧ events[m]? = some first ∧ events[m + 1]? = some second ∧
    first.kind = .revised ∧ second.kind = .lifecycle ∧ first.commentId = second.commentId

theorem torn_cores (one two : List DecisionEvent)
    (same : one.map DecisionEvent.core = two.map DecisionEvent.core) (k : Nat)
    (torn : Torn one k) : Torn two k := by
  have place (m : Nat) (event : DecisionEvent) (found : one[m]? = some event) :
      ∃ other, two[m]? = some other ∧ other.core = event.core := by
    have cores := congrArg (·[m]?) same
    rw [List.getElem?_map, List.getElem?_map, found] at cores
    exact Option.map_eq_some_iff.1 cores.symm
  obtain ⟨m, first, second, rfl, here, next, kind, kind', named⟩ := torn
  obtain ⟨first', found, core⟩ := place m first here
  obtain ⟨second', found', core'⟩ := place (m + 1) second next
  have kinds (a b : DecisionEvent) (same : a.core = b.core) :
      a.kind = b.kind ∧ a.commentId = b.commentId :=
    ⟨(congrArg DecisionEvent.kind same : a.core.kind = b.core.kind),
      (congrArg DecisionEvent.commentId same : a.core.commentId = b.core.commentId)⟩
  exact ⟨m, first', second', rfl, found, found', (kinds _ _ core).1.trans kind,
    (kinds _ _ core').1.trans kind',
    (kinds _ _ core).2.trans (named.trans (kinds _ _ core').2.symm)⟩

/-- Only such a cut leaves a comment or a file on both sides. -/
theorem asked_torn (once : (x.comments.map (·.id)).Nodup) (k : Nat) (a b : DecisionEvent)
    (early : a ∈ (asked scope x).take k) (late : b ∈ (asked scope x).drop k)
    (same : a.topic = b.topic) : Torn (asked scope x) k := by
  rw [← askedGroups_flatten] at early late
  obtain ⟨front, before, after, back, member, present, follows, whole, rfl⟩ :=
    cut_group DecisionEvent.topic _ (askedGroups_apart scope x once) k a b early late same
  have alone (one : DecisionEvent) (alone : [one] = before ++ after) : False := by
    have length := congrArg List.length alone
    have first := List.length_pos_iff.2 present
    have second := List.length_pos_iff.2 follows
    rw [List.length_append, List.length_singleton] at length
    omega
  rcases List.mem_append.1 member with own | marks
  · rcases List.mem_append.1 own with comments | tombs
    · obtain ⟨c, -, planned⟩ := List.mem_map.1 comments
      obtain ⟨first, second, rfl, rfl, kind, kind'⟩ :=
        plannedComment_two scope x c before after present follows planned
      have named (event : DecisionEvent) (inside : event ∈ [first] ++ [second]) :
          event.commentId = some c.id := by
        rw [← planned] at inside
        exact (plannedComment_carries scope x c event inside).2.1
      rw [askedGroups_flatten] at whole
      refine ⟨front.length, first, second, rfl, ?_, ?_, kind, kind',
        (named first (by simp)).trans (named second (by simp)).symm⟩
      · rw [whole]
        simp
      · rw [whole]
        simp
    · obtain ⟨entry, -, single⟩ := List.mem_map.1 tombs
      exact (alone _ single).elim
  · obtain ⟨entry, -, single⟩ := List.mem_map.1 marks
    exact (alone _ single).elim

end Torn

section Plan
variable (world : World) (scope : Scope) (x : Inputs) (p : Planner)
  (accepted : plan world scope x = .ok p)

/-- What a second plan tells of each event: its kind, what it is about, the digest and the states. -/
def DecisionEvent.fact (event : DecisionEvent) :
    EventKind × (Option Str × Option Str) × Option Str × Option Lifecycle × Option Lifecycle :=
  (event.kind, event.topic, event.contentSha256, event.lifecycleState,
    event.previousLifecycleState)

include accepted

theorem plan_cores : p.events.map DecisionEvent.core = (asked scope x).map DecisionEvent.core := by
  obtain ⟨-, rfl⟩ := (plan_eq_ok world scope x p).1 accepted
  obtain ⟨more, grown, cores⟩ := add_events world (asked scope x) (Planner.first scope x.journal)
  rw [grown]
  exact cores

theorem plan_part (k : Nat) :
    ∀ event ∈ p.events.take k, ∃ one ∈ asked scope x, event.core = one.core := by
  intro event listed
  have cores := plan_cores world scope x p accepted
  have inside : event.core ∈ p.events.map DecisionEvent.core :=
    List.mem_map_of_mem (List.mem_of_mem_take listed)
  rw [cores] at inside
  obtain ⟨one, asks, same⟩ := List.mem_map.1 inside
  exact ⟨one, asks, same.symm⟩

/-- When no comment or file is cut in two, the second plan is the rest of the batch. -/
theorem plan_again (once : (x.comments.map (·.id)).Nodup) (k : Nat) (within : k ≤ p.events.length)
    (whole : ∀ event ∈ p.events.drop k, fresh (p.events.take k) event = true) :
    ∃ last, plan world scope (x.after world (p.events.take k)) = .ok last ∧
      last.events = p.events.drop k := by
  have part := plan_part world scope x p accepted k
  have cores := plan_cores world scope x p accepted
  have named := asked_named scope x
  obtain ⟨checked, chained⟩ := (plan_eq_ok world scope x p).1 accepted
  have rest : (asked scope x).filter (fresh (p.events.take k)) = (asked scope x).drop k := by
    have early : ((asked scope x).take k).filter (fresh (p.events.take k)) = [] := by
      rw [List.filter_eq_nil_iff]
      intro one listed
      have inside : one.core ∈ ((asked scope x).take k).map DecisionEvent.core :=
        List.mem_map_of_mem listed
      rw [List.map_take, ← cores, ← List.map_take] at inside
      obtain ⟨event, own, same⟩ := List.mem_map.1 inside
      simp only [fresh, List.all_eq_true, decide_eq_true_eq]
      exact fun apart => apart event own (topic_of_core event one same)
    have late : ((asked scope x).drop k).filter (fresh (p.events.take k)) =
        (asked scope x).drop k := by
      rw [List.filter_eq_self]
      intro one listed
      have inside : one.core ∈ ((asked scope x).drop k).map DecisionEvent.core :=
        List.mem_map_of_mem listed
      rw [List.map_drop, ← cores, ← List.map_drop] at inside
      obtain ⟨event, own, same⟩ := List.mem_map.1 inside
      have clear := whole event own
      have topic : event.topic = one.topic := topic_of_core event one same
      rwa [fresh, topic] at clear
    conv_lhs => rw [← List.take_append_drop k (asked scope x)]
    rw [List.filter_append, early, late, List.nil_append]
  have length : (asked scope x).length = p.events.length := by
    have lengths := congrArg List.length cores
    rw [List.length_map, List.length_map] at lengths
    exact lengths.symm
  obtain ⟨q, front⟩ : ∃ q, q =
      ((asked scope x).take k).foldl (Planner.add world) (Planner.first scope x.journal) := ⟨_, rfl⟩
  obtain ⟨first, grown, cores'⟩ :=
    add_events world ((asked scope x).take k) (Planner.first scope x.journal)
  rw [← front, Planner.first] at grown
  dsimp only at grown
  rw [List.nil_append] at grown
  have width : q.events.length = k := by
    have lengths := congrArg List.length cores'
    rw [List.length_map, List.length_map, List.length_take, length] at lengths
    rw [grown, lengths]
    omega
  have split : p = ((asked scope x).drop k).foldl (Planner.add world) q := by
    rw [chained, front, ← List.foldl_append, List.take_append_drop]
  obtain ⟨more, later, -⟩ := add_events world ((asked scope x).drop k) q
  rw [← split] at later
  have written : p.events.take k = q.events := by
    rw [later, ← width, List.take_left]
  have start : Planner.first scope (x.after world q.events).journal = { q with events := [] } := by
    have head := head_foldl world x.journal ((asked scope x).take k)
      (Planner.first scope x.journal) rfl
    have same : q.scope = scope := by rw [front, add_foldl_scope]; rfl
    rw [← front] at head
    rw [Planner.first, Inputs.after, head, ← same]
  have joined := add_suffix world q.events ((asked scope x).drop k) { q with events := [] } (by
    intro _ event first' kind last own same
    have listed := List.mem_of_mem_head? first'
    have inside := List.mem_of_getLast? own
    rw [← written] at inside
    have clear : fresh (p.events.take k) event = true := by
      rw [← rest] at listed
      exact (List.mem_filter.1 listed).2
    have present := named event (List.mem_of_mem_drop listed) kind
    obtain ⟨id, known⟩ := Option.ne_none_iff_exists'.1 present
    have topic (one : DecisionEvent) (own : one.commentId = some id) :
        one.topic = (some id, none) := by
      rw [DecisionEvent.topic, DecisionEvent.marks, own, if_neg (by simp)]
    simp only [fresh, List.all_eq_true, decide_eq_true_eq] at clear
    apply clear last inside
    rw [topic event known, topic last (same.trans known)])
  dsimp only at joined
  rw [List.append_nil, ← split] at joined
  rw [written]
  refine ⟨_, (plan_eq_ok world scope _ _).2 ⟨?_, rfl⟩, ?_⟩
  · rw [← written]
    exact checked_after world scope x _ part once checked
  · have again : asked scope (x.after world q.events) = (asked scope x).drop k := by
      rw [← written, asked_after world scope x _ part once, rest]
    rw [again, start]
    have events := congrArg Planner.events joined
    dsimp only at events
    have dropped : p.events.drop k = (q.events ++ (((asked scope x).drop k).foldl
        (Planner.add world) { q with events := [] }).events).drop q.events.length := by
      rw [← events, width]
    rw [dropped, List.drop_left]

/-- An event whose comment or file was already written about is not told again. -/
theorem plan_loses (once : (x.comments.map (·.id)).Nodup) (k : Nat) (event : DecisionEvent)
    (stale : fresh (p.events.take k) event = false) (last : Planner)
    (again : plan world scope (x.after world (p.events.take k)) = .ok last) :
    event.fact ∉ last.events.map DecisionEvent.fact := by
  have part := plan_part world scope x p accepted k
  have cores := plan_cores world scope (x.after world (p.events.take k)) last again
  rw [asked_after world scope x _ part once] at cores
  intro told
  obtain ⟨other, listed, same⟩ := List.mem_map.1 told
  have inside : other.core ∈ last.events.map DecisionEvent.core := List.mem_map_of_mem listed
  rw [cores] at inside
  obtain ⟨one, kept, core⟩ := List.mem_map.1 inside
  have clear := (List.mem_filter.1 kept).2
  have topic : one.topic = event.topic := by
    have first : one.topic = other.topic := topic_of_core one other core
    exact first.trans (congrArg (fun fact => fact.2.1) same)
  rw [fresh, topic] at clear
  rw [fresh] at stale
  rw [clear] at stale
  cases stale

end Plan

end DeepDiffForge.Review
