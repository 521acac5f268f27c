import Mathlib.Data.List.Induction

/-! Runs of a machine that takes one event at a time; an event it cannot take ends the run. -/

namespace DeepDiffForge.Machine

variable {State Event : Type}

def run (step : State → Event → Option State) : State → List Event → Option State
  | state, [] => some state
  | state, event :: events => (step state event).bind fun state' => run step state' events

theorem run_cons (step : State → Event → Option State) (state last : State) (event : Event)
    (events : List Event) (reached : run step state (event :: events) = some last) :
    ∃ middle, step state event = some middle ∧ run step middle events = some last :=
  Option.bind_eq_some_iff.1 reached

theorem run_keeps (step : State → Event → Option State) (inv : State → List Event → Prop)
    (kept : ∀ state event events state', inv state (event :: events) →
      step state event = some state' → inv state' events)
    (state last : State) (events : List Event) (first : inv state events)
    (reached : run step state events = some last) : inv last [] := by
  induction events generalizing state with
  | nil =>
    obtain rfl : state = last := Option.some.inj reached
    exact first
  | cons event events ih =>
    obtain ⟨middle, taken, rest⟩ := run_cons step state last event events reached
    exact ih middle (kept state event events middle first taken) rest

theorem run_append (step : State → Event → Option State) (state : State)
    (first second : List Event) :
    run step state (first ++ second) =
      (run step state first).bind fun middle => run step middle second := by
  induction first generalizing state with
  | nil => rfl
  | cons event events ih =>
    simp only [List.cons_append, run, ih, Option.bind_assoc]

theorem run_concat (step : State → Event → Option State) (state last : State)
    (events : List Event) (event : Event) :
    run step state (events ++ [event]) = some last ↔
      ∃ middle, run step state events = some middle ∧ step middle event = some last := by
  rw [run_append, Option.bind_eq_some_iff]
  constructor
  · intro reached
    obtain ⟨middle, first, rest⟩ := reached
    obtain ⟨after, taken, same⟩ := run_cons step middle last event [] rest
    cases same
    exact ⟨middle, first, taken⟩
  · intro reached
    obtain ⟨middle, first, taken⟩ := reached
    exact ⟨middle, first, by rw [run, taken]; rfl⟩

/-- What each step keeps of the run so far, a whole run keeps. -/
theorem run_history (step : State → Event → Option State) (start : State)
    (inv : List Event → State → Prop) (first : inv [] start)
    (kept : ∀ events middle event next, run step start events = some middle → inv events middle →
      step middle event = some next → inv (events ++ [event]) next)
    (events : List Event) (last : State) (reached : run step start events = some last) :
    inv events last := by
  induction events using List.reverseRecOn generalizing last with
  | nil =>
    obtain rfl : start = last := Option.some.inj reached
    exact first
  | append_singleton events event ih =>
    obtain ⟨middle, before, taken⟩ := (run_concat step start last events event).1 reached
    exact kept events middle event last before (ih middle before) taken

/-- The states a run passes through, its first and its last among them. -/
def Passed (step : State → Event → Option State) (start : State) (events : List Event)
    (state : State) : Prop :=
  ∃ before after, events = before ++ after ∧ run step start before = some state

theorem passed_last (step : State → Event → Option State) (start last : State)
    (events : List Event) (reached : run step start events = some last) :
    Passed step start events last :=
  ⟨events, [], (List.append_nil events).symm, reached⟩

theorem passed_concat (step : State → Event → Option State) (start last state : State)
    (events : List Event) (event : Event) (reached : run step start (events ++ [event]) = some last) :
    Passed step start (events ++ [event]) state ↔ Passed step start events state ∨ state = last := by
  constructor
  · intro passed
    obtain ⟨before, after, same, ran⟩ := passed
    obtain rfl | ⟨init, final, rfl⟩ := List.eq_nil_or_concat after
    · rw [List.append_nil] at same
      rw [← same, reached] at ran
      exact .inr (Option.some.inj ran).symm
    · rw [List.concat_eq_append, ← List.append_assoc] at same
      exact .inl ⟨before, init, (List.append_inj' same rfl).1, ran⟩
  · intro passed
    rcases passed with ⟨before, after, rfl, ran⟩ | rfl
    · exact ⟨before, after ++ [event], List.append_assoc .., ran⟩
    · exact passed_last step start state _ reached

end DeepDiffForge.Machine
