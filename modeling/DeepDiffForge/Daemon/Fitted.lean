import DeepDiffForge.Daemon.Views
import DeepDiffForge.Lib.Slices

/-! A view run again with a smaller budget until its answer fits as it is emitted. -/

namespace DeepDiffForge.Daemon
open DeepDiffForge.Core Slices

def fitAttempts : Nat := 8

section
variable {Answer E State : Type}

/-- How a fit ends; `stopped` and `unfinished` are a fault and a run that has not ended. -/
inductive FitEnd (Answer E : Type) where
  | answered (answer : Answer)
  | refused (error : E)
  | stopped
  | unfinished

/-- The inner budgets the view was called with, with what it returned, and the end. -/
structure Fit (Answer E : Type) where
  calls : List (Nat × Except E Answer)
  ended : FitEnd Answer E

/-- Integer division, which stops at zero. -/
def divideBy (whole part : Nat) : Option Nat := if part = 0 then none else some (whole / part)

/-- `clamp`, which stops on an empty range. -/
def clamp (value low high : Nat) : Option Nat :=
  if low ≤ high then some (max low (min value high)) else none

def nextInner (maxBytes inner size : Nat) : Option Nat :=
  (divideBy (min (inner * maxBytes) usizeMax) size).bind fun proportional =>
    (divideBy inner 4).bind fun quarter =>
      if quarter ≤ inner then some (max (min proportional (inner - quarter)) minMaxBytes) else none

variable (maxBytes : Nat) (emitted : Answer → Nat) (view : State → Nat → Except E Answer × State)

/-- The loop from its `attempt`-th turn on, for as many turns as there is fuel. -/
def fitLoop : Nat → Nat → Nat → State → Fit Answer E
  | 0, _, _, _ => ⟨[], .unfinished⟩
  | fuel + 1, attempt, inner, state =>
      match view state inner with
      | (.error error, _) => ⟨[(inner, .error error)], .refused error⟩
      | (.ok answer, later) =>
          if emitted answer ≤ maxBytes ∨ inner = minMaxBytes ∨ attempt = fitAttempts then
            ⟨[(inner, .ok answer)], .answered answer⟩
          else
            match nextInner maxBytes inner (emitted answer) with
            | none => ⟨[(inner, .ok answer)], .stopped⟩
            | some smaller =>
                let rest := fitLoop fuel (attempt + 1) smaller later
                ⟨(inner, .ok answer) :: rest.calls, rest.ended⟩

def fitEmitted (copies fuel : Nat) (state : State) : Fit Answer E :=
  match (divideBy maxBytes (max copies 1)).bind fun start =>
      clamp start minMaxBytes (max maxBytes minMaxBytes) with
  | none => ⟨[], .stopped⟩
  | some inner => fitLoop maxBytes emitted view fuel 1 inner state

/-- A retry is strictly smaller and in range, and no step of its arithmetic stops. -/
theorem nextInner_spec (inner size : Nat) (low : minMaxBytes ≤ inner) (apart : inner ≠ minMaxBytes)
    (past : maxBytes < size) :
    ∃ smaller, nextInner maxBytes inner size = some smaller ∧ minMaxBytes ≤ smaller ∧
      smaller < inner := by
  have positive : size ≠ 0 := Nat.ne_of_gt (Nat.zero_lt_of_lt past)
  have quarter : inner / 4 ≤ inner := Nat.div_le_self inner 4
  refine ⟨max (min (min (inner * maxBytes) usizeMax / size) (inner - inner / 4)) minMaxBytes,
    ?_, Nat.le_max_right _ _, ?_⟩
  · rw [nextInner, divideBy, if_neg positive, Option.bind_some, divideBy, if_neg (by decide),
      Option.bind_some, if_pos quarter]
  · have least : minMaxBytes = 1024 := rfl
    rw [least] at low apart ⊢
    apply Nat.max_lt.2
    refine ⟨Nat.lt_of_le_of_lt (Nat.min_le_right _ _) ?_, by omega⟩
    omega

structure Fitted (attempt inner : Nat) (fit : Fit Answer E) : Prop where
  few : fit.calls.length + attempt ≤ fitAttempts + 1
  shrinks : (fit.calls.map (·.1)).Pairwise (· > ·)
  within : ∀ call ∈ fit.calls, minMaxBytes ≤ call.1 ∧ call.1 ≤ inner
  ends : (∃ budget error, fit.ended = .refused error ∧
        fit.calls.getLast? = some (budget, .error error)) ∨
      ∃ budget answer, fit.ended = .answered answer ∧
        fit.calls.getLast? = some (budget, .ok answer) ∧
        (emitted answer ≤ maxBytes ∨ budget = minMaxBytes ∨
          fit.calls.length + attempt = fitAttempts + 1)

theorem fitLoop_fitted (fuel attempt inner : Nat) (state : State) (early : attempt ≤ fitAttempts)
    (enough : fitAttempts < fuel + attempt) (low : minMaxBytes ≤ inner) :
    Fitted maxBytes emitted attempt inner
      (fitLoop maxBytes emitted view fuel attempt inner state) := by
  induction fuel generalizing attempt inner state with
  | zero => omega
  | succ fuel ih =>
    unfold fitLoop
    split
    · rename_i error _ _
      exact {
        few := by rw [List.length_singleton]; omega
        shrinks := List.pairwise_singleton _ _
        within := by
          intro call listed
          rw [List.mem_singleton.1 listed]
          exact ⟨low, Nat.le_refl _⟩
        ends := .inl ⟨inner, error, rfl, rfl⟩ }
    · rename_i answer later _
      split_ifs with stop
      · exact {
          few := by rw [List.length_singleton]; omega
          shrinks := List.pairwise_singleton _ _
          within := by
            intro call listed
            rw [List.mem_singleton.1 listed]
            exact ⟨low, Nat.le_refl _⟩
          ends := by
            refine .inr ⟨inner, answer, rfl, rfl, ?_⟩
            rcases stop with fits | least | last
            · exact .inl fits
            · exact .inr (.inl least)
            · right; right
              rw [last, List.length_singleton]
              exact Nat.add_comm _ _ }
      · obtain ⟨past, apart, more⟩ : maxBytes < emitted answer ∧ inner ≠ minMaxBytes ∧
            attempt ≠ fitAttempts := by
          simpa only [not_or, Nat.not_le] using stop
        obtain ⟨smaller, next, least, less⟩ := nextInner_spec maxBytes inner _ low apart past
        have rest := ih (attempt + 1) smaller later (by omega) (by omega) least
        rw [next]
        exact {
          few := by
            have few := rest.few
            rw [List.length_cons]
            omega
          shrinks := by
            rw [List.map_cons, List.pairwise_cons]
            refine ⟨?_, rest.shrinks⟩
            intro budget listed
            obtain ⟨call, called, same⟩ := List.mem_map.1 listed
            have within := (rest.within call called).2
            omega
          within := by
            intro call listed
            rcases List.mem_cons.1 listed with rfl | later
            · exact ⟨low, Nat.le_refl _⟩
            · have within := rest.within call later
              exact ⟨within.1, within.2.trans less.le⟩
          ends := by
            rcases rest.ends with refused | answered
            · obtain ⟨budget, error, ended, last⟩ := refused
              refine .inl ⟨budget, error, ended, ?_⟩
              rw [List.getLast?_cons, last]
              rfl
            · obtain ⟨budget, answer, ended, last, why⟩ := answered
              refine .inr ⟨budget, answer, ended, ?_, ?_⟩
              · rw [List.getLast?_cons, last]
                rfl
              · rw [List.length_cons]
                omega }

/-- A fit always returns, calls the view a bounded number of times with shrinking budgets in
range, and ends in an answer that fits, was made at the least budget, or is the last. -/
theorem fitEmitted_fitted (copies fuel : Nat) (state : State) (enough : fitAttempts ≤ fuel) :
    Fitted maxBytes emitted 1 (max minMaxBytes maxBytes)
      (fitEmitted maxBytes emitted view copies fuel state) := by
  have positive : max copies 1 ≠ 0 := Nat.ne_of_gt (Nat.lt_of_lt_of_le Nat.one_pos (le_max_right _ _))
  unfold fitEmitted
  rw [divideBy, if_neg positive, Option.bind_some, clamp, if_pos (Nat.le_max_right _ _)]
  dsimp only
  generalize maxBytes / max copies 1 = start
  have looped := fitLoop_fitted maxBytes emitted view fuel 1
    (max minMaxBytes (min start (max maxBytes minMaxBytes))) state (by decide) (by omega)
    (Nat.le_max_left _ _)
  exact {
    few := looped.few
    shrinks := looped.shrinks
    within := by
      intro call listed
      have within := looped.within call listed
      refine ⟨within.1, within.2.trans ?_⟩
      apply Nat.max_le.2
      refine ⟨Nat.le_max_left _ _, (Nat.min_le_right _ _).trans ?_⟩
      rw [Nat.max_comm]
    ends := looped.ends }

end

/-- Each answer twice its budget: the second fits. -/
theorem fitEmitted_fitted_doubled :
    8 ≤ 8 ∧ Fitted (E := Empty) 10000 (fun answer : Nat => answer * 2) 1 (max minMaxBytes 10000)
      (fitEmitted 10000 (fun answer : Nat => answer * 2)
        (fun (_ : Unit) inner => (.ok inner, ())) 1 8 ()) :=
  ⟨Nat.le_refl 8, fitEmitted_fitted _ _ _ 1 8 () (Nat.le_refl 8)⟩

end DeepDiffForge.Daemon
