import Mathlib.Data.List.Nodup
import Mathlib.Logic.Function.Basic

/-! Matching by key: each item in turn takes the first partner still waiting under its key. -/

namespace DeepDiffForge.Matching

variable {α β κ : Type} [DecidableEq κ] (key : α → κ)

/-- Each item with the partner it takes; an item that finds none is left out. -/
def greedy : (κ → List β) → List α → List (α × β)
  | _, [] => []
  | waiting, x :: xs =>
      match waiting (key x) with
      | [] => greedy waiting xs
      | y :: rest => (x, y) :: greedy (Function.update waiting (key x) rest) xs

theorem greedy_none (waiting : κ → List β) (x : α) (xs : List α) (empty : waiting (key x) = []) :
    greedy key waiting (x :: xs) = greedy key waiting xs := by
  rw [greedy, empty]

theorem greedy_some (waiting : κ → List β) (x : α) (xs : List α) (y : β) (rest : List β)
    (found : waiting (key x) = y :: rest) :
    greedy key waiting (x :: xs) =
      (x, y) :: greedy key (Function.update waiting (key x) rest) xs := by
  rw [greedy, found]

/-- No item is matched twice, and items are matched in order. -/
theorem greedy_first (xs : List α) (waiting : κ → List β) :
    List.Sublist ((greedy key waiting xs).map Prod.fst) xs := by
  induction xs generalizing waiting with
  | nil => exact List.Sublist.refl _
  | cons x xs ih =>
    cases found : waiting (key x) with
    | nil =>
      rw [greedy_none key waiting x xs found]
      exact (ih waiting).cons x
    | cons y rest =>
      rw [greedy_some key waiting x xs y rest found]
      exact (ih _).cons_cons x

/-- A partner was waiting under the key of the item that takes it. -/
theorem greedy_waiting (xs : List α) (waiting : κ → List β) (pair : α × β)
    (mem : pair ∈ greedy key waiting xs) : pair.2 ∈ waiting (key pair.1) := by
  induction xs generalizing waiting with
  | nil => cases mem
  | cons x xs ih =>
    cases found : waiting (key x) with
    | nil =>
      rw [greedy_none key waiting x xs found] at mem
      exact ih waiting mem
    | cons y rest =>
      rw [greedy_some key waiting x xs y rest found] at mem
      rcases List.mem_cons.1 mem with rfl | later
      · rw [found]
        exact List.mem_cons_self
      · have own := ih _ later
        by_cases same : key pair.1 = key x
        · rw [same, Function.update_self] at own
          rw [same, found]
          exact List.mem_cons_of_mem _ own
        · rwa [Function.update_of_ne same] at own

theorem greedy_second (place : β → κ) (xs : List α) (waiting : κ → List β)
    (once : ∀ k, (waiting k).Nodup) (own : ∀ k, ∀ y ∈ waiting k, place y = k) :
    ((greedy key waiting xs).map Prod.snd).Nodup := by
  induction xs generalizing waiting with
  | nil => exact List.nodup_nil
  | cons x xs ih =>
    cases found : waiting (key x) with
    | nil =>
      rw [greedy_none key waiting x xs found]
      exact ih waiting once own
    | cons y rest =>
      have nodup := once (key x)
      rw [found, List.nodup_cons] at nodup
      have inside (k : κ) : List.Sublist (Function.update waiting (key x) rest k) (waiting k) := by
        by_cases same : k = key x
        · subst same
          rw [Function.update_self, found]
          exact List.sublist_cons_self y rest
        · rw [Function.update_of_ne same]
      rw [greedy_some key waiting x xs y rest found, List.map_cons, List.nodup_cons]
      refine ⟨?_, ih _ (fun k => (once k).sublist (inside k))
        fun k z held => own k z ((inside k).subset held)⟩
      intro again
      obtain ⟨pair, later, same⟩ := List.mem_map.1 again
      have held := greedy_waiting key xs _ pair later
      rw [same] at held
      have here : place y = key x := own (key x) y (by rw [found]; exact List.mem_cons_self)
      have there : place y = key pair.1 := own (key pair.1) y ((inside (key pair.1)).subset held)
      rw [← there, here, Function.update_self] at held
      exact nodup.1 held

/-- What waits under the key of an item left out is all taken. -/
theorem greedy_maximal (xs : List α) (waiting : κ → List β) (x : α) (mem : x ∈ xs)
    (out : x ∉ (greedy key waiting xs).map Prod.fst) :
    ∀ y ∈ waiting (key x), y ∈ (greedy key waiting xs).map Prod.snd := by
  induction xs generalizing waiting with
  | nil => cases mem
  | cons z xs ih =>
    intro y held
    cases found : waiting (key z) with
    | nil =>
      rw [greedy_none key waiting z xs found] at out ⊢
      rcases List.mem_cons.1 mem with rfl | later
      · rw [found] at held
        cases held
      · exact ih waiting later out y held
    | cons first rest =>
      rw [greedy_some key waiting z xs first rest found, List.map_cons, List.mem_cons] at out ⊢
      push Not at out
      have later := (List.mem_cons.1 mem).resolve_left out.1
      by_cases same : key x = key z
      · rw [same, found] at held
        refine (List.mem_cons.1 held).imp id fun waits => ih _ later out.2 y ?_
        rwa [same, Function.update_self]
      · exact .inr (ih _ later out.2 y (by rwa [Function.update_of_ne same]))

end DeepDiffForge.Matching
