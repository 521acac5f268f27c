import Mathlib.Data.List.Basic
import Mathlib.Order.Lattice

/-! The greatest item of a list under a comparison, a later one taken before an earlier one of equal
rank. -/

namespace DeepDiffForge.Choice
variable {α : Type}

/-- The greater of two, the second where they compare equal. -/
def later (compare : α → α → Ordering) (one two : α) : α :=
  match compare one two with
  | .gt => one
  | _ => two

/-- `Iterator::max_by`. -/
def maxBy (compare : α → α → Ordering) : List α → Option α
  | [] => none
  | first :: rest => some (rest.foldl (later compare) first)

theorem maxBy_eq_none (compare : α → α → Ordering) (items : List α) :
    maxBy compare items = none ↔ items = [] := by
  cases items with
  | nil => exact iff_of_true rfl rfl
  | cons first rest => exact iff_of_false (Option.some_ne_none _) (List.cons_ne_nil _ _)

section Ranked
variable {β : Type} [LinearOrder β] (rank : α → β) (compare : α → α → Ordering)
  (ranked : ∀ one two, compare one two = .gt ↔ rank two < rank one)

include ranked

theorem later_eq (one two : α) :
    later compare one two = if rank two < rank one then one else two := by
  unfold later
  by_cases less : rank two < rank one
  · rw [(ranked one two).2 less, if_pos less]
  · rw [if_neg less]
    split
    · next greater => exact absurd ((ranked one two).1 greater) less
    · rfl

/-- Where the last of the greatest items stands. -/
theorem foldl_later (rest : List α) (first : α) :
    ∃ front back, first :: rest = front ++ rest.foldl (later compare) first :: back ∧
      (∀ item ∈ front, rank item ≤ rank (rest.foldl (later compare) first)) ∧
      ∀ item ∈ back, rank item < rank (rest.foldl (later compare) first) := by
  induction rest generalizing first with
  | nil => exact ⟨[], [], rfl, by simp, by simp⟩
  | cons second rest ih =>
    rw [List.foldl_cons, later_eq rank compare ranked]
    split_ifs with less
    · obtain ⟨front, back, whole, below, under⟩ := ih first
      cases front with
      | nil =>
        obtain ⟨same, tail⟩ := List.cons.inj whole
        refine ⟨[], second :: back, ?_, by simp, ?_⟩
        · rw [← same, tail, List.nil_append]
        · intro item listed
          rcases List.mem_cons.1 listed with rfl | listed
          · rw [← same]
            exact less
          · exact under item listed
      | cons top front =>
        obtain ⟨rfl, tail⟩ := List.cons.inj whole
        refine ⟨first :: second :: front, back, congrArg (first :: second :: ·) tail, ?_, under⟩
        intro item listed
        have own := below first List.mem_cons_self
        rcases List.mem_cons.1 listed with rfl | listed
        · exact own
        · rcases List.mem_cons.1 listed with rfl | listed
          · exact less.le.trans own
          · exact below item (List.mem_cons_of_mem _ listed)
    · obtain ⟨front, back, whole, below, under⟩ := ih second
      refine ⟨first :: front, back, by rw [whole, List.cons_append], ?_, under⟩
      intro item listed
      rcases List.mem_cons.1 listed with rfl | listed
      · have top : rank second ≤ rank (rest.foldl (later compare) second) := by
          have among : second ∈ front ++ rest.foldl (later compare) second :: back := by
            rw [← whole]
            exact List.mem_cons_self
          rcases List.mem_append.1 among with listed | listed
          · exact below second listed
          · rcases List.mem_cons.1 listed with same | listed
            · exact (congrArg rank same).le
            · exact (under second listed).le
        exact (not_lt.1 less).trans top
      · exact below item listed

theorem maxBy_eq_some (items : List α) (best : α) (chosen : maxBy compare items = some best) :
    ∃ front back, items = front ++ best :: back ∧ (∀ item ∈ front, rank item ≤ rank best) ∧
      ∀ item ∈ back, rank item < rank best := by
  cases items with
  | nil => cases chosen
  | cons first rest =>
    obtain rfl := Option.some.inj chosen
    exact foldl_later rank compare ranked rest first

end Ranked

end DeepDiffForge.Choice
