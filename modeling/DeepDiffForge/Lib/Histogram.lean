import Mathlib.Algebra.GroupWithZero.Nat
import Mathlib.Data.List.Basic

/-! Items counted by the bucket they fall into, and the first bucket that takes a running count to
a given rank. -/

namespace DeepDiffForge.Histogram
variable {α : Type} (bucket : α → Nat)

/-- How many items fall into each of the first `size` buckets. -/
def tally (size : Nat) (items : List α) : List Nat :=
  (List.range size).map fun i => items.countP fun item => bucket item = i

theorem length_tally (size : Nat) (items : List α) : (tally bucket size items).length = size := by
  rw [tally, List.length_map, List.length_range]

theorem tally_nil (size : Nat) : tally bucket size [] = List.replicate size 0 := by
  unfold tally
  rw [List.eq_replicate_iff, List.length_map, List.length_range]
  refine ⟨rfl, fun n listed => ?_⟩
  obtain ⟨i, -, rfl⟩ := List.mem_map.1 listed
  rfl

theorem modify_range {β : Type} (f : Nat → β) (size k : Nat) (g : β → β) :
    ((List.range size).map f).modify k g =
      (List.range size).map fun i => if i = k then g (f i) else f i := by
  apply List.ext_getElem
  · rw [List.length_modify, List.length_map, List.length_map]
  · intro i low high
    rw [List.getElem_modify, List.getElem_map, List.getElem_map, List.getElem_range]
    by_cases same : i = k
    · rw [if_pos same, if_pos same.symm]
    · rw [if_neg same, if_neg (Ne.symm same)]

/-- A counter that wraps counts as long as the items are fewer than its values. -/
theorem tally_concat (limit size : Nat) (items : List α) (item : α) (few : items.length + 1 < limit) :
    (tally bucket size items).modify (bucket item) (fun n => (n + 1) % limit) =
      tally bucket size (items ++ [item]) := by
  rw [tally, modify_range, tally]
  refine List.map_congr_left fun i _ => ?_
  rw [List.countP_append, List.countP_singleton]
  have bound := List.countP_le_length (p := fun item => decide (bucket item = i)) (l := items)
  by_cases here : i = bucket item
  · rw [if_pos here, if_pos (decide_eq_true here.symm), Nat.mod_eq_of_lt (by omega)]
  · rw [if_neg here, if_neg (by simpa using Ne.symm here), Nat.add_zero]

/-- The first `k` buckets hold the items that fall below `k`. -/
theorem sum_take_tally (size k : Nat) (within : k ≤ size) (items : List α) :
    ((tally bucket size items).take k).sum = items.countP fun item => bucket item < k := by
  rw [tally, ← List.map_take, List.take_range, Nat.min_eq_left within]
  induction k with
  | zero => simp
  | succ k ih =>
    rw [List.range_succ, List.map_append, List.sum_append, ih (by omega), List.map_singleton,
      List.sum_singleton]
    clear ih
    induction items with
    | nil => rfl
    | cons item items ih =>
      simp only [List.countP_cons, decide_eq_true_eq]
      split_ifs <;> omega

theorem sum_tally (size : Nat) (items : List α) (small : ∀ item ∈ items, bucket item < size) :
    (tally bucket size items).sum = items.length := by
  have whole := sum_take_tally bucket size size (Nat.le_refl _) items
  rw [List.take_of_length_le (Nat.le_of_eq (length_tally bucket size items))] at whole
  rw [whole, List.countP_eq_length]
  intro item listed
  exact decide_eq_true (small item listed)

/-- The first bucket at which the running count, started at `seen`, is at least `needed`. -/
def firstReaching (needed : Nat) : Nat → List Nat → Option Nat
  | _, [] => none
  | seen, n :: rest =>
      if needed ≤ seen + n then some 0 else (firstReaching needed (seen + n) rest).map (· + 1)

theorem firstReaching_eq_some (needed seen : Nat) (counts : List Nat) (i : Nat) :
    firstReaching needed seen counts = some i ↔
      i < counts.length ∧ needed ≤ seen + (counts.take (i + 1)).sum ∧
        ∀ j < i, seen + (counts.take (j + 1)).sum < needed := by
  induction counts generalizing seen i with
  | nil => simp [firstReaching]
  | cons n rest ih =>
    rw [firstReaching]
    by_cases reached : needed ≤ seen + n
    · rw [if_pos reached]
      constructor
      · rintro ⟨⟩
        refine ⟨Nat.succ_pos _, ?_, fun j less => absurd less (Nat.not_lt_zero j)⟩
        simpa using reached
      · rintro ⟨-, -, below⟩
        cases i with
        | zero => rfl
        | succ i =>
          have early := below 0 (Nat.succ_pos i)
          simp only [Nat.zero_add, List.take_succ_cons, List.take_zero, List.sum_cons,
            List.sum_nil, Nat.add_zero] at early
          omega
    · rw [if_neg reached, Option.map_eq_some_iff]
      constructor
      · rintro ⟨k, found, rfl⟩
        obtain ⟨inside, enough, below⟩ := (ih (seen + n) k).1 found
        refine ⟨Nat.succ_lt_succ inside, ?_, fun j less => ?_⟩
        · rw [List.take_succ_cons, List.sum_cons, ← Nat.add_assoc]
          exact enough
        · cases j with
          | zero => simpa using reached
          | succ j =>
            rw [List.take_succ_cons, List.sum_cons, ← Nat.add_assoc]
            exact below j (Nat.lt_of_succ_lt_succ less)
      · rintro ⟨inside, enough, below⟩
        cases i with
        | zero => simp at enough; omega
        | succ i =>
          refine ⟨i, (ih (seen + n) i).2 ⟨Nat.lt_of_succ_lt_succ inside, ?_, fun j less => ?_⟩, rfl⟩
          · rw [List.take_succ_cons, List.sum_cons, ← Nat.add_assoc] at enough
            exact enough
          · have early := below (j + 1) (Nat.succ_lt_succ less)
            rw [List.take_succ_cons, List.sum_cons, ← Nat.add_assoc] at early
            exact early

theorem firstReaching_isSome (needed : Nat) (counts : List Nat) (enough : needed ≤ counts.sum)
    (nonempty : counts ≠ []) : ∃ i, firstReaching needed 0 counts = some i := by
  have run (seen : Nat) (counts : List Nat) (enough : needed ≤ seen + counts.sum)
      (nonempty : counts ≠ []) : ∃ i, firstReaching needed seen counts = some i := by
    induction counts generalizing seen with
    | nil => exact absurd rfl nonempty
    | cons n rest ih =>
      rw [firstReaching]
      split_ifs with reached
      · exact ⟨0, rfl⟩
      · cases rest with
        | nil => simp at enough; omega
        | cons m rest =>
          rw [List.sum_cons, ← Nat.add_assoc] at enough
          obtain ⟨i, found⟩ := ih (seen + n) enough (List.cons_ne_nil _ _)
          exact ⟨i + 1, by rw [found]; rfl⟩
  exact run 0 counts (by rwa [Nat.zero_add]) nonempty

end DeepDiffForge.Histogram
