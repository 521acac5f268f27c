import Mathlib.Algebra.GroupWithZero.Nat
import Mathlib.Data.List.Basic

/-! Ranges laid end to end. -/

namespace DeepDiffForge.Tiling

/-- The ranges lead from `start` to `stop` in order, none empty, with no gap and no overlap. -/
inductive Tiles : Nat → Nat → List (Nat × Nat) → Prop where
  | done (stop : Nat) : Tiles stop stop []
  | range (start middle stop : Nat) (ranges : List (Nat × Nat)) (grows : start < middle)
      (later : Tiles middle stop ranges) : Tiles start stop ((start, middle) :: ranges)

theorem tiles_le (start stop : Nat) (ranges : List (Nat × Nat)) (tiles : Tiles start stop ranges) :
    start ≤ stop := by
  induction tiles with
  | done => exact Nat.le_refl _
  | range start middle stop ranges grows later ih => omega

theorem tiles_append (start middle stop : Nat) (first second : List (Nat × Nat))
    (one : Tiles start middle first) (two : Tiles middle stop second) :
    Tiles start stop (first ++ second) := by
  induction one with
  | done => exact two
  | range start next middle ranges grows later ih => exact .range start next stop _ grows (ih two)

theorem tiles_shift (shift start stop : Nat) (ranges : List (Nat × Nat))
    (tiles : Tiles start stop ranges) :
    Tiles (shift + start) (shift + stop) (ranges.map fun range => (shift + range.1, shift + range.2)) := by
  induction tiles with
  | done => exact .done _
  | range start middle stop ranges grows later ih =>
    exact .range _ _ _ _ (by omega) ih

/-- The last range ends where the ranges end. -/
theorem tiles_last (start stop : Nat) (ranges : List (Nat × Nat)) (last : Nat × Nat)
    (tiles : Tiles start stop (ranges ++ [last])) :
    Tiles start last.1 ranges ∧ last.1 < last.2 ∧ last.2 = stop := by
  induction ranges generalizing start with
  | nil =>
    cases tiles with
    | range _ middle _ _ grows later =>
      cases later with
      | done => exact ⟨.done _, grows, rfl⟩
  | cons range ranges ih =>
    cases tiles with
    | range _ middle _ _ grows later =>
      obtain ⟨earlier, width, ends⟩ := ih middle later
      exact ⟨.range _ _ _ _ grows earlier, width, ends⟩

theorem tiles_within (start stop : Nat) (ranges : List (Nat × Nat))
    (tiles : Tiles start stop ranges) (range : Nat × Nat) (member : range ∈ ranges) :
    start ≤ range.1 ∧ range.1 < range.2 ∧ range.2 ≤ stop := by
  induction tiles with
  | done => cases member
  | range start middle stop ranges grows later ih =>
    have rest := tiles_le _ _ _ later
    rcases List.mem_cons.1 member with rfl | member
    · exact ⟨Nat.le_refl _, grows, rest⟩
    · have inner := ih member
      omega

def inside (items : List (Nat × Nat)) (range : Nat × Nat) : List (Nat × Nat) :=
  items.filter fun item => range.1 ≤ item.1 ∧ item.2 ≤ range.2

theorem length_inside_split (items : List (Nat × Nat)) (start middle stop : Nat)
    (before : start ≤ middle) (after : middle ≤ stop) (filled : ∀ item ∈ items, item.1 < item.2) :
    (inside items (start, middle)).length + (inside items (middle, stop)).length ≤
      (inside items (start, stop)).length := by
  induction items with
  | nil => exact Nat.le_refl _
  | cons item items ih =>
    rw [List.forall_mem_cons] at filled
    have rest := ih filled.2
    simp only [inside, ← List.countP_eq_length_filter, List.countP_cons, decide_eq_true_eq]
      at rest ⊢
    split_ifs <;> omega

/-- Ranges end to end hold no more of some others than the whole does. -/
theorem sum_inside_le (start stop : Nat) (ranges items : List (Nat × Nat))
    (tiles : Tiles start stop ranges) (filled : ∀ item ∈ items, item.1 < item.2) :
    (ranges.map fun range => (inside items range).length).sum ≤
      (inside items (start, stop)).length := by
  induction tiles with
  | done => exact Nat.zero_le _
  | range start middle stop ranges grows later ih =>
    have split := length_inside_split items start middle stop (Nat.le_of_lt grows)
      (tiles_le _ _ _ later) filled
    rw [List.map_cons, List.sum_cons]
    omega

def slice {α : Type} (items : List α) (range : Nat × Nat) : List α :=
  (items.drop range.1).take (range.2 - range.1)

/-- The ranges hold the whole between their ends. -/
theorem flatMap_slice {α : Type} (items : List α) (start stop : Nat) (ranges : List (Nat × Nat))
    (tiles : Tiles start stop ranges) : ranges.flatMap (slice items) = slice items (start, stop) := by
  induction tiles with
  | done stop => simp [slice]
  | range start middle stop ranges grows later ih =>
    have rest := tiles_le _ _ _ later
    rw [List.flatMap_cons, ih]
    simp only [slice]
    have cut : items.drop middle = (items.drop start).drop (middle - start) := by
      rw [List.drop_drop]
      congr 1
      omega
    have width : stop - start = (middle - start) + (stop - middle) := by omega
    rw [cut, width, List.take_add]

theorem slice_append_left {α : Type} (first rest : List α) (range : Nat × Nat)
    (within : range.2 ≤ first.length) : slice (first ++ rest) range = slice first range := by
  by_cases order : range.1 ≤ range.2
  · rw [slice, List.drop_append_of_le_length (by omega), List.take_append_of_le_length]
    · rfl
    · rw [List.length_drop]
      omega
  · simp [slice, Nat.sub_eq_zero_of_le (Nat.le_of_not_le order)]

theorem slice_append_right {α : Type} (first rest : List α) (start stop : Nat) :
    slice (first ++ rest) (first.length + start, first.length + stop) =
      slice rest (start, stop) := by
  rw [slice, ← List.drop_drop, List.drop_left, Nat.add_sub_add_left]
  rfl

theorem length_slice {α : Type} (items : List α) (range : Nat × Nat)
    (fits : range.2 ≤ items.length) : (slice items range).length = range.2 - range.1 := by
  rw [slice, List.length_take, List.length_drop]
  omega

theorem getElem?_slice {α : Type} (items : List α) (start stop k : Nat) (item : α)
    (held : (slice items (start, stop))[k]? = some item) :
    items[start + k]? = some item ∧ k < stop - start := by
  rw [slice] at held
  have within : k < stop - start := by
    by_contra outside
    rw [List.getElem?_take_eq_none (by omega)] at held
    cases held
  rw [List.getElem?_take_of_lt within, List.getElem?_drop] at held
  exact ⟨held, within⟩

theorem slice_split {α : Type} (items : List α) (start middle stop : Nat) (before : start ≤ middle)
    (after : middle ≤ stop) :
    slice items (start, stop) = slice items (start, middle) ++ slice items (middle, stop) := by
  have width : stop - start = (middle - start) + (stop - middle) := by omega
  have place : start + (middle - start) = middle := by omega
  rw [slice, width, List.take_add, List.drop_drop, place]
  rfl

theorem slice_whole {α : Type} (items : List α) : slice items (0, items.length) = items := by
  simp [slice]

end DeepDiffForge.Tiling
