import Mathlib.Data.List.Basic
import Mathlib.Data.List.Sublists

/-! The length of a longest common subsequence of two sequences, and the table it is read from. -/

namespace DeepDiffForge.Subsequence

variable {α β : Type}

def Longest (old new : List α) (n : Nat) : Prop :=
  (∃ items : List α, items.Sublist old ∧ items.Sublist new ∧ items.length = n) ∧
    ∀ items : List α, items.Sublist old → items.Sublist new → items.length ≤ n

theorem longest_unique (old new : List α) (n m : Nat) (one : Longest old new n)
    (two : Longest old new m) : n = m := by
  obtain ⟨⟨items, left, right, rfl⟩, most⟩ := one
  obtain ⟨⟨items', left', right', rfl⟩, most'⟩ := two
  exact Nat.le_antisymm (most' items left right) (most items' left' right')

theorem longest_nil_left (new : List α) : Longest [] new 0 := by
  refine ⟨⟨[], List.nil_sublist _, List.nil_sublist _, rfl⟩, ?_⟩
  intro items left _
  rw [List.sublist_nil.1 left]
  exact Nat.le_refl 0

theorem longest_nil_right (old : List α) : Longest old [] 0 := by
  refine ⟨⟨[], List.nil_sublist _, List.nil_sublist _, rfl⟩, ?_⟩
  intro items _ right
  rw [List.sublist_nil.1 right]
  exact Nat.le_refl 0

theorem longest_same (x : α) (old new : List α) (n : Nat) (rest : Longest old new n) :
    Longest (x :: old) (x :: new) (n + 1) := by
  obtain ⟨⟨items, left, right, rfl⟩, most⟩ := rest
  refine ⟨⟨x :: items, left.cons_cons x, right.cons_cons x, rfl⟩, ?_⟩
  intro items left right
  have left' := left.tail
  have right' := right.tail
  have fewer := most items.tail left' right'
  rw [List.length_tail] at fewer
  omega

theorem longest_other (x y : α) (apart : x ≠ y) (old new : List α) (n m : Nat)
    (below : Longest old (y :: new) n) (right : Longest (x :: old) new m) :
    Longest (x :: old) (y :: new) (max n m) := by
  constructor
  · obtain ⟨⟨items, left, right', rfl⟩, -⟩ := below
    obtain ⟨⟨items', left', right'', rfl⟩, -⟩ := right
    rcases Nat.le_total items.length items'.length with less | more
    · exact ⟨items', left', right''.cons y, (Nat.max_eq_right less).symm⟩
    · exact ⟨items, left.cons x, right', (Nat.max_eq_left more).symm⟩
  · intro items left right'
    cases left with
    | cons _ inside => exact Nat.le_trans (below.2 _ inside right') (Nat.le_max_left _ _)
    | cons_cons _ inside =>
      cases right' with
      | cons _ inside' =>
        exact Nat.le_trans (right.2 _ (inside.cons_cons x) inside') (Nat.le_max_right _ _)
      | cons_cons _ inside' => exact absurd rfl apart

theorem longest_prefix (front old new : List α) (n : Nat) (rest : Longest old new n) :
    Longest (front ++ old) (front ++ new) (front.length + n) := by
  induction front with
  | nil =>
    rw [List.length_nil, Nat.zero_add]
    exact rest
  | cons x front ih =>
    rw [List.length_cons, Nat.add_right_comm]
    exact longest_same x _ _ _ ih

theorem longest_reverse (old new : List α) (n : Nat) (longest : Longest old new n) :
    Longest old.reverse new.reverse n := by
  obtain ⟨⟨items, left, right, rfl⟩, most⟩ := longest
  refine ⟨⟨items.reverse, left.reverse, right.reverse, List.length_reverse⟩, ?_⟩
  intro items left right
  have fewer := most items.reverse (List.reverse_sublist.1 (by rwa [List.reverse_reverse]))
    (List.reverse_sublist.1 (by rwa [List.reverse_reverse]))
  rwa [List.length_reverse] at fewer

theorem longest_suffix (back old new : List α) (n : Nat) (rest : Longest old new n) :
    Longest (old ++ back) (new ++ back) (n + back.length) := by
  have turned := longest_prefix back.reverse _ _ n (longest_reverse old new n rest)
  have whole := longest_reverse _ _ _ turned
  rwa [List.reverse_append, List.reverse_append, List.reverse_reverse, List.reverse_reverse,
    List.reverse_reverse, List.length_reverse, Nat.add_comm] at whole

/-- Names that tell the items apart have a longest common subsequence of the same length. -/
theorem longest_of_map (f : α → β) (old new : List α) (n : Nat)
    (apart : ∀ x ∈ old, ∀ y ∈ new, f x = f y → x = y)
    (named : Longest (old.map f) (new.map f) n) : Longest old new n := by
  obtain ⟨⟨names, left, right, rfl⟩, most⟩ := named
  obtain ⟨items, left', rfl⟩ := List.sublist_map_iff.1 left
  obtain ⟨items', right', same⟩ := List.sublist_map_iff.1 right
  have equal : items = items' := by
    have inside : ∀ x ∈ items, ∀ y ∈ items', f x = f y → x = y := fun x listed y listed' =>
      apart x (left'.subset listed) y (right'.subset listed')
    clear left left' right right' most apart
    induction items generalizing items' with
    | nil =>
      rw [List.map_nil, eq_comm, List.map_eq_nil_iff] at same
      exact same.symm
    | cons x items ih =>
      cases items' with
      | nil => cases same
      | cons y items' =>
        obtain ⟨first, rest⟩ := List.cons.inj same
        rw [inside x (by simp) y (by simp) first, ih items' rest fun x listed y listed' =>
          inside x (by simp [listed]) y (by simp [listed'])]
  rw [List.length_map]
  refine ⟨⟨items, left', equal ▸ right', rfl⟩, ?_⟩
  intro others left right
  have fewer := most (others.map f) (left.map f) (right.map f)
  rwa [List.length_map, List.length_map] at fewer

section Table
variable [DecidableEq α]

/-- A row of the table above the row `below`. -/
def row (x : α) : List α → List Nat → List Nat
  | [], _ => [0]
  | y :: new, below =>
      let rest := row x new below.tail
      (if x = y then below.tail.headD 0 + 1 else max (below.headD 0) (rest.headD 0)) :: rest

def table : List α → List α → List (List Nat)
  | [], new => [List.replicate (new.length + 1) 0]
  | x :: old, new => row x new ((table old new).headD []) :: table old new

def cell (table : List (List Nat)) (i j : Nat) : Nat := (table.getD i []).getD j 0

/-- A row that holds the longest lengths from each place of `new` on. -/
def Holds (old new : List α) (row : List Nat) : Prop :=
  ∀ j, Longest old (new.drop j) (row.getD j 0)

theorem headD_getD (items : List Nat) : items.headD 0 = items.getD 0 0 := by
  cases items <;> rfl

theorem tail_getD (items : List Nat) (j : Nat) : items.tail.getD j 0 = items.getD (j + 1) 0 := by
  cases items <;> rfl

theorem holds_row (x : α) (old new : List α) (below : List Nat) (holds : Holds old new below) :
    Holds (x :: old) new (row x new below) := by
  induction new generalizing below with
  | nil =>
    intro j
    have zero : (row x [] below).getD j 0 = 0 := by cases j <;> rfl
    rw [zero, List.drop_nil]
    exact longest_nil_right _
  | cons y new ih =>
    have later : Holds old new below.tail := by
      intro j
      rw [tail_getD]
      exact holds (j + 1)
    have rest := ih below.tail later
    intro j
    cases j with
    | succ j => exact rest j
    | zero =>
      rw [row, List.getD_cons_zero, List.drop_zero]
      split_ifs with same
      · rw [same, headD_getD]
        exact longest_same y old new _ (later 0)
      · rw [headD_getD, headD_getD]
        exact longest_other x y same old new _ _ (holds 0) (rest 0)

theorem getD_zeros (count j : Nat) : (List.replicate count 0).getD j 0 = 0 := by
  rw [List.getD_eq_getElem?_getD, List.getElem?_replicate]
  split_ifs <;> rfl

theorem longest_cell (old new : List α) (i j : Nat) :
    Longest (old.drop i) (new.drop j) (cell (table old new) i j) := by
  have first (old : List α) : Holds old new ((table old new).headD []) := by
    induction old with
    | nil =>
      intro j
      have zero : ((table ([] : List α) new).headD []).getD j 0 = 0 := getD_zeros _ j
      rw [zero]
      exact longest_nil_left _
    | cons x old ih => exact holds_row x old new _ ih
  induction old generalizing i with
  | nil =>
    rw [List.drop_nil]
    have zero : cell (table ([] : List α) new) i j = 0 := by
      cases i with
      | zero => exact getD_zeros _ j
      | succ i => rfl
    rw [zero]
    exact longest_nil_left _
  | cons x old ih =>
    cases i with
    | zero => exact first (x :: old) j
    | succ i => exact ih i

end Table

end DeepDiffForge.Subsequence
