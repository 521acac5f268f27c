import Mathlib.Data.List.Basic

/-! Edit scripts over two sequences: operations on positions, in merged order, and what it means
that a script leads from one pair of positions to another. -/

namespace DeepDiffForge.Script

inductive Op where
  | equal (old new : Nat)
  | delete (old : Nat)
  | insert (new : Nat)
  deriving DecidableEq, Repr

def Op.old? : Op → Option Nat
  | .equal i _ => some i
  | .delete i => some i
  | .insert _ => none

def Op.new? : Op → Option Nat
  | .equal _ j => some j
  | .delete _ => none
  | .insert j => some j

def Op.shift (old new : Nat) : Op → Op
  | .equal i j => .equal (old + i) (new + j)
  | .delete i => .delete (old + i)
  | .insert j => .insert (new + j)

/-- The operations lead from one pair of positions to another without gap or overlap, and pair
only positions that are the same. -/
inductive Aligns (same : Nat → Nat → Prop) : Nat × Nat → List Op → Nat × Nat → Prop where
  | done (i j : Nat) : Aligns same (i, j) [] (i, j)
  | equal (i j : Nat) (ops : List Op) (stop : Nat × Nat) (pair : same i j)
      (later : Aligns same (i + 1, j + 1) ops stop) : Aligns same (i, j) (.equal i j :: ops) stop
  | delete (i j : Nat) (ops : List Op) (stop : Nat × Nat)
      (later : Aligns same (i + 1, j) ops stop) : Aligns same (i, j) (.delete i :: ops) stop
  | insert (i j : Nat) (ops : List Op) (stop : Nat × Nat)
      (later : Aligns same (i, j + 1) ops stop) : Aligns same (i, j) (.insert j :: ops) stop

section Rules
variable (same : Nat → Nat → Prop)

theorem aligns_append (start middle stop : Nat × Nat) (first second : List Op)
    (one : Aligns same start first middle) (two : Aligns same middle second stop) :
    Aligns same start (first ++ second) stop := by
  induction one with
  | done => exact two
  | equal i j ops _ pair later ih => exact .equal i j _ _ pair (ih two)
  | delete i j ops _ later ih => exact .delete i j _ _ (ih two)
  | insert i j ops _ later ih => exact .insert i j _ _ (ih two)

theorem aligns_le (start stop : Nat × Nat) (ops : List Op) (aligns : Aligns same start ops stop) :
    start.1 ≤ stop.1 ∧ start.2 ≤ stop.2 := by
  induction aligns with
  | done => exact ⟨Nat.le_refl _, Nat.le_refl _⟩
  | equal => omega
  | delete => omega
  | insert => omega

/-- A script between two parts, read as one between the wholes. -/
theorem aligns_shift (whole : Nat → Nat → Prop) (shift start stop : Nat × Nat) (ops : List Op)
    (aligns : Aligns same start ops stop)
    (within : ∀ i j, i < stop.1 → j < stop.2 → same i j → whole (shift.1 + i) (shift.2 + j)) :
    Aligns whole (shift.1 + start.1, shift.2 + start.2) (ops.map (Op.shift shift.1 shift.2))
      (shift.1 + stop.1, shift.2 + stop.2) := by
  induction aligns with
  | done => exact .done _ _
  | equal i j ops stop pair later ih =>
    have ends := aligns_le same _ _ _ later
    exact .equal _ _ _ _ (within i j (by omega) (by omega) pair) (ih within)
  | delete i j ops stop later ih => exact .delete _ _ _ _ (ih within)
  | insert i j ops stop later ih => exact .insert _ _ _ _ (ih within)

theorem aligns_deletes (start new count : Nat) :
    Aligns same (start, new) ((List.range count).map fun k => .delete (start + k))
      (start + count, new) := by
  induction count generalizing start with
  | zero => exact .done _ _
  | succ count ih =>
    have rest := ih (start + 1)
    rw [List.range_succ_eq_map, List.map_cons, List.map_map]
    refine .delete start new _ _ ?_
    simpa only [Function.comp_def, Nat.succ_eq_add_one, Nat.add_assoc, Nat.add_comm 1,
      Nat.add_left_comm] using rest

theorem aligns_inserts (old start count : Nat) :
    Aligns same (old, start) ((List.range count).map fun k => .insert (start + k))
      (old, start + count) := by
  induction count generalizing start with
  | zero => exact .done _ _
  | succ count ih =>
    have rest := ih (start + 1)
    rw [List.range_succ_eq_map, List.map_cons, List.map_map]
    refine .insert old start _ _ ?_
    simpa only [Function.comp_def, Nat.succ_eq_add_one, Nat.add_assoc, Nat.add_comm 1,
      Nat.add_left_comm] using rest

theorem aligns_equals (old new count : Nat)
    (pairs : ∀ k < count, same (old + k) (new + k)) :
    Aligns same (old, new) ((List.range count).map fun k => .equal (old + k) (new + k))
      (old + count, new + count) := by
  induction count generalizing old new with
  | zero => exact .done _ _
  | succ count ih =>
    have rest := ih (old + 1) (new + 1) fun k within => by
      have pair := pairs (k + 1) (by omega)
      rw [Nat.add_right_comm old, Nat.add_right_comm new]
      exact pair
    rw [List.range_succ_eq_map, List.map_cons, List.map_map]
    refine .equal old new _ _ (pairs 0 (by omega)) ?_
    simpa only [Function.comp_def, Nat.succ_eq_add_one, Nat.add_assoc, Nat.add_comm 1,
      Nat.add_left_comm] using rest

/-- Every old position between the ends is named once, in order. -/
theorem aligns_old (start stop : Nat × Nat) (ops : List Op) (aligns : Aligns same start ops stop) :
    ops.filterMap Op.old? = List.range' start.1 (stop.1 - start.1) := by
  induction aligns with
  | done i j =>
    rw [Nat.sub_self]
    rfl
  | equal i j ops stop pair later ih =>
    have ends := aligns_le same _ _ _ later
    have width : stop.1 - i = stop.1 - (i + 1) + 1 := by omega
    change i :: ops.filterMap Op.old? = List.range' i (stop.1 - i)
    rw [ih, width, List.range'_succ]
  | delete i j ops stop later ih =>
    have ends := aligns_le same _ _ _ later
    have width : stop.1 - i = stop.1 - (i + 1) + 1 := by omega
    change i :: ops.filterMap Op.old? = List.range' i (stop.1 - i)
    rw [ih, width, List.range'_succ]
  | insert i j ops stop later ih =>
    rw [List.filterMap_cons_none rfl, ih]

/-- Every new position between the ends is named once, in order. -/
theorem aligns_new (start stop : Nat × Nat) (ops : List Op) (aligns : Aligns same start ops stop) :
    ops.filterMap Op.new? = List.range' start.2 (stop.2 - start.2) := by
  induction aligns with
  | done i j =>
    rw [Nat.sub_self]
    rfl
  | equal i j ops stop pair later ih =>
    have ends := aligns_le same _ _ _ later
    have width : stop.2 - j = stop.2 - (j + 1) + 1 := by omega
    change j :: ops.filterMap Op.new? = List.range' j (stop.2 - j)
    rw [ih, width, List.range'_succ]
  | delete i j ops stop later ih =>
    rw [List.filterMap_cons_none rfl, ih]
  | insert i j ops stop later ih =>
    have ends := aligns_le same _ _ _ later
    have width : stop.2 - j = stop.2 - (j + 1) + 1 := by omega
    change j :: ops.filterMap Op.new? = List.range' j (stop.2 - j)
    rw [ih, width, List.range'_succ]

theorem aligns_same (start stop : Nat × Nat) (ops : List Op) (aligns : Aligns same start ops stop)
    (i j : Nat) (paired : .equal i j ∈ ops) : same i j := by
  induction aligns with
  | done => cases paired
  | equal i' j' ops stop pair later ih =>
    rcases List.mem_cons.1 paired with first | rest
    · obtain ⟨rfl, rfl⟩ := Op.equal.inj first
      exact pair
    · exact ih rest
  | delete i' j' ops stop later ih =>
    rcases List.mem_cons.1 paired with first | rest
    · cases first
    · exact ih rest
  | insert i' j' ops stop later ih =>
    rcases List.mem_cons.1 paired with first | rest
    · cases first
    · exact ih rest

/-- A script of pairs alone leads along a diagonal. -/
theorem aligns_diagonal (start stop : Nat × Nat) (ops : List Op)
    (aligns : Aligns same start ops stop)
    (paired : ∀ op ∈ ops, ∃ i j, op = .equal i j) :
    ∃ count, stop = (start.1 + count, start.2 + count) ∧
      ∀ k < count, same (start.1 + k) (start.2 + k) := by
  induction aligns with
  | done i j => exact ⟨0, rfl, fun k within => absurd within (Nat.not_lt_zero k)⟩
  | equal i j ops stop pair later ih =>
    obtain ⟨count, ends, pairs⟩ := ih fun op listed => paired op (by simp [listed])
    refine ⟨count + 1, ?_, ?_⟩
    · rw [ends]
      simp only [Nat.add_assoc, Nat.add_comm 1]
    · intro k within
      cases k with
      | zero => exact pair
      | succ k =>
        have next := pairs k (by omega)
        simpa only [Nat.add_assoc, Nat.add_comm 1] using next
  | delete i j ops stop later ih =>
    obtain ⟨_, _, impossible⟩ := paired (.delete i) (by simp)
    cases impossible
  | insert i j ops stop later ih =>
    obtain ⟨_, _, impossible⟩ := paired (.insert j) (by simp)
    cases impossible

end Rules

end DeepDiffForge.Script
