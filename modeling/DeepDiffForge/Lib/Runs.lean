import Mathlib.Algebra.GroupWithZero.Nat
import Mathlib.Data.List.Nodup
import Mathlib.Data.List.Perm.Basic
import Mathlib.Data.List.TakeWhile

/-! Maximal runs of the items that share a property. -/

namespace DeepDiffForge.Runs

variable {α : Type} (p : α → Bool)

/-- A stretch of items with the property that no item next to it has. -/
structure Maximal (items : List α) (run : Nat × Nat) : Prop where
  grows : run.1 < run.2
  inside : ∀ k, run.1 ≤ k → k < run.2 → ∃ x, items[k]? = some x ∧ p x = true
  stops : ∀ x, items[run.2]? = some x → p x = false
  starts : ∀ k x, run.1 = k + 1 → items[k]? = some x → p x = false

theorem maximal_nil (run : Nat × Nat) : ¬Maximal p [] run := by
  intro maximal
  obtain ⟨x, held, -⟩ := maximal.inside run.1 (Nat.le_refl _) maximal.grows
  cases held

/-- Two maximal runs that share a place are one. -/
theorem maximal_unique (items : List α) (one two : Nat × Nat) (first : Maximal p items one)
    (second : Maximal p items two) (k : Nat) (inOne : one.1 ≤ k ∧ k < one.2)
    (inTwo : two.1 ≤ k ∧ k < two.2) : one = two := by
  have start (one two : Nat × Nat) (first : Maximal p items one) (second : Maximal p items two)
      (inOne : one.1 ≤ k ∧ k < one.2) (inTwo : two.1 ≤ k ∧ k < two.2) : two.1 ≤ one.1 := by
    by_contra before
    obtain ⟨x, held, has⟩ := first.inside (two.1 - 1) (by omega) (by omega)
    rw [second.starts (two.1 - 1) x (by omega) held] at has
    cases has
  have stop (one two : Nat × Nat) (first : Maximal p items one) (second : Maximal p items two)
      (inOne : one.1 ≤ k ∧ k < one.2) (inTwo : two.1 ≤ k ∧ k < two.2) : one.2 ≤ two.2 := by
    by_contra after
    obtain ⟨x, held, has⟩ := first.inside two.2 (by omega) (by omega)
    rw [second.stops x held] at has
    cases has
  apply Prod.ext
  · exact Nat.le_antisymm (start two one second first inTwo inOne)
      (start one two first second inOne inTwo)
  · exact Nat.le_antisymm (stop one two first second inOne inTwo)
      (stop two one second first inTwo inOne)

theorem maximal_shift (front rest : List α) (run : Nat × Nat) (maximal : Maximal p rest run)
    (clear : run.1 = 0 → ∀ x ∈ front.getLast?, p x = false) :
    Maximal p (front ++ rest) (front.length + run.1, front.length + run.2) := by
  obtain ⟨grows, inside, stops, starts⟩ := maximal
  refine ⟨Nat.add_lt_add_left grows _, ?_, ?_, ?_⟩
  · intro k low high
    dsimp only at low high
    obtain ⟨l, rfl⟩ := Nat.exists_eq_add_of_le (Nat.le_trans (Nat.le_add_right _ _) low)
    rw [List.getElem?_append_right (Nat.le_add_right _ _), Nat.add_sub_cancel_left]
    exact inside l (by omega) (by omega)
  · intro x held
    rw [List.getElem?_append_right (Nat.le_add_right _ _), Nat.add_sub_cancel_left] at held
    exact stops x held
  · intro k x place held
    dsimp only at place
    rcases Nat.eq_zero_or_pos run.1 with zero | positive
    · have last : front.getLast? = some x := by
        rw [List.getLast?_eq_getElem?, ← held, List.getElem?_append_left (by omega)]
        congr 1
        omega
      exact clear zero x last
    · obtain ⟨l, rfl⟩ := Nat.exists_eq_add_of_le (show front.length ≤ k by omega)
      rw [List.getElem?_append_right (Nat.le_add_right _ _), Nat.add_sub_cancel_left] at held
      exact starts l x (by omega) held

theorem maximal_unshift (front rest : List α) (run : Nat × Nat)
    (maximal : Maximal p (front ++ rest) run) (after : front.length ≤ run.1) :
    Maximal p rest (run.1 - front.length, run.2 - front.length) := by
  obtain ⟨grows, inside, stops, starts⟩ := maximal
  have place (k : Nat) : (front ++ rest)[front.length + k]? = rest[k]? := by
    rw [List.getElem?_append_right (Nat.le_add_right _ _), Nat.add_sub_cancel_left]
  refine ⟨by dsimp only; omega, ?_, ?_, ?_⟩
  · intro k low high
    dsimp only at low high
    rw [← place]
    exact inside _ (by omega) (by omega)
  · intro x held
    dsimp only at held
    rw [← place, Nat.add_sub_cancel' (by omega)] at held
    exact stops x held
  · intro k x own held
    dsimp only at own
    rw [← place] at held
    exact starts _ x (by omega) held

/-- Items without the property hold no part of a run. -/
theorem maximal_skip (front rest : List α) (absent : ∀ x ∈ front, p x = false) (run : Nat × Nat) :
    Maximal p (front ++ rest) run ↔
      ∃ later, Maximal p rest later ∧ run = (front.length + later.1, front.length + later.2) := by
  constructor
  · intro maximal
    have after : front.length ≤ run.1 := by
      by_contra before
      obtain ⟨x, held, has⟩ := maximal.inside run.1 (Nat.le_refl _) maximal.grows
      rw [List.getElem?_append_left (by omega)] at held
      rw [absent x (List.mem_of_getElem? held)] at has
      cases has
    have grows := maximal.grows
    refine ⟨_, maximal_unshift p front rest run maximal after, ?_⟩
    apply Prod.ext <;> dsimp only <;> omega
  · rintro ⟨later, maximal, rfl⟩
    exact maximal_shift p front rest later maximal fun _ x last =>
      absent x (List.mem_of_getLast? last)

/-- Items with the property, before one without, are the first run. -/
theorem maximal_first (front rest : List α) (nonempty : front ≠ []) (all : ∀ x ∈ front, p x = true)
    (ends : ∀ x ∈ rest.head?, p x = false) (run : Nat × Nat) :
    Maximal p (front ++ rest) run ↔ run = (0, front.length) ∨
      ∃ later, Maximal p rest later ∧ run = (front.length + later.1, front.length + later.2) := by
  have positive := List.length_pos_iff.2 nonempty
  have next : (front ++ rest)[front.length]? = rest.head? := by
    rw [List.getElem?_append_right (Nat.le_refl _), Nat.sub_self, List.head?_eq_getElem?]
  have whole : Maximal p (front ++ rest) (0, front.length) := by
    refine ⟨positive, ?_, ?_, ?_⟩
    · intro k _ high
      dsimp only at high
      rw [List.getElem?_append_left high]
      exact ⟨front[k], List.getElem?_eq_getElem high, all _ (List.getElem_mem high)⟩
    · intro x held
      rw [next] at held
      exact ends x held
    · intro k x place
      cases place
  constructor
  · intro maximal
    by_cases before : run.1 < front.length
    · exact .inl (maximal_unique p _ run _ maximal whole run.1 ⟨Nat.le_refl _, maximal.grows⟩
        ⟨Nat.zero_le _, before⟩)
    · have grows := maximal.grows
      refine .inr ⟨_, maximal_unshift p front rest run maximal (Nat.not_lt.1 before), ?_⟩
      apply Prod.ext <;> dsimp only <;> omega
  · rintro (rfl | ⟨later, maximal, rfl⟩)
    · exact whole
    · refine maximal_shift p front rest later maximal fun zero x last => ?_
      obtain ⟨y, held, has⟩ := maximal.inside 0 (by omega) (by have := maximal.grows; omega)
      rw [ends y (by rw [List.head?_eq_getElem?]; exact held)] at has
      cases has

def indexes (run : Nat × Nat) : List Nat := List.range' run.1 (run.2 - run.1)

@[simp] theorem mem_indexes (run : Nat × Nat) (k : Nat) :
    k ∈ indexes run ↔ run.1 ≤ k ∧ k < run.2 := by
  rw [indexes, List.mem_range'_1]
  omega

theorem indexes_nodup (run : Nat × Nat) : (indexes run).Nodup := List.nodup_range'

/-- The runs of the items from `k` on, counted from `k`. -/
def RunFrom (k : Nat) (items : List α) (run : Nat × Nat) : Prop :=
  ∃ later, Maximal p items later ∧ run = (k + later.1, k + later.2)

theorem runFrom_skip (k : Nat) (front rest : List α)
    (clear : ∀ x ∈ front, p x = false) (run : Nat × Nat) :
    RunFrom p k (front ++ rest) run ↔ RunFrom p (k + front.length) rest run := by
  unfold RunFrom
  constructor
  · rintro ⟨here, maximal, rfl⟩
    obtain ⟨later, below, rfl⟩ := (maximal_skip p front rest clear here).1 maximal
    exact ⟨later, below, by rw [Nat.add_assoc, Nat.add_assoc]⟩
  · rintro ⟨later, maximal, rfl⟩
    exact ⟨_, (maximal_skip p front rest clear _).2 ⟨later, maximal, rfl⟩,
      by rw [Nat.add_assoc, Nat.add_assoc]⟩

theorem runFrom_first (k : Nat) (front rest : List α) (nonempty : front ≠ [])
    (all : ∀ x ∈ front, p x = true) (ends : ∀ x ∈ rest.head?, p x = false) (run : Nat × Nat) :
    RunFrom p k (front ++ rest) run ↔
      run = (k, k + front.length) ∨ RunFrom p (k + front.length) rest run := by
  unfold RunFrom
  constructor
  · rintro ⟨here, maximal, rfl⟩
    rcases (maximal_first p front rest nonempty all ends here).1 maximal with rfl | ⟨later, below, rfl⟩
    · exact .inl rfl
    · exact .inr ⟨later, below, by rw [Nat.add_assoc, Nat.add_assoc]⟩
  · rintro (rfl | ⟨later, maximal, rfl⟩)
    · exact ⟨_, (maximal_first p front rest nonempty all ends _).2 (.inl rfl), rfl⟩
    · exact ⟨_, (maximal_first p front rest nonempty all ends _).2 (.inr ⟨later, maximal, rfl⟩),
        by rw [Nat.add_assoc, Nat.add_assoc]⟩

theorem drop_takeWhile (items : List α) :
    items.drop (items.takeWhile p).length = items.dropWhile p := by
  calc items.drop (items.takeWhile p).length
      = (items.takeWhile p ++ items.dropWhile p).drop (items.takeWhile p).length := by
        rw [List.takeWhile_append_dropWhile]
    _ = items.dropWhile p := List.drop_left

/-- The items from one with the property on: its run, and what follows. -/
theorem run_split (x : α) (rest : List α) (has : p x = true) :
    ∃ front, x :: rest = front ++ rest.drop (rest.takeWhile p).length ∧
      front.length = (rest.takeWhile p).length + 1 ∧ (∀ x ∈ front, p x = true) ∧
      ∀ x ∈ (rest.drop (rest.takeWhile p).length).head?, p x = false := by
  refine ⟨x :: rest.takeWhile p, ?_, rfl, ?_, ?_⟩
  · rw [drop_takeWhile, List.cons_append, List.takeWhile_append_dropWhile]
  · intro other mem
    rcases List.mem_cons.1 mem with rfl | inside
    · exact has
    · exact List.mem_takeWhile_imp inside
  · intro other head
    rw [drop_takeWhile] at head
    have stops := List.head?_dropWhile_not p rest
    rw [Option.mem_def.1 head] at stops
    simpa using stops

theorem runFrom_zero (items : List α) (run : Nat × Nat) :
    RunFrom p 0 items run ↔ Maximal p items run := by
  constructor
  · rintro ⟨later, maximal, rfl⟩
    rwa [Nat.zero_add, Nat.zero_add]
  · intro maximal
    exact ⟨run, maximal, by rw [Nat.zero_add, Nat.zero_add]⟩

theorem ascending_nodup (runs : List (Nat × Nat))
    (ascend : runs.Pairwise fun one two => one.1 < two.1) : runs.Nodup := by
  refine ascend.imp fun {one two} less same => ?_
  subst same
  exact Nat.lt_irrefl _ less

/-- Different maximal runs share no place. -/
theorem indexes_apart (items : List α) (runs : List (Nat × Nat)) (once : runs.Nodup)
    (maximal : ∀ run ∈ runs, Maximal p items run) : (runs.flatMap indexes).Nodup := by
  rw [List.nodup_flatMap]
  refine ⟨fun run _ => indexes_nodup run, once.pairwise_of_forall_ne ?_⟩
  intro one first two second apart k inOne inTwo
  rw [mem_indexes] at inOne inTwo
  exact apart (maximal_unique p items one two (maximal one first) (maximal two second) k inOne inTwo)

theorem countP_runs (items : List α) (runs : List (Nat × Nat)) (once : runs.Nodup)
    (maximal : ∀ run ∈ runs, Maximal p items run) (q : α × Nat → Bool)
    (covers : ∀ k x, items[k]? = some x →
      (q (x, k) = true ↔ ∃ run ∈ runs, run.1 ≤ k ∧ k < run.2)) :
    items.zipIdx.countP q = (runs.map fun run => run.2 - run.1).sum := by
  have place (step : α × Nat) : step ∈ items.zipIdx ↔ items[step.2]? = some step.1 :=
    List.mk_mem_zipIdx_iff_getElem?
  have listed : ((items.zipIdx.filter q).map Prod.snd).Nodup := by
    have all : (items.zipIdx.map Prod.snd).Nodup := by
      rw [List.zipIdx_map_snd]
      exact List.nodup_range'
    exact all.sublist (List.filter_sublist.map Prod.snd)
  have same : ((items.zipIdx.filter q).map Prod.snd).Perm (runs.flatMap indexes) := by
    refine (List.perm_ext_iff_of_nodup listed (indexes_apart p items runs once maximal)).2 ?_
    intro k
    rw [List.mem_map, List.mem_flatMap]
    simp only [List.mem_filter, mem_indexes]
    constructor
    · rintro ⟨⟨x, l⟩, ⟨mem, counted⟩, rfl⟩
      exact (covers l x ((place _).1 mem)).1 counted
    · rintro ⟨run, mem, low, high⟩
      obtain ⟨x, held, -⟩ := (maximal run mem).inside k low high
      exact ⟨(x, k), ⟨(place _).2 held, (covers k x held).2 ⟨run, mem, low, high⟩⟩, rfl⟩
  calc items.zipIdx.countP q = ((items.zipIdx.filter q).map Prod.snd).length := by
        rw [List.length_map, List.countP_eq_length_filter]
    _ = (runs.flatMap indexes).length := same.length_eq
    _ = (runs.map fun run => run.2 - run.1).sum := by
        rw [List.length_flatMap]
        congr 1
        exact List.map_congr_left fun run _ => List.length_range'

end DeepDiffForge.Runs
