import DeepDiffForge.Lib.Text

/-! Texts of a fixed shape, item by item, and what stands at the end of a list. -/

namespace DeepDiffForge.Shapes
open Text

variable {α : Type}

def fits : List (α → Bool) → List α → Bool
  | [], [] => true
  | test :: tests, item :: items => test item && fits tests items
  | _, _ => false

def endsIn (shape : List (α → Bool)) (items : List α) : Bool :=
  fits shape (items.drop (items.length - shape.length))

def lastRun (test : α → Bool) (items : List α) : Nat := (items.reverse.takeWhile test).length

theorem fits_length (shape : List (α → Bool)) (items : List α) (good : fits shape items = true) :
    items.length = shape.length := by
  induction shape generalizing items with
  | nil =>
    cases items with
    | nil => rfl
    | cons => cases good
  | cons test shape ih =>
    cases items with
    | nil => cases good
    | cons item items =>
      rw [fits, Bool.and_eq_true] at good
      rw [List.length_cons, List.length_cons, ih items good.2]

theorem fits_append (one two : List (α → Bool)) (first second : List α)
    (same : first.length = one.length) :
    fits (one ++ two) (first ++ second) = (fits one first && fits two second) := by
  induction one generalizing first with
  | nil =>
    rw [List.length_eq_zero_iff.1 same]
    rfl
  | cons test one ih =>
    cases first with
    | nil => cases same
    | cons item first =>
      simp only [List.cons_append, fits, ih first (Nat.succ.inj same), Bool.and_assoc]

theorem fits_append_iff (one two : List (α → Bool)) (items : List α) :
    fits (one ++ two) items = true ↔
      ∃ first second, items = first ++ second ∧ fits one first = true ∧ fits two second = true := by
  constructor
  · intro good
    have size := fits_length _ items good
    rw [List.length_append] at size
    have first : (items.take one.length).length = one.length := by
      rw [List.length_take]
      omega
    rw [← List.take_append_drop one.length items, fits_append one two _ _ first,
      Bool.and_eq_true] at good
    exact ⟨_, _, (List.take_append_drop _ items).symm, good⟩
  · intro split
    obtain ⟨first, second, rfl, good⟩ := split
    rw [fits_append one two first second (fits_length one first good.1), Bool.and_eq_true]
    exact good

theorem fits_mem (shape : List (α → Bool)) (items : List α) (good : fits shape items = true) :
    ∀ item ∈ items, ∃ test ∈ shape, test item = true := by
  induction shape generalizing items with
  | nil =>
    cases items with
    | nil => exact fun _ listed => absurd listed List.not_mem_nil
    | cons => cases good
  | cons test shape ih =>
    cases items with
    | nil => cases good
    | cons first items =>
      rw [fits, Bool.and_eq_true] at good
      intro item listed
      rcases List.mem_cons.1 listed with same | later
      · exact ⟨test, List.mem_cons_self, same ▸ good.1⟩
      · obtain ⟨test, listed, passes⟩ := ih items good.2 item later
        exact ⟨test, List.mem_cons_of_mem _ listed, passes⟩

theorem fits_test (shape : List (α → Bool)) (items : List α) (good : fits shape items = true) :
    ∀ test ∈ shape, ∃ item ∈ items, test item = true := by
  induction shape generalizing items with
  | nil => exact fun _ listed => absurd listed List.not_mem_nil
  | cons first shape ih =>
    cases items with
    | nil => cases good
    | cons item items =>
      rw [fits, Bool.and_eq_true] at good
      intro test listed
      rcases List.mem_cons.1 listed with same | later
      · exact ⟨item, List.mem_cons_self, same ▸ good.1⟩
      · obtain ⟨item, listed, passes⟩ := ih items good.2 test later
        exact ⟨item, List.mem_cons_of_mem _ listed, passes⟩

theorem endsIn_iff (shape : List (α → Bool)) (items : List α) :
    endsIn shape items = true ↔ ∃ before tail, items = before ++ tail ∧ fits shape tail = true := by
  constructor
  · intro good
    exact ⟨_, _, (List.take_append_drop _ items).symm, good⟩
  · intro split
    obtain ⟨before, tail, rfl, good⟩ := split
    have same := fits_length shape tail good
    unfold endsIn
    rw [List.length_append, same, Nat.add_sub_cancel, List.drop_left]
    exact good

theorem endsIn_append (shape : List (α → Bool)) (before tail : List α)
    (good : fits shape tail = true) : endsIn shape (before ++ tail) = true :=
  (endsIn_iff shape _).2 ⟨before, tail, rfl, good⟩

theorem endsIn_inside (shape : List (α → Bool)) (before tail : List α)
    (room : shape.length ≤ tail.length) (good : endsIn shape (before ++ tail) = true) :
    ∃ skipped last, tail = skipped ++ last ∧ fits shape last = true := by
  obtain ⟨before', last, same, good⟩ := (endsIn_iff _ _).1 good
  have size := fits_length shape last good
  rcases List.append_eq_append_iff.1 same with inside | outside
  · obtain ⟨skipped, -, split⟩ := inside
    exact ⟨skipped, last, split, good⟩
  · obtain ⟨more, -, split⟩ := outside
    have empty : more = [] := by
      apply List.eq_nil_of_length_eq_zero
      have lengths := congrArg List.length split
      rw [List.length_append] at lengths
      omega
    exact ⟨[], last, by rw [split, empty]; rfl, good⟩

theorem lastRun_run (test : α → Bool) (before run : List α)
    (all : ∀ item ∈ run, test item = true)
    (stops : ∀ item ∈ before.getLast?, test item = false) :
    lastRun test (before ++ run) = run.length := by
  have taken := (takeWhile_run test run.reverse before.reverse
    (fun item listed => all item (List.mem_reverse.1 listed))
    (by rw [List.head?_reverse]; exact stops)).1
  rw [lastRun, List.reverse_append, taken, List.length_reverse]

theorem lastRun_split (test : α → Bool) (items : List α) :
    ∃ before run, items = before ++ run ∧ run.length = lastRun test items ∧
      (∀ item ∈ run, test item = true) ∧ ∀ item ∈ before.getLast?, test item = false := by
  refine ⟨(items.reverse.dropWhile test).reverse, (items.reverse.takeWhile test).reverse,
    ?_, List.length_reverse, ?_, ?_⟩
  · rw [← List.reverse_append, List.takeWhile_append_dropWhile, List.reverse_reverse]
  · intro item listed
    exact List.mem_takeWhile_imp (List.mem_reverse.1 listed)
  · intro item last
    rw [List.getLast?_reverse] at last
    exact dropWhile_stops test items.reverse item last

theorem lastRun_unique (test : α → Bool) (before before' run run' : List α) (item item' : α)
    (all : ∀ x ∈ run, test x = true) (all' : ∀ x ∈ run', test x = true)
    (stops : test item = false) (stops' : test item' = false)
    (same : before ++ item :: run = before' ++ item' :: run') : item = item' := by
  have one := lastRun_run test (before ++ [item]) run all (by simpa using stops)
  have two := lastRun_run test (before' ++ [item']) run' all' (by simpa using stops')
  rw [List.append_assoc, List.singleton_append] at one two
  rw [same, two] at one
  rw [List.append_cons, List.append_cons before'] at same
  have fronts := (List.append_inj' same one.symm).1
  exact (List.cons.inj (List.append_inj' fronts rfl).2).1

theorem lastRun_le (test : α → Bool) (items : List α) : lastRun test items ≤ items.length := by
  unfold lastRun
  calc (items.reverse.takeWhile test).length
      ≤ items.reverse.length := (List.takeWhile_sublist test).length_le
    _ = items.length := List.length_reverse

end DeepDiffForge.Shapes
