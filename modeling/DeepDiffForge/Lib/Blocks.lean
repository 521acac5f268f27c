import Mathlib.Data.List.TakeWhile

/-! Lists laid out in blocks: an item that starts the block, then items that start none. Such a
layout reads back in one way only. -/

namespace DeepDiffForge.Blocks

variable {α β γ : Type}

def laid (blocks : List (α × List α)) : List α := blocks.flatMap fun block => block.1 :: block.2

/-- Every block starts where `starts` says, and nowhere else. -/
def Headed (starts : α → Bool) (blocks : List (α × List α)) : Prop :=
  ∀ block ∈ blocks, starts block.1 = true ∧ ∀ item ∈ block.2, starts item = false

theorem laid_cons (block : α × List α) (rest : List (α × List α)) :
    laid (block :: rest) = block.1 :: (block.2 ++ laid rest) :=
  List.flatMap_cons

theorem headed_cons (starts : α → Bool) (block : α × List α) (rest : List (α × List α))
    (headed : Headed starts (block :: rest)) :
    (starts block.1 = true ∧ ∀ item ∈ block.2, starts item = false) ∧ Headed starts rest :=
  List.forall_mem_cons.1 headed

theorem takeWhile_block (starts : α → Bool) (items : List α) (rest : List (α × List α))
    (inner : ∀ item ∈ items, starts item = false) (headed : Headed starts rest) :
    (items ++ laid rest).takeWhile (!starts ·) = items := by
  rw [List.takeWhile_append_of_pos fun item listed => by rw [inner item listed]; rfl]
  cases rest with
  | nil => exact List.append_nil items
  | cons block rest =>
    have first := (headed_cons starts block rest headed).1.1
    rw [laid_cons, List.takeWhile_cons_of_neg (by simp [first]), List.append_nil]

theorem laid_injective (starts : α → Bool) (one two : List (α × List α))
    (headed : Headed starts one) (headed' : Headed starts two) (same : laid one = laid two) :
    one = two := by
  induction one generalizing two with
  | nil =>
    cases two with
    | nil => rfl
    | cons block two =>
      rw [laid_cons] at same
      cases same
  | cons block one ih =>
    cases two with
    | nil =>
      rw [laid_cons] at same
      cases same
    | cons block' two =>
      obtain ⟨inner, rest⟩ := headed_cons starts block one headed
      obtain ⟨inner', rest'⟩ := headed_cons starts block' two headed'
      rw [laid_cons, laid_cons] at same
      obtain ⟨first, more⟩ := List.cons.inj same
      have items : block.2 = block'.2 := by
        rw [← takeWhile_block starts block.2 one inner.2 rest, more,
          takeWhile_block starts block'.2 two inner'.2 rest']
      rw [items] at more
      rw [ih two rest rest' (List.append_cancel_left more), Prod.ext first items]

/-- Lists mapped to the same are the same, where equal images come from equal items. -/
theorem map_unique (f g : β → γ) (one two : List β)
    (decides : ∀ x ∈ one, ∀ y ∈ two, f x = g y → x = y) (same : one.map f = two.map g) :
    one = two := by
  induction one generalizing two with
  | nil => exact (List.map_eq_nil_iff.1 same.symm).symm
  | cons x one ih =>
    cases two with
    | nil => cases same
    | cons y two =>
      obtain ⟨first, more⟩ := List.cons.inj same
      have head := decides x (List.mem_cons_self ..) y (List.mem_cons_self ..) first
      have tail := ih two (fun x listed y listed' => decides x (List.mem_cons_of_mem _ listed) y
        (List.mem_cons_of_mem _ listed')) more
      rw [head, tail]

end DeepDiffForge.Blocks
