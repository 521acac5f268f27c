import Mathlib.Data.List.Basic

/-! Intervals taken greedily from a list, each that is filled and begins where the last one taken
has ended. -/

namespace DeepDiffForge.Greedy

variable {α : Type} (start stop : α → Nat)

def greedy : Nat → List α → List α
  | _, [] => []
  | cursor, item :: rest =>
      if cursor ≤ start item ∧ start item < stop item then item :: greedy (stop item) rest
      else greedy cursor rest

theorem greedy_sublist (cursor : Nat) (items : List α) :
    (greedy start stop cursor items).Sublist items := by
  induction items generalizing cursor with
  | nil => exact List.Sublist.slnil
  | cons item items ih =>
    rw [greedy]
    split
    · exact (ih _).cons_cons item
    · exact (ih _).cons item

theorem greedy_after (cursor : Nat) (items : List α) :
    ∀ kept ∈ greedy start stop cursor items, cursor ≤ start kept ∧ start kept < stop kept := by
  induction items generalizing cursor with
  | nil => exact fun kept listed => absurd listed List.not_mem_nil
  | cons item items ih =>
    rw [greedy]
    split
    · rename_i taken
      intro kept listed
      rcases List.mem_cons.1 listed with rfl | later
      · exact taken
      · have follows := ih _ kept later
        exact ⟨by omega, follows.2⟩
    · exact ih _

theorem greedy_disjoint (cursor : Nat) (items : List α) :
    (greedy start stop cursor items).Pairwise fun one two => stop one ≤ start two := by
  induction items generalizing cursor with
  | nil => exact List.Pairwise.nil
  | cons item items ih =>
    rw [greedy]
    split
    · exact List.pairwise_cons.2
        ⟨fun later listed => (greedy_after start stop _ items later listed).1, ih _⟩
    · exact ih _

/-- A filled interval overlaps one that was taken, unless it begins before the first place. -/
theorem greedy_overlaps (cursor : Nat) (items : List α)
    (sorted : items.Pairwise fun one two => start one ≤ start two) (item : α)
    (listed : item ∈ items) (filled : start item < stop item) :
    start item < cursor ∨ ∃ kept ∈ greedy start stop cursor items,
      start kept < stop item ∧ start item < stop kept := by
  induction items generalizing cursor with
  | nil => cases listed
  | cons first items ih =>
    rw [List.pairwise_cons] at sorted
    rw [greedy]
    split
    · rename_i taken
      right
      rcases List.mem_cons.1 listed with rfl | later
      · exact ⟨item, List.mem_cons_self, filled, filled⟩
      · have below := sorted.1 item later
        rcases ih (stop first) sorted.2 later with inside | ⟨kept, known, overlaps⟩
        · exact ⟨first, List.mem_cons_self, by omega, inside⟩
        · exact ⟨kept, List.mem_cons_of_mem _ known, overlaps⟩
    · rename_i dropped
      rcases List.mem_cons.1 listed with rfl | later
      · left
        by_contra past
        exact dropped ⟨Nat.le_of_not_lt past, filled⟩
      · exact ih cursor sorted.2 later

theorem greedy_shortest (cursor : Nat) (items : List α)
    (sorted : items.Pairwise fun one two => start one < start two ∨ start one = start two ∧
      stop one - start one ≤ stop two - start two)
    (kept item : α) (taken : kept ∈ greedy start stop cursor items) (listed : item ∈ items)
    (filled : start item < stop item) (same : start item = start kept) :
    stop kept ≤ stop item := by
  induction items generalizing cursor with
  | nil => cases listed
  | cons first items ih =>
    rw [List.pairwise_cons] at sorted
    rw [greedy] at taken
    split at taken
    · rename_i held
      rcases List.mem_cons.1 taken with rfl | later
      · rcases List.mem_cons.1 listed with rfl | behind
        · exact Nat.le_refl _
        · have order := sorted.1 item behind
          omega
      · have after := (greedy_after start stop _ items kept later).1
        rcases List.mem_cons.1 listed with rfl | behind
        · omega
        · exact ih _ sorted.2 later behind
    · rename_i dropped
      have after := (greedy_after start stop _ items kept taken).1
      rcases List.mem_cons.1 listed with rfl | behind
      · exact absurd ⟨by omega, filled⟩ dropped
      · exact ih _ sorted.2 taken behind

end DeepDiffForge.Greedy
