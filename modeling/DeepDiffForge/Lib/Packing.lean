import Mathlib.Algebra.GroupWithZero.Nat
import Mathlib.Data.List.Chain

/-! Items put into groups of a limited size, each into the group under way while it has room, and
the items from the front that one budget holds. -/

namespace DeepDiffForge.Packing

section
variable {α : Type} (limit : Nat) (size charge : α → Nat)

/-- The groups from the one under way on: an item opens a new one where it no longer fits, and is
charged to the group it goes into. -/
def packFrom : List α → Nat → List α → List (List α)
  | group, _, [] => if group.isEmpty then [] else [group]
  | group, used, item :: rest =>
      if limit < used + size item && !group.isEmpty then
        group :: packFrom [item] (charge item) rest
      else packFrom (group ++ [item]) (used + charge item) rest

def pack (items : List α) : List (List α) := packFrom limit size charge [] 0 items

def total (group : List α) : Nat := (group.map charge).sum

theorem total_append (one two : List α) :
    total charge (one ++ two) = total charge one + total charge two := by
  rw [total, List.map_append, List.sum_append]
  rfl

theorem total_singleton (item : α) : total charge [item] = charge item := Nat.add_zero _

theorem flatten_packFrom (group items : List α) (used : Nat) :
    (packFrom limit size charge group used items).flatten = group ++ items := by
  induction items generalizing group used with
  | nil =>
    cases group with
    | nil => rfl
    | cons item group => rfl
  | cons item rest ih =>
    rw [packFrom]
    split
    · rw [List.flatten_cons, ih, List.singleton_append]
    · rw [ih, List.append_assoc, List.singleton_append]

theorem packFrom_filled (group items : List α) (used : Nat) :
    ∀ packed ∈ packFrom limit size charge group used items, packed ≠ [] := by
  induction items generalizing group used with
  | nil =>
    cases group with
    | nil => simp [packFrom]
    | cons item group => simp [packFrom]
  | cons item rest ih =>
    rw [packFrom]
    split
    · rename_i full
      rw [Bool.and_eq_true, Bool.not_eq_true'] at full
      exact List.forall_mem_cons.2 ⟨List.isEmpty_eq_false_iff.1 full.2, ih [item] _⟩
    · exact ih _ _

theorem packFrom_within (group items : List α) (used : Nat) (under : used = total charge group)
    (charged : ∀ item, charge item ≤ limit ∧ charge item ≤ size item) (within : used ≤ limit) :
    ∀ packed ∈ packFrom limit size charge group used items, total charge packed ≤ limit := by
  induction items generalizing group used with
  | nil =>
    cases group with
    | nil => simp [packFrom]
    | cons item group =>
      intro packed listed
      obtain rfl := List.mem_singleton.1 listed
      exact under ▸ within
  | cons item rest ih =>
    rw [packFrom]
    split
    · refine List.forall_mem_cons.2 ⟨under ▸ within, ?_⟩
      exact ih [item] _ (total_singleton charge item).symm (charged item).1
    · rename_i room
      refine ih _ _ (by rw [total_append, total_singleton, under]) ?_
      rw [Bool.and_eq_true, decide_eq_true_eq, Bool.not_eq_true'] at room
      have least := charged item
      by_cases empty : group = []
      · obtain rfl : used = 0 := by rw [under, empty]; rfl
        omega
      · have fits : ¬ limit < used + size item := fun full =>
          room ⟨full, List.isEmpty_eq_false_iff.2 empty⟩
        omega

theorem head_packFrom (item : α) (group items : List α) (used : Nat) :
    ∃ first groups, packFrom limit size charge (item :: group) used items = first :: groups ∧
      first.head? = some item := by
  induction items generalizing group used with
  | nil => exact ⟨item :: group, [], rfl, rfl⟩
  | cons other rest ih =>
    rw [packFrom]
    split
    · exact ⟨item :: group, _, rfl, rfl⟩
    · exact ih (group ++ [other]) _

/-- A group had no room for the item the next one begins with. -/
theorem packFrom_chain (group items : List α) (used : Nat) (under : used = total charge group) :
    (packFrom limit size charge group used items).IsChain fun one two =>
      ∀ item ∈ two.head?, limit < total charge one + size item := by
  induction items generalizing group used with
  | nil =>
    cases group with
    | nil => exact .nil
    | cons item group => exact .singleton _
  | cons item rest ih =>
    rw [packFrom]
    split
    · rename_i full
      have later := ih [item] _ (total_singleton charge item).symm
      obtain ⟨first, groups, same, head⟩ :=
        head_packFrom limit size charge item [] rest (charge item)
      rw [same] at later ⊢
      refine .cons_cons (fun other found => ?_) later
      obtain rfl : item = other := Option.some.inj (head.symm.trans found)
      rw [Bool.and_eq_true, decide_eq_true_eq] at full
      exact under ▸ full.1
    · exact ih _ _ (by rw [total_append, total_singleton, under])

/-- Items that take one each fill every group but the last. -/
theorem length_packFrom (group items : List α) (used : Nat) (under : used = group.length)
    (within : used ≤ limit) (positive : 0 < limit)
    (unit : ∀ item ∈ items, size item = 1 ∧ charge item = 1) :
    (packFrom limit size charge group used items).length =
      (group.length + items.length + limit - 1) / limit := by
  induction items generalizing group used with
  | nil =>
    cases group with
    | nil =>
      have absent : 0 = (limit - 1) / limit := (Nat.div_eq_of_lt (by omega)).symm
      rw [packFrom, List.length_nil, Nat.zero_add]
      exact absent
    | cons item group =>
      have once : ((item :: group).length + ([] : List α).length + limit - 1) / limit = 1 := by
        rw [List.length_cons] at under
        rw [List.length_cons, List.length_nil, Nat.add_zero]
        exact Nat.div_eq_of_lt_le (by omega) (by omega)
      rw [once]
      rfl
  | cons item rest ih =>
    obtain ⟨taken, charged⟩ := unit item List.mem_cons_self
    have later := fun other listed => unit other (List.mem_cons_of_mem item listed)
    rw [packFrom, taken, charged]
    by_cases full : limit < used + 1
    · have filled : group.isEmpty = false := by
        cases group with
        | nil => rw [under, List.length_nil] at full; omega
        | cons first group => rfl
      rw [if_pos (by rw [filled, decide_eq_true full]; rfl), List.length_cons,
        ih [item] 1 rfl positive later, List.length_singleton, List.length_cons]
      have whole : group.length + (rest.length + 1) + limit - 1 =
          (1 + rest.length + limit - 1) + limit := by omega
      rw [whole, Nat.add_div_right _ positive]
    · rw [if_neg (by rw [decide_eq_false full]; exact Bool.false_ne_true),
        ih (group ++ [item]) (used + 1) (by rw [List.length_append, under]; rfl) (by omega) later,
        List.length_append, List.length_singleton, List.length_cons]
      congr 2
      omega

/-- The items from the front, each as long as it fits what the ones before it left. -/
def front : Nat → List α → List α
  | _, [] => []
  | budget, item :: rest =>
      if charge item ≤ budget then item :: front (budget - charge item) rest else []

theorem front_prefix (budget : Nat) (items : List α) : front charge budget items <+: items := by
  induction items generalizing budget with
  | nil => exact List.nil_prefix
  | cons item rest ih =>
    rw [front]
    split_ifs
    · exact (List.prefix_cons_inj item).2 (ih _)
    · exact List.nil_prefix

theorem front_within (budget : Nat) (items : List α) :
    total charge (front charge budget items) ≤ budget := by
  induction items generalizing budget with
  | nil => exact Nat.zero_le budget
  | cons item rest ih =>
    rw [front]
    split_ifs with fits
    · have left := ih (budget - charge item)
      rw [total] at left ⊢
      rw [List.map_cons, List.sum_cons]
      omega
    · exact Nat.zero_le budget

theorem front_longest (budget : Nat) (items longer : List α) (leads : longer <+: items)
    (fits : total charge longer ≤ budget) : longer <+: front charge budget items := by
  induction items generalizing budget longer with
  | nil => rwa [front]
  | cons item rest ih =>
    cases longer with
    | nil => exact List.nil_prefix
    | cons first longer =>
      obtain ⟨rfl, later⟩ := List.cons_prefix_cons.1 leads
      rw [total, List.map_cons, List.sum_cons] at fits
      rw [front, if_pos (by omega)]
      apply (List.prefix_cons_inj first).2
      apply ih _ _ later
      rw [total]
      omega

end

end DeepDiffForge.Packing
