import Mathlib.Data.List.Basic

/-! Lists whose items each name the hash of the one before. -/

namespace DeepDiffForge.HashChain

variable {α η : Type} (hash prev : α → η)

def Linked : η → List α → Prop
  | _, [] => True
  | last, item :: items => prev item = last ∧ Linked (hash item) items

theorem linked_first (start : η) (items : List α) (linked : Linked hash prev start items)
    (item : α) (here : items[0]? = some item) : prev item = start := by
  cases items with
  | nil => cases here
  | cons head items =>
    obtain rfl := Option.some.inj here
    exact linked.1

theorem linked_next (start : η) (items : List α) (linked : Linked hash prev start items) (i : Nat)
    (item later : α) (here : items[i]? = some item) (next : items[i + 1]? = some later) :
    prev later = hash item := by
  induction items generalizing start i with
  | nil => cases here
  | cons head items ih =>
    cases i with
    | zero =>
      obtain rfl := Option.some.inj here
      exact linked_first hash prev (hash head) items linked.2 later next
    | succ i => exact ih (hash head) linked.2 i here next

/-- Items that no hash confuses, in two lists that have the same hash at one place, are the same up
to that place. -/
theorem take_of_hash (start start' : η) (first second : List α)
    (linked : Linked hash prev start first) (linked' : Linked hash prev start' second)
    (unique : ∀ a ∈ first, ∀ b ∈ second, hash a = hash b → a = b) (i : Nat) (a b : α)
    (here : first[i]? = some a) (there : second[i]? = some b) (same : hash a = hash b) :
    first.take (i + 1) = second.take (i + 1) := by
  have last (i : Nat) (items : List α) (item : α) (found : items[i]? = some item) :
      items.take (i + 1) = items.take i ++ [item] := by
    rw [List.take_add_one, found]
    rfl
  have before (i : Nat) (items : List α) (item : α) (found : items[i + 1]? = some item) :
      ∃ item, items[i]? = some item := by
    have within := (List.getElem?_eq_some_iff.1 found).1
    exact ⟨_, List.getElem?_eq_getElem (Nat.lt_of_succ_lt within)⟩
  induction i generalizing a b with
  | zero =>
    obtain rfl := unique a (List.mem_of_getElem? here) b (List.mem_of_getElem? there) same
    rw [last 0 first a here, last 0 second a there]
    rfl
  | succ i ih =>
    obtain rfl := unique a (List.mem_of_getElem? here) b (List.mem_of_getElem? there) same
    obtain ⟨c, here'⟩ := before i first a here
    obtain ⟨d, there'⟩ := before i second a there
    have hashes : hash c = hash d :=
      (linked_next hash prev start first linked i c a here' here).symm.trans
        (linked_next hash prev start' second linked' i d a there' there)
    rw [last (i + 1) first a here, last (i + 1) second a there, ih c d here' there' hashes]

end DeepDiffForge.HashChain
