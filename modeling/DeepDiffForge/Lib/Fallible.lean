import Mathlib.Data.List.Flatten
import Mathlib.Data.List.Forall2

/-! Computations that stop at their first error, read back from what they return. -/

namespace DeepDiffForge.Fallible

theorem bind_eq_ok {ε α β : Type} (first : Except ε α) (next : α → Except ε β) (result : β) :
    (first >>= next) = .ok result ↔ ∃ value, first = .ok value ∧ next value = .ok result := by
  cases first <;> simp [bind, Except.bind]

/-- A run over a list that ends well read every item well. -/
theorem mapM_ok {α β ε : Type} (f : α → Except ε β) (items : List α) (results : List β)
    (accepted : items.mapM f = .ok results) :
    List.Forall₂ (fun item result => f item = .ok result) items results := by
  induction items generalizing results with
  | nil =>
    obtain rfl : [] = results := Except.ok.inj accepted
    exact .nil
  | cons item items ih =>
    rw [List.mapM_cons] at accepted
    obtain ⟨result, first, accepted⟩ := (bind_eq_ok _ _ _).1 accepted
    obtain ⟨others, rest, accepted⟩ := (bind_eq_ok _ _ _).1 accepted
    obtain rfl : result :: others = results := Except.ok.inj accepted
    exact .cons first (ih others rest)

/-- A list reads well exactly when each item does. -/
theorem mapM_all_ok {α β ε : Type} (f : α → Except ε β) (items : List α)
    (each : ∀ item ∈ items, ∃ result, f item = .ok result) :
    ∃ results, items.mapM f = .ok results := by
  induction items with
  | nil => exact ⟨[], rfl⟩
  | cons item items ih =>
    obtain ⟨result, first⟩ := each item List.mem_cons_self
    obtain ⟨results, rest⟩ := ih fun other listed => each other (List.mem_cons_of_mem _ listed)
    exact ⟨result :: results, by rw [List.mapM_cons, first, rest]; rfl⟩

theorem mapM_some {α β : Type} (f : α → Option β) (items : List α) (results : List β)
    (each : List.Forall₂ (fun item result => f item = some result) items results) :
    items.mapM f = some results := by
  induction each with
  | nil => rfl
  | cons first rest ih =>
    rw [List.mapM_cons, first, ih]
    rfl

theorem mapM_some_map {α β : Type} (f : α → Option β) (g : α → β) (items : List α)
    (each : ∀ item ∈ items, f item = some (g item)) : items.mapM f = some (items.map g) := by
  apply mapM_some
  rw [List.forall₂_map_right_iff]
  exact List.forall₂_same.2 each

theorem forall₂_left {α β : Type} (related : α → β → Prop) (items : List α) (results : List β)
    (each : List.Forall₂ related items results) (item : α) (member : item ∈ items) :
    ∃ result, related item result := by
  induction each with
  | nil => cases member
  | cons first rest ih =>
    rcases List.mem_cons.1 member with rfl | later
    · exact ⟨_, first⟩
    · exact ih later

theorem results_of_forall₂ {α β : Type} (related : α → β → Prop) (items : List α)
    (results : List β) (each : List.Forall₂ related items results) (result : β)
    (member : result ∈ results) : ∃ item ∈ items, related item result := by
  induction each with
  | nil => cases member
  | cons first rest ih =>
    rcases List.mem_cons.1 member with rfl | later
    · exact ⟨_, List.mem_cons_self .., first⟩
    · obtain ⟨item, listed, held⟩ := ih later
      exact ⟨item, List.mem_cons_of_mem _ listed, held⟩

theorem forall₂_append {α β : Type} (related : α → β → Prop) (first second : List α)
    (results : List β) :
    List.Forall₂ related (first ++ second) results ↔ ∃ front back, results = front ++ back ∧
      List.Forall₂ related first front ∧ List.Forall₂ related second back := by
  constructor
  · intro each
    induction first generalizing results with
    | nil => exact ⟨[], results, rfl, .nil, each⟩
    | cons item first ih =>
      obtain ⟨result, others, held, rest, rfl⟩ := List.forall₂_cons_left_iff.1 each
      obtain ⟨front, back, rfl, left, right⟩ := ih others rest
      exact ⟨result :: front, back, rfl, .cons held left, right⟩
  · rintro ⟨front, back, rfl, left, right⟩
    exact List.rel_append left right

theorem forall₂_concat {α β : Type} (related : α → β → Prop) (items : List α) (item : α)
    (results : List β) :
    List.Forall₂ related (items ++ [item]) results ↔ ∃ others result,
      results = others ++ [result] ∧ List.Forall₂ related items others ∧ related item result := by
  rw [forall₂_append]
  constructor
  · rintro ⟨others, back, rfl, front, last⟩
    obtain ⟨result, rest, held, empty, rfl⟩ := List.forall₂_cons_left_iff.1 last
    obtain rfl := List.forall₂_nil_left_iff.1 empty
    exact ⟨others, result, rfl, front, held⟩
  · rintro ⟨others, result, rfl, front, held⟩
    exact ⟨others, [result], rfl, front, .cons held .nil⟩

theorem map_of_forall₂ {α β γ : Type} (related : α → β → Prop) (f : α → γ) (g : β → γ)
    (same : ∀ item result, related item result → f item = g result) (items : List α)
    (results : List β) (each : List.Forall₂ related items results) :
    items.map f = results.map g := by
  induction each with
  | nil => rfl
  | cons first rest ih => rw [List.map_cons, List.map_cons, ih, same _ _ first]

theorem flatten_of_forall₂ {α β : Type} (f : α → List β) (items : List α)
    (results : List (List β))
    (same : List.Forall₂ (fun item result => result = f item) items results) :
    results.flatten = items.flatMap f := by
  induction same with
  | nil => rfl
  | cons first rest ih => rw [List.flatten_cons, List.flatMap_cons, first, ih]

/-- A loop that adds what it reads of each item reads every item, or stops at the first it cannot
read. -/
theorem foldlM_append {α β ε : Type} (f : α → Except ε (List β))
    (step : List β → α → Except ε (List β)) (items : List α) (start : List β)
    (each : ∀ item ∈ items, ∀ all, step all item = (f item).map (all ++ ·)) :
    items.foldlM step start = (items.mapM f).map (start ++ ·.flatten) := by
  induction items generalizing start with
  | nil => exact congrArg Except.ok (List.append_nil start).symm
  | cons item items ih =>
    rw [List.foldlM_cons, List.mapM_cons, each item List.mem_cons_self]
    cases f item with
    | error error => rfl
    | ok found =>
      change items.foldlM step (start ++ found) = _
      rw [ih _ fun other listed => each other (List.mem_cons_of_mem _ listed)]
      change _ = Except.map _ (items.mapM f >>= _)
      cases items.mapM f with
      | error error => rfl
      | ok lists => exact congrArg Except.ok (List.append_assoc ..)

theorem forM_ok {ε α : Type} (check : α → Except ε Unit) (items : List α) :
    items.forM check = .ok () ↔ ∀ item ∈ items, check item = .ok () := by
  induction items with
  | nil => exact ⟨fun _ => by simp, fun _ => rfl⟩
  | cons item items ih =>
    rw [List.forall_mem_cons, ← ih]
    change (check item >>= fun _ => items.forM check) = .ok () ↔ _
    constructor
    · intro all
      obtain ⟨⟨⟩, first, rest⟩ := (bind_eq_ok _ _ _).1 all
      exact ⟨first, rest⟩
    · rintro ⟨first, rest⟩
      exact (bind_eq_ok _ _ _).2 ⟨(), first, rest⟩

theorem forall_of_forall₂ {α β : Type} {first : α → Prop} {second : β → Prop} {xs : List α}
    {ys : List β} (pairs : List.Forall₂ (fun x y => second y ↔ first x) xs ys) :
    (∀ y ∈ ys, second y) ↔ ∀ x ∈ xs, first x := by
  induction pairs with
  | nil => simp
  | cons pair pairs ih => rw [List.forall_mem_cons, List.forall_mem_cons, pair, ih]

theorem forall₂_maps {α β γ : Type} (related : β → γ → Prop) (items : List α) (f : α → β)
    (g : α → γ) (each : ∀ item ∈ items, related (f item) (g item)) :
    List.Forall₂ related (items.map f) (items.map g) :=
  List.forall₂_map_left_iff.2 (List.forall₂_map_right_iff.2 (List.forall₂_same.2 each))

theorem forall₂_flatMaps {α β γ : Type} (related : β → γ → Prop) (items : List α) (f : α → List β)
    (g : α → List γ) (each : ∀ item ∈ items, List.Forall₂ related (f item) (g item)) :
    List.Forall₂ related (items.flatMap f) (items.flatMap g) := by
  induction items with
  | nil => exact .nil
  | cons item items ih =>
    rw [List.forall_mem_cons] at each
    exact List.rel_append each.1 (ih each.2)

theorem forall₂_filter {α β : Type} (related : α → β → Prop) (keep : α → Bool) (keep' : β → Bool)
    (items : List α) (results : List β) (each : List.Forall₂ related items results)
    (same : ∀ item result, related item result → keep item = keep' result) :
    List.Forall₂ related (items.filter keep) (results.filter keep') := by
  induction each with
  | nil => exact .nil
  | cons first rest ih =>
    have kept := same _ _ first
    rw [List.filter_cons, List.filter_cons, ← kept]
    split
    · exact .cons first ih
    · exact ih

end DeepDiffForge.Fallible
