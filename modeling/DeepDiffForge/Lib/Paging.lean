import Mathlib.Data.List.Basic
import Mathlib.Data.List.Forall2

/-! Paging through items made of pieces: what slices of them read, and what following the cursor
of each page adds up to. -/

namespace DeepDiffForge.Paging

/-- Pieces of one item: how many came before them, and whether they are its last. -/
structure Slice (ι π : Type) where
  item : ι
  offset : Nat
  pieces : List π
  complete : Bool

section Walk
variable {ι π : Type} (pieces : ι → List π)

/-- From piece `start` of the first of `items`, the slices read on to piece `stop` of the first
of `rest`. -/
inductive Walk : List ι → Nat → List (Slice ι π) → List ι → Nat → Prop where
  | stay (items : List ι) (start : Nat) : Walk items start [] items start
  | finish (item : ι) (items : List ι) (start : Nat) (slices : List (Slice ι π)) (rest : List ι)
      (stop : Nat) (inside : start = 0 ∨ start < (pieces item).length)
      (later : Walk items 0 slices rest stop) :
      Walk (item :: items) start
        (⟨item, start, (pieces item).drop start, true⟩ :: slices) rest stop
  | pause (item : ι) (items : List ι) (start count : Nat) (slices : List (Slice ι π))
      (rest : List ι) (stop : Nat) (grows : 0 < count)
      (short : start + count < (pieces item).length)
      (later : Walk (item :: items) (start + count) slices rest stop) :
      Walk (item :: items) start
        (⟨item, start, ((pieces item).drop start).take count, false⟩ :: slices) rest stop

theorem walk_append (items middle rest : List ι) (start pass stop : Nat)
    (first second : List (Slice ι π)) (one : Walk pieces items start first middle pass)
    (two : Walk pieces middle pass second rest stop) :
    Walk pieces items start (first ++ second) rest stop := by
  induction one with
  | stay => exact two
  | finish item items start slices middle pass inside later ih =>
    exact .finish item items start _ rest stop inside (ih two)
  | pause item items start count slices middle pass grows short later ih =>
    exact .pause item items start count _ rest stop grows short (ih two)

theorem walk_complete (items rest : List ι) (start stop : Nat) (slices : List (Slice ι π))
    (walk : Walk pieces items start slices rest stop) :
    rest.length + slices.countP (·.complete) = items.length := by
  induction walk with
  | stay => simp
  | finish item items start slices rest stop inside later ih =>
    simp only [List.countP_cons, List.length_cons, if_true]
    omega
  | pause item items start count slices rest stop grows short later ih =>
    simpa using ih

def weight : List ι → Nat
  | [] => 0
  | item :: items => (pieces item).length + 1 + weight items

theorem walk_weight (items rest : List ι) (start stop : Nat) (slices : List (Slice ι π))
    (walk : Walk pieces items start slices rest stop) (moves : slices ≠ []) :
    weight pieces rest - stop < weight pieces items - start := by
  induction walk with
  | stay => exact (moves rfl).elim
  | finish item items start slices rest stop inside later ih =>
    have later' : weight pieces rest - stop ≤ weight pieces items := by
      cases slices with
      | nil => cases later with | stay => omega
      | cons slice slices =>
        have less := ih (by simp)
        omega
    simp only [weight]
    omega
  | pause item items start count slices rest stop grows short later ih =>
    have later' : weight pieces rest - stop ≤ weight pieces (item :: items) - (start + count) := by
      cases slices with
      | nil => cases later with | stay => exact Nat.le_refl _
      | cons slice slices => exact Nat.le_of_lt (ih (by simp))
    simp only [weight] at later' ⊢
    omega

/-- From piece `start` on, the slices read one item whole, each piece once and in order, and only
the last of them ends it. -/
structure ReadsFrom (start : Nat) (item : ι) (slices : List (Slice ι π)) : Prop where
  same : ∀ slice ∈ slices, slice.item = item
  whole : slices.flatMap (·.pieces) = (pieces item).drop start
  counted : ∀ before slice after, slices = before ++ slice :: after →
    slice.offset = start + (before.flatMap (·.pieces)).length
  ends : ∀ before slice after, slices = before ++ slice :: after →
    (slice.complete = true ↔ after = [])
  full : ∀ slice ∈ slices,
    (slice.complete = true ↔ slice.offset + slice.pieces.length = (pieces item).length)
  nonempty : slices ≠ []

theorem readsFrom_last (item : ι) (start : Nat)
    (inside : start = 0 ∨ start < (pieces item).length) :
    ReadsFrom pieces start item [⟨item, start, (pieces item).drop start, true⟩] := by
  have alone (before after : List (Slice ι π)) (slice : Slice ι π)
      (split : [⟨item, start, (pieces item).drop start, true⟩] = before ++ slice :: after) :
      before = [] ∧ slice = ⟨item, start, (pieces item).drop start, true⟩ ∧ after = [] := by
    cases before with
    | nil =>
      obtain ⟨rfl, rfl⟩ := List.cons.inj split
      exact ⟨rfl, rfl, rfl⟩
    | cons other before => simp at split
  constructor
  · intro slice member
    rw [List.mem_singleton.1 member]
  · simp
  · intro before slice after split
    obtain ⟨rfl, rfl, rfl⟩ := alone before after slice split
    simp
  · intro before slice after split
    obtain ⟨rfl, rfl, rfl⟩ := alone before after slice split
    simp
  · intro slice member
    rw [List.mem_singleton.1 member]
    simp only [List.length_drop, true_iff]
    omega
  · simp

theorem readsFrom_pause (item : ι) (start count : Nat) (slices : List (Slice ι π))
    (short : start + count < (pieces item).length)
    (later : ReadsFrom pieces (start + count) item slices) :
    ReadsFrom pieces start item
      (⟨item, start, ((pieces item).drop start).take count, false⟩ :: slices) := by
  have taken : (((pieces item).drop start).take count).length = count := by
    rw [List.length_take, List.length_drop]
    omega
  constructor
  · intro slice member
    rcases List.mem_cons.1 member with rfl | member
    · rfl
    · exact later.same slice member
  · rw [List.flatMap_cons, later.whole, ← List.drop_drop, List.take_append_drop]
  · intro before slice after split
    cases before with
    | nil =>
      obtain ⟨rfl, rfl⟩ := List.cons.inj split
      simp
    | cons other before =>
      obtain ⟨rfl, rest⟩ := List.cons.inj split
      rw [later.counted before slice after rest, List.flatMap_cons, List.length_append, taken]
      omega
  · intro before slice after split
    cases before with
    | nil =>
      obtain ⟨rfl, rfl⟩ := List.cons.inj split
      simp [later.nonempty]
    | cons other before => exact later.ends before slice after (List.cons.inj split).2
  · intro slice member
    rcases List.mem_cons.1 member with rfl | member
    · simp only [Bool.false_eq_true, false_iff, taken]
      omega
    · exact later.full slice member
  · simp

theorem walk_reads (items rest : List ι) (start stop : Nat) (slices : List (Slice ι π))
    (walk : Walk pieces items start slices rest stop) (ends : rest = []) :
    (items = [] ∧ slices = []) ∨
    ∃ item rest first groups, items = item :: rest ∧ slices = first ++ groups.flatten ∧
      ReadsFrom pieces start item first ∧ List.Forall₂ (ReadsFrom pieces 0) rest groups := by
  induction walk with
  | stay => exact .inl ⟨ends, rfl⟩
  | finish item items start slices rest stop inside later ih =>
    right
    rcases ih ends with ⟨rfl, rfl⟩ | ⟨next, others, first, groups, rfl, rfl, reads, more⟩
    · exact ⟨item, [], _, [], rfl, rfl, readsFrom_last pieces item start inside, .nil⟩
    · exact ⟨item, next :: others, _, first :: groups, rfl, rfl,
        readsFrom_last pieces item start inside, .cons reads more⟩
  | pause item items start count slices rest stop grows short later ih =>
    right
    rcases ih ends with ⟨none, -⟩ | ⟨next, others, first, groups, same, rfl, reads, more⟩
    · exact absurd none (by simp)
    · obtain ⟨rfl, rfl⟩ := List.cons.inj same
      exact ⟨item, items, _, groups, rfl, rfl,
        readsFrom_pause pieces item start count first short reads, more⟩

theorem walk_all (items : List ι) (slices : List (Slice ι π))
    (walk : Walk pieces items 0 slices [] 0) :
    ∃ groups, slices = groups.flatten ∧ List.Forall₂ (ReadsFrom pieces 0) items groups := by
  rcases walk_reads pieces items [] 0 0 slices walk rfl with
    ⟨rfl, rfl⟩ | ⟨item, rest, first, groups, rfl, rfl, reads, more⟩
  · exact ⟨[], rfl, .nil⟩
  · exact ⟨first :: groups, rfl, .cons reads more⟩

end Walk

section Follow
variable {γ ρ ε : Type} (ask : Nat → Option γ → Except ε ρ) (next : ρ → Option γ)

/-- The answers to a first request and to one for each cursor an answer gives, every request with
a budget of its own, up to the answer that gives none. -/
inductive Followed : (Nat → Nat) → Option γ → List ρ → Prop where
  | last (budgets : Nat → Nat) (cursor : Option γ) (answer : ρ)
      (asked : ask (budgets 0) cursor = .ok answer) (ends : next answer = none) :
      Followed budgets cursor [answer]
  | more (budgets : Nat → Nat) (cursor : Option γ) (answer : ρ) (onward : γ) (answers : List ρ)
      (asked : ask (budgets 0) cursor = .ok answer) (goes : next answer = some onward)
      (later : Followed (fun n => budgets (n + 1)) (some onward) answers) :
      Followed budgets cursor (answer :: answers)

end Follow

section Run
variable {ι π σ γ ρ ε : Type} (pieces : ι → List π) (items : List ι)

/-- A place a page may begin at: an item, and a piece of it or its start. -/
def Inside (place : Nat × Nat) : Prop :=
  ∃ item, items[place.1]? = some item ∧ (place.2 = 0 ∨ place.2 < (pieces item).length)

/-- The slices of a page lead from `start` on to the place the next page begins at, or to the
end of the items. -/
def Leads (start : Nat × Nat) (slices : List (Slice ι π)) : Option (Nat × Nat) → Prop
  | none => Walk pieces (items.drop start.1) start.2 slices [] 0
  | some onward => slices ≠ [] ∧ Inside pieces items onward ∧
      Walk pieces (items.drop start.1) start.2 slices (items.drop onward.1) onward.2

variable (Page : Nat × Nat → σ → Option (Nat × Nat) → Prop)

/-- Pages in a row, each beginning where the one before it stopped. -/
inductive Run : Nat × Nat → List σ → Prop where
  | last (start : Nat × Nat) (record : σ) (page : Page start record none) : Run start [record]
  | more (start onward : Nat × Nat) (record : σ) (records : List σ)
      (page : Page start record (some onward)) (later : Run onward records) :
      Run start (record :: records)

variable (slices : σ → List (Slice ι π))
  (leads : ∀ start record onward, Page start record onward →
    Leads pieces items start (slices record) onward)

section Leads
include leads

theorem run_walk (start : Nat × Nat) (records : List σ) (run : Run Page start records) :
    Walk pieces (items.drop start.1) start.2 (records.flatMap slices) [] 0 := by
  induction run with
  | last start record page =>
    have whole := leads start record none page
    simpa [Leads] using whole
  | more start onward record records page later ih =>
    obtain ⟨-, -, first⟩ := leads start record (some onward) page
    rw [List.flatMap_cons]
    exact walk_append pieces _ _ _ _ _ _ _ _ first ih

/-- Any page of a run begins where the pages before it stopped. -/
theorem run_split (start : Nat × Nat) (before : List σ) (record : σ) (after : List σ)
    (run : Run Page start (before ++ record :: after)) :
    ∃ place onward, Page place record onward ∧ (onward = none ↔ after = []) ∧
      Walk pieces (items.drop start.1) start.2 (before.flatMap slices) (items.drop place.1)
        place.2 := by
  induction before generalizing start with
  | nil =>
    cases run with
    | last _ _ page => exact ⟨start, none, page, by simp, .stay _ _⟩
    | more _ onward _ _ page later =>
      have nonempty : after ≠ [] := by
        rintro rfl
        cases later
      exact ⟨start, some onward, page, by simp [nonempty], .stay _ _⟩
  | cons other before ih =>
    rw [List.cons_append] at run
    generalize same : before ++ record :: after = rest at run
    cases run with
    | last _ _ page => simp at same
    | more _ onward _ _ page later =>
      subst same
      obtain ⟨place, next, reached, ends, walk⟩ := ih onward later
      obtain ⟨-, -, first⟩ := leads start other (some onward) page
      refine ⟨place, next, reached, ends, ?_⟩
      rw [List.flatMap_cons]
      exact walk_append pieces _ _ _ _ _ _ _ _ first walk

end Leads

theorem run_entries {η : Type} (entries : σ → List η) (entry : Slice ι π → η)
    (told : ∀ start record onward, Page start record onward →
      entries record = (slices record).map entry)
    (start : Nat × Nat) (before after : List σ) (run : Run Page start (before ++ after)) :
    before.flatMap entries = (before.flatMap slices).map entry := by
  induction before generalizing start with
  | nil => rfl
  | cons other before ih =>
    rw [List.cons_append] at run
    generalize same : before ++ after = rest at run
    rw [List.flatMap_cons, List.flatMap_cons, List.map_append]
    cases run with
    | last _ _ page =>
      obtain ⟨rfl, -⟩ := List.append_eq_nil_iff.1 same
      rw [told start other none page]
      rfl
    | more _ onward _ _ page later =>
      subst same
      rw [told start other (some onward) page, ih onward later]

include leads in
/-- Where every valid request is answered by a page, following the cursors ends. -/
theorem followed_run (ask : Nat → Option γ → Except ε ρ) (next : ρ → Option γ)
    (answer : σ → ρ) (mint : Nat × Nat → γ) (Allowed : Nat → Prop)
    (answered : ∀ budget, Allowed budget → ∀ place : Option (Nat × Nat),
      (∀ found ∈ place, Inside pieces items found) →
      ∃ record onward, ask budget (place.map mint) = .ok (answer record) ∧
        next (answer record) = onward.map mint ∧ Page (place.getD (0, 0)) record onward)
    (budgets : Nat → Nat) (allowed : ∀ n, Allowed (budgets n)) (place : Option (Nat × Nat))
    (inside : ∀ found ∈ place, Inside pieces items found) :
    ∃ records, Followed ask next budgets (place.map mint) (records.map answer) ∧
      Run Page (place.getD (0, 0)) records := by
  generalize bound : weight pieces (items.drop (place.getD (0, 0)).1) - (place.getD (0, 0)).2 = left
  induction left using Nat.strongRecOn generalizing budgets place with
  | _ left ih =>
    obtain ⟨record, onward, asked, goes, page⟩ := answered (budgets 0) (allowed 0) place inside
    cases onward with
    | none => exact ⟨[record], .last budgets _ (answer record) asked goes, .last _ record page⟩
    | some onward =>
      obtain ⟨moves, valid, walk⟩ := leads _ record (some onward) page
      have less := walk_weight pieces _ _ _ _ _ walk moves
      rw [bound] at less
      have valid' : ∀ found ∈ some onward, Inside pieces items found := by
        rintro found ⟨⟩
        exact valid
      obtain ⟨records, followed, run⟩ := ih _ less (fun n => budgets (n + 1))
        (fun n => allowed (n + 1)) (some onward) valid' rfl
      exact ⟨record :: records,
        .more budgets _ (answer record) (mint onward) _ asked goes followed,
        .more _ onward record records page run⟩

end Run

theorem split_map {α β : Type} (f : α → β) (items : List α) (before : List β) (item : β)
    (after : List β) (split : items.map f = before ++ item :: after) :
    ∃ before' item' after', items = before' ++ item' :: after' ∧ before = before'.map f ∧
      item = f item' ∧ after = after'.map f := by
  obtain ⟨first, rest, rfl, rfl, later⟩ := List.map_eq_append_iff.1 split
  obtain ⟨item', after', rfl, rfl, rfl⟩ := List.map_eq_cons_iff.1 later
  exact ⟨first, item', after', rfl, rfl, rfl, rfl⟩

end DeepDiffForge.Paging
