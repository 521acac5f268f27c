import DeepDiffForge.Lib.Fallible
import DeepDiffForge.Review.MutationScope
import Mathlib.Algebra.GroupWithZero.Nat

/-! What the mutation diff is: its regions cover every change, as few lines as can be within the
budget, and its hunks lead from the old lines to the new. -/

namespace DeepDiffForge.Review.MutationScope
open Text Markers Regions Subsequence Tiling

section Intern

theorem intern_seen (seen : List Line) (lines : List Line) :
    seen <+: (intern seen lines).2 ∧ ∀ line ∈ lines, line ∈ (intern seen lines).2 := by
  induction lines generalizing seen with
  | nil => exact ⟨List.prefix_refl _, by simp⟩
  | cons line lines ih =>
    rw [intern]
    dsimp only
    split_ifs with known
    · obtain ⟨grown, all⟩ := ih seen
      refine ⟨grown, List.forall_mem_cons.2 ⟨grown.subset known, all⟩⟩
    · obtain ⟨grown, all⟩ := ih (seen ++ [line])
      refine ⟨(List.prefix_append _ _).trans grown, List.forall_mem_cons.2 ⟨?_, all⟩⟩
      exact grown.subset (by simp)

theorem idxOf_grown (first whole : List Line) (grown : first <+: whole) (line : Line)
    (known : line ∈ first) : whole.idxOf line = first.idxOf line := by
  obtain ⟨rest, rfl⟩ := grown
  exact List.idxOf_append_of_mem known

theorem intern_map (seen : List Line) (lines : List Line) :
    (intern seen lines).1 = lines.map (intern seen lines).2.idxOf := by
  induction lines generalizing seen with
  | nil => rfl
  | cons line lines ih =>
    rw [intern]
    dsimp only
    split_ifs with known
    · rw [List.map_cons, ← ih seen, idxOf_grown seen _ (intern_seen seen lines).1 line known]
    · rw [List.map_cons, ← ih (seen ++ [line]),
        idxOf_grown (seen ++ [line]) _ (intern_seen _ lines).1 line (by simp)]

/-- The ids name the lines, two lines by one id when they are the same. -/
theorem idsOf_map (old new : List Line) : ∃ name : Line → Nat,
    idsOf old new = (old.map name, new.map name) ∧
      ∀ x ∈ old, ∀ y ∈ new, name x = name y → x = y := by
  obtain ⟨grown, all⟩ := intern_seen (intern [] old).2 new
  obtain ⟨-, known⟩ := intern_seen [] old
  refine ⟨(intern (intern [] old).2 new).2.idxOf, ?_, ?_⟩
  · rw [idsOf, intern_map [] old, intern_map (intern [] old).2 new]
    congr 1
    apply List.map_congr_left
    intro line listed
    exact (idxOf_grown _ _ grown line (known line listed)).symm
  · intro x listed y _ same
    exact (List.idxOf_inj (grown.subset (known x listed))).1 same

end Intern

section Pairs

/-- Pairs of places that are the same, ascending on both sides from `i` and `j` on. -/
def Ascends (same : Nat → Nat → Prop) : Nat → Nat → List (Nat × Nat) → Prop
  | _, _, [] => True
  | i, j, pair :: pairs => i ≤ pair.1 ∧ j ≤ pair.2 ∧ same pair.1 pair.2 ∧
      Ascends same (pair.1 + 1) (pair.2 + 1) pairs

theorem ascends_weaken (same : Nat → Nat → Prop) (i j i' j' : Nat) (less : i ≤ i')
    (less' : j ≤ j') (pairs : List (Nat × Nat)) (ascends : Ascends same i' j' pairs) :
    Ascends same i j pairs := by
  cases pairs with
  | nil => trivial
  | cons pair pairs =>
    obtain ⟨one, two, rest⟩ := ascends
    exact ⟨Nat.le_trans less one, Nat.le_trans less' two, rest⟩

theorem ascends_imp (same other : Nat → Nat → Prop) (imp : ∀ i j, same i j → other i j) (i j : Nat)
    (pairs : List (Nat × Nat)) (ascends : Ascends same i j pairs) : Ascends other i j pairs := by
  induction pairs generalizing i j with
  | nil => trivial
  | cons pair pairs ih =>
    obtain ⟨one, two, here, rest⟩ := ascends
    exact ⟨one, two, imp _ _ here, ih _ _ rest⟩

def Match (old new : List Nat) (i j : Nat) : Prop := ∃ x, old[i]? = some x ∧ new[j]? = some x

/-- The next place is not before the last, and nothing between them is matched or kept. -/
theorem nextNew_skips (new : List Nat) (t : List (List Nat)) (x i j : Nat) (within : j ≤ new.length) :
    j ≤ nextNew t new x i j ∧ nextNew t new x i j ≤ new.length ∧
      (∀ k, j ≤ k → k < nextNew t new x i j → new[k]? ≠ some x ∧ cell t (i + 1) k ≠ cell t i k) ∧
        (nextNew t new x i j < new.length → new[nextNew t new x i j]? = some x ∨
          cell t (i + 1) (nextNew t new x i j) = cell t i (nextNew t new x i j)) := by
  unfold nextNew
  cases found : (List.range' j (new.length - j)).find? fun next =>
      new[next]? = some x || cell t (i + 1) next = cell t i next with
  | none =>
    rw [List.find?_range'_eq_none] at found
    refine ⟨within, Nat.le_refl _, ?_, fun less => absurd less (Nat.lt_irrefl _)⟩
    intro k low before
    have skipped := found k low (by rw [Option.getD_none] at before; omega)
    simpa using skipped
  | some k =>
    rw [List.find?_range'_eq_some] at found
    obtain ⟨stops, inside, skipped⟩ := found
    rw [List.mem_range'_1] at inside
    refine ⟨inside.1, by rw [Option.getD_some]; omega, ?_, fun _ => by simpa using stops⟩
    intro l low before
    simpa using skipped l low before

variable (old new : List Nat)

theorem pairs_ascend (t : List (List Nat)) (rest : List Nat) (i j : Nat) (own : old.drop i = rest)
    (within : j ≤ new.length) : Ascends (Match old new) i j (pairsFrom t new rest i j) := by
  induction rest generalizing i j with
  | nil => trivial
  | cons x rest ih =>
    obtain ⟨after, inside, -, -⟩ := nextNew_skips new t x i j within
    have here : old[i]? = some x := by
      rw [← List.head?_drop, own]
      rfl
    have later : old.drop (i + 1) = rest := by
      rw [← List.tail_drop, own]
      rfl
    rw [pairsFrom]
    split_ifs with matched
    · exact ⟨Nat.le_refl _, after, ⟨x, here, matched.2⟩, ih _ _ later matched.1⟩
    · exact ascends_weaken _ _ _ _ _ (Nat.le_succ i) after _ (ih _ _ later inside)

/-- As many pairs as a longest common subsequence from `i` and `j` on has items. -/
theorem pairs_longest (rest : List Nat) (i j : Nat) (own : old.drop i = rest)
    (within : j ≤ new.length) :
    (pairsFrom (table old new) new rest i j).length = cell (table old new) i j := by
  have value (i j n : Nat) (longest : Longest (old.drop i) (new.drop j) n) :
      cell (table old new) i j = n :=
    longest_unique _ _ _ _ (longest_cell old new i j) longest
  induction rest generalizing i j with
  | nil =>
    rw [pairsFrom, List.length_nil, value i j 0]
    rw [own]
    exact longest_nil_left _
  | cons x rest ih =>
    obtain ⟨after, inside, skipped, stops⟩ := nextNew_skips new (table old new) x i j within
    have later : old.drop (i + 1) = rest := by
      rw [← List.tail_drop, own]
      rfl
    -- what is skipped of the new side loses nothing
    have keeps (k : Nat) (low : j ≤ k) (before : k ≤ nextNew (table old new) new x i j) :
        cell (table old new) i k = cell (table old new) i j := by
      induction k, low using Nat.le_induction with
      | base => rfl
      | succ k low step =>
        rw [← step (by omega)]
        obtain ⟨other, less⟩ := skipped k low (by omega)
        have bound : k < new.length := by omega
        have cut : new.drop k = new[k] :: new.drop (k + 1) := List.drop_eq_getElem_cons bound
        have apart : x ≠ new[k] := by
          rw [List.getElem?_eq_getElem bound] at other
          exact fun same => other (congrArg some same.symm)
        have below := longest_cell old new (i + 1) k
        have right := longest_cell old new i (k + 1)
        rw [later, cut] at below
        rw [own] at right
        have most := longest_other x new[k] apart rest _ _ _ below right
        rw [← cut, ← own] at most
        have equal := value i k _ most
        rcases Nat.le_total (cell (table old new) (i + 1) k) (cell (table old new) i (k + 1)) with
          fewer | more
        · rw [equal, Nat.max_eq_right fewer]
        · rw [Nat.max_eq_left more] at equal
          exact absurd equal.symm less
    rw [pairsFrom, ← keeps _ after (Nat.le_refl _)]
    split_ifs with matched
    · obtain ⟨bound, same⟩ := matched
      rw [List.length_cons, ih _ _ later bound]
      have cut := List.drop_eq_getElem_cons bound
      rw [List.getElem?_eq_getElem bound] at same
      rw [Option.some.inj same] at cut
      have rest' := longest_cell old new (i + 1) (nextNew (table old new) new x i j + 1)
      rw [later] at rest'
      have longer := longest_same x _ _ _ rest'
      rw [← cut, ← own] at longer
      exact (value _ _ _ longer).symm
    · rw [ih _ _ later inside]
      by_cases bound : nextNew (table old new) new x i j < new.length
      · exact (stops bound).resolve_left fun same => matched ⟨bound, same⟩
      · have ends : new.drop (nextNew (table old new) new x i j) = [] :=
          List.drop_eq_nil_of_le (Nat.not_lt.1 bound)
        rw [value (i + 1) _ 0 (by rw [ends]; exact longest_nil_right _),
          value i _ 0 (by rw [ends]; exact longest_nil_right _)]

theorem lcsPairs_longest : Longest old new (lcsPairs old new).length := by
  rw [lcsPairs, pairs_longest old new old 0 0 rfl (Nat.zero_le _)]
  exact longest_cell old new 0 0

end Pairs

section Affixes
variable (old new : List Nat)

theorem takeWhile_zip :
    ((old.zip new).takeWhile fun pair => pair.1 = pair.2).length ≤ old.length ∧
      ((old.zip new).takeWhile fun pair => pair.1 = pair.2).length ≤ new.length ∧
        ∀ k < ((old.zip new).takeWhile fun pair => pair.1 = pair.2).length, Match old new k k := by
  induction old generalizing new with
  | nil => simp
  | cons x old ih =>
    cases new with
    | nil => simp
    | cons y new =>
      rw [List.zip_cons_cons]
      by_cases same : x = y
      · obtain ⟨left, right, each⟩ := ih new
        rw [List.takeWhile_cons_of_pos (by simpa using same), List.length_cons]
        refine ⟨Nat.succ_le_succ left, Nat.succ_le_succ right, ?_⟩
        intro k within
        cases k with
        | zero => exact ⟨x, rfl, by rw [same]; rfl⟩
        | succ k => exact each k (by omega)
      · rw [List.takeWhile_cons_of_neg (by simpa using same)]
        simp

/-- What comes before the middles is the same on both sides. -/
theorem front_alike : Alike old new 0 0 (affixes old new).1 (affixes old new).1 := by
  obtain ⟨-, -, each⟩ := takeWhile_zip old new
  refine ⟨(affixes old new).1, (Nat.zero_add _).symm, (Nat.zero_add _).symm, ?_⟩
  intro k within
  rw [Nat.zero_add]
  exact each k within

theorem affixes_fit : (affixes old new).1 + (affixes old new).2 ≤ old.length ∧
    (affixes old new).1 + (affixes old new).2 ≤ new.length := by
  obtain ⟨left, right, -⟩ := takeWhile_zip old new
  obtain ⟨left', right', -⟩ := takeWhile_zip (old.drop (affixes old new).1).reverse
    (new.drop (affixes old new).1).reverse
  rw [List.length_reverse, List.length_drop] at left' right'
  have front : (affixes old new).1 ≤ old.length := left
  have front' : (affixes old new).1 ≤ new.length := right
  have back : (affixes old new).2 ≤ old.length - (affixes old new).1 := left'
  have back' : (affixes old new).2 ≤ new.length - (affixes old new).1 := right'
  omega

/-- What comes after the middles is the same on both sides. -/
theorem back_alike : Alike old new (old.length - (affixes old new).2)
    (new.length - (affixes old new).2) old.length new.length := by
  obtain ⟨left, right⟩ := affixes_fit old new
  obtain ⟨-, -, each⟩ := takeWhile_zip (old.drop (affixes old new).1).reverse
    (new.drop (affixes old new).1).reverse
  refine ⟨(affixes old new).2, by omega, by omega, ?_⟩
  intro k within
  obtain ⟨x, here, there⟩ := each ((affixes old new).2 - 1 - k) (by
    change _ < (affixes old new).2
    omega)
  rw [List.getElem?_reverse (by rw [List.length_drop]; omega), List.getElem?_drop,
    List.length_drop] at here there
  refine ⟨x, ?_, ?_⟩
  · rw [← here]
    congr 1
    omega
  · rw [← there]
    congr 1
    omega

theorem anchors_ascend (spent : Nat) :
    Ascends (fun i j => i < old.length - (affixes old new).2 - (affixes old new).1 ∧
      j < new.length - (affixes old new).2 - (affixes old new).1 ∧
        Match old new ((affixes old new).1 + i) ((affixes old new).1 + j)) 0 0
      (anchors old new spent) := by
  have inside (items : List Nat) (i x : Nat)
      (found : (slice items ((affixes old new).1, items.length - (affixes old new).2))[i]? = some x) :
      i < items.length - (affixes old new).2 - (affixes old new).1 ∧
        items[(affixes old new).1 + i]? = some x := by
    exact (getElem?_slice items _ _ i x found).symm
  unfold anchors
  dsimp only
  split_ifs
  · refine ascends_imp _ _ ?_ 0 0 _ (pairs_ascend _ _ _ _ 0 0 rfl (Nat.zero_le _))
    rintro i j ⟨x, here, there⟩
    obtain ⟨left, here⟩ := inside old i x here
    obtain ⟨right, there⟩ := inside new j x there
    exact ⟨left, right, x, here, there⟩
  · trivial

end Affixes

section Between
variable (old new : List Nat) (front n m : Nat) (same : Nat → Nat → Prop)
  (own : ∀ i j, same i j → i < n ∧ j < m ∧ Match old new (front + i) (front + j))
include own

/-- The regions between anchors cover what is not the same. -/
theorem covers_between (finish : Alike old new (front + n) (front + m) old.length new.length)
    (pairs : List (Nat × Nat)) (i j i' j' : Nat) (ascends : Ascends same i j pairs) (left : i ≤ n)
    (right : j ≤ m) (start : Alike old new (front + i') (front + j') (front + i) (front + j)) :
    Covers old new (front + i') (front + j') (between front i j (pairs ++ [(n, m)])) := by
  induction pairs generalizing i j i' j' with
  | nil =>
    rw [List.nil_append, between]
    split_ifs with change
    · exact ⟨start, Nat.add_le_add_left left _, Nat.add_le_add_left right _, finish⟩
    · obtain ⟨rfl, rfl⟩ : i = n ∧ j = m := by
        dsimp only at change
        omega
      exact alike_trans old new _ _ _ _ _ _ start finish
  | cons pair pairs ih =>
    obtain ⟨less, less', here, rest⟩ := ascends
    obtain ⟨within, within', x, found, found'⟩ := own _ _ here
    have step : Alike old new (front + pair.1) (front + pair.2) (front + (pair.1 + 1))
        (front + (pair.2 + 1)) := by
      refine ⟨1, (Nat.add_assoc ..).symm, (Nat.add_assoc ..).symm, ?_⟩
      intro k single
      obtain rfl : k = 0 := by omega
      exact ⟨x, found, found'⟩
    rw [List.cons_append, between]
    split_ifs with change
    · exact ⟨start, Nat.add_le_add_left less _, Nat.add_le_add_left less' _,
        ih _ _ _ _ rest within within' step⟩
    · obtain ⟨rfl, rfl⟩ : i = pair.1 ∧ j = pair.2 := by omega
      exact ih _ _ _ _ rest within within' (alike_trans old new _ _ _ _ _ _ start step)

/-- With the anchors the regions' new lines make up the middle. -/
theorem sum_between (pairs : List (Nat × Nat)) (i j : Nat) (ascends : Ascends same i j pairs)
    (right : j ≤ m) :
    ((between front i j (pairs ++ [(n, m)])).map fun region => region.new.2 - region.new.1).sum +
      pairs.length + j = m := by
  induction pairs generalizing i j with
  | nil =>
    rw [List.nil_append, between]
    split_ifs with change
    · simp only [List.map_cons, between, List.map_nil, List.sum_cons, List.sum_nil, List.length_nil]
      omega
    · simp only [between, List.map_nil, List.sum_nil, List.length_nil]
      dsimp only at change
      omega
  | cons pair pairs ih =>
    obtain ⟨less, less', here, rest⟩ := ascends
    obtain ⟨within, within', -⟩ := own _ _ here
    have later := ih _ _ rest within'
    rw [List.cons_append, between]
    split_ifs with change
    · simp only [List.map_cons, List.sum_cons, List.length_cons]
      omega
    · simp only [List.length_cons]
      omega

omit own in
/-- A new line no anchor matches is in a region. -/
theorem unmatched_between (pairs : List (Nat × Nat)) (i j l : Nat)
    (ascends : Ascends same i j pairs) (low : j ≤ l) (before : l < m)
    (unmatched : ∀ pair ∈ pairs, pair.2 ≠ l) :
    ∃ region ∈ between front i j (pairs ++ [(n, m)]),
      region.new.1 ≤ front + l ∧ front + l < region.new.2 := by
  induction pairs generalizing i j with
  | nil =>
    rw [List.nil_append, between, if_pos (Or.inr (by dsimp only; omega))]
    exact ⟨_, List.mem_cons_self .., by dsimp only; omega, by dsimp only; omega⟩
  | cons pair pairs ih =>
    obtain ⟨less, less', here, rest⟩ := ascends
    rw [List.forall_mem_cons] at unmatched
    rw [List.cons_append, between]
    by_cases early : l < pair.2
    · rw [if_pos (Or.inr (by omega))]
      exact ⟨_, List.mem_cons_self .., by dsimp only; omega, by dsimp only; omega⟩
    · have apart := unmatched.1
      obtain ⟨region, listed, inside⟩ := ih _ _ rest (by omega) unmatched.2
      split_ifs
      · exact ⟨region, List.mem_cons_of_mem _ listed, inside⟩
      · exact ⟨region, listed, inside⟩

end Between

section Regions
variable (old new : List Nat) (spent : Nat)

theorem regions_eq : (regions old new spent).1 =
    between (affixes old new).1 0 0 (anchors old new spent ++
      [(old.length - (affixes old new).2 - (affixes old new).1,
        new.length - (affixes old new).2 - (affixes old new).1)]) := rfl

theorem covers_regions : Covers old new 0 0 (regions old new spent).1 := by
  obtain ⟨left, right⟩ := affixes_fit old new
  have finish := back_alike old new
  have stop : old.length - (affixes old new).2 = (affixes old new).1 +
      (old.length - (affixes old new).2 - (affixes old new).1) := by omega
  have stop' : new.length - (affixes old new).2 = (affixes old new).1 +
      (new.length - (affixes old new).2 - (affixes old new).1) := by omega
  rw [stop, stop'] at finish
  have covers := covers_between old new (affixes old new).1 _ _ _ (fun _ _ here => here) finish
    (anchors old new spent) 0 0 0 0 (anchors_ascend old new spent) (Nat.zero_le _) (Nat.zero_le _)
    (alike_refl old new _ _)
  rw [regions_eq]
  exact covers_before old new _ _ _ _ _ (front_alike old new) covers

/-- The new lines of the regions, with the lines matched, are all there are. -/
theorem sum_regions : ((regions old new spent).1.map fun region =>
    region.new.2 - region.new.1).sum + (anchors old new spent).length + (affixes old new).1 +
      (affixes old new).2 = new.length := by
  obtain ⟨-, right⟩ := affixes_fit old new
  have sum := sum_between old new (affixes old new).1 _ _ _ (fun _ _ here => here)
    (anchors old new spent) 0 0 (anchors_ascend old new spent) (Nat.zero_le _)
  rw [regions_eq]
  omega

theorem unmatched_regions (l : Nat) (low : (affixes old new).1 ≤ l)
    (before : l < new.length - (affixes old new).2)
    (unmatched : ∀ pair ∈ anchors old new spent, (affixes old new).1 + pair.2 ≠ l) :
    ∃ region ∈ (regions old new spent).1, region.new.1 ≤ l ∧ l < region.new.2 := by
  obtain ⟨k, rfl⟩ := Nat.exists_eq_add_of_le low
  rw [regions_eq]
  exact unmatched_between (affixes old new).1 _ _ _
    (anchors old new spent) 0 0 k (anchors_ascend old new spent) (Nat.zero_le _) (by omega)
    fun pair listed same => unmatched pair listed (by rw [same])

theorem parts (items : List Nat) (front back : Nat) (fit : front + back ≤ items.length) :
    items = items.take front ++ (slice items (front, items.length - back) ++
      items.drop (items.length - back)) := by
  rw [← drop_slice items front (items.length - back) (by omega), List.take_append_drop]

/-- Within the budget the regions have as few new lines as a common subsequence allows. -/
theorem regions_fewest (budget : withinBudget old new spent = true) (longest : Nat)
    (own : Longest old new longest) : ((regions old new spent).1.map fun region =>
      region.new.2 - region.new.1).sum = new.length - longest := by
  obtain ⟨left, right⟩ := affixes_fit old new
  have sum := sum_regions old new spent
  have middle : anchors old new spent =
      lcsPairs (slice old ((affixes old new).1, old.length - (affixes old new).2))
        (slice new ((affixes old new).1, new.length - (affixes old new).2)) := by
    unfold anchors
    dsimp only
    rw [if_pos budget]
  have front : old.take (affixes old new).1 = new.take (affixes old new).1 := by
    have same := alike_slice old new _ _ _ _ (front_alike old new)
    rwa [slice, slice, List.drop_zero, List.drop_zero] at same
  have back : old.drop (old.length - (affixes old new).2) =
      new.drop (new.length - (affixes old new).2) := by
    have same := alike_slice old new _ _ _ _ (back_alike old new)
    rw [slice, slice, List.take_of_length_le (Nat.le_of_eq List.length_drop),
      List.take_of_length_le (Nat.le_of_eq List.length_drop)] at same
    exact same
  have whole := longest_prefix (new.take (affixes old new).1) _ _ _
    (longest_suffix (new.drop (new.length - (affixes old new).2)) _ _ _
      (lcsPairs_longest (slice old ((affixes old new).1, old.length - (affixes old new).2))
        (slice new ((affixes old new).1, new.length - (affixes old new).2))))
  rw [← parts new _ _ right, ← front, ← back, ← parts old _ _ left, ← middle, List.length_take,
    List.length_drop] at whole
  have length := longest_unique old new _ _ own whole
  omega

end Regions

section Widen
variable (code : Nat → Bool) (newLength : Nat)

/-- A region grown by as many lines on both sides, within the lines from `floor` to `ceiling`. -/
def Grown (floor ceiling : Nat) (region grown : Region) : Prop :=
  ∃ before after, region.new.1 = grown.new.1 + before ∧ region.old.1 = grown.old.1 + before ∧
    grown.new.2 = region.new.2 + after ∧ grown.old.2 = region.old.2 + after ∧
      floor ≤ grown.new.1 ∧ grown.new.2 ≤ ceiling

theorem mem_within (range : Nat × Nat) (line : Nat) :
    line ∈ within range ↔ range.1 ≤ line ∧ line < range.2 := by
  rw [within, List.mem_range'_1]
  omega

theorem grown_widen (floor ceiling : Nat) (region : Region) (low : floor ≤ region.new.1)
    (high : region.new.2 ≤ ceiling) (room : region.new.1 - floor ≤ region.old.1) :
    Grown floor ceiling region (widen code newLength floor ceiling region) := by
  unfold widen
  dsimp only
  split_ifs with bare
  · obtain ⟨before, found⟩ : ∃ before, ((within (floor, region.new.1)).reverse.find? code).getD floor =
        before := ⟨_, rfl⟩
    obtain ⟨after, found'⟩ : ∃ after, (((within (region.new.2, ceiling)).find? code).map
        (· + 1)).getD ceiling = after := ⟨_, rfl⟩
    have first : floor ≤ before ∧ before ≤ region.new.1 := by
      cases search : (within (floor, region.new.1)).reverse.find? code with
      | none =>
        rw [search, Option.getD_none] at found
        omega
      | some line =>
        rw [search, Option.getD_some] at found
        have inside := List.mem_of_find?_eq_some search
        rw [List.mem_reverse, mem_within] at inside
        dsimp only at inside
        omega
    have second : region.new.2 ≤ after ∧ after ≤ ceiling := by
      cases search : (within (region.new.2, ceiling)).find? code with
      | none =>
        rw [search, Option.map_none, Option.getD_none] at found'
        omega
      | some line =>
        rw [search, Option.map_some, Option.getD_some] at found'
        have inside := List.mem_of_find?_eq_some search
        rw [mem_within] at inside
        dsimp only at inside
        omega
    rw [found, found']
    refine ⟨region.new.1 - before, after - region.new.2, ?_, ?_, ?_, ?_, ?_, ?_⟩ <;>
      dsimp only <;> omega
  · exact ⟨0, 0, rfl, rfl, rfl, rfl, low, high⟩

end Widen

def floorOf (before : List Region) : Nat := (before.getLast?.map (·.new.2)).getD 0

def ceilingOf (after : List Region) (newLength : Nat) : Nat :=
  (after.head?.map (·.new.1)).getD newLength

theorem widenAll_cons (code : Nat → Bool) (newLength floor : Nat) (region : Region)
    (rest : List Region) : widenAll code newLength floor (region :: rest) =
      widen code newLength floor (ceilingOf rest newLength) region ::
        widenAll code newLength region.new.2 rest := by
  cases rest <;> rfl

theorem ceilingOf_start {α : Type} (old new : List α) (after : List Region) :
    ceilingOf after new.length = (nextStart old new after.head?).2 := by
  cases after <;> rfl

section Merge
variable {α : Type} (old new : List α) (code : Nat → Bool)

/-- One region after another: when they touch, the later is empty on no side. -/
def Follows (region next : Region) : Prop :=
  region.old.2 = next.old.1 → next.old.1 < next.old.2 ∧ next.new.1 < next.new.2

def Within (region outer : Region) : Prop :=
  (outer.old.1 ≤ region.old.1 ∧ region.old.2 ≤ outer.old.2) ∧
    outer.new.1 ≤ region.new.1 ∧ region.new.2 ≤ outer.new.2

theorem within_refl (region : Region) : Within region region :=
  ⟨⟨Nat.le_refl _, Nat.le_refl _⟩, Nat.le_refl _, Nat.le_refl _⟩

theorem within_trans (region middle outer : Region) (one : Within region middle)
    (two : Within middle outer) : Within region outer :=
  ⟨⟨Nat.le_trans two.1.1 one.1.1, Nat.le_trans one.1.2 two.1.2⟩,
    Nat.le_trans two.2.1 one.2.1, Nat.le_trans one.2.2 two.2.2⟩

structure Merged (last : Region) (grown result : List Region) : Prop where
  starts : ∃ head tail, result = head :: tail ∧ head.old.1 = last.old.1 ∧
    head.new.1 = last.new.1 ∧ last.old.2 ≤ head.old.2 ∧ last.new.2 ≤ head.new.2 ∧
      Covers old new head.old.2 head.new.2 tail
  follows : result.IsChain Follows
  holds : ∀ region ∈ last :: grown, ∃ outer ∈ result, Within region outer

/-- The regions widened after `last`, which ends `x` lines past the last region found. -/
theorem merged_from (found : List Region) (last : Region) (e f x : Nat)
    (ends : last.old.2 = e + x) (ends' : last.new.2 = f + x) (covers : Covers old new e f found)
    (slack : e + x ≤ (nextStart old new found.head?).1) (order : last.old.1 ≤ e)
    (order' : last.new.1 ≤ f) :
    Merged old new last (widenAll code new.length f found)
      (mergeFrom last (widenAll code new.length f found)) := by
  induction found generalizing last e f x with
  | nil =>
    have whole : Alike old new e f old.length new.length := covers
    obtain ⟨n, left, right, -⟩ := covers
    change e + x ≤ old.length at slack
    refine ⟨⟨last, [], rfl, rfl, rfl, Nat.le_refl _, Nat.le_refl _, ?_⟩, List.isChain_singleton _,
      fun region listed => ⟨last, List.mem_singleton_self _, ?_⟩⟩
    · have part := alike_part old new e f _ _ x n whole (by omega) (by omega)
      rw [← left, ← right, ← ends, ← ends'] at part
      exact part
    · rw [List.mem_singleton.1 listed]
      exact within_refl last
  | cons region rest ih =>
    obtain ⟨gap, wide, wide', later⟩ := covers
    have gap' := gap
    obtain ⟨n, left, right, -⟩ := gap'
    have reach : x ≤ n := by
      change e + x ≤ region.old.1 at slack
      omega
    obtain ⟨ceiling, own⟩ : ∃ ceiling, ceiling = ceilingOf rest new.length := ⟨_, rfl⟩
    have next := covers_alike old new _ _ rest later
    have top' : ceiling = (nextStart old new rest.head?).2 := by
      rw [own, ceilingOf_start old]
    have high : region.new.2 ≤ ceiling := by
      obtain ⟨k, -, top, -⟩ := next
      omega
    obtain ⟨before, after, grow, grow', stretch, stretch', low, top⟩ := grown_widen code new.length f
      ceiling region (by omega) high (by omega)
    obtain ⟨grown, named⟩ : ∃ grown, grown = widen code new.length f ceiling region := ⟨_, rfl⟩
    rw [← named] at grow grow' stretch stretch' low top
    have slack' : region.old.2 + after ≤ (nextStart old new rest.head?).1 := by
      obtain ⟨k, first, second, -⟩ := next
      omega
    rw [widenAll_cons, ← own, ← named, mergeFrom]
    split_ifs with merge
    · have most : max last.old.2 grown.old.2 = grown.old.2 := Nat.max_eq_right (by omega)
      have most' : max last.new.2 grown.new.2 = grown.new.2 := Nat.max_eq_right (by omega)
      rw [most, most']
      have merged := ih ⟨(last.old.1, grown.old.2), (last.new.1, grown.new.2)⟩ region.old.2
        region.new.2 after stretch' stretch later slack' (by dsimp only; omega)
        (by dsimp only; omega)
      refine ⟨?_, merged.follows, ?_⟩
      · obtain ⟨first, tail, shown, start, start', stop, stop', covered⟩ := merged.starts
        dsimp only at start start' stop stop'
        exact ⟨first, tail, shown, start, start', by omega, by omega, covered⟩
      · obtain ⟨outer, listed, inside⟩ := merged.holds _ (List.mem_cons_self ..)
        obtain ⟨⟨one, two⟩, three, four⟩ := inside
        dsimp only at one two three four
        have last' : Within last outer := ⟨⟨one, by omega⟩, three, by omega⟩
        have grown' : Within grown outer := ⟨⟨by omega, two⟩, by omega, four⟩
        intro other member
        rcases List.mem_cons.1 member with rfl | member
        · exact ⟨outer, listed, last'⟩
        rcases List.mem_cons.1 member with rfl | member
        · exact ⟨outer, listed, grown'⟩
        · exact merged.holds other (List.mem_cons_of_mem _ member)
    · have merged := ih grown region.old.2 region.new.2 after stretch' stretch later slack'
        (by omega) (by omega)
      obtain ⟨first, tail, shown, start, start', stop, stop', covered⟩ := merged.starts
      simp only [merges, Bool.or_eq_true, Bool.and_eq_true, decide_eq_true_eq] at merge
      have clear : x ≤ n - before := by omega
      refine ⟨⟨last, _, rfl, rfl, rfl, Nat.le_refl _, Nat.le_refl _, ?_⟩, ?_, ?_⟩
      · rw [shown]
        refine ⟨?_, by omega, by omega, covered⟩
        have part := alike_part old new e f _ _ x (n - before) gap clear (by omega)
        have place : e + (n - before) = first.old.1 := by omega
        have place' : f + (n - before) = first.new.1 := by omega
        rwa [← ends, ← ends', place, place'] at part
      · rw [shown, List.isChain_cons_cons]
        refine ⟨?_, shown ▸ merged.follows⟩
        intro touch
        omega
      · intro other member
        rcases List.mem_cons.1 member with rfl | member
        · exact ⟨other, List.mem_cons_self .., within_refl other⟩
        · obtain ⟨outer, listed, inside⟩ := merged.holds other member
          exact ⟨outer, List.mem_cons_of_mem _ listed, inside⟩

end Merge

section Widened
variable (code : Nat → Bool) (newLength : Nat)

theorem mem_widenAll (before after : List Region) (region : Region) (floor : Nat) :
    widen code newLength ((before.getLast?.map (·.new.2)).getD floor) (ceilingOf after newLength)
      region ∈ widenAll code newLength floor (before ++ region :: after) := by
  induction before generalizing floor with
  | nil =>
    rw [List.nil_append, widenAll_cons]
    exact List.mem_cons_self ..
  | cons first before ih =>
    rw [List.cons_append, widenAll_cons]
    refine List.mem_cons_of_mem _ ?_
    have last : (((first :: before).getLast?.map (·.new.2)).getD floor) =
        (before.getLast?.map (·.new.2)).getD first.new.2 := by
      rw [List.getLast?_cons]
      cases before.getLast? <;> rfl
    rw [last]
    exact ih first.new.2

variable {α : Type} (old new : List α)

/-- What the regions around one leave of lines for it to widen over. -/
theorem covers_around (i j : Nat) (before after : List Region) (region : Region)
    (covers : Covers old new i j (before ++ region :: after)) :
    (before.getLast?.map (·.new.2)).getD j ≤ region.new.1 ∧ region.new.1 ≤ region.new.2 ∧
      region.new.2 ≤ ceilingOf after new.length ∧
        region.new.1 + i ≤ region.old.1 + (before.getLast?.map (·.new.2)).getD j + i ∧
          region.old.1 ≤ region.old.2 := by
  induction before generalizing i j with
  | nil =>
    obtain ⟨⟨n, left, right, -⟩, one, two, rest⟩ := covers
    have next := covers_alike old new _ _ after rest
    obtain ⟨k, -, stop, -⟩ := next
    rw [ceilingOf_start old]
    refine ⟨?_, two, by omega, ?_, one⟩
    · change j ≤ region.new.1
      omega
    · change region.new.1 + i ≤ region.old.1 + j + i
      omega
  | cons first before ih =>
    obtain ⟨-, -, -, rest⟩ := covers
    obtain ⟨low, one, high, room, two⟩ := ih _ _ rest
    have last : (((first :: before).getLast?.map (·.new.2)).getD j) =
        (before.getLast?.map (·.new.2)).getD first.new.2 := by
      rw [List.getLast?_cons]
      cases before.getLast? <;> rfl
    rw [last]
    exact ⟨low, one, high, by omega, two⟩

theorem grown_around (before after : List Region) (region : Region)
    (covers : Covers old new 0 0 (before ++ region :: after)) :
    Grown (floorOf before) (ceilingOf after new.length) region
      (widen code new.length (floorOf before) (ceilingOf after new.length) region) := by
  obtain ⟨low, -, high, room, -⟩ := covers_around old new 0 0 before after region covers
  exact grown_widen code new.length _ _ region low high (by rw [floorOf]; omega)

end Widened

section Hunks
variable (old : List Line) (new : List Line) (found : List Region)
  (covers : Covers old new 0 0 found)
include covers

theorem widened_covers : Covers old new 0 0 (widenDeletions found new) ∧
    (widenDeletions found new).IsChain Follows ∧
      ∀ grown ∈ widenAll (isCode new) new.length 0 found,
        ∃ outer ∈ widenDeletions found new, Within grown outer := by
  unfold widenDeletions
  cases found with
  | nil => exact ⟨covers, List.isChain_nil, by simp [widenAll]⟩
  | cons region rest =>
    obtain ⟨ceiling, own⟩ : ∃ ceiling, ceiling = ceilingOf rest new.length := ⟨_, rfl⟩
    obtain ⟨before, after, grow, grow', stretch, stretch', -, top⟩ :=
      grown_around (isCode new) old new [] rest region covers
    rw [← own] at grow grow' stretch stretch' top
    obtain ⟨grown, named⟩ : ∃ grown, grown = widen (isCode new) new.length 0 ceiling region :=
      ⟨_, rfl⟩
    have same : widen (isCode new) new.length (floorOf []) ceiling region = grown := named.symm
    rw [same] at grow grow' stretch stretch' top
    obtain ⟨gap, wide, wide', later⟩ := covers
    have next := covers_alike old new _ _ rest later
    have top' : ceiling = (nextStart old new rest.head?).2 := by
      rw [own, ceilingOf_start old]
    have merged := merged_from old new (isCode new) rest grown region.old.2 region.new.2 after
      stretch' stretch later (by obtain ⟨k, one, two, -⟩ := next; omega) (by omega) (by omega)
    rw [widenAll_cons, ← own, ← named]
    refine ⟨?_, merged.follows, merged.holds⟩
    obtain ⟨first, tail, shown, start, start', stop, stop', covered⟩ := merged.starts
    dsimp only
    rw [shown]
    obtain ⟨n, left, right, -⟩ := id gap
    have part := alike_part old new 0 0 _ _ 0 (n - before) gap (Nat.zero_le _) (by omega)
    have place : 0 + (n - before) = first.old.1 := by omega
    have place' : 0 + (n - before) = first.new.1 := by omega
    rw [← place'] at start'
    refine ⟨?_, by omega, by omega, covered⟩
    have start'' : first.new.1 = 0 + (n - before) := by omega
    rw [← place, start'']
    exact part

theorem region_written (region : Region) (listed : region ∈ found) :
    ∃ outer ∈ widenDeletions found new, Within region outer := by
  obtain ⟨before, after, rfl⟩ := List.append_of_mem listed
  obtain ⟨-, -, holds⟩ := widened_covers old new _ covers
  obtain ⟨outer, written, inside⟩ := holds _ (mem_widenAll (isCode new) new.length before after
    region 0)
  obtain ⟨grow, stretch, one, two, three, four, -, -⟩ :=
    grown_around (isCode new) old new before after region covers
  refine ⟨outer, written, within_trans _ _ _ ?_ inside⟩
  change Within region (widen (isCode new) new.length (floorOf before) _ region)
  exact ⟨⟨by omega, by omega⟩, by omega, by omega⟩

end Hunks

end DeepDiffForge.Review.MutationScope
