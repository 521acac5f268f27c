import DeepDiffForge.Lib.Text
import DeepDiffForge.Lib.Tiling
import Mathlib.Data.List.Range

/-! Blocks of a sequence, each begun by a marker at the start of a line. -/

namespace DeepDiffForge.Markers
open Text Tiling

variable {α : Type} [DecidableEq α] (lf : α) (marker : List α)

def lineStart (items : List α) (i : Nat) : Bool := i = 0 || items[i - 1]? = some lf

def starts (items : List α) : List Nat :=
  (List.range items.length).filter fun i =>
    startsWith marker (items.drop i) && lineStart lf items i

/-- The ranges from each marker to the next, or to the end. -/
def blocks (items : List α) : List (Nat × Nat) :=
  (starts lf marker items).mapIdx fun n start =>
    (start, (starts lf marker items)[n + 1]?.getD items.length)

/-- Where the block of an index begins, and past the last one the end. -/
def cut (items : List α) (n : Nat) : Nat := (starts lf marker items)[n]?.getD items.length

def EndsLine (items : List α) : Prop := items = [] ∨ items.getLast? = some lf

theorem mem_starts (items : List α) (i : Nat) :
    i ∈ starts lf marker items ↔ i < items.length ∧ startsWith marker (items.drop i) = true ∧
      lineStart lf items i = true := by
  simp [starts, List.mem_filter]

theorem sorted_starts (items : List α) : (starts lf marker items).Pairwise (· < ·) :=
  List.Pairwise.filter _ List.pairwise_lt_range

theorem startsWith_cut (first rest : List α) (absent : lf ∉ marker)
    (ends : first.getLast? = some lf) :
    startsWith marker (first ++ rest) = startsWith marker first := by
  rw [Bool.eq_iff_iff, startsWith_iff, startsWith_iff]
  constructor
  · rintro ⟨tail, same⟩
    rcases List.append_eq_append_iff.1 same with ⟨middle, long, -⟩ | ⟨middle, short, -⟩
    · have inside : lf ∈ marker := by
        rw [long]
        exact List.mem_append_left _ (List.mem_of_getLast? ends)
      exact absurd inside absent
    · exact ⟨middle, short⟩
  · rintro ⟨tail, rfl⟩
    exact ⟨tail ++ rest, by rw [List.append_assoc]⟩

theorem starts_append (first rest : List α) (absent : lf ∉ marker) (ends : EndsLine lf first) :
    starts lf marker (first ++ rest) =
      starts lf marker first ++ (starts lf marker rest).map (first.length + ·) := by
  rcases ends with rfl | ends
  · simp [starts]
  rw [starts, List.length_append, List.range_add, List.filter_append, List.filter_map]
  congr 1
  · apply List.filter_congr
    intro i listed
    have within := List.mem_range.1 listed
    have begins : lineStart lf (first ++ rest) i = lineStart lf first i := by
      cases i with
      | zero => rfl
      | succ i => simp [lineStart, List.getElem?_append_left (Nat.lt_of_succ_lt within)]
    have tail : (first.drop i).getLast? = some lf := by
      rw [List.getLast?_drop, if_neg (by omega)]
      exact ends
    rw [begins, List.drop_append_of_le_length (by omega), startsWith_cut lf marker _ _ absent tail]
  · congr 1
    apply List.filter_congr
    intro i listed
    have drop : (first ++ rest).drop (first.length + i) = rest.drop i := by
      rw [← List.drop_drop, List.drop_left]
    have begins : lineStart lf (first ++ rest) (first.length + i) = lineStart lf rest i := by
      cases i with
      | zero =>
        have last : first[first.length - 1]? = some lf := by
          rw [← List.getLast?_eq_getElem?]
          exact ends
        have inside : first.length - 1 < first.length := (List.getElem?_eq_some_iff.1 last).1
        simp [lineStart, List.getElem?_append_left inside, last]
      | succ i =>
        have place : first.length + (i + 1) - 1 = first.length + i := by omega
        simp [lineStart, place, List.getElem?_append_right]
    rw [Function.comp_apply, drop, begins]

section Cuts
variable (items : List α)

theorem length_blocks : (blocks lf marker items).length = (starts lf marker items).length := by
  rw [blocks, List.length_mapIdx]

theorem getElem_blocks (n : Nat) (within : n < (blocks lf marker items).length) :
    (blocks lf marker items)[n] = (cut lf marker items n, cut lf marker items (n + 1)) := by
  have inside : n < (starts lf marker items).length := by
    rw [← length_blocks]
    exact within
  simp [blocks, cut, List.getElem?_eq_getElem inside]

theorem cut_eq (n : Nat) (within : n < (starts lf marker items).length) :
    cut lf marker items n = (starts lf marker items)[n] := by
  rw [cut, List.getElem?_eq_getElem within, Option.getD_some]

theorem cut_last : cut lf marker items (starts lf marker items).length = items.length := by
  rw [cut, List.getElem?_eq_none (Nat.le_refl _), Option.getD_none]

theorem cut_lt_length (n : Nat) (within : n < (starts lf marker items).length) :
    cut lf marker items n < items.length := by
  rw [cut_eq lf marker items n within]
  exact ((mem_starts lf marker items _).1 (List.getElem_mem within)).1

theorem cut_le_length (n : Nat) : cut lf marker items n ≤ items.length := by
  by_cases within : n < (starts lf marker items).length
  · exact Nat.le_of_lt (cut_lt_length lf marker items n within)
  · rw [cut, List.getElem?_eq_none (by omega), Option.getD_none]

theorem cut_lt (i j : Nat) (order : i < j) (within : j ≤ (starts lf marker items).length) :
    cut lf marker items i < cut lf marker items j := by
  rcases Nat.eq_or_lt_of_le within with rfl | inside
  · rw [cut_last]
    exact cut_lt_length lf marker items i order
  · rw [cut_eq lf marker items i (by omega), cut_eq lf marker items j inside]
    exact List.pairwise_iff_getElem.1 (sorted_starts lf marker items) i j _ _ order

theorem cut_mono (i j : Nat) (order : i ≤ j) : cut lf marker items i ≤ cut lf marker items j := by
  by_cases within : j ≤ (starts lf marker items).length
  · rcases Nat.eq_or_lt_of_le order with rfl | less
    · exact Nat.le_refl _
    · exact Nat.le_of_lt (cut_lt lf marker items i j less within)
  · have last : cut lf marker items j = items.length := by
      rw [cut, List.getElem?_eq_none (by omega), Option.getD_none]
    rw [last]
    exact cut_le_length lf marker items i

theorem endsLine_take (n : Nat) (within : n < (starts lf marker items).length) :
    EndsLine lf (items.take (cut lf marker items n)) := by
  have found := (mem_starts lf marker items _).1 (List.getElem_mem within)
  rw [← cut_eq lf marker items n within] at found
  generalize cut lf marker items n = place at found
  obtain ⟨inside, -, begins⟩ := found
  cases place with
  | zero => exact .inl rfl
  | succ place =>
    right
    rw [List.getLast?_take]
    simp only [lineStart, Nat.add_one_ne_zero, decide_false, Bool.false_or,
      Nat.add_sub_cancel, decide_eq_true_eq] at begins
    simp [begins]

/-- The blocks before one are those of the items before it. -/
theorem length_starts_take (absent : lf ∉ marker) (n : Nat)
    (within : n ≤ (starts lf marker items).length) :
    (starts lf marker (items.take (cut lf marker items n))).length = n := by
  rcases Nat.eq_or_lt_of_le within with rfl | inside
  · rw [cut_last, List.take_length]
  have ends := endsLine_take lf marker items n inside
  have place := cut_eq lf marker items n inside
  have fits := cut_lt_length lf marker items n inside
  have split := starts_append lf marker _ (items.drop (cut lf marker items n)) absent ends
  rw [List.take_append_drop] at split
  have width : (items.take (cut lf marker items n)).length = cut lf marker items n := by
    rw [List.length_take]
    omega
  rw [width] at split
  rcases Nat.lt_trichotomy n (starts lf marker (items.take (cut lf marker items n))).length with
    early | same | late
  · have value := place.symm
    simp only [split, List.getElem_append_left early] at value
    have below := ((mem_starts lf marker _ _).1 (List.getElem_mem early)).1
    omega
  · exact same.symm
  · have order := List.pairwise_iff_getElem.1 (sorted_starts lf marker items) _ n
      (late.trans inside) inside late
    rw [← place] at order
    simp only [split, List.getElem_append_right (Nat.le_refl _), List.getElem_map] at order
    omega

theorem take_cut (i j : Nat) (order : i < j) (within : j ≤ (starts lf marker items).length) :
    items.take (cut lf marker items j) = items.take (cut lf marker items i) ++
      slice items (cut lf marker items i, cut lf marker items j) := by
  have grows := cut_lt lf marker items i j order within
  have width : cut lf marker items j =
      cut lf marker items i + (cut lf marker items j - cut lf marker items i) := by omega
  conv_lhs => rw [width, List.take_add]
  rfl

/-- As many blocks begin between two cuts as there are cuts from one to the other. -/
theorem length_starts_slice (absent : lf ∉ marker) (i j : Nat) (order : i < j)
    (within : j ≤ (starts lf marker items).length) :
    (starts lf marker (slice items (cut lf marker items i, cut lf marker items j))).length =
      j - i := by
  have first := length_starts_take lf marker items absent i (by omega)
  have second := length_starts_take lf marker items absent j within
  rw [take_cut lf marker items i j order within,
    starts_append lf marker _ _ absent (endsLine_take lf marker items i (by omega)),
    List.length_append, List.length_map, first] at second
  omega

theorem startsWith_block (absent : lf ∉ marker) (n : Nat)
    (within : n < (starts lf marker items).length) :
    startsWith marker (slice items (cut lf marker items n, cut lf marker items (n + 1))) =
      true := by
  have found := ((mem_starts lf marker items _).1 (List.getElem_mem within)).2.1
  rw [← cut_eq lf marker items n within] at found
  rcases Nat.eq_or_lt_of_le (Nat.succ_le_of_lt within) with last | more
  · have whole : slice items (cut lf marker items n, cut lf marker items (n + 1)) =
        items.drop (cut lf marker items n) := by
      have stop := cut_last lf marker items
      rw [← last] at stop
      rw [slice, stop, ← List.length_drop, List.take_length]
    rw [whole]
    exact found
  · have grows := cut_lt lf marker items n (n + 1) (Nat.lt_succ_self n) within
    have fits := cut_le_length lf marker items (n + 1)
    have split : items.drop (cut lf marker items n) =
        slice items (cut lf marker items n, cut lf marker items (n + 1)) ++
          items.drop (cut lf marker items (n + 1)) := by
      have parts := List.take_append_drop (cut lf marker items (n + 1) - cut lf marker items n)
        (items.drop (cut lf marker items n))
      rw [List.drop_drop, Nat.add_sub_cancel' (Nat.le_of_lt grows)] at parts
      exact parts.symm
    have ends : (slice items (cut lf marker items n, cut lf marker items (n + 1))).getLast? =
        some lf := by
      have before := endsLine_take lf marker items (n + 1) more
      have filled : slice items (cut lf marker items n, cut lf marker items (n + 1)) ≠ [] := by
        intro missing
        have length := congrArg List.length missing
        rw [slice, List.length_take, List.length_drop, List.length_nil] at length
        omega
      rw [take_cut lf marker items n (n + 1) (Nat.lt_succ_self n) within] at before
      rcases before with missing | last
      · exact absurd (List.append_eq_nil_iff.1 missing).2 filled
      · rwa [List.getLast?_append_of_ne_nil _ filled] at last
    rw [split, startsWith_cut lf marker _ _ absent ends] at found
    exact found

def spans : Nat → List Nat → List (Nat × Nat)
  | _, [] => []
  | n, count :: counts =>
      (cut lf marker items n, cut lf marker items (n + count)) :: spans (n + count) counts

theorem tiles_spans (n : Nat) (counts : List Nat) (grows : ∀ count ∈ counts, 0 < count)
    (total : n + counts.foldr (· + ·) 0 = (starts lf marker items).length) :
    Tiles (cut lf marker items n) items.length (spans lf marker items n counts) := by
  induction counts generalizing n with
  | nil =>
    simp only [List.foldr_nil, Nat.add_zero] at total
    rw [total, cut_last]
    exact .done _
  | cons count counts ih =>
    rw [List.foldr_cons, ← Nat.add_assoc] at total
    have present := grows count (by simp)
    have next := cut_lt lf marker items n (n + count) (by omega) (by omega)
    exact .range _ _ _ _ next (ih (n + count) (fun other listed => grows other (by simp [listed])) total)

theorem blocks_filled : ∀ block ∈ blocks lf marker items, block.1 < block.2 := by
  intro block listed
  obtain ⟨n, within, rfl⟩ := List.getElem_of_mem listed
  rw [getElem_blocks]
  rw [length_blocks] at within
  exact cut_lt lf marker items n (n + 1) (Nat.lt_succ_self n) within

theorem blocks_range : blocks lf marker items = (List.range (starts lf marker items).length).map
    fun n => (cut lf marker items n, cut lf marker items (n + 1)) := by
  apply List.ext_getElem
  · rw [length_blocks, List.length_map, List.length_range]
  · intro n within _
    rw [getElem_blocks, List.getElem_map, List.getElem_range]

theorem length_filter_range (i j count : Nat) (order : i ≤ j) :
    ((List.range count).filter fun n => i ≤ n ∧ n < j).length = min count j - i := by
  induction count with
  | zero => simp
  | succ count ih =>
    rw [List.range_succ, List.filter_append, List.length_append, ih, List.filter_singleton]
    by_cases held : i ≤ count ∧ count < j
    · rw [decide_eq_true held, cond_true, List.length_singleton]
      omega
    · rw [decide_eq_false held, cond_false, List.length_nil]
      omega

/-- A range from one cut to another holds the blocks between them. -/
theorem length_inside_blocks (i j : Nat) (order : i < j)
    (within : j ≤ (starts lf marker items).length) :
    (inside (blocks lf marker items) (cut lf marker items i, cut lf marker items j)).length =
      j - i := by
  have same : ∀ n ∈ List.range (starts lf marker items).length,
      decide (cut lf marker items i ≤ cut lf marker items n ∧
        cut lf marker items (n + 1) ≤ cut lf marker items j) = decide (i ≤ n ∧ n < j) := by
    intro n listed
    have held := List.mem_range.1 listed
    apply decide_eq_decide.2
    constructor
    · rintro ⟨low, high⟩
      constructor
      · by_contra before
        have less := cut_lt lf marker items n i (Nat.lt_of_not_le before) (by omega)
        omega
      · by_contra past
        have less := cut_lt lf marker items j (n + 1) (by omega) held
        omega
    · rintro ⟨low, high⟩
      exact ⟨cut_mono lf marker items i n low, cut_mono lf marker items (n + 1) j high⟩
  rw [inside, blocks_range, List.filter_map, List.length_map]
  refine (congrArg List.length (List.filter_congr same)).trans ?_
  rw [length_filter_range i j _ (Nat.le_of_lt order), Nat.min_eq_right within]

end Cuts

section Lines

/-- The lines of a sequence, each up to and with its end. -/
def pieces : List α → List (List α)
  | [] => []
  | x :: rest =>
      if x = lf then [x] :: pieces rest
      else
        match pieces rest with
        | [] => [[x]]
        | piece :: others => (x :: piece) :: others

theorem pieces_line (line rest : List α) (plain : lf ∉ line) :
    pieces lf (line ++ lf :: rest) = (line ++ [lf]) :: pieces lf rest := by
  induction line with
  | nil => rw [List.nil_append, pieces, if_pos rfl, List.nil_append]
  | cons x line ih =>
    rw [List.mem_cons, not_or] at plain
    rw [List.cons_append, pieces, if_neg (Ne.symm plain.1), ih plain.2, List.cons_append]

theorem pieces_last (line : List α) (plain : lf ∉ line) (nonempty : line ≠ []) :
    pieces lf line = [line] := by
  induction line with
  | nil => exact absurd rfl nonempty
  | cons x line ih =>
    rw [List.mem_cons, not_or] at plain
    rw [pieces, if_neg (Ne.symm plain.1)]
    cases line with
    | nil => rfl
    | cons y line => rw [ih plain.2 (by simp)]

theorem by_lines (holds : List α → Prop) (empty : holds [])
    (last : ∀ line, lf ∉ line → line ≠ [] → holds line)
    (line : ∀ line rest, lf ∉ line → holds rest → holds (line ++ lf :: rest))
    (items : List α) : holds items := by
  induction size : items.length using Nat.strong_induction_on generalizing items with
  | _ size ih =>
    cases found : splitOnce lf items with
    | none =>
      have plain := (splitOnce_eq_none lf items).1 found
      by_cases absent : items = []
      · rw [absent]
        exact empty
      · exact last items plain absent
    | some parts =>
      obtain ⟨whole, plain⟩ := (splitOnce_eq_some lf items parts.1 parts.2).1 found
      rw [whole]
      refine line _ _ plain (ih _ ?_ _ rfl)
      rw [← size, whole, List.length_append, List.length_cons]
      omega

theorem flatten_pieces (items : List α) : (pieces lf items).flatten = items := by
  induction items using by_lines lf with
  | empty => rfl
  | last line plain present =>
    rw [pieces_last lf line plain present, List.flatten_cons, List.flatten_nil, List.append_nil]
  | line line rest plain ih =>
    rw [pieces_line lf line rest plain, List.flatten_cons, ih, List.append_assoc]
    rfl

def bare (piece : List α) : List α := piece.takeWhile (· ≠ lf)

theorem bare_append (line rest : List α) (plain : lf ∉ line) (ends : rest = [] ∨ rest = [lf]) :
    bare lf (line ++ rest) = line := by
  have kept : ∀ item ∈ line, decide (item ≠ lf) = true := fun item listed =>
    decide_eq_true fun same => plain (same ▸ listed)
  rw [bare, List.takeWhile_append_of_pos kept]
  rcases ends with rfl | rfl
  · exact List.append_nil line
  · rw [List.takeWhile_cons_of_neg (by simp), List.append_nil]

/-- A piece is a line with its separator, or the last one without. -/
theorem mem_pieces (items piece : List α) (listed : piece ∈ pieces lf items) :
    ∃ line, lf ∉ line ∧ (piece = line ++ [lf] ∨ (piece = line ∧ line ≠ [])) := by
  induction items using by_lines lf with
  | empty => cases listed
  | last line plain present =>
    rw [pieces_last lf line plain present, List.mem_singleton] at listed
    exact ⟨line, plain, .inr ⟨listed, present⟩⟩
  | line line rest plain ih =>
    rw [pieces_line lf line rest plain, List.mem_cons] at listed
    rcases listed with first | later
    · exact ⟨line, plain, .inl first⟩
    · exact ih later

theorem pieces_append (first rest : List α) (ends : EndsLine lf first) :
    pieces lf (first ++ rest) = pieces lf first ++ pieces lf rest := by
  induction first using by_lines lf with
  | empty => rfl
  | last line plain present =>
    rcases ends with absent | last
    · exact absurd absent present
    · exact absurd (List.mem_of_getLast? last) plain
  | line line tail plain ih =>
    have later : EndsLine lf tail := by
      rcases ends with absent | last
      · simp at absent
      · cases tail with
        | nil => exact .inl rfl
        | cons x tail =>
          rw [List.append_cons, List.getLast?_append_of_ne_nil _ (List.cons_ne_nil _ _)] at last
          exact .inr last
    rw [List.append_assoc, List.cons_append, pieces_line lf line _ plain, pieces_line lf line _ plain,
      ih later, List.cons_append]

/-- In a single line, only its beginning can begin a marked line. -/
theorem starts_single (items : List α) (nonempty : items ≠ [])
    (single : ∀ i, i + 1 < items.length → items[i]? ≠ some lf) :
    starts lf marker items = if startsWith marker items = true then [0] else [] := by
  have later : ∀ i ∈ (List.range (items.length - 1)).map Nat.succ,
      (startsWith marker (items.drop i) && lineStart lf items i) = false := by
    intro i listed
    obtain ⟨k, within, rfl⟩ := List.mem_map.1 listed
    have inside := List.mem_range.1 within
    have other := single k (by omega)
    simp [lineStart, other]
  have width : items.length = items.length - 1 + 1 := by
    have grows := List.length_pos_iff.2 nonempty
    omega
  rw [starts, width, List.range_succ_eq_map, List.filter_cons, List.drop_zero]
  rw [List.filter_eq_nil_iff.2 fun i listed => by rw [later i listed]; exact Bool.false_ne_true]
  simp [lineStart]

/-- The blocks are as many as the lines that begin with the marker. -/
theorem length_starts (absent : lf ∉ marker) (items : List α) :
    (starts lf marker items).length = (pieces lf items).countP (startsWith marker) := by
  induction items using by_lines lf with
  | empty => rfl
  | last line plain present =>
    rw [pieces_last lf line plain present, starts_single lf marker line present fun i _ held =>
      plain (List.mem_of_getElem? held), List.countP_singleton]
    split <;> rfl
  | line line rest plain ih =>
    have whole : line ++ lf :: rest = (line ++ [lf]) ++ rest := by simp
    have single : starts lf marker (line ++ [lf]) =
        if startsWith marker (line ++ [lf]) = true then [0] else [] := by
      apply starts_single lf marker _ (by simp)
      intro i within held
      rw [List.length_append, List.length_singleton] at within
      rw [List.getElem?_append_left (by omega)] at held
      exact plain (List.mem_of_getElem? held)
    rw [pieces_line lf line rest plain, whole,
      starts_append lf marker _ _ absent (.inr (by simp)), List.length_append, List.length_map, ih,
      List.countP_cons, single]
    split
    · rw [List.length_singleton, Nat.add_comm]
    · rw [List.length_nil, Nat.zero_add, Nat.add_zero]

/-- A marked sequence has a marked first line. -/
theorem pieces_marked (absent : lf ∉ marker) (items : List α) (nonempty : items ≠ [])
    (begins : startsWith marker items = true) :
    ∃ piece others, pieces lf items = piece :: others ∧ startsWith marker piece = true := by
  induction items using by_lines lf with
  | empty => exact absurd rfl nonempty
  | last line plain filled => exact ⟨line, [], pieces_last lf line plain filled, begins⟩
  | line line rest plain =>
    refine ⟨line ++ [lf], pieces lf rest, pieces_line lf line rest plain, ?_⟩
    rw [List.append_cons, startsWith_cut lf marker _ rest absent (by simp)] at begins
    exact begins

/-- The lines of the blocks are the lines of the whole. -/
theorem flatMap_pieces (items : List α) (begins : cut lf marker items 0 = 0) :
    (blocks lf marker items).flatMap (fun block => pieces lf (slice items block)) =
      pieces lf items := by
  have upTo (n : Nat) (within : n ≤ (blocks lf marker items).length) :
      ((blocks lf marker items).take n).flatMap (fun block => pieces lf (slice items block)) =
        pieces lf (items.take (cut lf marker items n)) := by
    induction n with
    | zero => rw [List.take_zero, begins, List.take_zero, List.flatMap_nil, pieces]
    | succ n ih =>
      have inside := within
      rw [length_blocks] at inside
      have grows := cut_lt lf marker items n (n + 1) (Nat.lt_succ_self n) inside
      have width : cut lf marker items (n + 1) =
          cut lf marker items n + (cut lf marker items (n + 1) - cut lf marker items n) := by omega
      have ends := endsLine_take lf marker items n inside
      rw [List.take_succ_eq_append_getElem within, List.flatMap_append, ih (by omega),
        List.flatMap_singleton, getElem_blocks, ← pieces_append lf _ _ ends]
      conv_rhs => rw [width, List.take_add]
      rfl
  have whole := upTo _ (Nat.le_refl _)
  rw [List.take_length, length_blocks, cut_last, List.take_length] at whole
  exact whole

end Lines

section Joins
variable (first rest : List α)

/-- Before the join, blocks begin where they did. -/
theorem cut_append_left (absent : lf ∉ marker) (ends : EndsLine lf first)
    (begins : cut lf marker rest 0 = 0) (n : Nat)
    (within : n ≤ (starts lf marker first).length) :
    cut lf marker (first ++ rest) n = cut lf marker first n := by
  rw [cut, starts_append lf marker first rest absent ends]
  rcases Nat.eq_or_lt_of_le within with rfl | inside
  · rw [List.getElem?_append_right (Nat.le_refl _), Nat.sub_self, List.getElem?_map, cut_last,
      List.length_append]
    rw [cut] at begins
    cases found : (starts lf marker rest)[0]? with
    | none =>
      rw [found, Option.getD_none] at begins
      rw [Option.map_none, Option.getD_none, begins, Nat.add_zero]
    | some place =>
      rw [found, Option.getD_some] at begins
      rw [Option.map_some, Option.getD_some, begins, Nat.add_zero]
  · rw [List.getElem?_append_left inside, List.getElem?_eq_getElem inside, Option.getD_some,
      cut_eq lf marker first n inside]

/-- After the join, blocks begin where they did in the second part. -/
theorem cut_append_right (absent : lf ∉ marker) (ends : EndsLine lf first) (n : Nat) :
    cut lf marker (first ++ rest) ((starts lf marker first).length + n) =
      first.length + cut lf marker rest n := by
  rw [cut, starts_append lf marker first rest absent ends,
    List.getElem?_append_right (Nat.le_add_right _ _), Nat.add_sub_cancel_left, List.getElem?_map,
    List.length_append, cut]
  cases (starts lf marker rest)[n]? <;> rfl

theorem spans_append (items : List α) (n : Nat) (counts more : List Nat) :
    spans lf marker items n (counts ++ more) =
      spans lf marker items n counts ++
        spans lf marker items (n + counts.foldr (· + ·) 0) more := by
  induction counts generalizing n with
  | nil => rfl
  | cons count counts ih =>
    rw [List.cons_append, spans, spans, ih, List.cons_append, List.foldr_cons, Nat.add_assoc]

theorem spans_left (absent : lf ∉ marker) (ends : EndsLine lf first)
    (begins : cut lf marker rest 0 = 0) (n : Nat) (counts : List Nat)
    (within : n + counts.foldr (· + ·) 0 ≤ (starts lf marker first).length) :
    spans lf marker (first ++ rest) n counts = spans lf marker first n counts := by
  induction counts generalizing n with
  | nil => rfl
  | cons count counts ih =>
    rw [List.foldr_cons, ← Nat.add_assoc] at within
    rw [spans, spans, cut_append_left lf marker first rest absent ends begins n (by omega),
      cut_append_left lf marker first rest absent ends begins (n + count) (by omega),
      ih (n + count) within]

theorem spans_right (absent : lf ∉ marker) (ends : EndsLine lf first) (n : Nat) (counts : List Nat) :
    spans lf marker (first ++ rest) ((starts lf marker first).length + n) counts =
      (spans lf marker rest n counts).map
        fun range => (first.length + range.1, first.length + range.2) := by
  induction counts generalizing n with
  | nil => rfl
  | cons count counts ih =>
    rw [spans, spans, List.map_cons, Nat.add_assoc,
      cut_append_right lf marker first rest absent ends,
      cut_append_right lf marker first rest absent ends, ih]

/-- A marker across the join of two parts, the second begun by a marker, overlaps it. -/
theorem startsWith_join (borderless : ∀ k < marker.length, 0 < k →
      startsWith (marker.drop k) marker = false)
    (begins : startsWith marker rest = true) (filled : first ≠ [])
    (across : startsWith marker (first ++ rest) = true) : startsWith marker first = true := by
  rw [startsWith_iff] at across ⊢
  obtain ⟨tail, same⟩ := across
  rcases List.append_eq_append_iff.1 same with ⟨middle, long, begun⟩ | ⟨middle, short, -⟩
  · obtain ⟨later, whole⟩ := (startsWith_iff _ _).1 begins
    by_cases short : middle = []
    · rw [short, List.append_nil] at long
      exact ⟨[], by rw [long, List.append_nil]⟩
    · have width : middle.length ≠ 0 := fun empty => short (List.length_eq_zero_iff.1 empty)
      have other : first.length ≠ 0 := fun empty => filled (List.length_eq_zero_iff.1 empty)
      have total := congrArg List.length long
      rw [List.length_append] at total
      have cut : marker.drop first.length = middle := by rw [long, List.drop_left]
      have apart := borderless first.length (by omega) (by omega)
      have one : startsWith middle rest = true := (startsWith_iff _ _).2 ⟨tail, begun⟩
      rcases startsWith_comparable middle marker rest one begins with inner | outer
      · rw [cut, inner] at apart
        cases apart
      · obtain ⟨extra, longer⟩ := (startsWith_iff _ _).1 outer
        have lengths := congrArg List.length longer
        rw [List.length_append] at lengths
        omega
  · exact ⟨middle, short⟩

/-- Joined where no line ends, two parts have fewer blocks than they had apart. -/
theorem length_starts_join (borderless : ∀ k < marker.length, 0 < k →
      startsWith (marker.drop k) marker = false)
    (begins : startsWith marker rest = true) (filled : rest ≠ []) (broken : ¬EndsLine lf first) :
    (starts lf marker (first ++ rest)).length <
      (starts lf marker first).length + (starts lf marker rest).length := by
  rw [EndsLine, not_or] at broken
  have before : ((List.range first.length).filter fun i =>
      startsWith marker ((first ++ rest).drop i) && lineStart lf (first ++ rest) i).length ≤
      (starts lf marker first).length := by
    rw [starts, ← List.countP_eq_length_filter, ← List.countP_eq_length_filter]
    apply List.countP_mono_left
    intro i listed holds
    have within := List.mem_range.1 listed
    rw [Bool.and_eq_true] at holds ⊢
    rw [List.drop_append_of_le_length (by omega)] at holds
    refine ⟨startsWith_join marker _ rest borderless begins ?_ holds.1, ?_⟩
    · intro absent
      have short := congrArg List.length absent
      rw [List.length_drop, List.length_nil] at short
      omega
    · have line := holds.2
      cases i with
      | zero => rfl
      | succ i =>
        rw [lineStart, List.getElem?_append_left (by omega)] at line
        exact line
  have after : (((List.range rest.length).map (first.length + ·)).filter fun i =>
      startsWith marker ((first ++ rest).drop i) && lineStart lf (first ++ rest) i).length <
      (starts lf marker rest).length := by
    have width : rest.length = rest.length - 1 + 1 := by
      have grows := List.length_pos_iff.2 filled
      omega
    have last : first[first.length - 1]? ≠ some lf := by
      rw [← List.getLast?_eq_getElem?]
      exact broken.2
    have inside : first.length - 1 < first.length := by
      have grows := List.length_pos_iff.2 broken.1
      omega
    have unbegun : lineStart lf (first ++ rest) first.length = false := by
      simp [lineStart, broken.1, List.getElem?_append_left inside, last]
    have later (k : Nat) : lineStart lf (first ++ rest) (first.length + (k + 1)) =
        lineStart lf rest (k + 1) := by
      have place : first.length + (k + 1) - 1 = first.length + k := by omega
      simp [lineStart, place, List.getElem?_append_right]
    rw [List.filter_map, List.length_map, starts, width, List.range_succ_eq_map,
      List.filter_cons, List.filter_cons]
    simp only [Function.comp_apply, Nat.add_zero, unbegun, Bool.and_false, Bool.false_eq_true,
      if_false, List.drop_zero, begins, Bool.true_and]
    rw [show lineStart lf rest 0 = true from rfl, if_pos rfl, List.length_cons, List.filter_map,
      List.length_map, List.filter_map, List.length_map]
    apply Nat.lt_succ_of_le
    apply Nat.le_of_eq
    congr 1
    apply List.filter_congr
    intro k _
    have drop : (first ++ rest).drop (first.length + (k + 1)) = rest.drop (k + 1) := by
      rw [← List.drop_drop, List.drop_left]
    simp only [Function.comp_apply, Nat.succ_eq_add_one, drop, later]
  rw [starts, List.length_append, List.range_add, List.filter_append, List.length_append]
  omega

end Joins

theorem groups_unique {β : Type} (begins : β → Bool) (one two : List (List β))
    (first : ∀ group ∈ one, ∃ head tail, group = head :: tail ∧ begins head = true ∧
      ∀ item ∈ tail, begins item = false)
    (second : ∀ group ∈ two, ∃ head tail, group = head :: tail ∧ begins head = true ∧
      ∀ item ∈ tail, begins item = false)
    (same : one.flatten = two.flatten) : one = two := by
  have tails (tail more : List β) (plain : ∀ item ∈ tail, begins item = false)
      (rest : List (List β)) (apart : ∀ group ∈ rest, ∃ head tail, group = head :: tail ∧
        begins head = true ∧ ∀ item ∈ tail, begins item = false)
      (joined : tail ++ rest.flatten = more) :
      more.takeWhile (begins · = false) = tail ∧ more.dropWhile (begins · = false) = rest.flatten := by
    have stop : (rest.flatten).takeWhile (begins · = false) = [] ∧
        (rest.flatten).dropWhile (begins · = false) = rest.flatten := by
      cases rest with
      | nil => exact ⟨rfl, rfl⟩
      | cons group rest =>
        obtain ⟨head, later, rfl, marked, -⟩ := apart group (by simp)
        simp [marked]
    rw [← joined]
    constructor
    · rw [List.takeWhile_append_of_pos (by simpa using plain), stop.1, List.append_nil]
    · rw [List.dropWhile_append_of_pos (by simpa using plain), stop.2]
  induction one generalizing two with
  | nil =>
    cases two with
    | nil => rfl
    | cons group two =>
      obtain ⟨head, tail, rfl, -⟩ := second group (by simp)
      simp at same
  | cons group one ih =>
    obtain ⟨head, tail, rfl, -, plain⟩ := first group (by simp)
    cases two with
    | nil => simp at same
    | cons other two =>
      obtain ⟨head', tail', rfl, -, plain'⟩ := second other (by simp)
      rw [List.flatten_cons, List.flatten_cons, List.cons_append, List.cons_append,
        List.cons.injEq] at same
      obtain ⟨rfl, rest⟩ := same
      have one' := tails tail _ plain one (fun group listed => first group (by simp [listed])) rfl
      have two' := tails tail' _ plain' two (fun group listed => second group (by simp [listed]))
        rest.symm
      rw [← one'.1, two'.1, ih two (fun group listed => first group (by simp [listed]))
        (fun group listed => second group (by simp [listed])) (one'.2.symm.trans two'.2)]

end DeepDiffForge.Markers
