import DeepDiffForge.Syntax.Described

/-! The exact script pairs as many tokens as a longest common subsequence of the texts has, and a
diff is called minimal only when it is made of such a script. -/

namespace DeepDiffForge.Syntax
open Text DeepDiffForge.Core Script Tiling Subsequence

def isEqual : Op → Bool
  | .equal _ _ => true
  | _ => false

def pairs (ops : List Op) : Nat := ops.countP isEqual

def edits (ops : List Op) : Nat := ops.countP fun op => !isEqual op

theorem pairs_equals (old new count : Nat) : pairs (equals old new count) = count := by
  have all : (List.range count).countP (isEqual ∘ fun k => .equal (old + k) (new + k)) =
      (List.range count).length := List.countP_eq_length.2 fun _ _ => rfl
  rw [pairs, equals, List.countP_map, all, List.length_range]

theorem pairs_deletes (old count : Nat) : pairs (deletes old count) = 0 := by
  rw [pairs, deletes, List.countP_map, List.countP_eq_zero.2]
  intro k _ paired
  cases paired

theorem pairs_inserts (new count : Nat) : pairs (inserts new count) = 0 := by
  rw [pairs, inserts, List.countP_map, List.countP_eq_zero.2]
  intro k _ paired
  cases paired

section Walk

theorem walk_longest (old new : List Token) (pre i j : Nat) (xs ys : List Token)
    (left : old.drop i = xs) (right : new.drop j = ys) :
    Longest (texts xs) (texts ys)
      (pairs (lcsWalk (lcsTable (texts old) (texts new)) pre i j xs ys)) := by
  have value (i j : Nat) : Longest (texts (old.drop i)) (texts (new.drop j))
      (cell (lcsTable (texts old) (texts new)) i j) := by
    have longest := longest_cell (texts old) (texts new) i j
    rw [texts, texts, List.map_drop, List.map_drop]
    exact longest
  have next (tokens : List Token) (k : Nat) (x : Token) (rest : List Token)
      (own : tokens.drop k = x :: rest) : tokens.drop (k + 1) = rest := by
    rw [← List.tail_drop, own]
    rfl
  fun_induction lcsWalk (lcsTable (texts old) (texts new)) pre i j xs ys with
  | case1 i j ys =>
    rw [pairs_inserts]
    exact longest_nil_left _
  | case2 i j x xs =>
    rw [pairs_deletes]
    exact longest_nil_right _
  | case3 i j x xs y ys equal ih =>
    have rest := ih (next _ _ _ _ left) (next _ _ _ _ right)
    have more := longest_same x.text _ _ _ rest
    rw [pairs, List.countP_cons_of_pos rfl]
    conv at more => arg 2; rw [equal]
    exact more
  | case4 i j x xs y ys differ above ih =>
    have below := ih (next _ _ _ _ left) right
    have beside := value i (j + 1)
    rw [left, next _ _ _ _ right] at beside
    have own := value (i + 1) j
    rw [next _ _ _ _ left, right] at own
    have most := longest_other x.text y.text differ _ _ _ _ below beside
    rw [longest_unique _ _ _ _ own below] at above
    rw [Nat.max_eq_left above] at most
    rw [pairs, List.countP_cons_of_neg Bool.false_ne_true]
    exact most
  | case5 i j x xs y ys differ above ih =>
    have beside := ih left (next _ _ _ _ right)
    have below := value (i + 1) j
    rw [next _ _ _ _ left, right] at below
    have own := value i (j + 1)
    rw [left, next _ _ _ _ right] at own
    have most := longest_other x.text y.text differ _ _ _ _ below beside
    rw [longest_unique _ _ _ _ own beside] at above
    rw [Nat.max_eq_right (by omega)] at most
    rw [pairs, List.countP_cons_of_neg Bool.false_ne_true]
    exact most

end Walk

section Whole
variable (old new : List Token)

theorem texts_same (start stop count : Nat)
    (same : ∀ k < count, SameText old new (start + k) (stop + k)) :
    texts (slice old (start, start + count)) = texts (slice new (stop, stop + count)) := by
  apply List.ext_getElem?
  intro k
  simp only [texts, slice, List.getElem?_map, List.getElem?_take, List.getElem?_drop,
    Nat.add_sub_cancel_left]
  split_ifs with within
  · obtain ⟨a, b, oldAt, newAt, equal⟩ := same k within
    rw [oldAt, newAt, Option.map_some, Option.map_some, equal]
  · rfl

theorem texts_parted (tokens : List Token) (pre stop : Nat) (before : pre ≤ stop)
    (after : stop ≤ tokens.length) :
    texts tokens = texts (slice tokens (0, pre)) ++ (texts (slice tokens (pre, stop)) ++
      texts (slice tokens (stop, tokens.length))) := by
  conv_lhs => rw [← slice_whole tokens, slice_split tokens 0 pre _ (Nat.zero_le _)
    (Nat.le_trans before after), slice_split tokens pre stop _ before after]
  rw [texts, List.map_append, List.map_append]
  rfl

/-- The exact script pairs as many tokens as a longest common subsequence has texts. -/
theorem lcsOps_longest : Longest (texts old) (texts new) (pairs (lcsOps old new)) := by
  cases affixes : commonAffixes old new with
  | mk pre suffix =>
    obtain ⟨oldFit, newFit, front, back⟩ := commonAffixes_pairs old new pre suffix affixes
    have stop (tokens : List Token) (fit : pre + suffix ≤ tokens.length) :
        pre + (tokens.length - pre - suffix) = tokens.length - suffix := by omega
    have first := texts_same old new 0 0 pre fun k within => by
      rw [Nat.zero_add]
      exact front k within
    have last := texts_same old new (old.length - suffix) (new.length - suffix) suffix back
    rw [Nat.zero_add] at first
    rw [Nat.sub_add_cancel (by omega), Nat.sub_add_cancel (by omega)] at last
    have middle := walk_longest (slice old (pre, old.length - suffix))
      (slice new (pre, new.length - suffix)) pre 0 0 _ _ rfl rfl
    rw [List.drop_zero, List.drop_zero] at middle
    have whole := longest_prefix (texts (slice old (0, pre))) _ _ _
      (longest_suffix (texts (slice old (old.length - suffix, old.length))) _ _ _ middle)
    rw [← texts_parted old pre _ (by omega) (by omega), first, last,
      ← texts_parted new pre _ (by omega) (by omega)] at whole
    have front' : (texts (slice new (0, pre))).length = pre := by
      rw [texts, List.length_map, length_slice _ _ (by dsimp only; omega)]
      rfl
    have back' : (texts (slice new (new.length - suffix, new.length))).length = suffix := by
      rw [texts, List.length_map, length_slice _ _ (by dsimp only; omega)]
      dsimp only
      omega
    have count : pairs (lcsOps old new) = pre + (pairs (lcsWalk (lcsTable
        (texts (slice old (pre, old.length - suffix)))
        (texts (slice new (pre, new.length - suffix)))) pre 0 0
          (slice old (pre, old.length - suffix)) (slice new (pre, new.length - suffix))) +
        suffix) := by
      rw [lcsOps, affixes]
      dsimp only
      rw [stop old oldFit, stop new newFit, pairs, List.countP_append, List.countP_append,
        ← pairs, ← pairs, ← pairs, pairs_equals, pairs_equals, Nat.add_assoc]
    rw [front', back', ← count] at whole
    exact whole

end Whole

section Scripts
variable (old new : List Token) (ops : List Op) (valid : Valid old new ops)

theorem texts_range (tokens : List Token) :
    (List.range tokens.length).map (fun k => (tokenAt tokens k).text) = texts tokens := by
  conv_rhs => rw [← tokenAt_range tokens]
  rw [texts, List.map_map]
  rfl

include valid

/-- A script that names every token once and in order pairs a common subsequence. -/
theorem pairs_le (longest : Nat) (own : Longest (texts old) (texts new) longest) :
    pairs ops ≤ longest := by
  have left : List.Sublist (((ops.filter isEqual).filterMap Op.old?).map fun k => (tokenAt old k).text)
      (texts old) := by
    rw [← texts_range, ← valid.olds]
    exact (List.filter_sublist.filterMap _).map _
  have right : List.Sublist (((ops.filter isEqual).filterMap Op.new?).map fun k => (tokenAt new k).text)
      (texts new) := by
    rw [← texts_range, ← valid.news]
    exact (List.filter_sublist.filterMap _).map _
  have named : ∀ op ∈ ops.filter isEqual, ∃ i j, op = .equal i j ∧ SameText old new i j := by
    intro op listed
    obtain ⟨member, paired⟩ := List.mem_filter.1 listed
    cases op with
    | equal i j => exact ⟨i, j, rfl, valid.pairs i j member⟩
    | delete i => cases paired
    | insert j => cases paired
  have same (steps : List Op) (named : ∀ op ∈ steps, ∃ i j, op = .equal i j ∧
      SameText old new i j) :
      (steps.filterMap Op.old?).map (fun k => (tokenAt old k).text) =
        (steps.filterMap Op.new?).map (fun k => (tokenAt new k).text) ∧
      ((steps.filterMap Op.old?).map fun k => (tokenAt old k).text).length = steps.length := by
    induction steps with
    | nil => exact ⟨rfl, rfl⟩
    | cons op steps ih =>
      obtain ⟨⟨i, j, rfl, a, b, oldAt, newAt, equal⟩, rest⟩ := List.forall_mem_cons.1 named
      obtain ⟨lists, length⟩ := ih rest
      have here : (tokenAt old i).text = (tokenAt new j).text := by
        rw [tokenAt, tokenAt, List.getD_eq_getElem?_getD, List.getD_eq_getElem?_getD, oldAt, newAt]
        exact equal
      constructor
      · exact congrArg₂ List.cons here lists
      · change (_ :: _).length = _
        rw [List.length_cons, List.length_cons]
        exact congrArg (· + 1) length
  obtain ⟨lists, length⟩ := same _ named
  have fewer := own.2 _ left (lists ▸ right)
  rwa [length, ← List.countP_eq_length_filter] at fewer

theorem pairs_edits : edits ops + 2 * pairs ops = old.length + new.length := by
  have counted (ops : List Op) : edits ops + 2 * pairs ops =
      (ops.filterMap Op.old?).length + (ops.filterMap Op.new?).length := by
    induction ops with
    | nil => rfl
    | cons op ops ih =>
      rw [edits, pairs] at ih ⊢
      rw [List.countP_cons, List.countP_cons, List.filterMap_cons, List.filterMap_cons]
      generalize ops.countP isEqual = paired, ops.countP (fun op => !isEqual op) = edited at ih ⊢
      cases op with
      | equal i j =>
        simp only [isEqual, Op.old?, Op.new?, List.length_cons, Bool.not_true, Bool.false_eq_true,
          if_false, if_true]
        omega
      | delete i =>
        simp only [isEqual, Op.old?, Op.new?, List.length_cons, Bool.not_false, Bool.false_eq_true,
          if_false, if_true]
        omega
      | insert j =>
        simp only [isEqual, Op.old?, Op.new?, List.length_cons, Bool.not_false, Bool.false_eq_true,
          if_false, if_true]
        omega
  rw [counted, valid.olds, valid.news, List.length_range, List.length_range]

/-- No script that pairs equal texts in order has fewer edits than the exact one. -/
theorem edits_least : edits (lcsOps old new) ≤ edits ops := by
  have fewer := pairs_le old new ops valid _ (lcsOps_longest old new)
  have own := pairs_edits old new ops valid
  have exactly := pairs_edits old new _ (valid_of_aligns _ _ _ (aligns_lcsOps old new))
  omega

end Scripts

/-- The exact script is as short as can be, and a diff says it is minimal only when it is made of
such a script. -/
theorem lcsOps_minimal (old new : List Token) :
    Longest (texts old) (texts new) (pairs (lcsOps old new)) ∧
      (∀ ops, Valid old new ops → edits (lcsOps old new) ≤ edits ops) ∧
      ∀ language reformatOnly, (diffTokens language old new).state = .minimal reformatOnly →
        ∃ ops minimal, diffTokens language old new = scriptDiff language old new ops minimal ∧
          Valid old new ops ∧ Longest (texts old) (texts new) (pairs ops) := by
  refine ⟨lcsOps_longest old new, edits_least old new, ?_⟩
  intro language reformatOnly minimal
  have exactly := valid_of_aligns _ _ _ (aligns_lcsOps old new)
  cases affixes : commonAffixes old new with
  | mk pre suffix =>
    simp only [diffTokens, affixes] at minimal ⊢
    by_cases small : saturatingMul (old.length - pre - suffix) (new.length - pre - suffix) ≤
      lcsCellBudget
    · rw [if_pos small]
      exact ⟨_, _, rfl, exactly, lcsOps_longest old new⟩
    · rw [if_neg small] at minimal ⊢
      cases anchored : lineAnchoredOps old new with
      | none =>
        rw [anchored] at minimal
        cases minimal
      | some ops =>
        rw [anchored] at minimal
        have differ : texts old ≠ texts new := by
          intro same
          rw [sameTexts_affixes old new same] at affixes
          obtain ⟨rfl, rfl⟩ := Prod.mk.inj affixes
          simp [saturatingMul, lcsCellBudget] at small
        have described := scriptDiff_described language old new ops false
          (aligns_lineAnchoredOps old new ops anchored) fun same => absurd same differ
        -- an anchored script of pairs alone would run between streams of the same texts
        have loud : (scriptDiff language old new ops false).reformatOnly = false :=
          Bool.eq_false_iff.2 fun quiet => differ (described.reformat.1 quiet)
        have states : (scriptDiff language old new ops false).state = .minimal true ∨
            (scriptDiff language old new ops false).state = .lineAnchored := by
          simp only [scriptDiff]
          split_ifs with quiet never
          · exact .inl rfl
          · exact absurd never not_false
          · exact .inr rfl
        rcases states with quiet | anchored'
        · rw [StructuralDiff.reformatOnly, quiet] at loud
          cases loud
        · rw [anchored'] at minimal
          cases minimal

end DeepDiffForge.Syntax
