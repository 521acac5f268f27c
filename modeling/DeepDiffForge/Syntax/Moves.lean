import DeepDiffForge.Lib.Matching
import DeepDiffForge.Lib.Runs
import DeepDiffForge.Syntax.Structural

/-! Moved blocks: whole delete runs matched one to one with whole insert runs of the same text. -/

namespace DeepDiffForge.Syntax
open Text DeepDiffForge.Core Script Tiling Runs Matching

abbrev Run := Nat × Nat

theorem delete_keeps (op : Op) (deleted : isDelete op = true) : isInsert op = false := by
  cases op <;> first | rfl | cases deleted

theorem insert_keeps (op : Op) (inserted : isInsert op = true) : isDelete op = false := by
  cases op <;> first | rfl | cases inserted

theorem opRuns_maximal (k : Nat) (ops : List Op) (run : Run) :
    (run ∈ (opRuns k ops).1 ↔ RunFrom isDelete k ops run) ∧
      (run ∈ (opRuns k ops).2 ↔ RunFrom isInsert k ops run) := by
  fun_induction opRuns k ops with
  | case1 k =>
    have empty (p : Op → Bool) : ¬RunFrom p k [] run := fun ⟨later, maximal, _⟩ =>
      maximal_nil p later maximal
    simp only [List.not_mem_nil, empty, and_self]
  | case2 k op rest deleted len found kept same ih =>
    obtain ⟨front, split, size, all, ends⟩ := run_split isDelete op rest deleted
    have nonempty : front ≠ [] := List.ne_nil_of_length_pos (by omega)
    rw [same] at ih
    rw [split, runFrom_first isDelete k front _ nonempty all ends run, size,
      runFrom_skip isInsert k front _ (fun op mem => delete_keeps op (all op mem)) run, size,
      List.mem_cons]
    exact ⟨or_congr Iff.rfl ih.1, ih.2⟩
  | case3 k op rest other inserted len found kept same ih =>
    obtain ⟨front, split, size, all, ends⟩ := run_split isInsert op rest inserted
    have nonempty : front ≠ [] := List.ne_nil_of_length_pos (by omega)
    rw [same] at ih
    rw [split, runFrom_first isInsert k front _ nonempty all ends run, size,
      runFrom_skip isDelete k front _ (fun op mem => insert_keeps op (all op mem)) run, size,
      List.mem_cons]
    exact ⟨ih.1, or_congr Iff.rfl ih.2⟩
  | case4 k op rest other another ih =>
    have kept (p : Op → Bool) (clear : ¬p op = true) :
        RunFrom p k (op :: rest) run ↔ RunFrom p (k + 1) rest run :=
      runFrom_skip p k [op] rest (by simpa using clear) run
    rw [kept isDelete other, kept isInsert another]
    exact ih

/-- Runs are found in order. -/
theorem opRuns_ascend (k : Nat) (ops : List Op) :
    (opRuns k ops).1.Pairwise (fun one two => one.1 < two.1) ∧
      (opRuns k ops).2.Pairwise fun one two => one.1 < two.1 := by
  have after (p : Op → Bool) (j : Nat) (ops : List Op) (run : Run) (found : RunFrom p j ops run) :
      j ≤ run.1 := by
    obtain ⟨later, -, rfl⟩ := found
    exact Nat.le_add_right _ _
  fun_induction opRuns k ops with
  | case1 k => exact ⟨List.Pairwise.nil, List.Pairwise.nil⟩
  | case2 k op rest deleted len found kept same ih =>
    rw [same] at ih
    refine ⟨List.pairwise_cons.2 ⟨fun run mem => ?_, ih.1⟩, ih.2⟩
    have found := (opRuns_maximal (k + len) _ run).1.1 (by rw [same]; exact mem)
    exact Nat.lt_of_lt_of_le (Nat.lt_add_of_pos_right (Nat.succ_pos _)) (after _ _ _ run found)
  | case3 k op rest other inserted len found kept same ih =>
    rw [same] at ih
    refine ⟨ih.1, List.pairwise_cons.2 ⟨fun run mem => ?_, ih.2⟩⟩
    have found := (opRuns_maximal (k + len) _ run).2.1 (by rw [same]; exact mem)
    exact Nat.lt_of_lt_of_le (Nat.lt_add_of_pos_right (Nat.succ_pos _)) (after _ _ _ run found)
  | case4 k op rest other another ih => exact ih

theorem deletes_found (ops : List Op) (run : Run) :
    run ∈ (opRuns 0 ops).1 ↔ Maximal isDelete ops run :=
  (opRuns_maximal 0 ops run).1.trans (runFrom_zero isDelete ops run)

theorem inserts_found (ops : List Op) (run : Run) :
    run ∈ (opRuns 0 ops).2 ↔ Maximal isInsert ops run :=
  (opRuns_maximal 0 ops run).2.trans (runFrom_zero isInsert ops run)

/-! The queues of insert runs. -/

def waiting (queues : Queues) (text : List Str) : List Run :=
  ((queues.find? (·.1 = text)).map (·.2)).getD []

theorem find_update (queues : Queues) (text other : List Str) (f : List Run → List Run) :
    (queues.map fun queue => if queue.1 = text then (queue.1, f queue.2) else queue).find?
        (·.1 = other) =
      (queues.find? (·.1 = other)).map fun queue =>
        if queue.1 = text then (queue.1, f queue.2) else queue := by
  rw [List.find?_map]
  congr 2
  funext queue
  rw [Function.comp_apply]
  split <;> rfl

theorem waiting_update (queues : Queues) (text other : List Str) (f : List Run → List Run)
    (keeps : queues.any (·.1 = text) = false → f [] = []) :
    waiting (queues.map fun queue => if queue.1 = text then (queue.1, f queue.2) else queue) other =
      if other = text then f (waiting queues text) else waiting queues other := by
  unfold waiting
  rw [find_update]
  by_cases same : other = text
  · subst same
    rw [if_pos rfl]
    cases held : queues.find? (·.1 = other) with
    | none =>
      refine (keeps ?_).symm
      rw [List.find?_eq_none] at held
      rw [List.any_eq_false]
      exact held
    | some queue =>
      have own := List.find?_some held
      rw [decide_eq_true_eq] at own
      simp only [Option.map_some, Option.getD_some, if_pos own]
  · rw [if_neg same]
    cases held : queues.find? (·.1 = other) with
    | none => rfl
    | some queue =>
      have own := List.find?_some held
      rw [decide_eq_true_eq] at own
      simp only [Option.map_some, Option.getD_some, if_neg (own ▸ same)]

theorem waiting_pushBack (queues : Queues) (text other : List Str) (run : Run) :
    waiting (pushBack queues text run) other =
      if other = text then waiting queues text ++ [run] else waiting queues other := by
  unfold pushBack
  split
  · rename_i held
    exact waiting_update queues text other (· ++ [run]) fun absent => by
      rw [held] at absent
      cases absent
  · rename_i absent
    have missing : queues.find? (·.1 = text) = none := by
      rw [List.find?_eq_none]
      rwa [Bool.not_eq_true, List.any_eq_false] at absent
    unfold waiting
    rw [List.find?_append]
    by_cases same : other = text
    · subst same
      simp [missing]
    · have other' : ¬text = other := fun h => same h.symm
      simp [same, other']

theorem popFront_waiting (queues : Queues) (text : List Str) :
    (waiting queues text = [] ∧ popFront queues text = none) ∨
      ∃ run rest later, waiting queues text = run :: rest ∧
        popFront queues text = some (run, later) ∧
        waiting later = Function.update (waiting queues) text rest := by
  unfold popFront
  cases held : queues.find? (·.1 = text) with
  | none => exact .inl ⟨by rw [waiting, held]; rfl, rfl⟩
  | some queue =>
    obtain ⟨name, line⟩ := queue
    have here : waiting queues text = line := by rw [waiting, held]; rfl
    cases line with
    | nil => exact .inl ⟨here, rfl⟩
    | cons run rest =>
      refine .inr ⟨run, rest, _, here, rfl, ?_⟩
      funext other
      rw [waiting_update queues text other List.tail fun _ => rfl]
      by_cases same : other = text
      · rw [if_pos same, same, Function.update_self, here, List.tail_cons]
      · rw [if_neg same, Function.update_of_ne same]

/-- The insert runs long enough to count, queued by text. -/
def unusedRuns (ops : List Op) (old new : List Token) : Queues :=
  (opRuns 0 ops).2.foldl (fun queues run =>
    let text := runText ops old new run
    if minMoveRun ≤ text.length then pushBack queues text run else queues) []

theorem unused_waiting (ops : List Op) (old new : List Token) (text : List Str) :
    waiting (unusedRuns ops old new) text =
      (opRuns 0 ops).2.filter fun run =>
        runText ops old new run = text ∧ minMoveRun ≤ text.length := by
  have grown (runs : List Run) (queues : Queues) :
      waiting (runs.foldl (fun queues run =>
        let text := runText ops old new run
        if minMoveRun ≤ text.length then pushBack queues text run else queues) queues) text =
        waiting queues text ++ runs.filter fun run =>
          runText ops old new run = text ∧ minMoveRun ≤ text.length := by
    induction runs generalizing queues with
    | nil => rw [List.foldl_nil, List.filter_nil, List.append_nil]
    | cons run runs ih =>
      rw [List.foldl_cons, ih]
      dsimp only
      split
      · rename_i long
        rw [waiting_pushBack]
        by_cases same : text = runText ops old new run
        · rw [if_pos same, List.filter_cons_of_pos (by simp [same, long]), List.append_assoc, same]
          rfl
        · rw [if_neg same, List.filter_cons_of_neg (by simp [Ne.symm same])]
      · rename_i short
        rw [List.filter_cons_of_neg]
        simp only [decide_eq_true_eq, not_and]
        rintro rfl
        exact short
  rw [unusedRuns, grown]
  rfl

def movePairs (ops : List Op) (old new : List Token) : List (Run × Run) :=
  greedy (runText ops old new) (waiting (unusedRuns ops old new)) (opRuns 0 ops).1

def takeMove (ops : List Op) (old new : List Token) (state : Queues × List Nat) (run : Run) :
    Queues × List Nat :=
  match popFront state.1 (runText ops old new run) with
  | some (inserted, queues) =>
      (queues, state.2 ++ List.range' run.1 (run.2 - run.1) ++
        List.range' inserted.1 (inserted.2 - inserted.1))
  | none => state

theorem movedOps_pairs (ops : List Op) (old new : List Token) :
    movedOps ops old new =
      (movePairs ops old new).flatMap fun pair => indexes pair.1 ++ indexes pair.2 := by
  have grown (runs : List Run) (queues : Queues) (moved : List Nat) :
      (runs.foldl (takeMove ops old new) (queues, moved)).2 =
        moved ++ (greedy (runText ops old new) (waiting queues) runs).flatMap fun pair =>
          indexes pair.1 ++ indexes pair.2 := by
    induction runs generalizing queues moved with
    | nil => rw [List.foldl_nil, greedy, List.flatMap_nil, List.append_nil]
    | cons run runs ih =>
      rw [List.foldl_cons]
      rcases popFront_waiting queues (runText ops old new run) with
        ⟨empty, popped⟩ | ⟨inserted, rest, later, held, popped, updated⟩
      · rw [greedy_none _ _ _ _ empty, takeMove, popped]
        exact ih queues moved
      · rw [greedy_some _ _ _ _ _ _ held, takeMove, popped, List.flatMap_cons, ← List.append_assoc,
          ← List.append_assoc, ← updated]
        exact ih later _
  exact grown (opRuns 0 ops).1 (unusedRuns ops old new) []

structure Matched (ops : List Op) (old new : List Token) (pairs : List (Run × Run)) : Prop where
  removed : ∀ pair ∈ pairs, Maximal isDelete ops pair.1
  added : ∀ pair ∈ pairs, Maximal isInsert ops pair.2
  oneOld : (pairs.map Prod.fst).Nodup
  oneNew : (pairs.map Prod.snd).Nodup
  alike : ∀ pair ∈ pairs, runText ops old new pair.1 = runText ops old new pair.2
  long : ∀ pair ∈ pairs, minMoveRun ≤ (runText ops old new pair.1).length
  full : ∀ removed added, Maximal isDelete ops removed → Maximal isInsert ops added →
    runText ops old new removed = runText ops old new added →
    minMoveRun ≤ (runText ops old new removed).length →
    removed ∈ pairs.map Prod.fst ∨ added ∈ pairs.map Prod.snd

theorem movePairs_matched (ops : List Op) (old new : List Token) :
    Matched ops old new (movePairs ops old new) := by
  have ascend := opRuns_ascend 0 ops
  have taken (pair : Run × Run) (mem : pair ∈ movePairs ops old new) :
      pair.2 ∈ (opRuns 0 ops).2 ∧ runText ops old new pair.2 = runText ops old new pair.1 ∧
        minMoveRun ≤ (runText ops old new pair.1).length := by
    have held := greedy_waiting _ _ _ pair mem
    rw [unused_waiting, List.mem_filter, decide_eq_true_eq] at held
    exact held
  have first := greedy_first (runText ops old new) (opRuns 0 ops).1
    (waiting (unusedRuns ops old new))
  refine ⟨?_, ?_, ?_, ?_, ?_, ?_, ?_⟩
  · intro pair mem
    exact (deletes_found ops pair.1).1 (first.subset (List.mem_map_of_mem mem))
  · intro pair mem
    exact (inserts_found ops pair.2).1 (taken pair mem).1
  · exact (ascending_nodup _ ascend.1).sublist first
  · apply greedy_second (runText ops old new) (runText ops old new)
    · intro text
      rw [unused_waiting]
      exact (ascending_nodup _ ascend.2).sublist List.filter_sublist
    · intro text run held
      rw [unused_waiting, List.mem_filter, decide_eq_true_eq] at held
      exact held.2.1
  · intro pair mem
    exact (taken pair mem).2.1.symm
  · intro pair mem
    exact (taken pair mem).2.2
  · intro removed added deleted inserted same enough
    refine or_iff_not_imp_left.2 fun out => ?_
    apply greedy_maximal (runText ops old new) _ _ removed ((deletes_found ops removed).2 deleted)
      out added
    rw [unused_waiting, List.mem_filter, decide_eq_true_eq]
    exact ⟨(inserts_found ops added).2 inserted, same.symm, enough⟩

def Covered (pairs : List (Run × Run)) (k : Nat) : Prop :=
  ∃ pair ∈ pairs, (pair.1.1 ≤ k ∧ k < pair.1.2) ∨ (pair.2.1 ≤ k ∧ k < pair.2.2)

theorem mem_movedOps (ops : List Op) (old new : List Token) (k : Nat) :
    k ∈ movedOps ops old new ↔ Covered (movePairs ops old new) k := by
  rw [movedOps_pairs, List.mem_flatMap]
  simp only [List.mem_append, mem_indexes, Covered]

theorem runText_length (p : Op → Bool) (changes : ∀ op, p op = true → ∀ i j, op ≠ .equal i j)
    (ops : List Op) (old new : List Token) (run : Run) (maximal : Maximal p ops run) :
    (runText ops old new run).length = run.2 - run.1 := by
  have width : (slice ops run).length = run.2 - run.1 := by
    obtain ⟨op, held, -⟩ := maximal.inside (run.2 - 1) (by have := maximal.grows; omega)
      (by have := maximal.grows; omega)
    have inside := (List.getElem?_eq_some_iff.1 held).1
    exact length_slice ops run (by omega)
  rw [← width, runText, List.length_filterMap_eq_countP, List.countP_eq_length]
  intro op mem
  obtain ⟨k, held⟩ := List.mem_iff_getElem?.1 mem
  have bound := (List.getElem?_eq_some_iff.1 held).1
  rw [slice, List.getElem?_take, if_pos (by omega), List.getElem?_drop] at held
  obtain ⟨own, here, has⟩ := maximal.inside (run.1 + k) (by omega) (by omega)
  rw [held, Option.some_inj] at here
  subst here
  cases op with
  | delete i => rfl
  | insert j => rfl
  | equal i j => exact absurd rfl (changes _ has i j)

theorem delete_changes (op : Op) (deleted : isDelete op = true) (i j : Nat) : op ≠ .equal i j := by
  rintro rfl
  cases deleted

theorem insert_changes (op : Op) (inserted : isInsert op = true) (i j : Nat) :
    op ≠ .equal i j := by
  rintro rfl
  cases inserted

/-- The two runs of a pair are equally long. -/
theorem matched_widths (ops : List Op) (old new : List Token) (pairs : List (Run × Run))
    (matched : Matched ops old new pairs) :
    ((pairs.map Prod.fst).map fun run => run.2 - run.1).sum =
      ((pairs.map Prod.snd).map fun run => run.2 - run.1).sum := by
  rw [List.map_map, List.map_map]
  congr 1
  apply List.map_congr_left
  intro pair mem
  calc pair.1.2 - pair.1.1 = (runText ops old new pair.1).length :=
        (runText_length isDelete delete_changes ops old new _ (matched.removed pair mem)).symm
    _ = (runText ops old new pair.2).length := congrArg List.length (matched.alike pair mem)
    _ = pair.2.2 - pair.2.1 :=
        runText_length isInsert insert_changes ops old new _ (matched.added pair mem)

theorem covered_side (ops : List Op) (old new : List Token) (pairs : List (Run × Run))
    (matched : Matched ops old new pairs) (k : Nat) (op : Op) (held : ops[k]? = some op) :
    (isDelete op = true ∧ Covered pairs k ↔
        ∃ run ∈ pairs.map Prod.fst, run.1 ≤ k ∧ k < run.2) ∧
      (isInsert op = true ∧ Covered pairs k ↔
        ∃ run ∈ pairs.map Prod.snd, run.1 ≤ k ∧ k < run.2) := by
  have side (p : Op → Bool) (run : Run) (maximal : Maximal p ops run)
      (inside : run.1 ≤ k ∧ k < run.2) : p op = true := by
    obtain ⟨own, here, has⟩ := maximal.inside k inside.1 inside.2
    rw [held, Option.some_inj] at here
    rwa [here]
  constructor
  · constructor
    · rintro ⟨deleted, pair, mem, inOld | inNew⟩
      · exact ⟨pair.1, List.mem_map_of_mem mem, inOld⟩
      · have inserted := side isInsert pair.2 (matched.added pair mem) inNew
        rw [delete_keeps op deleted] at inserted
        cases inserted
    · rintro ⟨run, mem, inside⟩
      obtain ⟨pair, member, rfl⟩ := List.mem_map.1 mem
      exact ⟨side isDelete pair.1 (matched.removed pair member) inside, pair, member, .inl inside⟩
  · constructor
    · rintro ⟨inserted, pair, mem, inOld | inNew⟩
      · have deleted := side isDelete pair.1 (matched.removed pair mem) inOld
        rw [insert_keeps op inserted] at deleted
        cases deleted
      · exact ⟨pair.2, List.mem_map_of_mem mem, inNew⟩
    · rintro ⟨run, mem, inside⟩
      obtain ⟨pair, member, rfl⟩ := List.mem_map.1 mem
      exact ⟨side isInsert pair.2 (matched.added pair member) inside, pair, member, .inr inside⟩

def plainKind : Op → ChangeKind
  | .equal _ _ => .unchanged
  | .delete _ => .removed
  | .insert _ => .added

theorem change_stays (old new : List Token) (op : Op) :
    (change old new false op).kind = plainKind op := by
  cases op <;> rfl

theorem change_moves (old new : List Token) (moved : Bool) (op : Op) :
    (change old new moved op).kind = .moved ↔
      moved = true ∧ (isDelete op = true ∨ isInsert op = true) := by
  cases op <;> cases moved <;> simp [change, isDelete, isInsert]

theorem change_sides (old new : List Token) (moved : Bool) (op : Op) :
    ((change old new moved op).kind = .moved ∧ (change old new moved op).oldLine.isSome ↔
        isDelete op = true ∧ moved = true) ∧
      ((change old new moved op).kind = .moved ∧ (change old new moved op).newLine.isSome ↔
        isInsert op = true ∧ moved = true) := by
  cases op <;> cases moved <;> simp [change, isDelete, isInsert]

theorem markMoves_matched (ops : List Op) (old new : List Token) :
    (markMoves ops old new).length = ops.length ∧
      ∃ pairs, Matched ops old new pairs ∧
        (∀ k op, ops[k]? = some op → ∃ change, (markMoves ops old new)[k]? = some change ∧
          (Covered pairs k → change.kind = .moved) ∧
          (¬Covered pairs k → change.kind = plainKind op)) ∧
        ((markMoves ops old new).countP fun change =>
            change.kind = .moved ∧ change.oldLine.isSome) =
          (markMoves ops old new).countP fun change =>
            change.kind = .moved ∧ change.newLine.isSome := by
  have matched := movePairs_matched ops old new
  have covered := mem_movedOps ops old new
  have sides := covered_side ops old new _ matched
  refine ⟨by rw [markMoves, List.length_map, List.length_zipIdx], _, matched, ?_, ?_⟩
  · intro k op held
    have here : (markMoves ops old new)[k]? =
        some (change old new (k ∈ movedOps ops old new) op) := by
      rw [markMoves, List.getElem?_map, List.getElem?_zipIdx, held]
      simp only [Option.map_some, Nat.zero_add]
    refine ⟨_, here, fun inside => ?_, fun outside => ?_⟩
    · rw [change_moves, decide_eq_true_eq]
      refine ⟨(covered k).2 inside, ?_⟩
      obtain ⟨pair, mem, inOld | inNew⟩ := inside
      · exact .inl ((sides k op held).1.2 ⟨pair.1, List.mem_map_of_mem mem, inOld⟩).1
      · exact .inr ((sides k op held).2.2 ⟨pair.2, List.mem_map_of_mem mem, inNew⟩).1
    · rw [decide_eq_false fun mem => outside ((covered k).1 mem)]
      exact change_stays old new op
  · have deleted (run : Run) (mem : run ∈ (movePairs ops old new).map Prod.fst) :
        Maximal isDelete ops run := by
      obtain ⟨pair, held, rfl⟩ := List.mem_map.1 mem
      exact matched.removed pair held
    have inserted (run : Run) (mem : run ∈ (movePairs ops old new).map Prod.snd) :
        Maximal isInsert ops run := by
      obtain ⟨pair, held, rfl⟩ := List.mem_map.1 mem
      exact matched.added pair held
    rw [markMoves, List.countP_map, List.countP_map,
      countP_runs isDelete ops _ matched.oneOld deleted,
      countP_runs isInsert ops _ matched.oneNew inserted]
    · exact matched_widths ops old new _ matched
    · intro k op held
      rw [Function.comp_apply, decide_eq_true_eq, (change_sides old new _ op).2, decide_eq_true_eq,
        covered k]
      exact (sides k op held).2
    · intro k op held
      rw [Function.comp_apply, decide_eq_true_eq, (change_sides old new _ op).1, decide_eq_true_eq,
        covered k]
      exact (sides k op held).1

end DeepDiffForge.Syntax
