import DeepDiffForge.Syntax.Scripts

/-! What a structural diff describes: both token streams whole, counted by how each token changed,
and formatting alone exactly when no token text differs. -/

namespace DeepDiffForge.Syntax
open Text DeepDiffForge.Core Script Tiling

def TokenChange.oldToken? (change : TokenChange) : Option Token :=
  change.oldLine.map fun line => ⟨change.text, line⟩

def TokenChange.newToken? (change : TokenChange) : Option Token :=
  change.newLine.map fun line => ⟨change.text, line⟩

def coarseOps (old new : List Token) : List Op := deletes 0 old.length ++ inserts 0 new.length

section Steps
variable (old new : List Token)

def changesOf (steps : List (Op × Bool)) : List TokenChange :=
  steps.map fun step => change old new step.2 step.1

theorem tokenAt_range (tokens : List Token) :
    (List.range tokens.length).map (tokenAt tokens) = tokens := by
  apply List.ext_getElem
  · simp
  · intro k first second
    simp [tokenAt, second]

theorem changesOf_old (steps : List (Op × Bool))
    (aligns : Aligns (SameText old new) (0, 0) (steps.map (·.1)) (old.length, new.length)) :
    (changesOf old new steps).filterMap (·.oldToken?) = old := by
  have each : (changesOf old new steps).filterMap (·.oldToken?) =
      ((steps.map (·.1)).filterMap Op.old?).map (tokenAt old) := by
    rw [changesOf, List.filterMap_map, List.filterMap_map, List.map_filterMap]
    apply List.filterMap_congr
    rintro ⟨op, isMoved⟩ -
    cases op <;> rfl
  have positions := aligns_old _ _ _ _ aligns
  rw [Nat.sub_zero, ← List.range_eq_range'] at positions
  rw [each, positions, tokenAt_range]

theorem changesOf_new (steps : List (Op × Bool))
    (aligns : Aligns (SameText old new) (0, 0) (steps.map (·.1)) (old.length, new.length)) :
    (changesOf old new steps).filterMap (·.newToken?) = new := by
  have each : (changesOf old new steps).filterMap (·.newToken?) =
      ((steps.map (·.1)).filterMap Op.new?).map (tokenAt new) := by
    rw [changesOf, List.filterMap_map, List.filterMap_map, List.map_filterMap]
    apply List.filterMap_congr
    rintro ⟨op, isMoved⟩ listed
    cases op with
    | equal i j =>
      obtain ⟨a, b, oldAt, newAt, same⟩ := aligns_same _ _ _ _ aligns i j
        (List.mem_map.2 ⟨_, listed, rfl⟩)
      simp [change, TokenChange.newToken?, Op.new?, tokenAt, oldAt, newAt, same]
    | delete i => rfl
    | insert j => rfl
  have positions := aligns_new _ _ _ _ aligns
  rw [Nat.sub_zero, ← List.range_eq_range'] at positions
  rw [each, positions, tokenAt_range]

theorem count_old (steps : List (Op × Bool)) :
    (changesOf old new steps).countP (·.kind = .unchanged) +
        (changesOf old new steps).countP (·.kind = .removed) +
        (changesOf old new steps).countP (fun c => c.kind = .moved ∧ c.oldLine.isSome) =
      ((changesOf old new steps).filterMap (·.oldToken?)).length := by
  induction steps with
  | nil => rfl
  | cons step steps ih =>
    obtain ⟨op, isMoved⟩ := step
    rw [changesOf] at ih ⊢
    rw [List.map_cons, List.countP_cons, List.countP_cons, List.countP_cons, List.filterMap_cons]
    cases op <;> cases isMoved <;> simp [change, TokenChange.oldToken?] at ih ⊢ <;> omega

theorem count_new (steps : List (Op × Bool)) :
    (changesOf old new steps).countP (·.kind = .unchanged) +
        (changesOf old new steps).countP (·.kind = .added) +
        (changesOf old new steps).countP (fun c => c.kind = .moved ∧ c.newLine.isSome) =
      ((changesOf old new steps).filterMap (·.newToken?)).length := by
  induction steps with
  | nil => rfl
  | cons step steps ih =>
    obtain ⟨op, isMoved⟩ := step
    rw [changesOf] at ih ⊢
    rw [List.map_cons, List.countP_cons, List.countP_cons, List.countP_cons, List.filterMap_cons]
    cases op <;> cases isMoved <;> simp [change, TokenChange.newToken?] at ih ⊢ <;> omega

theorem uncounted_iff (steps : List (Op × Bool)) :
    ((changesOf old new steps).countP (·.kind = .added) = 0 ∧
        (changesOf old new steps).countP (·.kind = .removed) = 0 ∧
        (changesOf old new steps).countP (·.kind = .moved) = 0) ↔
      ∀ op ∈ steps.map (·.1), ∃ i j, op = .equal i j := by
  induction steps with
  | nil => simp [changesOf]
  | cons step steps ih =>
    obtain ⟨op, isMoved⟩ := step
    rw [changesOf] at ih ⊢
    rw [List.map_cons, List.countP_cons, List.countP_cons, List.countP_cons, List.map_cons,
      List.forall_mem_cons, ← ih]
    cases op <;> cases isMoved <;> simp [change]

end Steps

/-- The operations name every position of each side once, in order, and pair equal texts. -/
structure Valid (old new : List Token) (ops : List Op) : Prop where
  olds : ops.filterMap Op.old? = List.range old.length
  news : ops.filterMap Op.new? = List.range new.length
  pairs : ∀ i j, .equal i j ∈ ops → SameText old new i j

structure Described (old new : List Token) (diff : StructuralDiff) : Prop where
  projects : diff.changes ≠ [] → diff.changes.filterMap (·.oldToken?) = old ∧
    diff.changes.filterMap (·.newToken?) = new
  olds : diff.unchanged + diff.removed +
    diff.changes.countP (fun c => c.kind = .moved ∧ c.oldLine.isSome) = old.length
  news : diff.unchanged + diff.added +
    diff.changes.countP (fun c => c.kind = .moved ∧ c.newLine.isSome) = new.length
  reformat : diff.reformatOnly = true ↔ texts old = texts new

theorem valid_of_aligns (old new : List Token) (ops : List Op)
    (aligns : Aligns (SameText old new) (0, 0) ops (old.length, new.length)) : Valid old new ops := by
  constructor
  · rw [aligns_old _ _ _ _ aligns, List.range_eq_range']
    rfl
  · rw [aligns_new _ _ _ _ aligns, List.range_eq_range']
    rfl
  · exact aligns_same _ _ _ _ aligns

theorem aligns_coarseOps (old new : List Token) :
    Aligns (SameText old new) (0, 0) (coarseOps old new) (old.length, new.length) := by
  have first := aligns_deletes (SameText old new) 0 0 old.length
  have second := aligns_inserts (SameText old new) old.length 0 new.length
  rw [Nat.zero_add] at first second
  exact aligns_append _ _ _ _ _ _ first second

theorem coarse_changes (language : Language) (old new : List Token) :
    (coarseDiff language old new).changes =
      changesOf old new ((coarseOps old new).map fun op => (op, false)) := by
  have olds := tokenAt_range old
  have news := tokenAt_range new
  rw [changesOf, coarseOps, List.map_map, List.map_append, deletes, inserts, List.map_map,
    List.map_map]
  simp only [coarseDiff, Function.comp_def, Nat.zero_add]
  congr 1
  · conv_lhs => rw [← olds, List.map_map]
    rfl
  · conv_lhs => rw [← news, List.map_map]
    rfl

theorem markMoves_steps (ops : List Op) (old new : List Token) :
    ∃ steps, steps.map (·.1) = ops ∧ markMoves ops old new = changesOf old new steps := by
  refine ⟨ops.zipIdx.map fun step => (step.1, decide (step.2 ∈ movedOps ops old new)), ?_, ?_⟩
  · rw [List.map_map]
    exact List.zipIdx_map_fst 0 ops
  · rw [changesOf, List.map_map]
    rfl

theorem sameTexts_affixes (old new : List Token) (same : texts old = texts new) :
    commonAffixes old new = (old.length, 0) := by
  have all (xs ys : List Token) (same : texts xs = texts ys) :
      ((xs.zip ys).takeWhile matching).length = xs.length := by
    induction xs generalizing ys with
    | nil => rfl
    | cons x xs ih =>
      cases ys with
      | nil => cases same
      | cons y ys =>
        obtain ⟨first, rest⟩ := List.cons.inj same
        rw [List.zip_cons_cons, List.takeWhile_cons_of_pos (by simpa [matching] using first),
          List.length_cons, List.length_cons, ih ys rest]
  have common := all old new same
  simp [commonAffixes, common]

/-- Between streams of the same texts, the exact script is of pairs alone. -/
theorem sameTexts_paired (old new : List Token) (same : texts old = texts new) :
    ∀ op ∈ lcsOps old new, ∃ i j, op = .equal i j := by
  have lengths := congrArg List.length same
  rw [texts, texts, List.length_map, List.length_map] at lengths
  have ops : lcsOps old new = equals 0 0 old.length := by
    simp [lcsOps, sameTexts_affixes old new same, ← lengths, slice, lcsWalk, inserts, equals]
  rw [ops]
  intro op listed
  obtain ⟨k, -, rfl⟩ := List.mem_map.1 listed
  exact ⟨_, _, rfl⟩

/-- A script of pairs alone runs between streams of the same texts. -/
theorem paired_sameTexts (old new : List Token) (ops : List Op)
    (aligns : Aligns (SameText old new) (0, 0) ops (old.length, new.length))
    (paired : ∀ op ∈ ops, ∃ i j, op = .equal i j) : texts old = texts new := by
  obtain ⟨count, ends, pairs⟩ := aligns_diagonal _ _ _ _ aligns paired
  obtain ⟨oldEnd, newEnd⟩ := Prod.mk.inj ends
  simp only [Nat.zero_add] at oldEnd newEnd pairs
  apply List.ext_getElem
  · rw [texts, texts, List.length_map, List.length_map, oldEnd, newEnd]
  · intro k first second
    rw [texts, List.length_map] at first second
    obtain ⟨a, b, oldAt, newAt, equal⟩ := pairs k (by omega)
    rw [List.getElem?_eq_getElem first] at oldAt
    rw [List.getElem?_eq_getElem second] at newAt
    simp only [texts, List.getElem_map, Option.some.inj oldAt, Option.some.inj newAt, equal]

theorem scriptDiff_quiet (language : Language) (old new : List Token) (ops : List Op)
    (minimal : Bool) :
    let diff := scriptDiff language old new ops minimal
    let quiet := diff.added = 0 ∧ diff.removed = 0 ∧ diff.moved = 0
    (diff.reformatOnly = true ↔ quiet) ∧ (quiet → diff.changes = []) ∧
      (¬quiet → diff.changes = markMoves ops old new) := by
  have states (minimal : Bool) : (if minimal then StructuralState.minimal false else .lineAnchored) ≠
      .minimal true := by
    cases minimal <;> simp
  simp only [scriptDiff, StructuralDiff.reformatOnly, Bool.and_eq_true, decide_eq_true_eq,
    and_assoc]
  split
  · rename_i quiet
    simp [quiet]
  · rename_i loud
    exact ⟨⟨fun held => absurd held (states minimal), fun quiet => absurd quiet loud⟩,
      fun quiet => absurd quiet loud, fun _ => rfl⟩

theorem scriptDiff_moved (language : Language) (old new : List Token) (ops : List Op)
    (minimal : Bool) (side : TokenChange → Bool) :
    (scriptDiff language old new ops minimal).changes.countP (fun c => c.kind = .moved ∧ side c) =
      (markMoves ops old new).countP (fun c => c.kind = .moved ∧ side c) := by
  obtain ⟨-, dropped, kept⟩ := scriptDiff_quiet language old new ops minimal
  by_cases quiet : (scriptDiff language old new ops minimal).added = 0 ∧
    (scriptDiff language old new ops minimal).removed = 0 ∧
    (scriptDiff language old new ops minimal).moved = 0
  · rw [dropped quiet, List.countP_nil]
    symm
    rw [List.countP_eq_zero]
    intro c listed both
    have none := List.countP_eq_zero.1 quiet.2.2 c listed
    rw [decide_eq_true_eq] at none both
    exact none both.1
  · rw [kept quiet]

/-- The diff of a script describes its streams, when streams of the same texts get pairs alone. -/
theorem scriptDiff_described (language : Language) (old new : List Token) (ops : List Op)
    (minimal : Bool)
    (aligns : Aligns (SameText old new) (0, 0) ops (old.length, new.length))
    (formatting : texts old = texts new → ∀ op ∈ ops, ∃ i j, op = .equal i j) :
    Described old new (scriptDiff language old new ops minimal) := by
  obtain ⟨state, dropped, kept⟩ := scriptDiff_quiet language old new ops minimal
  have moved := scriptDiff_moved language old new ops minimal
  obtain ⟨steps, rfl, marked⟩ := markMoves_steps ops old new
  have projectsOld := changesOf_old old new steps aligns
  have projectsNew := changesOf_new old new steps aligns
  have olds := count_old old new steps
  have news := count_new old new steps
  have uncounted := uncounted_iff old new steps
  rw [projectsOld] at olds
  rw [projectsNew] at news
  rw [← marked] at olds news uncounted projectsOld projectsNew
  constructor
  · intro present
    rw [kept fun quiet => present (dropped quiet)]
    exact ⟨projectsOld, projectsNew⟩
  · rw [moved fun c => c.oldLine.isSome]
    exact olds
  · rw [moved fun c => c.newLine.isSome]
    exact news
  · rw [state]
    constructor
    · intro quiet
      exact paired_sameTexts old new _ aligns (uncounted.1 quiet)
    · intro same
      exact uncounted.2 (formatting same)

theorem coarseDiff_described (language : Language) (old new : List Token)
    (differ : texts old ≠ texts new) : Described old new (coarseDiff language old new) := by
  have aligns := aligns_coarseOps old new
  have steps : ((coarseOps old new).map fun op => (op, false)).map (·.1) = coarseOps old new := by
    rw [List.map_map]
    exact List.map_id _
  rw [← steps] at aligns
  have changes := coarse_changes language old new
  constructor
  · intro _
    rw [changes]
    exact ⟨changesOf_old _ _ _ aligns, changesOf_new _ _ _ aligns⟩
  · simp [coarseDiff, List.countP_eq_zero]
  · simp [coarseDiff, List.countP_eq_zero]
  · exact ⟨nofun, fun same => absurd same differ⟩

/-- Every script a diff is made of names each token of both streams once and in order and pairs
equal texts, and every diff describes its streams, whichever script it is made of. -/
theorem diffTokens_described (language : Language) (old new : List Token) :
    Valid old new (lcsOps old new) ∧
      (∀ ops, lineAnchoredOps old new = some ops → Valid old new ops) ∧
      (Valid old new (coarseOps old new) ∧ (coarseDiff language old new).changes =
        (coarseOps old new).map (change old new false)) ∧
      Described old new (diffTokens language old new) := by
  refine ⟨valid_of_aligns _ _ _ (aligns_lcsOps old new), fun ops anchored =>
    valid_of_aligns _ _ _ (aligns_lineAnchoredOps old new ops anchored),
    ⟨valid_of_aligns _ _ _ (aligns_coarseOps old new), ?_⟩, ?_⟩
  · rw [coarse_changes, changesOf, List.map_map]
    rfl
  · cases affixes : commonAffixes old new with
    | mk pre suffix =>
      simp only [diffTokens, affixes]
      by_cases small : saturatingMul (old.length - pre - suffix) (new.length - pre - suffix) ≤
        lcsCellBudget
      · rw [if_pos small]
        exact scriptDiff_described _ _ _ _ _ (aligns_lcsOps old new) (sameTexts_paired old new)
      · rw [if_neg small]
        have differ : texts old ≠ texts new := by
          intro same
          rw [sameTexts_affixes old new same] at affixes
          obtain ⟨rfl, rfl⟩ := Prod.mk.inj affixes
          simp [saturatingMul, lcsCellBudget] at small
        cases anchored : lineAnchoredOps old new with
        | none => exact coarseDiff_described language old new differ
        | some ops =>
          exact scriptDiff_described _ _ _ _ _ (aligns_lineAnchoredOps old new ops anchored)
            fun same => absurd same differ

end DeepDiffForge.Syntax
