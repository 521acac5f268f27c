import DeepDiffForge.Syntax.Structural
import Mathlib.Data.List.Nodup

/-! Every script the structural diff builds covers both sides once and in order, and what is
described of the two token streams. -/

namespace DeepDiffForge.Syntax
open Text DeepDiffForge.Core Script Tiling

def SameText (old new : List Token) (i j : Nat) : Prop :=
  ∃ a b, old[i]? = some a ∧ new[j]? = some b ∧ a.text = b.text

theorem takeWhile_zip (xs ys : List Token) :
    ((xs.zip ys).takeWhile matching).length ≤ xs.length ∧
      ((xs.zip ys).takeWhile matching).length ≤ ys.length ∧
      ∀ k < ((xs.zip ys).takeWhile matching).length, SameText xs ys k k := by
  induction xs generalizing ys with
  | nil => simp
  | cons x xs ih =>
    cases ys with
    | nil => simp
    | cons y ys =>
      obtain ⟨first, second, pairs⟩ := ih ys
      rw [List.zip_cons_cons, List.takeWhile_cons]
      split
      · rename_i same
        simp only [List.length_cons]
        refine ⟨by omega, by omega, ?_⟩
        intro k within
        cases k with
        | zero => exact ⟨x, y, rfl, rfl, by simpa [matching] using same⟩
        | succ k => exact pairs k (by omega)
      · simp

/-- The ends two streams have in common. -/
theorem commonAffixes_pairs (old new : List Token) (pre suffix : Nat)
    (found : commonAffixes old new = (pre, suffix)) :
    pre + suffix ≤ old.length ∧ pre + suffix ≤ new.length ∧
      (∀ k < pre, SameText old new k k) ∧
      ∀ k < suffix, SameText old new (old.length - suffix + k) (new.length - suffix + k) := by
  obtain ⟨rfl, rfl⟩ := Prod.mk.inj found
  obtain ⟨oldPre, newPre, prePairs⟩ := takeWhile_zip old new
  generalize ((old.zip new).takeWhile matching).length = pre at *
  obtain ⟨oldSuf, newSuf, sufPairs⟩ := takeWhile_zip (old.drop pre).reverse (new.drop pre).reverse
  generalize (((old.drop pre).reverse.zip (new.drop pre).reverse).takeWhile matching).length =
    suffix at *
  rw [List.length_reverse, List.length_drop] at oldSuf newSuf
  refine ⟨by omega, by omega, prePairs, ?_⟩
  intro k within
  obtain ⟨a, b, oldAt, newAt, same⟩ := sufPairs (suffix - 1 - k) (by omega)
  rw [List.getElem?_reverse (by rw [List.length_drop]; omega), List.getElem?_drop,
    List.length_drop] at oldAt newAt
  have oldPlace : pre + (old.length - pre - 1 - (suffix - 1 - k)) = old.length - suffix + k := by
    omega
  have newPlace : pre + (new.length - pre - 1 - (suffix - 1 - k)) = new.length - suffix + k := by
    omega
  rw [oldPlace] at oldAt
  rw [newPlace] at newAt
  exact ⟨a, b, oldAt, newAt, same⟩

theorem aligns_walk (same : Nat → Nat → Prop) (table : List (List Nat)) (pre i j : Nat)
    (xs ys : List Token)
    (pairs : ∀ a b, SameText xs ys a b → same (pre + i + a) (pre + j + b)) :
    Aligns same (pre + i, pre + j) (lcsWalk table pre i j xs ys)
      (pre + i + xs.length, pre + j + ys.length) := by
  fun_induction lcsWalk table pre i j xs ys with
  | case1 i j ys => exact aligns_inserts same _ _ _
  | case2 i j x xs => exact aligns_deletes same _ _ _
  | case3 i j x xs y ys equal ih =>
    refine .equal _ _ _ _ (pairs 0 0 ⟨x, y, rfl, rfl, equal⟩) ?_
    have rest := ih fun a b pair => by
      simpa only [Nat.add_assoc, Nat.add_comm 1] using pairs (a + 1) (b + 1) pair
    simpa only [List.length_cons, Nat.add_assoc, Nat.add_comm 1] using rest
  | case4 i j x xs y ys differ above ih =>
    refine .delete _ _ _ _ ?_
    have rest := ih fun a b pair => by
      simpa only [Nat.add_assoc, Nat.add_comm 1] using pairs (a + 1) b pair
    simpa only [List.length_cons, Nat.add_assoc, Nat.add_comm 1] using rest
  | case5 i j x xs y ys differ above ih =>
    refine .insert _ _ _ _ ?_
    have rest := ih fun a b pair => by
      simpa only [Nat.add_assoc, Nat.add_comm 1] using pairs a (b + 1) pair
    simpa only [List.length_cons, Nat.add_assoc, Nat.add_comm 1] using rest

theorem sameText_slice (old new : List Token) (start stop : Nat × Nat) (i j : Nat)
    (pair : SameText (slice old (start.1, stop.1)) (slice new (start.2, stop.2)) i j) :
    SameText old new (start.1 + i) (start.2 + j) := by
  obtain ⟨a, b, oldAt, newAt, same⟩ := pair
  exact ⟨a, b, (getElem?_slice _ _ _ _ _ oldAt).1, (getElem?_slice _ _ _ _ _ newAt).1, same⟩

theorem aligns_affixes (old new : List Token) (pre suffix : Nat)
    (affixes : commonAffixes old new = (pre, suffix)) :
    Aligns (SameText old new) (0, 0) (equals 0 0 pre) (pre, pre) ∧
      Aligns (SameText old new) (old.length - suffix, new.length - suffix)
        (equals (old.length - suffix) (new.length - suffix) suffix) (old.length, new.length) := by
  obtain ⟨oldFit, newFit, prePairs, sufPairs⟩ := commonAffixes_pairs old new pre suffix affixes
  constructor
  · have run := aligns_equals (SameText old new) 0 0 pre fun k within => by
      rw [Nat.zero_add]
      exact prePairs k within
    rw [Nat.zero_add] at run
    exact run
  · have run := aligns_equals (SameText old new) (old.length - suffix) (new.length - suffix) suffix
      sufPairs
    rw [Nat.sub_add_cancel (by omega), Nat.sub_add_cancel (by omega)] at run
    exact run

/-- The exact script leads from one end of both streams to the other. -/
theorem aligns_lcsOps (old new : List Token) :
    Aligns (SameText old new) (0, 0) (lcsOps old new) (old.length, new.length) := by
  cases affixes : commonAffixes old new with
  | mk pre suffix =>
    obtain ⟨oldFit, newFit, -, -⟩ := commonAffixes_pairs old new pre suffix affixes
    obtain ⟨first, last⟩ := aligns_affixes old new pre suffix affixes
    have middle := aligns_walk (SameText old new)
      (lcsTable (texts (slice old (pre, pre + (old.length - pre - suffix))))
        (texts (slice new (pre, pre + (new.length - pre - suffix))))) pre 0 0
      (slice old (pre, pre + (old.length - pre - suffix)))
      (slice new (pre, pre + (new.length - pre - suffix))) fun a b pair =>
        sameText_slice old new (pre, pre) (_, _) a b pair
    rw [length_slice _ (_, _) (by dsimp only; omega), length_slice _ (_, _) (by dsimp only; omega)]
      at middle
    simp only [Nat.add_zero, Nat.add_sub_cancel_left] at middle
    have oldStop : pre + (old.length - pre - suffix) = old.length - suffix := by omega
    have newStop : pre + (new.length - pre - suffix) = new.length - suffix := by omega
    have whole := aligns_append _ _ _ _ _ _ (aligns_append _ _ _ _ _ _ first middle)
      (by rw [oldStop, newStop]; exact last)
    simp only [lcsOps, affixes, equals, oldStop, newStop] at whole ⊢
    exact whole

/-- The script of a gap leads on from where it begins to where it ends. -/
theorem aligns_gap (old new : List Token) (start stop : Nat × Nat) (spent spent' : Nat)
    (ops ops' : List Op) (first : start.1 ≤ stop.1) (second : start.2 ≤ stop.2)
    (oldFit : stop.1 ≤ old.length) (newFit : stop.2 ≤ new.length)
    (taken : gapOps old new start stop spent ops = some (spent', ops'))
    (aligns : Aligns (SameText old new) (0, 0) ops start) :
    Aligns (SameText old new) (0, 0) ops' stop := by
  rw [gapOps] at taken
  split_ifs at taken
  obtain ⟨rfl, rfl⟩ := Prod.mk.inj (Option.some.inj taken)
  have inner := aligns_lcsOps (slice old (start.1, stop.1)) (slice new (start.2, stop.2))
  have moved := aligns_shift _ (SameText old new) start _ _ _ inner fun i j _ _ pair =>
    sameText_slice old new start stop i j pair
  rw [length_slice _ (start.1, stop.1) oldFit, length_slice _ (start.2, stop.2) newFit] at moved
  simp only [Nat.add_zero, Nat.add_sub_cancel' first, Nat.add_sub_cancel' second] at moved
  exact aligns_append _ _ _ _ _ _ aligns moved

theorem tiles_extendRuns (tokens : List Token) (runs : List (Nat × Nat)) (token : Token) (k : Nat)
    (tiles : Tiles 0 k runs) : Tiles 0 (k + 1) (extendRuns tokens runs (token, k)) := by
  have fresh : Tiles 0 (k + 1) (runs ++ [(k, k + 1)]) :=
    tiles_append _ _ _ _ _ tiles (.range _ _ _ _ (Nat.lt_succ_self k) (.done _))
  unfold extendRuns
  split
  · rename_i run last
    split
    · have whole : runs = runs.dropLast ++ [run] := by
        have nonempty : runs ≠ [] := by
          rintro rfl
          cases last
        rw [List.getLast?_eq_some_getLast nonempty] at last
        rw [← Option.some.inj last, List.dropLast_concat_getLast]
      rw [whole] at tiles
      obtain ⟨earlier, width, ends⟩ := tiles_last _ _ _ _ tiles
      exact tiles_append _ _ _ _ _ earlier (.range _ _ _ _ (by omega) (.done _))
    · exact fresh
  · exact fresh

/-- The lines' runs lie end to end over the tokens. -/
theorem tiles_lineRuns (tokens : List Token) : Tiles 0 tokens.length (lineRuns tokens) := by
  have run (rest : List Token) (k : Nat) (runs : List (Nat × Nat)) (tiles : Tiles 0 k runs) :
      Tiles 0 (k + rest.length) ((rest.zipIdx k).foldl (extendRuns tokens) runs) := by
    induction rest generalizing k runs with
    | nil => exact tiles
    | cons token rest ih =>
      have next := ih (k + 1) _ (tiles_extendRuns tokens runs token k tiles)
      rw [List.zipIdx_cons, List.foldl_cons, List.length_cons]
      rw [Nat.add_right_comm] at next
      exact next
  have whole := run tokens 0 [] (.done 0)
  rw [Nat.zero_add] at whole
  exact whole

/-- Each id is its key's position, so one id has one key. -/
def Numbered (ids : List (List Str × Nat)) : Prop := ids.map (·.2) = List.range ids.length

theorem numbered_key (ids : List (List Str × Nat)) (numbered : Numbered ids) (one two : List Str)
    (id : Nat) (first : (one, id) ∈ ids) (second : (two, id) ∈ ids) : one = two := by
  have once : (ids.map (·.2)).Nodup := by
    rw [numbered]
    exact List.nodup_range
  have same := List.inj_on_of_nodup_map once first second rfl
  exact (Prod.mk.inj same).1

theorem internLine_numbered (ids : List (List Str × Nat)) (key : List Str)
    (numbered : Numbered ids) :
    Numbered (internLine ids key).1 ∧ ids ⊆ (internLine ids key).1 ∧
      (key, (internLine ids key).2) ∈ (internLine ids key).1 := by
  unfold internLine
  split
  · rename_i entry found
    have same : entry.1 = key := by simpa using List.find?_some found
    refine ⟨numbered, List.Subset.refl _, ?_⟩
    rw [← same]
    exact List.mem_of_find?_eq_some found
  · refine ⟨?_, List.subset_append_left _ _, by simp⟩
    rw [Numbered] at numbered ⊢
    rw [List.map_append, numbered, List.length_append, List.length_singleton, List.range_succ]
    rfl

theorem internLines_numbered (side : List Token) (ids : List (List Str × Nat))
    (runs : List (Nat × Nat)) (numbered : Numbered ids) :
    Numbered (internLines side ids runs).1 ∧ ids ⊆ (internLines side ids runs).1 ∧
      List.Forall₂ (fun id run => (texts (slice side run), id) ∈ (internLines side ids runs).1)
        (internLines side ids runs).2 runs := by
  induction runs generalizing ids with
  | nil => exact ⟨numbered, List.Subset.refl _, .nil⟩
  | cons run runs ih =>
    obtain ⟨first, kept, held⟩ := internLine_numbered ids (texts (slice side run)) numbered
    obtain ⟨last, later, rest⟩ := ih _ first
    exact ⟨last, List.Subset.trans kept later, .cons (later held) rest⟩

/-- Lines of a side's middle: each is known by its texts, and their runs lie end to end. -/
structure Lined (side : List Token) (ids : List (List Str × Nat)) (start : Nat)
    (lines : List Line) : Prop where
  known : ∀ line ∈ lines, (texts (slice side line.2), line.1) ∈ ids
  runs : Tiles start side.length (lines.map (·.2))

theorem lined_cons (side : List Token) (ids : List (List Str × Nat)) (start : Nat) (line : Line)
    (lines : List Line) (lined : Lined side ids start (line :: lines)) :
    start = line.2.1 ∧ line.2.1 < line.2.2 ∧ line.2.2 ≤ side.length ∧
      Lined side ids line.2.2 lines := by
  have runs := lined.runs
  obtain ⟨id, first, last⟩ := line
  cases runs with
  | range _ _ _ _ grows later =>
    exact ⟨rfl, grows, tiles_le _ _ _ later, fun other listed => lined.known other (by simp [listed]),
      later⟩

theorem sameText_texts (one two : List Token) (same : texts one = texts two) (k : Nat)
    (within : k < one.length) : SameText one two k k := by
  have lengths := congrArg List.length same
  rw [texts, texts, List.length_map, List.length_map] at lengths
  have each := congrArg (·[k]?) same
  simp only [texts, List.getElem?_map, List.getElem?_eq_getElem within,
    List.getElem?_eq_getElem (lengths ▸ within), Option.map_some, Option.some.injEq] at each
  exact ⟨_, _, List.getElem?_eq_getElem within, List.getElem?_eq_getElem (lengths ▸ within), each⟩

section Anchors
variable (old new : List Token) (pre oldEnd newEnd : Nat) (ids : List (List Str × Nat))

/-- An anchor pairs the tokens of two lines of one id. -/
theorem aligns_anchor (numbered : Numbered ids) (x y : Line) (same : x.1 = y.1)
    (oldKnown : (texts (slice (slice old (pre, oldEnd)) x.2), x.1) ∈ ids)
    (newKnown : (texts (slice (slice new (pre, newEnd)) y.2), y.1) ∈ ids)
    (oldFit : x.2.2 ≤ (slice old (pre, oldEnd)).length)
    (newFit : y.2.2 ≤ (slice new (pre, newEnd)).length) :
    x.2.2 - x.2.1 = y.2.2 - y.2.1 ∧
      Aligns (SameText old new) (pre + x.2.1, pre + y.2.1)
        (equals (pre + x.2.1) (pre + y.2.1) (x.2.2 - x.2.1))
        (pre + x.2.1 + (x.2.2 - x.2.1), pre + y.2.1 + (x.2.2 - x.2.1)) := by
  rw [← same] at newKnown
  have one := numbered_key ids numbered _ _ _ oldKnown newKnown
  have width : (slice (slice old (pre, oldEnd)) x.2).length = x.2.2 - x.2.1 :=
    length_slice _ _ oldFit
  have lengths := congrArg List.length one
  rw [texts, texts, List.length_map, List.length_map, width] at lengths
  have other : (slice (slice new (pre, newEnd)) y.2).length = y.2.2 - y.2.1 :=
    length_slice _ _ newFit
  refine ⟨lengths.trans other, aligns_equals _ _ _ _ fun k within => ?_⟩
  have pair := sameText_texts _ _ one k (by rw [width]; exact within)
  have inner := sameText_slice _ _ (x.2.1, y.2.1) (x.2.2, y.2.2) k k pair
  have outer := sameText_slice _ _ (pre, pre) (oldEnd, newEnd) _ _ inner
  rw [Nat.add_assoc, Nat.add_assoc]
  exact outer

theorem aligns_anchorWalk (numbered : Numbered ids) (oldFit : oldEnd ≤ old.length)
    (newFit : newEnd ≤ new.length) (oldPre : pre ≤ oldEnd) (newPre : pre ≤ newEnd)
    (table : List (List Nat)) (i j oldStart newStart : Nat) (xs ys : List Line)
    (oldLined : Lined (slice old (pre, oldEnd)) ids oldStart xs)
    (newLined : Lined (slice new (pre, newEnd)) ids newStart ys) (anchoring last : Anchoring)
    (before : anchoring.place.1 ≤ pre + oldStart ∧ anchoring.place.2 ≤ pre + newStart)
    (aligns : Aligns (SameText old new) (0, 0) anchoring.ops anchoring.place)
    (walked : anchorWalk old new table pre i j xs ys anchoring = some last) :
    Aligns (SameText old new) (0, 0) last.ops last.place ∧
      last.place.1 ≤ oldEnd ∧ last.place.2 ≤ newEnd := by
  have oldLength : (slice old (pre, oldEnd)).length = oldEnd - pre := length_slice _ _ oldFit
  have newLength : (slice new (pre, newEnd)).length = newEnd - pre := length_slice _ _ newFit
  have bounded (anchoring : Anchoring) (oldStart newStart : Nat) (xs ys : List Line)
      (oldLined : Lined (slice old (pre, oldEnd)) ids oldStart xs)
      (newLined : Lined (slice new (pre, newEnd)) ids newStart ys)
      (before : anchoring.place.1 ≤ pre + oldStart ∧ anchoring.place.2 ≤ pre + newStart) :
      anchoring.place.1 ≤ oldEnd ∧ anchoring.place.2 ≤ newEnd := by
    have oldRuns := tiles_le _ _ _ oldLined.runs
    have newRuns := tiles_le _ _ _ newLined.runs
    omega
  fun_induction anchorWalk old new table pre i j xs ys anchoring generalizing oldStart newStart with
  | case1 i j x xs y ys anchoring same oldLine newLine lines ih =>
    obtain ⟨rfl, rfl⟩ := Prod.mk.inj lines
    obtain ⟨⟨spent, ops⟩, gap, rest⟩ := Option.bind_eq_some_iff.1 walked
    obtain ⟨rfl, oldGrows, oldIn, oldTail⟩ := lined_cons _ _ _ _ _ oldLined
    obtain ⟨rfl, newGrows, newIn, newTail⟩ := lined_cons _ _ _ _ _ newLined
    obtain ⟨width, anchor⟩ := aligns_anchor old new pre oldEnd newEnd ids numbered x y same
      (oldLined.known x (by simp)) (newLined.known y (by simp)) oldIn newIn
    have upTo := aligns_gap old new anchoring.place _ anchoring.spent spent anchoring.ops ops
      before.1 before.2 (by simp only; omega) (by simp only; omega) gap aligns
    exact ih spent ops _ _ oldTail newTail (by simp only; omega)
      (aligns_append _ _ _ _ _ _ upTo anchor) rest
  | case2 i j x xs y ys anchoring differ above ih =>
    obtain ⟨rfl, oldGrows, -, oldTail⟩ := lined_cons _ _ _ _ _ oldLined
    exact ih _ _ oldTail newLined (by omega) aligns walked
  | case3 i j x xs y ys anchoring differ above ih =>
    obtain ⟨rfl, newGrows, -, newTail⟩ := lined_cons _ _ _ _ _ newLined
    exact ih _ _ oldLined newTail (by omega) aligns walked
  | case4 i j ys anchoring =>
    obtain rfl := Option.some.inj walked
    exact ⟨aligns, bounded anchoring _ _ _ _ oldLined newLined before⟩
  | case5 i j x xs anchoring =>
    obtain rfl := Option.some.inj walked
    exact ⟨aligns, bounded anchoring _ _ _ _ oldLined newLined before⟩

end Anchors

theorem lined_zip (side : List Token) (ids : List (List Str × Nat)) (found : List Nat)
    (known : List.Forall₂ (fun id run => (texts (slice side run), id) ∈ ids) found
      (lineRuns side)) : Lined side ids 0 (found.zip (lineRuns side)) := by
  constructor
  · have each (numbers : List Nat) (runs : List (Nat × Nat))
        (known : List.Forall₂ (fun id run => (texts (slice side run), id) ∈ ids) numbers runs) :
        ∀ line ∈ numbers.zip runs, (texts (slice side line.2), line.1) ∈ ids := by
      induction known with
      | nil => simp
      | cons first rest ih => simpa [first] using ih
    exact each _ _ known
  · rw [List.map_snd_zip known.length_eq.ge]
    exact tiles_lineRuns side

/-- The anchored script leads from one end of both streams to the other. -/
theorem aligns_lineAnchoredOps (old new : List Token) (ops : List Op)
    (anchored : lineAnchoredOps old new = some ops) :
    Aligns (SameText old new) (0, 0) ops (old.length, new.length) := by
  cases affixes : commonAffixes old new with
  | mk pre suffix =>
    obtain ⟨oldFit, newFit, -, -⟩ := commonAffixes_pairs old new pre suffix affixes
    simp only [lineAnchoredOps, affixes] at anchored
    split_ifs at anchored with room
    generalize oldIntern : internLines (slice old (pre, old.length - suffix)) []
      (lineRuns (slice old (pre, old.length - suffix))) = first at anchored
    obtain ⟨ids, oldIds⟩ := first
    generalize newIntern : internLines (slice new (pre, new.length - suffix)) ids
      (lineRuns (slice new (pre, new.length - suffix))) = second at anchored
    obtain ⟨all, newIds⟩ := second
    obtain ⟨numbered, -, oldKnown⟩ := internLines_numbered (slice old (pre, old.length - suffix)) []
      (lineRuns (slice old (pre, old.length - suffix))) rfl
    rw [oldIntern] at numbered oldKnown
    obtain ⟨allNumbered, kept, newKnown⟩ := internLines_numbered
      (slice new (pre, new.length - suffix)) ids (lineRuns (slice new (pre, new.length - suffix)))
      numbered
    rw [newIntern] at allNumbered kept newKnown
    obtain ⟨anchoring, walked, rest⟩ := Option.bind_eq_some_iff.1 anchored
    obtain ⟨⟨spent, upTo⟩, gap, ends⟩ := Option.bind_eq_some_iff.1 rest
    obtain rfl := Option.some.inj ends
    obtain ⟨start, last⟩ := aligns_affixes old new pre suffix affixes
    obtain ⟨aligned, oldPlace, newPlace⟩ := aligns_anchorWalk old new pre (old.length - suffix)
      (new.length - suffix) all allNumbered (by omega) (by omega) (by omega) (by omega) _ 0 0 0 0 _ _
      (lined_zip _ all _ (oldKnown.imp fun _ _ held => kept held)) (lined_zip _ all _ newKnown) _
      anchoring ⟨Nat.le_refl _, Nat.le_refl _⟩ start walked
    have middle := aligns_gap old new anchoring.place (old.length - suffix, new.length - suffix) _ _ _
      upTo oldPlace newPlace (by simp only; omega) (by simp only; omega) gap aligned
    exact aligns_append _ _ _ _ _ _ middle last

end DeepDiffForge.Syntax
