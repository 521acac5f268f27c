import DeepDiffForge.Git.Raw

/-! Whatever streams a diff is built from, its changes' ranges lie end to end over its patch, and
each holds the blocks its change owns. -/

namespace DeepDiffForge.Git
open Text Tiling Markers Fallible

theorem lf_marker : (0x0A : UInt8) ∉ marker := by decide

theorem length_roles (kind : GitChangeKind) : (roles kind).length = kind.blockCount := by
  cases kind <;> rfl

theorem blockCount_pos (kind : GitChangeKind) : 0 < kind.blockCount := by
  cases kind <;> decide

theorem pair_ok (index : Nat) (record : RawRecord) (patch : List UInt8) (owned : List (Nat × Nat))
    (origin : GitChangeOrigin) (patchRange : Nat × Nat) (change : GitChange)
    (paired : pair index record patch owned origin patchRange = .ok change) :
    change.patchRange = patchRange ∧ change.blockCount = record.kind.blockCount := by
  unfold pair at paired
  obtain ⟨blobs, -, paired⟩ := (bind_eq_ok _ _ _).1 paired
  obtain rfl := Except.ok.inj paired
  exact ⟨rfl, length_roles record.kind⟩

theorem owned_range (patch : List UInt8) (first count : Nat) (positive : 0 < count)
    (within : first + count ≤ (splitBlocks patch).length) :
    let owned := slice (splitBlocks patch) (first, first + count)
    (owned.headD (0, 0)).1 = cut 0x0A marker patch first ∧
      (owned.getLastD (0, 0)).2 = cut 0x0A marker patch (first + count) := by
  intro owned
  have length : owned.length = count := by
    simp only [owned, slice, List.length_take, List.length_drop]
    omega
  have each (k : Nat) (inside : k < count) : owned[k]? =
      some (cut 0x0A marker patch (first + k), cut 0x0A marker patch (first + k + 1)) := by
    have place : first + k < (splitBlocks patch).length := by omega
    simp only [owned, slice, Nat.add_sub_cancel_left]
    rw [List.getElem?_take_of_lt inside, List.getElem?_drop, List.getElem?_eq_getElem place]
    exact congrArg some (getElem_blocks _ _ _ _ place)
  constructor
  · rw [List.headD_eq_head?_getD, List.head?_eq_getElem?, each 0 positive]
    rfl
  · rw [List.getLastD_eq_getLast?, List.getLast?_eq_getElem?, length, each (count - 1) (by omega)]
    have last : first + (count - 1) + 1 = first + count := by omega
    rw [last]
    rfl

/-- The changes of a stream, where its own patch begins at `base`. -/
def Ranged (patch : List UInt8) (base first : Nat) (records : List RawRecord)
    (changes : List GitChange) : Prop :=
  changes.map (·.blockCount) = records.map (·.kind.blockCount) ∧
    changes.map (·.patchRange) =
      (spans 0x0A marker patch first (records.map (·.kind.blockCount))).map
        fun range => (base + range.1, base + range.2)

theorem pairAll_ranged (patch : List UInt8) (origin : GitChangeOrigin) (base index first : Nat)
    (records : List RawRecord) (changes : List GitChange)
    (within : first + (records.map (·.kind.blockCount)).foldr (· + ·) 0 ≤
      (splitBlocks patch).length)
    (paired : pairAll patch origin base index first records = .ok changes) :
    Ranged patch base first records changes := by
  induction records generalizing index first changes with
  | nil =>
    obtain rfl := Except.ok.inj paired
    exact ⟨rfl, rfl⟩
  | cons record records ih =>
    unfold pairAll at paired
    obtain ⟨change, one, paired⟩ := (bind_eq_ok _ _ _).1 paired
    obtain ⟨others, rest, paired⟩ := (bind_eq_ok _ _ _).1 paired
    obtain rfl := Except.ok.inj paired
    rw [List.map_cons, List.foldr_cons, ← Nat.add_assoc] at within
    obtain ⟨counts, ranges⟩ := ih _ _ _ within rest
    obtain ⟨range, count⟩ := pair_ok _ _ _ _ _ _ _ one
    obtain ⟨head, last⟩ := owned_range patch first record.kind.blockCount
      (blockCount_pos record.kind) (by omega)
    constructor
    · rw [List.map_cons, List.map_cons, counts, count]
    · rw [List.map_cons, List.map_cons, spans, List.map_cons, ranges, range, head, last]

theorem ranged_owned (patch : List UInt8) (base first : Nat) (records : List RawRecord)
    (changes : List GitChange) (ranged : Ranged patch base first records changes)
    (within : first + (records.map (·.kind.blockCount)).foldr (· + ·) 0 ≤
      (splitBlocks patch).length) :
    ∀ change ∈ changes, ∃ n, n + change.blockCount ≤ (splitBlocks patch).length ∧
      0 < change.blockCount ∧ change.patchRange =
        (base + cut 0x0A marker patch n, base + cut 0x0A marker patch (n + change.blockCount)) := by
  induction records generalizing first changes with
  | nil =>
    obtain rfl := List.map_eq_nil_iff.1 ranged.1
    simp
  | cons record records ih =>
    cases changes with
    | nil => simp
    | cons change changes =>
      obtain ⟨counts, ranges⟩ := ranged
      rw [List.map_cons, List.foldr_cons, ← Nat.add_assoc] at within
      rw [List.map_cons, List.map_cons, List.cons.injEq] at counts
      rw [List.map_cons, List.map_cons, spans, List.map_cons, List.cons.injEq] at ranges
      rw [List.forall_mem_cons]
      constructor
      · rw [counts.1]
        exact ⟨first, by omega, blockCount_pos record.kind, ranges.1⟩
      · exact ih _ _ ⟨counts.2, ranges.2⟩ within

theorem headed (patch : List UInt8) (first : ∀ block ∈ (splitBlocks patch).head?, block.1 = 0)
    (empty : splitBlocks patch = [] → patch = []) : cut 0x0A marker patch 0 = 0 := by
  by_cases positive : 0 < (splitBlocks patch).length
  · have head : (splitBlocks patch).head? = some (cut 0x0A marker patch 0, cut 0x0A marker patch 1) := by
      rw [List.head?_eq_getElem?, List.getElem?_eq_getElem positive]
      exact congrArg some (getElem_blocks _ _ _ _ positive)
    exact first _ (by rw [head]; rfl)
  · have absent := List.length_eq_zero_iff.1 (Nat.eq_zero_of_not_pos positive)
    have above := cut_le_length 0x0A marker patch 0
    rw [empty absent] at above ⊢
    exact Nat.le_zero.1 above

structure Stream (output : List UInt8) (base : Nat) (patch : List UInt8)
    (changes : List GitChange) : Prop where
  suffix : ∃ offset, patch = output.drop offset
  begins : cut 0x0A marker patch 0 = 0
  ranged : ∃ records, Ranged patch base 0 records changes ∧
    (records.map (·.kind.blockCount)).foldr (· + ·) 0 = (splitBlocks patch).length

theorem readStream_ok (output : List UInt8) (origin : GitChangeOrigin) (base : Nat)
    (patch : List UInt8) (changes : List GitChange)
    (taken : readStream output origin base = .ok (patch, changes)) :
    Stream output base patch changes := by
  unfold readStream at taken
  obtain ⟨⟨records, offset⟩, -, taken⟩ := (bind_eq_ok _ _ _).1 taken
  dsimp only at taken
  split_ifs at taken with headless miscounted
  obtain ⟨listed, paired, taken⟩ := (bind_eq_ok _ _ _).1 taken
  obtain ⟨rfl, rfl⟩ := Prod.mk.inj (Except.ok.inj taken)
  have total : (records.map (·.kind.blockCount)).foldr (· + ·) 0 =
      (splitBlocks (output.drop offset)).length := by
    rw [List.foldr_map]
    exact not_not.1 miscounted
  refine ⟨⟨offset, rfl⟩, ?_, records, ?_, total⟩
  · exact headed _ (fun first held => by_contra fun off => headless (.inl ⟨first, held, off⟩))
      fun absent => by_contra fun present => headless (.inr ⟨absent, present⟩)
  · exact pairAll_ranged _ origin base 0 0 records listed (by omega) paired

/-- The changes' ranges lie end to end over the patch, and each holds the blocks it counts. -/
structure Tiled (diff : StructuredDiff) : Prop where
  tiles : Tiles 0 diff.patch.length (diff.changes.map (·.patchRange))
  owns : ∀ change ∈ diff.changes,
    (splitBlocks (diff.changePatch change)).length = change.blockCount

theorem changePatch_earlier (diff : StructuredDiff) (patch : List UInt8)
    (changes : List GitChange) (change : GitChange) (within : change.patchRange.1 ≤
      change.patchRange.2 ∧ change.patchRange.2 ≤ diff.patch.length) :
    StructuredDiff.changePatch ⟨diff.patch ++ patch, changes⟩ change = diff.changePatch change := by
  unfold StructuredDiff.changePatch
  rw [if_pos within, if_pos ⟨within.1, by rw [List.length_append]; omega⟩]
  exact slice_append_left _ _ _ within.2

/-- The bytes of a new change are those its stream gives it. -/
theorem changePatch_later (diff : StructuredDiff) (patch : List UInt8) (changes : List GitChange)
    (change : GitChange) (start stop : Nat) (order : start ≤ stop) (within : stop ≤ patch.length)
    (range : change.patchRange = (diff.patch.length + start, diff.patch.length + stop)) :
    StructuredDiff.changePatch ⟨diff.patch ++ patch, changes⟩ change =
      slice patch (start, stop) := by
  unfold StructuredDiff.changePatch
  rw [range, if_pos ⟨by simp only; omega, by rw [List.length_append]; simp only; omega⟩]
  exact slice_append_right _ _ _ _

theorem appendStream_tiled (diff : StructuredDiff) (output : List UInt8)
    (origin : GitChangeOrigin) (tiled : Tiled diff) :
    Tiled (diff.appendStream output origin).1 := by
  unfold StructuredDiff.appendStream
  split
  · exact tiled
  rename_i patch changes taken
  obtain ⟨-, begins, records, ranged, total⟩ := readStream_ok _ _ _ _ _ taken
  have owned := ranged_owned patch diff.patch.length 0 records changes ranged (by omega)
  constructor
  · have own := tiles_spans 0x0A marker patch 0 (records.map (·.kind.blockCount))
      (by simp [blockCount_pos]) (by rw [Nat.zero_add, total]; exact length_blocks _ _ _)
    rw [begins] at own
    have shifted := tiles_shift diff.patch.length _ _ _ own
    rw [Nat.add_zero] at shifted
    rw [List.length_append, List.map_append, ranged.2]
    exact tiles_append _ _ _ _ _ tiled.tiles shifted
  · intro change listed
    rcases List.mem_append.1 listed with earlier | later
    · have inside := tiles_within _ _ _ tiled.tiles _ (List.mem_map_of_mem earlier)
      rw [changePatch_earlier diff patch _ change (by omega)]
      exact tiled.owns change earlier
    · obtain ⟨n, within, present, range⟩ := owned change later
      rw [splitBlocks, length_blocks] at within
      have grows := cut_lt 0x0A marker patch n (n + change.blockCount) (by omega) within
      rw [changePatch_later diff patch _ change _ _ (Nat.le_of_lt grows)
        (cut_le_length _ _ _ _) range, splitBlocks, length_blocks,
        length_starts_slice 0x0A marker patch lf_marker n _ (by omega) within]
      omega

/-- The diff after streams given to it one after another, those refused among them. -/
def StructuredDiff.appendStreams (diff : StructuredDiff)
    (streams : List (List UInt8 × GitChangeOrigin)) : StructuredDiff :=
  streams.foldl (fun diff stream => (diff.appendStream stream.1 stream.2).1) diff

theorem appendStreams_tiled (diff : StructuredDiff)
    (streams : List (List UInt8 × GitChangeOrigin)) (tiled : Tiled diff) :
    Tiled (diff.appendStreams streams) := by
  induction streams generalizing diff with
  | nil => exact tiled
  | cons stream streams ih => exact ih _ (appendStream_tiled diff stream.1 stream.2 tiled)

theorem appendStream_refused (diff : StructuredDiff) (output : List UInt8)
    (origin : GitChangeOrigin) (failure : GitAcquireError)
    (refused : (diff.appendStream output origin).2 = .error failure) :
    (diff.appendStream output origin).1 = diff := by
  unfold StructuredDiff.appendStream at refused ⊢
  split
  · rfl
  · rename_i taken
    rw [taken] at refused
    cases refused

theorem tiled_whole (diff : StructuredDiff) (tiled : Tiled diff) :
    diff.changes.flatMap diff.changePatch = diff.patch := by
  have each : diff.changes.flatMap diff.changePatch =
      (diff.changes.map (·.patchRange)).flatMap (slice diff.patch) := by
    rw [List.flatMap_map]
    apply List.flatMap_congr
    intro change listed
    have inside := tiles_within _ _ _ tiled.tiles _ (List.mem_map_of_mem listed)
    exact if_pos ⟨by omega, inside.2.2⟩
  rw [each, flatMap_slice _ _ _ _ tiled.tiles, slice_whole]

theorem appendStream_ranges (streams : List (List UInt8 × GitChangeOrigin)) :
    let diff := StructuredDiff.default.appendStreams streams
    (∀ output origin failure, (diff.appendStream output origin).2 = .error failure →
      (diff.appendStream output origin).1 = diff) ∧
    Tiles 0 diff.patch.length (diff.changes.map (·.patchRange)) ∧
    diff.changes.flatMap diff.changePatch = diff.patch ∧
    ∀ change ∈ diff.changes,
      (splitBlocks (diff.changePatch change)).length = change.blockCount := by
  intro diff
  have tiled : Tiled diff := appendStreams_tiled _ streams ⟨.done 0, by simp [StructuredDiff.default]⟩
  exact ⟨fun output origin failure => appendStream_refused diff output origin failure, tiled.tiles,
    tiled_whole diff tiled, tiled.owns⟩

end DeepDiffForge.Git
