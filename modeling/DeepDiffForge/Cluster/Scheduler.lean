import DeepDiffForge.Lib.Tiling
import DeepDiffForge.Daemon.Selections

/-! The risk lane of the review cluster: files scored in contiguous chunks, one per worker, and
joined in input order. A lane returns a value for every file; a panicking lane is outside the
model. -/

namespace DeepDiffForge.Cluster
open Text DeepDiffForge.Core DeepDiffForge.Graph DeepDiffForge.Daemon Tiling

inductive Parallelism where
  | serial
  | auto
  | fixed (workers : UInt16)
  deriving DecidableEq

inductive JoinPolicy where
  | deterministicInputOrder | rankedReviewOrder | asReadyWithStableIds
  deriving DecidableEq, Repr

def maxFixedWorkersCpuMultiple : Nat := 4

def resolveWorkers (parallelism : Parallelism) (items cpuCount : Nat) : Nat :=
  let requested :=
    match parallelism with
    | .serial => 1
    | .fixed n => max (min n.toNat (cpuCount * maxFixedWorkersCpuMultiple)) 1
    | .auto => cpuCount
  min (max requested 1) (max items 1)

/-- The chunks of the workers listed, from `start` on; the first `remainder` workers take one
item more. -/
def chunksFrom (base remainder : Nat) : List Nat → Nat → List (Nat × Nat)
  | [], _ => []
  | w :: workers, start =>
      let len := base + if w < remainder then 1 else 0
      if len = 0 then chunksFrom base remainder workers start
      else (start, start + len) :: chunksFrom base remainder workers (start + len)

def contiguousChunks (n workers : Nat) : List (Nat × Nat) :=
  if n = 0 then []
  else
    let workers := min (max workers 1) n
    chunksFrom (n / workers) (n % workers) (List.range workers) 0

section Lane
variable {T : Type}

/-- One worker's chunk; an index past the files would panic. -/
def laneChunk (files : List ReviewFile) (lane : Nat → ReviewFile → T) (chunk : Nat × Nat) :
    Option (List T) :=
  (List.range' chunk.1 (chunk.2 - chunk.1)).mapM fun i => files[i]?.map (lane i)

def runLane (files : List ReviewFile) (parallelism : Parallelism) (cpuCount : Nat)
    (lane : Nat → ReviewFile → T) : Option (List T) :=
  if files = [] then some []
  else
    let workers := resolveWorkers parallelism files.length cpuCount
    if workers ≤ 1 then some (files.mapIdx lane)
    else ((contiguousChunks files.length workers).mapM (laneChunk files lane)).map List.flatten

end Lane

def applyJoin (results : List RankedFile) : JoinPolicy → List RankedFile
  | .deterministicInputOrder | .asReadyWithStableIds => results
  | .rankedReviewOrder => sortRanked results

def runRiskCluster (scan : Scan) (files : List ReviewFile) (parallelism : Parallelism)
    (cpuCount : Nat) (join : JoinPolicy) : Option (List RankedFile) :=
  (runLane files parallelism cpuCount fun _ file => RankedFile.scored scan file).map
    fun scored => applyJoin scored join

theorem chunksFrom_tiles (base remainder w count start : Nat) :
    Tiles start (start + count * base + (min (w + count) remainder - min w remainder))
      (chunksFrom base remainder (List.range' w count) start) := by
  induction count generalizing w start with
  | zero =>
    simp only [List.range'_zero, chunksFrom, Nat.zero_mul, Nat.add_zero, Nat.sub_self]
    exact .done start
  | succ count ih =>
    rw [List.range'_succ, chunksFrom]
    by_cases first : w < remainder
    · have rest := ih (w + 1) (start + (base + 1))
      have stop : start + (base + 1) + count * base +
          (min (w + 1 + count) remainder - min (w + 1) remainder) =
          start + (count + 1) * base + (min (w + (count + 1)) remainder - min w remainder) := by
        rw [Nat.succ_mul]
        omega
      rw [stop] at rest
      simp only [if_pos first, Nat.add_eq_zero_iff, Nat.one_ne_zero, and_false, if_false]
      exact .range _ _ _ _ (by omega) rest
    · have rest := ih (w + 1) (start + base)
      have stop : start + base + count * base +
          (min (w + 1 + count) remainder - min (w + 1) remainder) =
          start + (count + 1) * base + (min (w + (count + 1)) remainder - min w remainder) := by
        rw [Nat.succ_mul]
        omega
      rw [stop] at rest
      simp only [if_neg first, Nat.add_zero]
      by_cases absent : base = 0
      · rw [if_pos absent]
        rw [absent, Nat.add_zero] at rest
        rw [absent]
        exact rest
      · rw [if_neg absent]
        exact .range _ _ _ _ (by omega) rest

/-- The chunks cover the items in order, whatever the worker count. -/
theorem contiguousChunks_tiles (n workers : Nat) : Tiles 0 n (contiguousChunks n workers) := by
  rw [contiguousChunks]
  split_ifs with absent
  · rw [absent]
    exact .done 0
  · have positive : 0 < min (max workers 1) n := by omega
    generalize min (max workers 1) n = k at positive
    have tiles := chunksFrom_tiles (n / k) (n % k) 0 k 0
    have whole := Nat.div_add_mod n k
    have less := Nat.mod_lt n positive
    have stop : 0 + k * (n / k) + (min (0 + k) (n % k) - min 0 (n % k)) = n := by omega
    rw [stop] at tiles
    simp only [List.range_eq_range']
    exact tiles

section Lane
variable {T : Type} (files : List ReviewFile) (lane : Nat → ReviewFile → T)

theorem laneChunk_eq (chunk : Nat × Nat) (within : chunk.1 ≤ chunk.2 ∧ chunk.2 ≤ files.length) :
    laneChunk files lane chunk = some (slice (files.mapIdx lane) chunk) := by
  obtain ⟨start, stop⟩ := chunk
  simp only [laneChunk, slice] at within ⊢
  obtain ⟨count, rfl⟩ := Nat.exists_eq_add_of_le within.1
  rw [Nat.add_sub_cancel_left]
  have fits := within.2
  clear within
  induction count generalizing start with
  | zero => simp
  | succ count ih =>
    have here : start < files.length := by omega
    have rest := ih (start + 1) (by omega)
    have file : files[start]? = some files[start] := List.getElem?_eq_getElem here
    have long : start < (files.mapIdx lane).length := by
      rw [List.length_mapIdx]
      exact here
    rw [List.range'_succ, List.mapM_cons, rest, file, List.drop_eq_getElem_cons long,
      List.take_succ_cons, List.getElem_mapIdx]
    rfl

theorem mapM_laneChunk (start stop : Nat) (chunks : List (Nat × Nat))
    (tiles : Tiles start stop chunks) (fits : stop ≤ files.length) :
    chunks.mapM (laneChunk files lane) = some (chunks.map (slice (files.mapIdx lane))) := by
  induction tiles with
  | done => rfl
  | range start middle stop chunks grows later ih =>
    have rest := tiles_le _ _ _ later
    rw [List.mapM_cons, laneChunk_eq files lane _ ⟨grows.le, rest.trans fits⟩, ih fits]
    rfl

/-- The lane's results are in input order, whatever the parallelism. -/
theorem runLane_eq (parallelism : Parallelism) (cpuCount : Nat) :
    runLane files parallelism cpuCount lane = some (files.mapIdx lane) := by
  rw [runLane]
  by_cases absent : files = []
  · rw [if_pos absent, absent]
    rfl
  rw [if_neg absent]
  dsimp only
  by_cases single : resolveWorkers parallelism files.length cpuCount ≤ 1
  · rw [if_pos single]
  · rw [if_neg single]
    have tiles := contiguousChunks_tiles files.length
      (resolveWorkers parallelism files.length cpuCount)
    have whole := flatMap_slice (files.mapIdx lane) 0 files.length _ tiles
    have length : (files.mapIdx lane).length = files.length := List.length_mapIdx
    rw [mapM_laneChunk files lane 0 files.length _ tiles (Nat.le_refl _), Option.map_some,
      ← List.flatMap_def, whole, ← length, slice_whole]

end Lane

theorem not_sublist_both {α : Type} (items : List α) (one two : α) (once : items.Nodup)
    (first : [one, two].Sublist items) (second : [two, one].Sublist items) : False := by
  induction items with
  | nil => cases first
  | cons item items ih =>
    have apart := List.nodup_cons.1 once
    cases first with
    | cons _ first =>
      cases second with
      | cons _ second => exact ih apart.2 first second
      | cons_cons _ second => exact apart.1 (first.subset (by simp))
    | cons_cons _ first =>
      cases second with
      | cons _ second => exact apart.1 (second.subset (by simp))
      | cons_cons _ second => exact apart.1 (first.subset (by simp))

section Order
variable (scan : Scan) (files : List ReviewFile)

def fileKey (file : Fin files.length) : Nat × Str :=
  ((assessFile scan (files.get file)).score, (files.get file).path)

def rankOrder : List (Fin files.length) :=
  (List.finRange files.length).mergeSort fun one two =>
    rankLe (fileKey scan files one) (fileKey scan files two)

def Before (one two : Fin files.length) : Prop :=
  rankLe (fileKey scan files one) (fileKey scan files two) = true ∧
    (fileKey scan files one = fileKey scan files two → one < two)

theorem rankOrder_perm : (rankOrder scan files).Perm (List.finRange files.length) :=
  List.mergeSort_perm _ _

theorem rankOrder_before : (rankOrder scan files).Pairwise (Before scan files) := by
  have once : (rankOrder scan files).Nodup :=
    (rankOrder_perm scan files).nodup_iff.2 (List.nodup_finRange _)
  have sorted : (rankOrder scan files).Pairwise fun one two =>
      rankLe (fileKey scan files one) (fileKey scan files two) = true :=
    List.pairwise_mergeSort (fun one two three => rankLe_trans _ (fileKey scan files two) _)
      (fun one two => rankLe_total _ _) _
  rw [List.pairwise_iff_forall_sublist] at sorted ⊢
  intro one two within
  refine ⟨sorted within, ?_⟩
  intro tie
  by_contra late
  have apart : one ≠ two := by
    intro same
    subst same
    simpa using once.sublist within
  have input : [two, one].Sublist (List.finRange files.length) := by
    have less : two < one := lt_of_le_of_ne (not_lt.1 late) apart.symm
    have pair : [two, one].Subperm (List.finRange files.length) :=
      List.subperm_of_subset (by simp [apart.symm]) (by simp)
    exact List.sublist_of_subperm_of_pairwise pair (by simp [less.le])
      (List.pairwise_le_finRange _)
  have reflexive := rankLe_total (fileKey scan files two) (fileKey scan files two)
  rw [Bool.or_self] at reflexive
  have kept := @List.pair_sublist_mergeSort _
    (fun one two => rankLe (fileKey scan files one) (fileKey scan files two)) _ _ _
    (fun one two three => rankLe_trans _ (fileKey scan files two) _)
    (fun one two => rankLe_total _ _) (by rw [tie]; exact reflexive) input
  exact not_sublist_both _ one two once within kept

theorem rank_eq : rank scan files =
    (rankOrder scan files).map fun file => RankedFile.scored scan (files.get file) := by
  have sorted := List.map_mergeSort (l := List.finRange files.length)
    (f := fun file => RankedFile.scored scan (files.get file))
    (r := fun one two => rankLe (fileKey scan files one) (fileKey scan files two))
    (s := fun one two => rankLe one.key two.key) (fun one _ two _ => rfl)
  rw [rankOrder, sorted, rank, sortRanked]
  congr 1
  exact List.ext_getElem (by simp) fun i _ _ => by simp

theorem riskOrder_eq : (riskOrder scan files).map (·.file) = rankOrder scan files := by
  have sorted := List.map_mergeSort (l := List.finRange files.length)
    (f := fun file =>
      Placed.mk file (scoreFile scan (files.get file)).1 (scoreFile scan (files.get file)).2)
    (r := fun one two => rankLe (fileKey scan files one) (fileKey scan files two))
    (s := fun one two => rankLe one.key two.key) (fun one _ two _ => rfl)
  rw [riskOrder, ← sorted, List.map_map]
  exact List.map_id _

/-- Every surface ranks the files alike, whatever the parallelism. -/
theorem ranks_alike (parallelism : Parallelism) (cpuCount : Nat) :
    (∀ (T : Type) (lane : Nat → ReviewFile → T),
      runLane files parallelism cpuCount lane = some (files.mapIdx lane)) ∧
    (∀ n workers, Tiles 0 n (contiguousChunks n workers)) ∧
    ∃ order : List (Fin files.length), order.Perm (List.finRange files.length) ∧
      order.Pairwise (Before scan files) ∧
      runRiskCluster scan files parallelism cpuCount .rankedReviewOrder =
        some (order.map fun file => RankedFile.scored scan (files.get file)) ∧
      rank scan files = (order.map fun file => RankedFile.scored scan (files.get file)) ∧
      (riskOrder scan files).map (·.file) = order := by
  refine ⟨fun T lane => runLane_eq files lane parallelism cpuCount, contiguousChunks_tiles,
    rankOrder scan files, rankOrder_perm scan files, rankOrder_before scan files, ?_,
    rank_eq scan files, riskOrder_eq scan files⟩
  rw [← rank_eq, runRiskCluster, runLane_eq, Option.map_some, applyJoin, rank]
  congr 2
  exact List.ext_getElem (by simp) fun i _ _ => by simp

end Order

end DeepDiffForge.Cluster
