import DeepDiffForge.Git.Blocks

/-! A structured diff captured: the parser's files against the blocks of Git's records, and the
paths the records give them. -/

namespace DeepDiffForge.Git
open Text Tiling Markers Fallible DeepDiffForge.Core DeepDiffForge.Patch

def GitPath.toUtf8 (path : GitPath) : Option Str := Utf8.decode path.bytes

def GitChange.reviewPath (change : GitChange) : Option GitPath := change.newPath.or change.oldPath

def StructuredDiff.blocks (diff : StructuredDiff) : Nat :=
  (diff.changes.map (·.blockCount)).foldr (· + ·) 0

def StructuredDiff.capture (diff : StructuredDiff) : Except GitAcquireError CapturedPatch :=
  match captureBytes diff.patch with
  | .error failure => .error (.parse failure)
  | .ok captured =>
      if captured.files.length ≠ diff.blocks then
        .error (.parsedFileCountMismatch diff.blocks captured.files.length)
      else .ok captured

def nameFiles (record : Nat) :
    List GitChange → List ReviewFile → Except GitAcquireError (List ReviewFile)
  | [], files => .ok files
  | change :: changes, files =>
      match change.reviewPath.bind (·.toUtf8) with
      | none => .error (.nonUtf8Path record)
      | some path => do
          let named ← nameFiles (record + 1) changes (files.drop change.blockCount)
          return (files.take change.blockCount).map (fun file => { file with path := path }) ++ named

def StructuredDiff.reviewFiles (diff : StructuredDiff) (captured : CapturedPatch) :
    Except GitAcquireError (List ReviewFile) :=
  if captured.files.length ≠ diff.blocks then
    .error (.parsedFileCountMismatch diff.blocks captured.files.length)
  else nameFiles 0 diff.changes captured.files

/-- Captured files line up with Git's records: each is its own block's file, hunk ids aside, and
takes the path of the change whose range holds that block. -/
structure Aligned (diff : StructuredDiff) (captured : CapturedPatch) : Prop where
  alone : List.Forall₂ (fun file block => ∃ alone base reviewed,
    captureBytes (slice diff.patch block) = .ok alone ∧ alone.files = [reviewed] ∧
      file = shiftFile base reviewed) captured.files (splitBlocks diff.patch)
  named : ∀ named, diff.reviewFiles captured = .ok named →
    named.length = captured.files.length ∧
      ∀ (n : Nat) (block : Nat × Nat), (splitBlocks diff.patch)[n]? = some block →
        ∃ change ∈ diff.changes,
          change.patchRange.1 ≤ block.1 ∧ block.2 ≤ change.patchRange.2 ∧
            ∃ (path : Str) (file : ReviewFile),
              change.reviewPath.bind (·.toUtf8) = some path ∧ captured.files[n]? = some file ∧
                named[n]? = some { file with path := path }

def StructuredDiff.blocksIn (diff : StructuredDiff) (range : Nat × Nat) : List (Nat × Nat) :=
  inside (splitBlocks diff.patch) range

/-- Records paired with the right bytes: a call that fails changes nothing, and the changes' ranges
lie end to end over the patch, each holding as many of its blocks as the change counts. -/
structure Paired (diff : StructuredDiff) : Prop where
  refused : ∀ output origin failure, (diff.appendStream output origin).2 = .error failure →
    (diff.appendStream output origin).1 = diff
  tiles : Tiles 0 diff.patch.length (diff.changes.map (·.patchRange))
  whole : diff.changes.flatMap diff.changePatch = diff.patch
  owns : ∀ change ∈ diff.changes, (diff.blocksIn change.patchRange).length = change.blockCount

def Joined (diff : StructuredDiff) : List (List UInt8 × GitChangeOrigin) → Prop
  | [] => True
  | stream :: streams =>
      (∀ patch changes, readStream stream.1 stream.2 diff.patch.length = .ok (patch, changes) →
        patch ≠ [] → EndsLine 0x0A diff.patch) ∧
      Joined (diff.appendStream stream.1 stream.2).1 streams

structure Exact (diff : StructuredDiff) : Prop where
  begins : cut 0x0A marker diff.patch 0 = 0
  ranges : diff.changes.map (·.patchRange) =
    spans 0x0A marker diff.patch 0 (diff.changes.map (·.blockCount))
  total : diff.blocks = (splitBlocks diff.patch).length

def Short (diff : StructuredDiff) : Prop := (splitBlocks diff.patch).length < diff.blocks

theorem borderless : ∀ k < marker.length, 0 < k → startsWith (marker.drop k) marker = false := by
  decide

theorem foldr_append (one two : List Nat) :
    (one ++ two).foldr (· + ·) 0 = one.foldr (· + ·) 0 + two.foldr (· + ·) 0 := by
  induction one with
  | nil => simp
  | cons count one ih => simp [ih, Nat.add_assoc]

theorem blocks_append (diff : StructuredDiff) (patch : List UInt8) (changes : List GitChange) :
    StructuredDiff.blocks ⟨diff.patch ++ patch, diff.changes ++ changes⟩ =
      diff.blocks + (changes.map (·.blockCount)).foldr (· + ·) 0 := by
  rw [StructuredDiff.blocks, List.map_append, foldr_append]
  rfl

theorem stream_blocks (output patch : List UInt8) (base : Nat) (changes : List GitChange)
    (stream : Stream output base patch changes) :
    (changes.map (·.blockCount)).foldr (· + ·) 0 = (splitBlocks patch).length := by
  obtain ⟨-, -, records, ranged, total⟩ := stream
  rw [ranged.1, total]

theorem exact_append (diff : StructuredDiff) (output patch : List UInt8)
    (changes : List GitChange) (held : Exact diff)
    (stream : Stream output diff.patch.length patch changes)
    (ends : EndsLine 0x0A diff.patch) :
    Exact ⟨diff.patch ++ patch, diff.changes ++ changes⟩ := by
  have counted := stream_blocks output patch _ changes stream
  obtain ⟨-, begins, records, ranged, -⟩ := stream
  have total := held.total
  rw [splitBlocks, length_blocks] at total counted
  constructor
  · rw [cut_append_left 0x0A marker _ _ lf_marker ends begins 0 (Nat.zero_le _)]
    exact held.begins
  · have right := spans_right 0x0A marker diff.patch patch lf_marker ends 0
      (changes.map (·.blockCount))
    rw [Nat.add_zero] at right
    rw [List.map_append, List.map_append, spans_append, Nat.zero_add, ← StructuredDiff.blocks,
      spans_left 0x0A marker _ _ lf_marker ends begins 0 _ (by
        rw [Nat.zero_add]
        exact Nat.le_of_eq total), ← held.ranges, ranged.2, total, right, ranged.1]
  · rw [blocks_append, total, counted, splitBlocks, length_blocks,
      starts_append 0x0A marker _ _ lf_marker ends, List.length_append, List.length_map]

theorem length_join (first rest : List UInt8) (begins : cut 0x0A marker rest 0 = 0) :
    (splitBlocks (first ++ rest)).length ≤
        (splitBlocks first).length + (splitBlocks rest).length ∧
      (rest ≠ [] → ¬EndsLine 0x0A first → (splitBlocks (first ++ rest)).length <
        (splitBlocks first).length + (splitBlocks rest).length) := by
  have apart (filled : rest ≠ []) (broken : ¬EndsLine 0x0A first) :
      (splitBlocks (first ++ rest)).length <
        (splitBlocks first).length + (splitBlocks rest).length := by
    simp only [splitBlocks, length_blocks]
    exact length_starts_join 0x0A marker first rest borderless (marker_first rest filled begins)
      filled broken
  refine ⟨?_, apart⟩
  by_cases empty : rest = []
  · rw [empty, List.append_nil]
    exact Nat.le_add_right _ _
  · by_cases ends : EndsLine 0x0A first
    · simp only [splitBlocks, length_blocks]
      rw [starts_append 0x0A marker first rest lf_marker ends, List.length_append,
        List.length_map]
    · exact Nat.le_of_lt (apart empty ends)

theorem short_append (diff : StructuredDiff) (output patch : List UInt8)
    (changes : List GitChange) (short : Short diff)
    (stream : Stream output diff.patch.length patch changes) :
    Short ⟨diff.patch ++ patch, diff.changes ++ changes⟩ := by
  have fewer := (length_join diff.patch patch stream.begins).1
  rw [Short] at short ⊢
  rw [blocks_append, stream_blocks output patch _ changes stream]
  change (splitBlocks (diff.patch ++ patch)).length < _
  omega

theorem short_broken (diff : StructuredDiff) (output patch : List UInt8)
    (changes : List GitChange) (held : Exact diff)
    (stream : Stream output diff.patch.length patch changes) (filled : patch ≠ [])
    (broken : ¬EndsLine 0x0A diff.patch) :
    Short ⟨diff.patch ++ patch, diff.changes ++ changes⟩ := by
  have fewer := (length_join diff.patch patch stream.begins).2 filled broken
  have total := held.total
  rw [Short, blocks_append, stream_blocks output patch _ changes stream]
  change (splitBlocks (diff.patch ++ patch)).length < _
  omega

theorem exact_empty (diff : StructuredDiff) (output : List UInt8) (changes : List GitChange)
    (held : Exact diff) (stream : Stream output diff.patch.length [] changes) :
    Exact ⟨diff.patch ++ [], diff.changes ++ changes⟩ := by
  obtain ⟨-, -, records, ranged, total⟩ := stream
  have hollow : records = [] := by
    cases records with
    | nil => rfl
    | cons record records =>
      have vacant := blockCount_pos record.kind
      have empty : splitBlocks [] = [] := rfl
      rw [empty, List.map_cons, List.foldr_cons, List.length_nil] at total
      omega
  have bare : changes = [] := by
    rw [hollow] at ranged
    exact List.map_eq_nil_iff.1 ranged.1
  rw [bare, List.append_nil, List.append_nil]
  exact held

theorem short_run (diff : StructuredDiff) (streams : List (List UInt8 × GitChangeOrigin))
    (short : Short diff) : Short (diff.appendStreams streams) := by
  induction streams generalizing diff with
  | nil => exact short
  | cons stream streams ih =>
    apply ih
    change Short (diff.appendStream stream.1 stream.2).1
    unfold StructuredDiff.appendStream
    split
    · exact short
    · rename_i patch changes taken
      exact short_append diff stream.1 patch changes short (readStream_ok _ _ _ _ _ taken)

/-- A run keeps its blocks exactly when every patch is taken where a line ends. -/
theorem exact_run (diff : StructuredDiff) (streams : List (List UInt8 × GitChangeOrigin))
    (held : Exact diff) : Exact (diff.appendStreams streams) ∧ Joined diff streams ∨
      Short (diff.appendStreams streams) ∧ ¬Joined diff streams := by
  induction streams generalizing diff with
  | nil => exact .inl ⟨held, trivial⟩
  | cons stream streams ih =>
    have continued (next : Exact (diff.appendStream stream.1 stream.2).1)
        (condition : ∀ patch changes,
          readStream stream.1 stream.2 diff.patch.length = .ok (patch, changes) →
            patch ≠ [] → EndsLine 0x0A diff.patch) :
        Exact (diff.appendStreams (stream :: streams)) ∧ Joined diff (stream :: streams) ∨
          Short (diff.appendStreams (stream :: streams)) ∧ ¬Joined diff (stream :: streams) := by
      rcases ih _ next with ⟨kept, joined⟩ | ⟨short, unjoined⟩
      · exact .inl ⟨kept, condition, joined⟩
      · exact .inr ⟨short, fun joined => unjoined joined.2⟩
    cases taken : readStream stream.1 stream.2 diff.patch.length with
    | error failure =>
      have same : (diff.appendStream stream.1 stream.2).1 = diff := by
        rw [StructuredDiff.appendStream, taken]
      exact continued (by rw [same]; exact held) (by rw [taken]; exact nofun)
    | ok read =>
      obtain ⟨patch, changes⟩ := read
      have stream' := readStream_ok _ _ _ _ _ taken
      have next : (diff.appendStream stream.1 stream.2).1 =
          ⟨diff.patch ++ patch, diff.changes ++ changes⟩ := by
        rw [StructuredDiff.appendStream, taken]
      by_cases empty : patch = []
      · subst empty
        refine continued (next ▸ exact_empty diff _ changes held stream') ?_
        intro other listed read filled
        rw [taken] at read
        exact absurd (Prod.mk.inj (Except.ok.inj read)).1.symm filled
      · by_cases ends : EndsLine 0x0A diff.patch
        · exact continued (next ▸ exact_append diff _ patch changes held stream' ends)
            fun _ _ _ _ => ends
        · right
          refine ⟨?_, fun joined => ends (joined.1 patch changes taken empty)⟩
          refine short_run (diff.appendStream stream.1 stream.2).1 streams ?_
          rw [next]
          exact short_broken diff _ patch changes held stream' empty ends

/-- Where the ranges are over the patch's own blocks, each holds its change's. -/
theorem exact_owns (diff : StructuredDiff) (held : Exact diff)
    (grows : ∀ change ∈ diff.changes, change.patchRange.1 < change.patchRange.2) :
    ∀ change ∈ diff.changes, (diff.blocksIn change.patchRange).length = change.blockCount := by
  have total := held.total
  rw [splitBlocks, length_blocks, StructuredDiff.blocks] at total
  have walk (first : Nat) (changes : List GitChange)
      (grows : ∀ change ∈ changes, change.patchRange.1 < change.patchRange.2)
      (within : first + (changes.map (·.blockCount)).foldr (· + ·) 0 ≤
        (starts 0x0A marker diff.patch).length)
      (ranges : changes.map (·.patchRange) =
        spans 0x0A marker diff.patch first (changes.map (·.blockCount))) :
      ∀ change ∈ changes, (diff.blocksIn change.patchRange).length = change.blockCount := by
    induction changes generalizing first with
    | nil => exact fun change listed => absurd listed List.not_mem_nil
    | cons change changes ih =>
      rw [List.forall_mem_cons] at grows ⊢
      rw [List.map_cons, List.foldr_cons, ← Nat.add_assoc] at within
      rw [List.map_cons, List.map_cons, spans, List.cons.injEq] at ranges
      refine ⟨?_, ih _ grows.2 within ranges.2⟩
      have counted : 0 < change.blockCount := by
        by_contra zero
        rw [ranges.1, Nat.eq_zero_of_not_pos zero] at grows
        exact absurd grows.1 (Nat.lt_irrefl _)
      rw [ranges.1, StructuredDiff.blocksIn, splitBlocks, length_inside_blocks _ _ _ _ _
        (Nat.lt_add_of_pos_right counted) (by omega), Nat.add_sub_cancel_left]
  exact walk 0 diff.changes grows (by omega) held.ranges

/-- Where the patch has fewer blocks than the changes count, some range is short of its own. -/
theorem not_paired_of_short (diff : StructuredDiff) (short : Short diff) : ¬Paired diff := by
  intro paired
  have within := sum_inside_le _ _ _ (splitBlocks diff.patch) paired.tiles
    (blocks_filled 0x0A marker diff.patch)
  have most : (inside (splitBlocks diff.patch) (0, diff.patch.length)).length ≤
      (splitBlocks diff.patch).length := List.length_filter_le _ _
  have each : (diff.changes.map (·.patchRange)).map
      (fun range => (inside (splitBlocks diff.patch) range).length) =
        diff.changes.map (·.blockCount) := by
    rw [List.map_map]
    exact List.map_congr_left paired.owns
  rw [each] at within
  have counted : diff.blocks = (diff.changes.map (·.blockCount)).sum := rfl
  rw [Short] at short
  omega

theorem nameFiles_ok (patch : List UInt8) (record first : Nat) (changes : List GitChange)
    (files named : List ReviewFile) (ok : nameFiles record changes files = .ok named)
    (ranges : changes.map (·.patchRange) =
      spans 0x0A marker patch first (changes.map (·.blockCount))) :
    named.length = files.length ∧
      ∀ n file, files[n]? = some file → n < (changes.map (·.blockCount)).foldr (· + ·) 0 →
        ∃ change ∈ changes, ∃ m, m ≤ first + n ∧ first + n < m + change.blockCount ∧
          change.patchRange = (cut 0x0A marker patch m,
            cut 0x0A marker patch (m + change.blockCount)) ∧
          ∃ path, change.reviewPath.bind (·.toUtf8) = some path ∧
            named[n]? = some { file with path := path } := by
  induction changes generalizing record first files named with
  | nil =>
    obtain rfl := Except.ok.inj ok
    simp
  | cons change changes ih =>
    unfold nameFiles at ok
    split at ok
    · cases ok
    rename_i path known
    obtain ⟨others, rest, ok⟩ := (bind_eq_ok _ _ _).1 ok
    obtain rfl := Except.ok.inj ok
    rw [List.map_cons, List.map_cons, spans, List.cons.injEq] at ranges
    obtain ⟨length, later⟩ := ih _ _ _ _ rest ranges.2
    rw [List.length_drop] at length
    refine ⟨by rw [List.length_append, List.length_map, List.length_take, length]; omega, ?_⟩
    intro n file found within
    have inside := (List.getElem?_eq_some_iff.1 found).1
    by_cases own : n < change.blockCount
    · refine ⟨change, by simp, first, by omega, by omega, ranges.1, path, known, ?_⟩
      rw [List.getElem?_append_left (by rw [List.length_map, List.length_take]; omega),
        List.getElem?_map, List.getElem?_take_of_lt own, found]
      rfl
    · rw [List.map_cons, List.foldr_cons] at within
      obtain ⟨k, rfl⟩ := Nat.exists_eq_add_of_le (Nat.not_lt.1 own)
      have moved : (files.drop change.blockCount)[k]? = some file := by
        rw [List.getElem?_drop, found]
      obtain ⟨other, listed, m, low, high, range, path', known', place⟩ :=
        later k file moved (by omega)
      refine ⟨other, List.mem_cons_of_mem _ listed, m, by omega, by omega, range, path', known',
        ?_⟩
      have width : ((files.take change.blockCount).map
          fun file => { file with path := path }).length = change.blockCount := by
        rw [List.length_map, List.length_take]
        omega
      rw [List.getElem?_append_right (by omega), width, Nat.add_sub_cancel_left, place]

/-- A diff whose changes hold its blocks captures to files that line up with them. -/
theorem aligned_exact (diff : StructuredDiff) (captured : CapturedPatch) (held : Exact diff)
    (ok : diff.capture = .ok captured) : Aligned diff captured := by
  unfold StructuredDiff.capture at ok
  split at ok
  · cases ok
  rename_i found taken
  split_ifs at ok with count
  obtain rfl := Except.ok.inj ok
  rw [not_not] at count
  refine ⟨capture_blocks diff.patch found taken held.begins (count.trans held.total), ?_⟩
  intro named ok
  unfold StructuredDiff.reviewFiles at ok
  rw [if_neg (not_not.2 count)] at ok
  obtain ⟨length, each⟩ := nameFiles_ok diff.patch 0 0 diff.changes _ named ok held.ranges
  refine ⟨length, fun n block listed => ?_⟩
  have within := (List.getElem?_eq_some_iff.1 listed).1
  have place : block = (cut 0x0A marker diff.patch n, cut 0x0A marker diff.patch (n + 1)) := by
    rw [List.getElem?_eq_getElem within] at listed
    exact (Option.some.inj listed).symm.trans (getElem_blocks _ _ _ _ within)
  have inside : n < found.files.length := by
    have total := held.total
    omega
  have file := List.getElem?_eq_getElem inside
  obtain ⟨change, member, m, low, high, range, path, known, name⟩ :=
    each n _ file (by rw [count] at inside; exact inside)
  rw [Nat.zero_add] at low high
  refine ⟨change, member, ?_, ?_, path, _, known, file, name⟩
  · rw [range, place]
    exact cut_mono 0x0A marker diff.patch m n low
  · rw [range, place]
    exact cut_mono 0x0A marker diff.patch (n + 1) _ high

theorem parseRawSection_one (output : List UInt8) (record : RawRecord) (next : Nat)
    (opens : output[0]? = some 0x3A) (read : rawRecord output 0 0 = .ok (record, next))
    (stops : output[next]? = some 0) : parseRawSection output = .ok ([record], next + 1) := by
  rw [parseRawSection, rawRecords]
  split
  · simp_all
  · rename_i byte held
    obtain rfl : byte = 0x3A := Option.some.inj (held.symm.trans opens)
    rw [if_neg (by decide), if_pos rfl]
    split
    · rename_i failed
      rw [List.length_nil, read] at failed
      cases failed
    · rename_i one after taken
      rw [List.length_nil, read] at taken
      obtain ⟨rfl, rfl⟩ := Prod.mk.inj (Except.ok.inj taken)
      rw [rawRecords]
      split
      · simp_all
      · rename_i stop held
        obtain rfl : stop = 0 := Option.some.inj (held.symm.trans stops)
        rfl

def aOid : Str := List.replicate 40 'a'
def bOid : Str := List.replicate 40 'b'

/-- The patch of one modified file, with the text that ends it. -/
def modifiedPatch (path last : String) : List UInt8 :=
  ascii "diff --git a/" ++ ascii path ++ ascii " b/" ++ ascii path ++ ascii "\n--- a/" ++
    ascii path ++ ascii "\n+++ b/" ++ ascii path ++ ascii "\n@@ -1 +1 @@\n-a\n" ++ ascii last

def modifiedStream (path last : String) : List UInt8 :=
  ascii ":100644 100644 " ++ Utf8.encode aOid ++ [0x20] ++ Utf8.encode bOid ++ ascii " M" ++ [0] ++
    ascii path ++ [0, 0] ++ modifiedPatch path last

def modifiedChange (path : String) (range : Nat × Nat) : GitChange where
  kind := .modified
  score := none
  oldMode := some 0o100644
  newMode := some 0o100644
  oldBlob := some aOid
  newBlob := some bOid
  oldPath := some ⟨ascii path⟩
  newPath := some ⟨ascii path⟩
  origin := .tracked
  binary := false
  patchRange := range
  blockCount := 1

def modifiedRecord (path : String) : RawRecord :=
  ⟨.modified, none, 0o100644, 0o100644, aOid, bOid, some ⟨ascii path⟩, some ⟨ascii path⟩⟩

/-- A stream whose last line has no line feed, and one whose last line has, after it and alone. -/
theorem readStream_samples :
    (readStream (modifiedStream "x" "+b") .tracked 0 =
        .ok (modifiedPatch "x" "+b", [modifiedChange "x" (0, 52)]) ∧
      (modifiedPatch "x" "+b").length = 52) ∧
    readStream (modifiedStream "y" "+b\n") .tracked 52 =
        .ok (modifiedPatch "y" "+b\n", [modifiedChange "y" (52, 105)]) ∧
      readStream (modifiedStream "y" "+b\n") .tracked 0 =
        .ok (modifiedPatch "y" "+b\n", [modifiedChange "y" (0, 53)]) := by
  have first := parseRawSection_one (modifiedStream "x" "+b") (modifiedRecord "x") 101
    (by decide +kernel) (by decide +kernel) (by decide +kernel)
  have second := parseRawSection_one (modifiedStream "y" "+b\n") (modifiedRecord "y") 101
    (by decide +kernel) (by decide +kernel) (by decide +kernel)
  rw [readStream, readStream, readStream, first, second]
  decide +kernel

theorem appendStreams_open : StructuredDiff.default.appendStreams
    [(modifiedStream "x" "+b", .tracked)] =
      ⟨modifiedPatch "x" "+b", [modifiedChange "x" (0, 52)]⟩ := by
  change (StructuredDiff.appendStream ⟨[], []⟩ _ _).1 = _
  rw [StructuredDiff.appendStream, List.length_nil, readStream_samples.1.1]
  rfl

theorem appendStreams_both : StructuredDiff.default.appendStreams
    [(modifiedStream "x" "+b", .tracked), (modifiedStream "y" "+b\n", .tracked)] =
      ⟨modifiedPatch "x" "+b" ++ modifiedPatch "y" "+b\n",
        [modifiedChange "x" (0, 52), modifiedChange "y" (52, 105)]⟩ := by
  change (StructuredDiff.appendStream (StructuredDiff.default.appendStreams
    [(modifiedStream "x" "+b", .tracked)]) _ _).1 = _
  rw [appendStreams_open, StructuredDiff.appendStream, readStream_samples.1.2,
    readStream_samples.2.1]
  rfl

/-- Whatever streams a diff is built from, its changes are paired with the right bytes exactly when
each patch was taken where the one before it ends a line. -/
theorem appendStreams_paired (streams : List (List UInt8 × GitChangeOrigin)) :
    Paired (StructuredDiff.default.appendStreams streams) ↔ Joined .default streams := by
  have empty : Exact .default := ⟨rfl, rfl, rfl⟩
  obtain ⟨refused, tiles, whole, -⟩ := appendStream_ranges streams
  rcases exact_run .default streams empty with ⟨held, joined⟩ | ⟨short, unjoined⟩
  · refine ⟨fun _ => joined, fun _ => ⟨refused, tiles, whole, exact_owns _ held ?_⟩⟩
    intro change listed
    exact (tiles_within _ _ _ tiles _ (List.mem_map_of_mem listed)).2.1
  · exact ⟨fun paired => absurd paired (not_paired_of_short _ short),
      fun joined => absurd joined unjoined⟩

/-- The second stream's marker is no longer where a line begins, so its range holds no block. -/
theorem appendStreams_unpaired :
    let streams := [(modifiedStream "x" "+b", GitChangeOrigin.tracked),
      (modifiedStream "y" "+b\n", .tracked)]
    let diff := StructuredDiff.default.appendStreams streams
    diff.changes.map (·.patchRange) = [(0, 52), (52, 105)] ∧
      diff.changes.map (·.blockCount) = [1, 1] ∧ diff.blocksIn (52, 105) = [] ∧ ¬Paired diff := by
  intro streams diff
  have built : diff = ⟨modifiedPatch "x" "+b" ++ modifiedPatch "y" "+b\n",
      [modifiedChange "x" (0, 52), modifiedChange "y" (52, 105)]⟩ := appendStreams_both
  have missing : diff.blocksIn (52, 105) = [] := by
    rw [built]
    decide +kernel
  refine ⟨by rw [built]; rfl, by rw [built]; rfl, missing, fun paired => ?_⟩
  have owned := paired.owns (modifiedChange "y" (52, 105)) (by rw [built]; simp)
  rw [show (modifiedChange "y" (52, 105)).patchRange = (52, 105) from rfl, missing] at owned
  cases owned

/-- Whatever streams a diff is built from, a capture of it that succeeds lines up with Git's
records exactly when each patch was taken where the one before it ends a line. -/
theorem capture_aligned (streams : List (List UInt8 × GitChangeOrigin))
    (captured : CapturedPatch)
    (ok : (StructuredDiff.default.appendStreams streams).capture = .ok captured) :
    Aligned (StructuredDiff.default.appendStreams streams) captured ↔ Joined .default streams := by
  have empty : Exact .default := ⟨rfl, rfl, rfl⟩
  rcases exact_run .default streams empty with ⟨held, joined⟩ | ⟨short, unjoined⟩
  · exact ⟨fun _ => joined, fun _ => aligned_exact _ captured held ok⟩
  · refine ⟨fun aligned => absurd short ?_, fun joined => absurd joined unjoined⟩
    have lengths := aligned.alone.length_eq
    unfold StructuredDiff.capture at ok
    split at ok
    · cases ok
    split_ifs at ok with count
    obtain rfl := Except.ok.inj ok
    rw [Short]
    omega

theorem capture_aligned_ended : ∃ captured,
    (StructuredDiff.default.appendStreams [(modifiedStream "y" "+b\n", .tracked)]).capture =
      .ok captured ∧
    (Aligned (StructuredDiff.default.appendStreams [(modifiedStream "y" "+b\n", .tracked)])
      captured ↔ Joined .default [(modifiedStream "y" "+b\n", .tracked)]) := by
  have run : StructuredDiff.default.appendStreams [(modifiedStream "y" "+b\n", .tracked)] =
      ⟨modifiedPatch "y" "+b\n", [modifiedChange "y" (0, 53)]⟩ := by
    change (StructuredDiff.appendStream ⟨[], []⟩ _ _).1 = _
    rw [StructuredDiff.appendStream, List.length_nil, readStream_samples.2.2]
    rfl
  have taken : ((StructuredDiff.default.appendStreams
      [(modifiedStream "y" "+b\n", .tracked)]).capture.toOption.map (·.files.length)) =
        some 1 := by
    rw [run]
    decide +kernel
  cases ok : (StructuredDiff.default.appendStreams
      [(modifiedStream "y" "+b\n", .tracked)]).capture with
  | error failure =>
    rw [ok] at taken
    cases taken
  | ok captured => exact ⟨captured, rfl, capture_aligned _ captured ok⟩

/-- The second patch's first line ends the open line of the first: one block, and two files, the
`---` and `+++` lines of the second beginning a section of their own. -/
theorem capture_misaligned : ∃ captured,
    (StructuredDiff.default.appendStreams [(modifiedStream "x" "+b", .tracked),
      (modifiedStream "y" "+b\n", .tracked)]).capture = .ok captured ∧
    ¬Aligned (StructuredDiff.default.appendStreams [(modifiedStream "x" "+b", .tracked),
      (modifiedStream "y" "+b\n", .tracked)]) captured := by
  rw [appendStreams_both]
  obtain ⟨taken, one⟩ : (StructuredDiff.capture ⟨modifiedPatch "x" "+b" ++
      modifiedPatch "y" "+b\n", [modifiedChange "x" (0, 52),
        modifiedChange "y" (52, 105)]⟩).toOption.map (·.files.length) = some 2 ∧
      (splitBlocks (modifiedPatch "x" "+b" ++ modifiedPatch "y" "+b\n")).length = 1 := by
    decide +kernel
  cases ok : StructuredDiff.capture ⟨modifiedPatch "x" "+b" ++ modifiedPatch "y" "+b\n",
      [modifiedChange "x" (0, 52), modifiedChange "y" (52, 105)]⟩ with
  | error failure =>
    rw [ok] at taken
    cases taken
  | ok captured =>
    rw [ok] at taken
    have two : captured.files.length = 2 := Option.some.inj taken
    refine ⟨captured, rfl, fun aligned => ?_⟩
    have lengths := aligned.alone.length_eq
    rw [two, one] at lengths
    omega

end DeepDiffForge.Git
