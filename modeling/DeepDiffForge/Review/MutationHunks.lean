import DeepDiffForge.Review.MutationDiff

/-! The hunks of the mutation diff as they are read: applied in order they lead from the old lines
to the new, and no hunk begins where the last has not ended. -/

namespace DeepDiffForge.Review.MutationScope
open Text Markers Regions Subsequence Tiling

/-- The stretches of lines a hunk's header names, from its first line or after the line an empty
side follows. -/
def WrittenHunk.region (hunk : WrittenHunk) : Region where
  old := (hunk.oldStart - min 1 hunk.oldCount, hunk.oldStart - min 1 hunk.oldCount + hunk.oldCount)
  new := (hunk.newStart - min 1 hunk.newCount, hunk.newStart - min 1 hunk.newCount + hunk.newCount)

def WrittenHunk.wellFormed (hunk : WrittenHunk) : Prop :=
  (min 1 hunk.oldCount ≤ hunk.oldStart ∧ hunk.removed.length = hunk.oldCount) ∧
    min 1 hunk.newCount ≤ hunk.newStart ∧ hunk.added.length = hunk.newCount

instance (hunk : WrittenHunk) : Decidable hunk.wellFormed := inferInstanceAs (Decidable (_ ∧ _))

/-- The hunks applied in order, `copied` lines of the source read and `written` lines of the result
made so far; none where a hunk is out of order, out of place or removes other lines. -/
def applyHunks (source : List Line) : Nat → Nat → List WrittenHunk → Option (List Line)
  | copied, _, [] => some (source.drop copied)
  | copied, written, hunk :: rest =>
      let place := hunk.region
      if hunk.wellFormed ∧ copied ≤ place.old.1 ∧ place.new.1 = written + (place.old.1 - copied) ∧
          slice source place.old = hunk.removed then
        (applyHunks source place.old.2 place.new.2 rest).map fun later =>
          slice source (copied, place.old.1) ++ (hunk.added ++ later)
      else none

def lastNamed (start count : Nat) : Nat := if count = 0 then start else start + count - 1

def InOrder (hunk next : WrittenHunk) : Prop :=
  lastNamed hunk.oldStart hunk.oldCount < next.oldStart ∧
    lastNamed hunk.newStart hunk.newCount < next.newStart

def WrittenHunk.adds (hunk : WrittenHunk) (line : Nat) : Prop :=
  hunk.region.new.1 ≤ line ∧ line < hunk.region.new.2

variable (old new : List Line)

def hunkOf (region : Region) : WrittenHunk :=
  hunk (region.old.1, slice old region.old) (region.new.1, slice new region.new)

theorem startOf_slice (items : List Line) (range : Nat × Nat)
    (fits : range.2 ≤ items.length) :
    startOf range.1 (slice items range) = range.1 + min 1 (range.2 - range.1) := by
  have length := length_slice items range fits
  rw [startOf]
  split_ifs with empty
  · rw [empty, List.length_nil] at length
    omega
  · have present := List.length_pos_iff.2 empty
    omega

section Hunk
variable (region : Region)
  (fits : region.old.1 ≤ region.old.2 ∧ region.old.2 ≤ old.length ∧
    region.new.1 ≤ region.new.2 ∧ region.new.2 ≤ new.length)
include fits

theorem header_hunkOf : (hunkOf old new region).oldStart =
      region.old.1 + min 1 (region.old.2 - region.old.1) ∧
    (hunkOf old new region).oldCount = region.old.2 - region.old.1 ∧
      (hunkOf old new region).newStart = region.new.1 + min 1 (region.new.2 - region.new.1) ∧
        (hunkOf old new region).newCount = region.new.2 - region.new.1 := by
  obtain ⟨-, stop, -, stop'⟩ := fits
  exact ⟨startOf_slice old region.old stop, length_slice old region.old stop,
    startOf_slice new region.new stop', length_slice new region.new stop'⟩

/-- A hunk's header names the region it was written for. -/
theorem region_hunkOf : (hunkOf old new region).region = region := by
  obtain ⟨start, count, start', count'⟩ := header_hunkOf old new region fits
  obtain ⟨⟨a, b⟩, c, d⟩ := region
  rw [WrittenHunk.region, start, count, start', count']
  dsimp only at fits ⊢
  congr 2 <;> omega

theorem wellFormed_hunkOf : (hunkOf old new region).wellFormed := by
  obtain ⟨start, count, start', count'⟩ := header_hunkOf old new region fits
  refine ⟨⟨?_, rfl⟩, ?_, rfl⟩
  · rw [start, count]
    exact Nat.le_add_left _ _
  · rw [start', count']
    exact Nat.le_add_left _ _

end Hunk

theorem apply_covers (i j : Nat) (found : List Region) (covers : Covers old new i j found) :
    applyHunks old i j (found.map (hunkOf old new)) = some (new.drop j) := by
  rw [← patched_covers old new i j found covers]
  induction found generalizing i j with
  | nil => rfl
  | cons region rest ih =>
    have fits := covers_fits old new i j _ covers region (List.mem_cons_self ..)
    obtain ⟨⟨n, left, right, -⟩, -, -, later⟩ := covers
    rw [List.map_cons, applyHunks, region_hunkOf old new region fits,
      if_pos ⟨wellFormed_hunkOf old new region fits, by omega, by omega, rfl⟩,
      ih _ _ later]
    rfl

/-- Hunks written for regions of which none touches the last on an empty side are in order. -/
theorem ordered_covers (i j : Nat) (found : List Region) (covers : Covers old new i j found)
    (follows : found.IsChain Follows) : (found.map (hunkOf old new)).IsChain InOrder := by
  induction found generalizing i j with
  | nil => exact List.isChain_nil
  | cons region rest ih =>
    have fits := covers_fits old new i j _ covers
    obtain ⟨-, -, -, later⟩ := covers
    cases rest with
    | nil => exact List.isChain_singleton _
    | cons next rest =>
      rw [List.map_cons, List.map_cons, List.isChain_cons_cons]
      rw [List.isChain_cons_cons] at follows
      refine ⟨?_, ih _ _ later follows.2⟩
      obtain ⟨start, count, start', count'⟩ := header_hunkOf old new region
        (fits region (List.mem_cons_self ..))
      obtain ⟨here, -, here', -⟩ := header_hunkOf old new next
        (fits next (List.mem_cons_of_mem _ (List.mem_cons_self ..)))
      have order := (fits region (List.mem_cons_self ..))
      obtain ⟨⟨n, left, right, -⟩, -, -, -⟩ := later
      have apart := follows.1
      unfold Follows at apart
      rw [InOrder, lastNamed, lastNamed, start, count, start', count', here, here']
      constructor
      · split_ifs <;> omega
      · split_ifs <;> omega

def foundRegions (spent : Nat) : List Region :=
  (regions (idsOf old new).1 (idsOf old new).2 spent).1

theorem covers_found (spent : Nat) : Covers old new 0 0 (foundRegions old new spent) := by
  obtain ⟨name, named, apart⟩ := idsOf_map old new
  have covers := covers_regions (idsOf old new).1 (idsOf old new).2 spent
  rw [foundRegions]
  rw [named] at covers ⊢
  exact covers_of_map old new name apart 0 0 _ covers

/-- A new line matched with an old one: in what both sides start or end with, or by the longest
common subsequence of what is between, which past the budget is empty. -/
def Matched (spent line : Nat) : Prop :=
  let ids := idsOf old new
  line < (affixes ids.1 ids.2).1 ∨ new.length - (affixes ids.1 ids.2).2 ≤ line ∨
    ∃ pair ∈ anchors ids.1 ids.2 spent, (affixes ids.1 ids.2).1 + pair.2 = line

def NearestBefore (before : List Region) (region : Region) (line : Nat) : Prop :=
  floorOf before ≤ line ∧ line < region.new.1 ∧ isCode new line = true ∧
    ∀ other, line < other → other < region.new.1 → isCode new other = false

def NearestAfter (after : List Region) (region : Region) (line : Nat) : Prop :=
  region.new.2 ≤ line ∧ line < ceilingOf after new.length ∧ isCode new line = true ∧
    ∀ other, region.new.2 ≤ other → other < line → isCode new other = false

structure Faithful (spent : Nat) (written : List WrittenHunk) : Prop where
  applies : applyHunks old 0 0 written = some new
  ordered : written.IsChain InOrder
  unmatched : ∀ line < new.length, ¬ Matched old new spent line → ∃ hunk ∈ written, hunk.adds line
  fewest : withinBudget (idsOf old new).1 (idsOf old new).2 spent = true →
    ∃ longest, Longest old new longest ∧
      ((foundRegions old new spent).map fun region => region.new.2 - region.new.1).sum =
        new.length - longest
  widened : ∀ before region after, foundRegions old new spent = before ++ region :: after →
    (∀ line, region.new.1 ≤ line → line < region.new.2 → isCode new line = false) →
      ∃ hunk ∈ written, Within region hunk.region ∧
        (∀ line, NearestBefore new before region line → hunk.adds line) ∧
          ∀ line, NearestAfter new after region line → hunk.adds line

theorem isCode_within (line : Nat) (code : isCode new line = true) : line < new.length := by
  have length (lexed : Lexed) (lines : List Line) : (codeLines lexed lines).length = lines.length := by
    induction lines generalizing lexed with
    | nil => rfl
    | cons line lines ih => rw [codeLines, List.length_cons, List.length_cons, ih]
  rw [isCode, List.getD_eq_getElem?_getD] at code
  by_contra outside
  rw [List.getElem?_eq_none (by rw [length]; omega)] at code
  cases code

theorem widen_nearest (before after : List Region) (region : Region)
    (bare : ∀ line, region.new.1 ≤ line → line < region.new.2 → isCode new line = false) :
    (∀ line, NearestBefore new before region line →
      (widen (isCode new) new.length (floorOf before) (ceilingOf after new.length) region).new.1 ≤
        line) ∧
      ∀ line, NearestAfter new after region line → line <
        (widen (isCode new) new.length (floorOf before) (ceilingOf after new.length) region).new.2 := by
  have widens (line : Nat) (code : isCode new line = true) :
      ((within region.new).all (fun line => !isCode new line) && new.length ≠ 0) = true := by
    have inside := isCode_within new line code
    rw [Bool.and_eq_true, List.all_eq_true]
    refine ⟨fun other listed => ?_, decide_eq_true (by omega)⟩
    rw [mem_within] at listed
    rw [bare other listed.1 listed.2]
    rfl
  constructor
  · rintro line ⟨low, high, code, nearest⟩
    unfold widen
    dsimp only
    rw [if_pos (widens line code)]
    cases search : (within (floorOf before, region.new.1)).reverse.find? (isCode new) with
    | none => exact low
    | some other =>
      have found := List.find?_some search
      have inside := List.mem_of_find?_eq_some search
      rw [List.mem_reverse, mem_within] at inside
      change other ≤ line
      by_contra later
      rw [nearest other (by omega) inside.2] at found
      cases found
  · rintro line ⟨low, high, code, nearest⟩
    unfold widen
    dsimp only
    rw [if_pos (widens line code)]
    cases search : (within (region.new.2, ceilingOf after new.length)).find? (isCode new) with
    | none => exact high
    | some other =>
      have found := List.find?_some search
      have inside := List.mem_of_find?_eq_some search
      rw [mem_within] at inside
      change line < other + 1
      by_contra earlier
      rw [nearest other inside.1 (by omega)] at found
      cases found

theorem hunks_faithful (spent : Nat) : Faithful old new spent (hunks old new spent).1 := by
  have covers := covers_found old new spent
  obtain ⟨written, follows, holds⟩ := widened_covers old new _ covers
  obtain ⟨name, named, apart⟩ := idsOf_map old new
  have fits := covers_fits old new 0 0 _ written
  have adds (outer : Region) (listed : outer ∈ widenDeletions (foundRegions old new spent) new) :
      hunkOf old new outer ∈ (hunks old new spent).1 ∧ (hunkOf old new outer).region = outer :=
    ⟨List.mem_map_of_mem listed, region_hunkOf old new outer (fits outer listed)⟩
  refine ⟨?_, ?_, ?_, ?_, ?_⟩
  · exact apply_covers old new 0 0 _ written
  · exact ordered_covers old new 0 0 _ written follows
  · intro line within unmatched
    have length : (idsOf old new).2.length = new.length := by rw [named, List.length_map]
    rw [Matched] at unmatched
    push Not at unmatched
    obtain ⟨front, back, middle⟩ := unmatched
    obtain ⟨region, listed, lower, before⟩ := unmatched_regions (idsOf old new).1 (idsOf old new).2
      spent line front (by rw [length]; exact back) middle
    obtain ⟨outer, listed', -, low, high⟩ := region_written old new _ covers region listed
    obtain ⟨member, place⟩ := adds outer listed'
    refine ⟨_, member, ?_⟩
    rw [WrittenHunk.adds, place]
    omega
  · intro budget
    have longest := longest_cell (idsOf old new).1 (idsOf old new).2 0 0
    rw [List.drop_zero, List.drop_zero] at longest
    have fewest := regions_fewest _ _ spent budget _ longest
    have length : (idsOf old new).2.length = new.length := by rw [named, List.length_map]
    refine ⟨_, ?_, length ▸ fewest⟩
    rw [named] at longest ⊢
    exact longest_of_map name old new _ apart longest
  · intro before region after parted bare
    have listed := mem_widenAll (isCode new) new.length before after region 0
    rw [← parted] at listed
    obtain ⟨outer, listed', inside⟩ := holds _ listed
    obtain ⟨member, place⟩ := adds outer listed'
    rw [parted] at covers
    obtain ⟨grow, stretch, one, two, three, four, -, -⟩ :=
      grown_around (isCode new) old new before after region covers
    obtain ⟨low, high⟩ := widen_nearest new before after region bare
    obtain ⟨-, left, right⟩ := id inside
    obtain ⟨-, order, -, -⟩ := covers_around old new 0 0 before after region covers
    change outer.new.1 ≤ (widen (isCode new) new.length (floorOf before) _ region).new.1 at left
    change (widen (isCode new) new.length (floorOf before) _ region).new.2 ≤ outer.new.2 at right
    refine ⟨_, member, ?_, ?_, ?_⟩
    · rw [place]
      refine within_trans _ _ _ ?_ inside
      change Within region (widen (isCode new) new.length (floorOf before) _ region)
      exact ⟨⟨by omega, by omega⟩, by omega, by omega⟩
    · intro line nearest
      have start := low line nearest
      obtain ⟨-, below, -⟩ := nearest
      rw [WrittenHunk.adds, place]
      omega
    · intro line nearest
      have stop := high line nearest
      obtain ⟨above, -, -⟩ := nearest
      rw [WrittenHunk.adds, place]
      omega

/-- The diff written for a path is its header and hunks that lead from the old bytes to the new. -/
theorem unified_faithful (path : Str) (old new : List UInt8) (spent : Nat)
    (few : (pieces 0x0A old).length < lineCap) (few' : (pieces 0x0A new).length < lineCap) :
    ∃ written, unified path old new spent =
        .ok (bytesOf "--- a/" ++ Utf8.encode path ++ bytesOf "\n+++ b/" ++ Utf8.encode path ++
          bytesOf "\n" ++ written.flatMap WrittenHunk.text,
          (hunks (pieces 0x0A old) (pieces 0x0A new) spent).2) ∧
      Faithful (pieces 0x0A old) (pieces 0x0A new) spent written ∧
        (applyHunks (pieces 0x0A old) 0 0 written).map List.flatten = some new := by
  have read (bytes : List UInt8) (few : (pieces 0x0A bytes).length < lineCap) :
      lines bytes = .ok (pieces 0x0A bytes) := by
    rw [lines, List.take_of_length_le (Nat.le_of_lt few), if_pos few]
  have faithful := hunks_faithful (pieces 0x0A old) (pieces 0x0A new) spent
  refine ⟨_, ?_, faithful, ?_⟩
  · rw [unified, read old few, read new few']
    rfl
  · rw [faithful.applies, Option.map_some, flatten_pieces]

theorem unified_faithful_sample : ∃ written,
    unified "x.rs".toList [0x61, 0x0A, 0x62] [0x61, 0x0A] 0 =
      .ok (bytesOf "--- a/" ++ Utf8.encode "x.rs".toList ++ bytesOf "\n+++ b/" ++
        Utf8.encode "x.rs".toList ++ bytesOf "\n" ++ written.flatMap WrittenHunk.text,
        (hunks (pieces 0x0A [0x61, 0x0A, 0x62]) (pieces 0x0A [0x61, 0x0A]) 0).2) ∧
      Faithful (pieces 0x0A [0x61, 0x0A, 0x62]) (pieces 0x0A [0x61, 0x0A]) 0 written ∧
        (applyHunks (pieces 0x0A [0x61, 0x0A, 0x62]) 0 0 written).map List.flatten =
          some [0x61, 0x0A] :=
  unified_faithful "x.rs".toList [0x61, 0x0A, 0x62] [0x61, 0x0A] 0 (by decide) (by decide)

end DeepDiffForge.Review.MutationScope
