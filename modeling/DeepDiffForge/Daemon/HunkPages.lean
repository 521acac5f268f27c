import DeepDiffForge.Daemon.Cursors
import DeepDiffForge.Daemon.Selections
import DeepDiffForge.Lib.Paging

/-! Paging hunks: each page takes up where the one before it stopped, and together they return
every line of the selection. -/

namespace DeepDiffForge.Daemon
open Text DeepDiffForge.Core DeepDiffForge.Graph DeepDiffForge.Patch Paging

section Hunks
variable (scan : Scan) (sizes : Sizes)

theorem takeLines_eq (forced : Bool) (budget used left : Nat) (lines : List PatchLine)
    (values : List LineView) (taken : takeLines sizes forced budget used lines = (values, left)) :
    values = (lines.map lineJson).take values.length ∧
      (forced = true → lines ≠ [] → values ≠ []) := by
  induction lines generalizing forced used values with
  | nil =>
    obtain ⟨rfl, rfl⟩ := Prod.mk.inj taken
    exact ⟨rfl, fun _ present => (present rfl).elim⟩
  | cons line lines ih =>
    simp only [takeLines] at taken
    split at taken
    · rename_i full
      obtain ⟨rfl, rfl⟩ := Prod.mk.inj taken
      refine ⟨rfl, ?_⟩
      rintro rfl
      simp at full
    · generalize more : takeLines sizes false budget _ lines = result at taken
      obtain ⟨rest, left'⟩ := result
      obtain ⟨rfl, rfl⟩ := Prod.mk.inj taken
      have first := (ih false _ rest more).1
      refine ⟨?_, fun _ _ => by simp⟩
      rw [List.map_cons, List.length_cons, List.take_succ_cons, ← first]

variable {files : List ReviewFile}

def unitLines (unit : HunkRef files) : List LineView := unit.patchHunk.lines.map lineJson

def hunkEntry (slice : Slice (HunkRef files) LineView) : HunkEntry where
  head := hunkHead scan slice.item.reviewFile slice.item.patchHunk
  path := slice.item.reviewFile.path
  lineOffset := slice.offset
  complete := slice.complete
  lines := slice.pieces

theorem length_unitLines (unit : HunkRef files) :
    (unitLines unit).length = unit.patchHunk.lines.length := List.length_map _

/-- What a page takes from the units leads on to where it says the next page begins. -/
theorem takeHunks_leads (fresh : Bool) (budget position offset : Nat)
    (units : List (HunkRef files))
    (inside : offset = 0 ∨ ∃ unit rest, units = unit :: rest ∧ offset < (unitLines unit).length) :
    ∃ slices : List (Slice (HunkRef files) LineView),
      (takeHunks scan sizes fresh budget position offset units).1 = slices.map (hunkEntry scan) ∧
      ((takeHunks scan sizes fresh budget position offset units).2 = none ∧
          Walk unitLines units offset slices [] 0 ∨
        ∃ skipped inner unit rest,
          (takeHunks scan sizes fresh budget position offset units).2 =
            some (position + skipped, inner) ∧
          units.drop skipped = unit :: rest ∧ (inner = 0 ∨ inner < (unitLines unit).length) ∧
          (fresh = true → slices ≠ []) ∧ Walk unitLines units offset slices (unit :: rest) inner) := by
  induction units generalizing fresh budget position offset with
  | nil =>
    rcases inside with rfl | ⟨unit, rest, nonempty, -⟩
    · exact ⟨[], rfl, .inl ⟨rfl, .stay _ _⟩⟩
    · exact absurd nonempty (by simp)
  | cons unit rest ih =>
    have start : offset = 0 ∨ offset < (unitLines unit).length := by
      rcases inside with rfl | ⟨first, others, same, within⟩
      · exact .inl rfl
      · obtain ⟨rfl, rfl⟩ := List.cons.inj same
        exact .inr within
    simp only [takeHunks]
    generalize taken : takeLines sizes fresh budget _ (unit.patchHunk.lines.drop offset) = result
    obtain ⟨lines, used⟩ := result
    obtain ⟨prefixed, forced⟩ := takeLines_eq sizes fresh budget _ used _ lines taken
    rw [List.map_drop] at prefixed
    change lines = ((unitLines unit).drop offset).take lines.length at prefixed
    by_cases short : offset + lines.length < unit.patchHunk.lines.length
    · rw [if_pos short]
      by_cases untaken : lines = []
      · rw [if_pos untaken]
        refine ⟨[], rfl, .inr ⟨0, offset, unit, rest, rfl, rfl, start, ?_, .stay _ _⟩⟩
        rintro rfl
        have left : unit.patchHunk.lines.drop offset ≠ [] := by
          rw [ne_eq, List.drop_eq_nil_iff]
          omega
        exact (forced rfl left untaken).elim
      · rw [if_neg untaken]
        refine ⟨[⟨unit, offset, lines, false⟩], rfl,
          .inr ⟨0, offset + lines.length, unit, rest, rfl, rfl, ?_, by simp, ?_⟩⟩
        · right
          rw [length_unitLines]
          exact short
        · have filled : 0 < lines.length := List.length_pos_iff.2 untaken
          have walk := Walk.pause unit rest offset lines.length [] (unit :: rest)
            (offset + lines.length) filled (by rw [length_unitLines]; exact short) (.stay _ _)
          rw [← prefixed] at walk
          exact walk
    · rw [if_neg short]
      have whole : lines = (unitLines unit).drop offset := by
        rw [prefixed, List.take_of_length_le]
        rw [List.length_drop, length_unitLines]
        omega
      obtain ⟨slices, shown, leads⟩ := ih false (budget - used) (position + 1) 0 (.inl rfl)
      refine ⟨⟨unit, offset, lines, true⟩ :: slices, ?_, ?_⟩
      · simp only [shown, List.map_cons]
        rfl
      · rw [whole]
        rcases leads with ⟨ends, walk⟩ | ⟨skipped, inner, next, others, stops, left, valid, -, walk⟩
        · exact .inl ⟨ends, .finish unit rest offset slices [] 0 start walk⟩
        · refine .inr ⟨skipped + 1, inner, next, others, ?_, left, valid, by simp,
            .finish unit rest offset slices _ inner start walk⟩
          rw [stops]
          simp only [Nat.add_assoc, Nat.add_comm 1]

structure HunkPage (files : List ReviewFile) where
  answer : HunksAnswer
  slices : List (Slice (HunkRef files) LineView)

/-- What `hunks` answers for a page beginning at `start`. -/
structure ShowsHunks (units : List (HunkRef files)) (start : Nat × Nat) (page : HunkPage files)
    (onward : Option (Nat × Nat)) : Prop where
  shown : page.answer.hunks = page.slices.map (hunkEntry scan)
  leads : Leads unitLines units start page.slices onward
  selected : page.answer.selectedHunks = units.length
  remaining : page.answer.remainingHunks =
    units.length - min start.1 units.length - page.slices.countP (·.complete)
  ends : page.answer.nextCursor = none ↔ onward = none

variable (review : SealedReview) (selection : Selection) (units : List (HunkRef review.files))
  (key : Str) (accepted : select scan review.files selection = .ok (units, key))
include accepted

theorem place_fits (place : Nat × Nat) (inside : Inside unitLines units place) :
    place.1 ≤ usizeMax ∧ place.2 ≤ usizeMax := by
  obtain ⟨unit, known, within⟩ := inside
  obtain ⟨rfl, -⟩ := selectWith_eq_ok scan PatchHunk.address selection units key accepted
  have listed := @length_chosen review.files scan PatchHunk.address selection
  have lines := length_patchHunk unit
  have held := review.held
  have index := (List.getElem?_eq_some_iff.1 known).1
  rw [length_unitLines] at within
  omega

theorem hunks_eq (page : Page) (start : Nat × Nat) (entries : List HunkEntry)
    (onward : Option (Nat × Nat))
    (resumed : resume page review.inputSeal key (fun item =>
      units[item]?.map fun unit => unit.patchHunk.lines.length) = .ok start)
    (taken : takeHunks scan sizes true (page.maxBytes - envelopeBytes) start.1 start.2
      (units.drop start.1) = (entries, onward)) :
    hunks scan sizes review selection page = .ok
      { inputSha256 := review.inputSeal.inputSha256, toolVersion := review.inputSeal.toolVersion,
        hunks := entries, selectedHunks := units.length,
        remainingHunks := units.length - min start.1 units.length - entries.countP (·.complete),
        nextCursor := onward.map fun stop => cursor review.inputSeal key stop.1 stop.2 } := by
  rw [hunks, accepted]
  change (resume _ _ _ _ >>= _) = _
  rw [resumed]
  change Except.ok _ = _
  rw [taken]

theorem hunks_answered (budget : Nat) (ranged : minMaxBytes ≤ budget ∧ budget ≤ maxMaxBytes)
    (place : Option (Nat × Nat)) (inside : ∀ found ∈ place, Inside unitLines units found) :
    ∃ page onward, hunks scan sizes review selection
        ⟨budget, place.map fun place => cursor review.inputSeal key place.1 place.2⟩ =
          .ok page.answer ∧
      page.answer.nextCursor = Option.map
        (fun place : Nat × Nat => cursor review.inputSeal key place.1 place.2) onward ∧
      ShowsHunks scan units (place.getD (0, 0)) page onward := by
  have resumed : resume ⟨budget, place.map fun place => cursor review.inputSeal key place.1 place.2⟩
      review.inputSeal key (fun item => units[item]?.map fun unit => unit.patchHunk.lines.length) =
        .ok (place.getD (0, 0)) := by
    cases place with
    | none => exact resume_first review key _ budget ranged
    | some place =>
      have fits := place_fits scan review selection units key accepted place (inside place rfl)
      obtain ⟨unit, known, within⟩ := inside place rfl
      rw [length_unitLines] at within
      exact resume_cursor review key _ budget ranged place.1 place.2 _ (by rw [known]; rfl) within
        fits.1 fits.2
  have start : (place.getD (0, 0)).2 = 0 ∨ ∃ unit rest,
      units.drop (place.getD (0, 0)).1 = unit :: rest ∧
        (place.getD (0, 0)).2 < (unitLines unit).length := by
    cases place with
    | none => exact .inl rfl
    | some place =>
      obtain ⟨unit, known, within⟩ := inside place rfl
      obtain ⟨index, same⟩ := List.getElem?_eq_some_iff.1 known
      rcases within with zero | within
      · exact .inl zero
      · exact .inr ⟨unit, _, by rw [Option.getD_some, List.drop_eq_getElem_cons index, same],
          within⟩
  obtain ⟨slices, shown, leads⟩ := takeHunks_leads scan sizes true (budget - envelopeBytes)
    (place.getD (0, 0)).1 (place.getD (0, 0)).2 (units.drop (place.getD (0, 0)).1) start
  generalize taken : takeHunks scan sizes true (budget - envelopeBytes) (place.getD (0, 0)).1
    (place.getD (0, 0)).2 (units.drop (place.getD (0, 0)).1) = result at shown leads
  obtain ⟨entries, onward⟩ := result
  simp only at shown leads
  refine ⟨⟨_, slices⟩, onward, hunks_eq scan sizes review selection units key accepted _ _ _ _
    resumed taken, rfl, shown, ?_, rfl, ?_, ?_⟩
  · rcases leads with ⟨rfl, walk⟩ | ⟨skipped, inner, unit, rest, rfl, left, valid, moves, walk⟩
    · exact walk
    · rw [List.drop_drop] at left
      refine ⟨moves trivial, ⟨unit, ?_, valid⟩, ?_⟩
      · rw [← List.head?_drop, left]
        rfl
      · rw [left]
        exact walk
  · change _ - entries.countP _ = _
    rw [shown, List.countP_map]
    rfl
  · change Option.map _ onward = none ↔ _
    rw [Option.map_eq_none_iff]

end Hunks

/-- The entries return one hunk: its head each time, and its lines verbatim, each once and in
order; only the entry with its last line is complete. -/
structure Returned (scan : Scan) {files : List ReviewFile} (unit : HunkRef files)
    (entries : List HunkEntry) : Prop where
  head : ∀ entry ∈ entries, entry.head = hunkHead scan unit.reviewFile unit.patchHunk ∧
    entry.path = unit.reviewFile.path
  verbatim : entries.flatMap (·.lines) = unit.patchHunk.lines.map lineJson
  counted : ∀ before entry after, entries = before ++ entry :: after →
    entry.lineOffset = (before.flatMap (·.lines)).length
  last : ∀ before entry after, entries = before ++ entry :: after →
    (entry.complete = true ↔ after = [])
  full : ∀ entry ∈ entries,
    (entry.complete = true ↔ entry.lineOffset + entry.lines.length = unit.patchHunk.lines.length)
  nonempty : entries ≠ []

/-- How the pages of a selection of `total` hunks count them: what is left after each page, and
that the last page is the one that leaves none. -/
def Counts (total : Nat) (answers : List HunksAnswer) : Prop :=
  ∀ before answer after, answers = before ++ answer :: after →
    answer.selectedHunks = total ∧
    answer.remainingHunks +
      ((before ++ [answer]).flatMap (·.hunks)).countP (·.complete) = total ∧
    (answer.nextCursor = none ↔ after = []) ∧ (answer.nextCursor = none ↔ answer.remainingHunks = 0)

section Pages
variable (scan : Scan) {files : List ReviewFile}

theorem flatMap_lines (slices : List (Slice (HunkRef files) LineView)) :
    (slices.map (hunkEntry scan)).flatMap (·.lines) = slices.flatMap (·.pieces) := by
  rw [List.flatMap_map]
  rfl

theorem returned_of_reads (unit : HunkRef files) (slices : List (Slice (HunkRef files) LineView))
    (reads : ReadsFrom unitLines 0 unit slices) :
    Returned scan unit (slices.map (hunkEntry scan)) := by
  constructor
  · intro entry member
    obtain ⟨slice, held, rfl⟩ := List.mem_map.1 member
    have same := reads.same slice held
    simp only [hunkEntry, same, and_self]
  · rw [flatMap_lines, reads.whole]
    rfl
  · intro before entry after split
    obtain ⟨before, slice, after, same, rfl, rfl, rfl⟩ := split_map _ _ _ _ _ split
    rw [flatMap_lines, ← Nat.zero_add (List.length _)]
    exact reads.counted before slice after same
  · intro before entry after split
    obtain ⟨before, slice, after, same, rfl, rfl, rfl⟩ := split_map _ _ _ _ _ split
    rw [List.map_eq_nil_iff]
    exact reads.ends before slice after same
  · intro entry member
    obtain ⟨slice, held, rfl⟩ := List.mem_map.1 member
    rw [← length_unitLines]
    exact reads.full slice held
  · simpa using reads.nonempty

theorem returned_all (units : List (HunkRef files))
    (slices : List (Slice (HunkRef files) LineView))
    (walk : Walk unitLines units 0 slices [] 0) :
    ∃ groups, slices.map (hunkEntry scan) = groups.flatten ∧
      List.Forall₂ (Returned scan) units groups := by
  obtain ⟨groups, rfl, reads⟩ := walk_all unitLines units slices walk
  refine ⟨groups.map (List.map (hunkEntry scan)), by rw [List.map_flatten], ?_⟩
  rw [List.forall₂_map_right_iff]
  exact reads.imp fun unit slices => returned_of_reads scan unit slices

theorem run_hunks (units : List (HunkRef files)) (start : Nat × Nat)
    (before after : List (HunkPage files))
    (run : Run (ShowsHunks scan units) start (before ++ after)) :
    (before.map (·.answer)).flatMap (·.hunks) =
      (before.flatMap (·.slices)).map (hunkEntry scan) := by
  rw [List.flatMap_map]
  exact run_entries (ShowsHunks scan units) (·.slices) _ (hunkEntry scan)
    (fun _ _ _ page => page.shown) start before after run

theorem countP_complete (slices : List (Slice (HunkRef files) LineView)) :
    (slices.map (hunkEntry scan)).countP (·.complete) = slices.countP (·.complete) := by
  rw [List.countP_map]
  rfl

theorem counts_run (units : List (HunkRef files)) (pages : List (HunkPage files))
    (run : Run (ShowsHunks scan units) (0, 0) pages) :
    Counts units.length (pages.map (·.answer)) := by
  intro before answer after split
  obtain ⟨before, page, after, rfl, rfl, rfl, rfl⟩ := split_map _ _ _ _ _ split
  obtain ⟨place, onward, shows, ends, walk⟩ := run_split unitLines units
    (ShowsHunks scan units) (·.slices) (fun _ _ _ shows => shows.leads) (0, 0) before page after run
  have earlier := walk_complete unitLines _ _ _ _ _ walk
  have shownBefore := run_hunks scan units (0, 0) before (page :: after) run
  have total : ((before.map (·.answer) ++ [page.answer]).flatMap (·.hunks)).countP (·.complete) =
      (before.flatMap (·.slices)).countP (·.complete) + page.slices.countP (·.complete) := by
    rw [List.flatMap_append, List.countP_append, shownBefore, countP_complete,
      List.flatMap_singleton, shows.shown, countP_complete]
  have after' : after.map (·.answer) = [] ↔ after = [] := List.map_eq_nil_iff
  simp only [List.drop_zero, List.length_drop] at earlier
  have leads := shows.leads
  cases onward with
  | none =>
    have own := walk_complete unitLines _ _ _ _ _ leads
    simp only [List.length_nil, List.length_drop] at own
    refine ⟨shows.selected, ?_, shows.ends.trans (ends.trans after'.symm), ?_⟩
    · rw [total, shows.remaining]
      omega
    · rw [shows.ends, shows.remaining]
      simp only [true_iff]
      omega
  | some onward =>
    obtain ⟨-, ⟨unit, known, -⟩, leads⟩ := leads
    have own := walk_complete unitLines _ _ _ _ _ leads
    have index := (List.getElem?_eq_some_iff.1 known).1
    simp only [List.length_drop] at own
    refine ⟨shows.selected, ?_, shows.ends.trans (ends.trans after'.symm), ?_⟩
    · rw [total, shows.remaining]
      omega
    · rw [shows.ends, shows.remaining]
      simp only [reduceCtorEq, false_iff]
      omega

end Pages

/-- Following the cursors from the first page ends, whatever the budgets, and the pages return
every line of every selected hunk once, in order. -/
theorem hunks_paging (scan : Scan) (sizes : Sizes) (review : SealedReview) (selection : Selection)
    (units : List (HunkRef review.files)) (key : Str)
    (accepted : select scan review.files selection = .ok (units, key)) (budgets : Nat → Nat)
    (ranged : ∀ n, minMaxBytes ≤ budgets n ∧ budgets n ≤ maxMaxBytes) :
    ∃ answers,
      Followed (fun budget cursor => hunks scan sizes review selection ⟨budget, cursor⟩)
        (·.nextCursor) budgets none answers ∧
      (∃ groups, answers.flatMap (·.hunks) = groups.flatten ∧
        List.Forall₂ (Returned scan) units groups) ∧
      Counts units.length answers := by
  obtain ⟨pages, followed, run⟩ := followed_run unitLines units (ShowsHunks scan units)
    (·.slices) (fun _ _ _ shows => shows.leads)
    (fun budget cursor => hunks scan sizes review selection ⟨budget, cursor⟩) (·.nextCursor)
    HunkPage.answer (fun place => cursor review.inputSeal key place.1 place.2)
    (fun budget => minMaxBytes ≤ budget ∧ budget ≤ maxMaxBytes)
    (hunks_answered scan sizes review selection units key accepted) budgets ranged none
    (fun found member => absurd member (by simp))
  have walk := run_walk unitLines units (ShowsHunks scan units) (·.slices)
    (fun _ _ _ shows => shows.leads) (0, 0) pages run
  refine ⟨pages.map HunkPage.answer, followed, ?_, counts_run scan units pages run⟩
  rw [run_hunks scan units (0, 0) pages [] (by rw [List.append_nil]; exact run)]
  exact returned_all scan units _ walk

/-- A budget so small that each page returns one line. -/
theorem hunks_paging_sample :
    ∃ answers,
      Followed (fun budget cursor => hunks quietScan
          ⟨fun _ => 600, fun _ => 0, fun _ => 0, fun _ => 0⟩ sampleReview (.paths [['x']])
          ⟨budget, cursor⟩)
        (·.nextCursor) (fun n => minMaxBytes + n % 2) none answers ∧
      (∃ groups, answers.flatMap (·.hunks) = groups.flatten ∧
        List.Forall₂ (Returned quietScan)
          [(⟨⟨0, by decide⟩, ⟨0, by decide⟩⟩ : HunkRef sampleReview.files)] groups) ∧
      Counts 1 answers :=
  hunks_paging quietScan ⟨fun _ => 600, fun _ => 0, fun _ => 0, fun _ => 0⟩
    sampleReview (.paths [['x']]) _ "p:x".toList (by rfl) (fun n => minMaxBytes + n % 2)
    (by intro n; simp only [minMaxBytes, maxMaxBytes]; omega)

end DeepDiffForge.Daemon
