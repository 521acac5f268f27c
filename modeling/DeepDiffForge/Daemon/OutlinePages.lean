import DeepDiffForge.Daemon.Cursors
import DeepDiffForge.Daemon.Selections
import DeepDiffForge.Lib.Paging

/-! Paging the outline: together the pages list every file in risk order and every hunk of each. -/

namespace DeepDiffForge.Daemon
open Text DeepDiffForge.Core DeepDiffForge.Graph DeepDiffForge.Patch Paging

section Outline
variable (scan : Scan) (sizes : Sizes)

/-- The heads listed are the first ones; a stop leaves some of them out, and the page's first
hunk is never among those. -/
theorem listHunks_eq (fresh : Bool) (budget first h used left : Nat) (heads listed : List HunkHead)
    (stop : Option Nat)
    (result : listHunks sizes fresh budget first h used heads = (listed, left, stop)) :
    (stop = none ∧ listed = heads ∨
      stop = some (h + listed.length) ∧ listed = heads.take listed.length ∧
        listed.length < heads.length) ∧
      (fresh = true → h = first → listed = [] → heads = []) := by
  induction heads generalizing h used left listed stop with
  | nil =>
    obtain ⟨rfl, rest⟩ := Prod.mk.inj result
    obtain ⟨-, rfl⟩ := Prod.mk.inj rest
    exact ⟨.inl ⟨rfl, rfl⟩, fun _ _ _ => rfl⟩
  | cons head heads ih =>
    simp only [listHunks] at result
    split at result
    · rename_i full
      obtain ⟨rfl, rest⟩ := Prod.mk.inj result
      obtain ⟨-, rfl⟩ := Prod.mk.inj rest
      refine ⟨.inr ⟨rfl, rfl, by simp⟩, ?_⟩
      rintro rfl rfl
      simp at full
    · generalize more : listHunks sizes fresh budget first (h + 1) _ heads = next at result
      obtain ⟨listed', left', stop'⟩ := next
      obtain ⟨rfl, rest⟩ := Prod.mk.inj result
      obtain ⟨-, rfl⟩ := Prod.mk.inj rest
      refine ⟨?_, fun _ _ absent => absurd absent (by simp)⟩
      rcases (ih (h + 1) _ left' listed' stop' more).1 with ⟨rfl, rfl⟩ | ⟨rfl, prefixed, short⟩
      · exact .inl ⟨rfl, rfl⟩
      · right
        refine ⟨?_, ?_, ?_⟩
        · simp only [List.length_cons]
          congr 1
          omega
        · rw [List.length_cons, List.take_succ_cons, ← prefixed]
        · simp only [List.length_cons]
          omega

variable {files : List ReviewFile}

def fileHeads (placed : Placed files) : List HunkHead :=
  (files.get placed.file).patchTwin.hunks.map (hunkHead scan (files.get placed.file))

def fileEntry (slice : Slice (Placed files) HunkHead) : FileEntry where
  path := (files.get slice.item.file).path
  hazards := pathHazards (files.get slice.item.file).path
  status := (files.get slice.item.file).status.label
  score := slice.item.score
  signals := slice.item.signals.map (·.label)
  hunkCount := (files.get slice.item.file).patchTwin.hunks.length
  firstHunk := slice.offset
  hunks := slice.pieces
  complete := slice.complete

theorem length_fileHeads (placed : Placed files) :
    (fileHeads scan placed).length = (files.get placed.file).patchTwin.hunks.length :=
  List.length_map _

/-- What a page lists of the files leads on to where it says the next page begins. -/
theorem listFiles_leads (fresh : Bool) (budget position first : Nat)
    (order : List (Placed files))
    (inside : first = 0 ∨
      ∃ placed rest, order = placed :: rest ∧ first < (fileHeads scan placed).length) :
    ∃ slices : List (Slice (Placed files) HunkHead),
      (listFiles scan sizes files fresh budget position first order).1 = slices.map fileEntry ∧
      ((listFiles scan sizes files fresh budget position first order).2 = none ∧
          Walk (fileHeads scan) order first slices [] 0 ∨
        ∃ skipped inner placed rest,
          (listFiles scan sizes files fresh budget position first order).2 =
            some (position + skipped, inner) ∧
          order.drop skipped = placed :: rest ∧
          (inner = 0 ∨ inner < (fileHeads scan placed).length) ∧
          (fresh = true → slices ≠ []) ∧
          Walk (fileHeads scan) order first slices (placed :: rest) inner) := by
  induction order generalizing fresh budget position first with
  | nil =>
    rcases inside with rfl | ⟨placed, rest, absent, -⟩
    · exact ⟨[], rfl, .inl ⟨rfl, .stay _ _⟩⟩
    · exact absurd absent (by simp)
  | cons placed rest ih =>
    have start : first = 0 ∨ first < (fileHeads scan placed).length := by
      rcases inside with rfl | ⟨other, others, same, within⟩
      · exact .inl rfl
      · obtain ⟨rfl, rfl⟩ := List.cons.inj same
        exact .inr within
    simp only [listFiles]
    generalize taken : listHunks sizes fresh budget first first _
      (((files.get placed.file).patchTwin.hunks.map
        (hunkHead scan (files.get placed.file))).drop first) = result
    obtain ⟨listed, used, stop⟩ := result
    obtain ⟨shape, forced⟩ := listHunks_eq sizes fresh budget first first _ used _ listed stop taken
    change _ = none ∧ listed = (fileHeads scan placed).drop first ∨ _ = _ ∧
      listed = ((fileHeads scan placed).drop first).take listed.length ∧
        listed.length < ((fileHeads scan placed).drop first).length at shape
    change _ → _ → _ → (fileHeads scan placed).drop first = [] at forced
    rcases shape with ⟨rfl, rfl⟩ | ⟨rfl, prefixed, short⟩
    · simp only
      split
      · rename_i over'
        refine ⟨[], rfl, .inr ⟨0, first, placed, rest, rfl, rfl, start, ?_, .stay _ _⟩⟩
        rintro rfl
        simp at over'
      · obtain ⟨slices, shown, leads⟩ := ih false (budget - used) (position + 1) 0 (.inl rfl)
        refine ⟨⟨placed, first, (fileHeads scan placed).drop first, true⟩ :: slices, ?_, ?_⟩
        · simp only [shown, List.map_cons]
          congr 1
          simp [fileEntry]
        · rcases leads with ⟨ends, walk⟩ | ⟨skipped, inner, next, others, stops, left, valid, -, walk⟩
          · exact .inl ⟨ends, .finish placed rest first slices [] 0 start walk⟩
          · refine .inr ⟨skipped + 1, inner, next, others, ?_, left, valid, by simp,
              .finish placed rest first slices _ inner start walk⟩
            rw [stops]
            simp only [Nat.add_assoc, Nat.add_comm 1]
    · simp only
      rw [List.length_drop] at short
      by_cases absent : listed = []
      · subst absent
        refine ⟨[], by simp, .inr ⟨0, first, placed, rest, rfl, rfl, start, ?_, .stay _ _⟩⟩
        rintro rfl
        have nothing := forced rfl rfl rfl
        rw [List.drop_eq_nil_iff] at nothing
        simp only [List.length_nil] at short
        omega
      · have nonempty : 0 < listed.length := List.length_pos_iff.2 absent
        refine ⟨[⟨placed, first, listed, false⟩], ?_,
          .inr ⟨0, first + listed.length, placed, rest, rfl, rfl, .inr (by omega), by simp, ?_⟩⟩
        · rw [if_pos (by omega)]
          simp [fileEntry]
        · have walk := @Walk.pause _ _ (fileHeads scan) placed rest first listed.length []
            (placed :: rest) (first + listed.length) nonempty (by omega) (.stay _ _)
          rw [← prefixed] at walk
          exact walk

structure FilePage (files : List ReviewFile) where
  answer : OutlineAnswer
  slices : List (Slice (Placed files) HunkHead)

/-- What `outline` answers for a page beginning at `start`. -/
structure ShowsFiles (order : List (Placed files)) (start : Nat × Nat) (page : FilePage files)
    (onward : Option (Nat × Nat)) : Prop where
  shown : page.answer.files = page.slices.map fileEntry
  leads : Leads (fileHeads scan) order start page.slices onward
  listed : page.answer.filesListed = page.slices.length
  ends : page.answer.nextCursor = none ↔ onward = none

variable (review : SealedReview)

theorem place_listed (place : Nat × Nat)
    (inside : Inside (fileHeads scan) (riskOrder scan review.files) place) :
    place.1 ≤ usizeMax ∧ place.2 ≤ usizeMax := by
  obtain ⟨placed, known, within⟩ := inside
  have index := (List.getElem?_eq_some_iff.1 known).1
  have order := (@riskOrder_perm review.files scan).length_eq
  rw [List.length_map, List.length_finRange] at order
  have listed := length_le_hunkItems (review.files.get placed.file).patchTwin.hunks
  have within' := mem_le_reviewItems review.files (review.files.get placed.file) (List.getElem_mem _)
  have held := review.held
  have files := length_le_reviewItems review.files
  rw [length_fileHeads] at within
  omega

theorem outline_eq (page : Page) (start : Nat × Nat) (entries : List FileEntry)
    (onward : Option (Nat × Nat))
    (resumed : resume page review.inputSeal "outline".toList (fun item =>
      (riskOrder scan review.files)[item]?.map fun placed =>
        (review.files.get placed.file).patchTwin.hunks.length) = .ok start)
    (taken : listFiles scan sizes review.files true (page.maxBytes - envelopeBytes) start.1 start.2
      ((riskOrder scan review.files).drop start.1) = (entries, onward)) :
    ∃ answer, outline scan sizes review page = .ok answer ∧ answer.files = entries ∧
      answer.filesListed = entries.length ∧
      answer.nextCursor = onward.map fun stop =>
        cursor review.inputSeal "outline".toList stop.1 stop.2 := by
  unfold outline
  dsimp only
  rw [resumed]
  refine ⟨_, rfl, ?_⟩
  dsimp only
  rw [taken]
  exact ⟨rfl, rfl, rfl⟩

theorem outline_answered (budget : Nat) (ranged : minMaxBytes ≤ budget ∧ budget ≤ maxMaxBytes)
    (place : Option (Nat × Nat))
    (inside : ∀ found ∈ place, Inside (fileHeads scan) (riskOrder scan review.files) found) :
    ∃ page onward, outline scan sizes review
        ⟨budget, place.map fun place =>
          cursor review.inputSeal "outline".toList place.1 place.2⟩ = .ok page.answer ∧
      page.answer.nextCursor = Option.map
        (fun place : Nat × Nat => cursor review.inputSeal "outline".toList place.1 place.2) onward ∧
      ShowsFiles scan (riskOrder scan review.files) (place.getD (0, 0)) page onward := by
  have resumed : resume ⟨budget, place.map fun place =>
      cursor review.inputSeal "outline".toList place.1 place.2⟩ review.inputSeal "outline".toList
      (fun item => (riskOrder scan review.files)[item]?.map fun placed =>
        (review.files.get placed.file).patchTwin.hunks.length) = .ok (place.getD (0, 0)) := by
    cases place with
    | none => exact resume_first review _ _ budget ranged
    | some place =>
      have fits := place_listed scan review place (inside place rfl)
      obtain ⟨placed, known, within⟩ := inside place rfl
      rw [length_fileHeads] at within
      exact resume_cursor review _ _ budget ranged place.1 place.2 _ (by rw [known]; rfl) within
        fits.1 fits.2
  have start : (place.getD (0, 0)).2 = 0 ∨ ∃ placed rest,
      (riskOrder scan review.files).drop (place.getD (0, 0)).1 = placed :: rest ∧
        (place.getD (0, 0)).2 < (fileHeads scan placed).length := by
    cases place with
    | none => exact .inl rfl
    | some place =>
      obtain ⟨placed, known, within⟩ := inside place rfl
      obtain ⟨index, same⟩ := List.getElem?_eq_some_iff.1 known
      rcases within with zero | within
      · exact .inl zero
      · exact .inr ⟨placed, _, by rw [Option.getD_some, List.drop_eq_getElem_cons index, same],
          within⟩
  obtain ⟨slices, shown, leads⟩ := listFiles_leads scan sizes true (budget - envelopeBytes)
    (place.getD (0, 0)).1 (place.getD (0, 0)).2
    ((riskOrder scan review.files).drop (place.getD (0, 0)).1) start
  generalize taken : listFiles scan sizes review.files true (budget - envelopeBytes)
    (place.getD (0, 0)).1 (place.getD (0, 0)).2
    ((riskOrder scan review.files).drop (place.getD (0, 0)).1) = result at shown leads
  obtain ⟨entries, onward⟩ := result
  simp only at shown leads
  obtain ⟨answer, answered, files, listed, next⟩ :=
    outline_eq scan sizes review _ _ entries onward resumed taken
  refine ⟨⟨answer, slices⟩, onward, answered, next, files.trans shown, ?_, ?_, ?_⟩
  · rcases leads with ⟨rfl, walk⟩ | ⟨skipped, inner, placed, rest, rfl, left, valid, moves, walk⟩
    · exact walk
    · rw [List.drop_drop] at left
      refine ⟨moves trivial, ⟨placed, ?_, valid⟩, ?_⟩
      · rw [← List.head?_drop, left]
        rfl
      · rw [left]
        exact walk
  · rw [listed, shown, List.length_map]
  · change answer.nextCursor = none ↔ _
    rw [next, Option.map_eq_none_iff]

end Outline

/-- The entries list one file: its facts each time, and its hunks' heads, each once and in order;
only the entry with its last hunk is complete. -/
structure Listed (scan : Scan) {files : List ReviewFile} (placed : Placed files)
    (entries : List FileEntry) : Prop where
  facts : ∀ entry ∈ entries, entry.path = (files.get placed.file).path ∧
    entry.hazards = pathHazards (files.get placed.file).path ∧
    entry.status = (files.get placed.file).status.label ∧ entry.score = placed.score ∧
    entry.signals = placed.signals.map (·.label) ∧
    entry.hunkCount = (files.get placed.file).patchTwin.hunks.length
  whole : entries.flatMap (·.hunks) =
    (files.get placed.file).patchTwin.hunks.map (hunkHead scan (files.get placed.file))
  counted : ∀ before entry after, entries = before ++ entry :: after →
    entry.firstHunk = (before.flatMap (·.hunks)).length
  last : ∀ before entry after, entries = before ++ entry :: after →
    (entry.complete = true ↔ after = [])
  full : ∀ entry ∈ entries, (entry.complete = true ↔
    entry.firstHunk + entry.hunks.length = (files.get placed.file).patchTwin.hunks.length)
  nonempty : entries ≠ []

section Pages
variable (scan : Scan) {files : List ReviewFile}

theorem flatMap_heads (slices : List (Slice (Placed files) HunkHead)) :
    (slices.map fileEntry).flatMap (·.hunks) = slices.flatMap (·.pieces) := by
  rw [List.flatMap_map]
  rfl

theorem listed_of_reads (placed : Placed files) (slices : List (Slice (Placed files) HunkHead))
    (reads : ReadsFrom (fileHeads scan) 0 placed slices) :
    Listed scan placed (slices.map fileEntry) := by
  constructor
  · intro entry member
    obtain ⟨slice, held, rfl⟩ := List.mem_map.1 member
    have same := reads.same slice held
    simp only [fileEntry, same, and_self]
  · rw [flatMap_heads, reads.whole]
    rfl
  · intro before entry after split
    obtain ⟨before, slice, after, same, rfl, rfl, rfl⟩ := split_map _ _ _ _ _ split
    rw [flatMap_heads, ← Nat.zero_add (List.length _)]
    exact reads.counted before slice after same
  · intro before entry after split
    obtain ⟨before, slice, after, same, rfl, rfl, rfl⟩ := split_map _ _ _ _ _ split
    rw [List.map_eq_nil_iff]
    exact reads.ends before slice after same
  · intro entry member
    obtain ⟨slice, held, rfl⟩ := List.mem_map.1 member
    rw [← length_fileHeads scan]
    exact reads.full slice held
  · simpa using reads.nonempty

theorem listed_all (order : List (Placed files)) (slices : List (Slice (Placed files) HunkHead))
    (walk : Walk (fileHeads scan) order 0 slices [] 0) :
    ∃ groups, slices.map fileEntry = groups.flatten ∧
      List.Forall₂ (Listed scan) order groups := by
  obtain ⟨groups, rfl, reads⟩ := walk_all (fileHeads scan) order slices walk
  refine ⟨groups.map (List.map fileEntry), by rw [List.map_flatten], ?_⟩
  rw [List.forall₂_map_right_iff]
  exact reads.imp fun placed slices => listed_of_reads scan placed slices

theorem run_files (order : List (Placed files)) (start : Nat × Nat)
    (pages : List (FilePage files)) (run : Run (ShowsFiles scan order) start pages) :
    (pages.map (·.answer)).flatMap (·.files) = (pages.flatMap (·.slices)).map fileEntry := by
  rw [List.flatMap_map]
  exact run_entries (ShowsFiles scan order) (·.slices) _ fileEntry
    (fun _ _ _ page => page.shown) start pages [] (by rw [List.append_nil]; exact run)

end Pages

/-- Following the cursors from the first page ends, whatever the budgets, and the pages list
every file once, in risk order, with every hunk of it once, in order. -/
theorem outline_paging (scan : Scan) (sizes : Sizes) (review : SealedReview)
    (budgets : Nat → Nat) (ranged : ∀ n, minMaxBytes ≤ budgets n ∧ budgets n ≤ maxMaxBytes) :
    ∃ answers,
      Followed (fun budget cursor => outline scan sizes review ⟨budget, cursor⟩)
        (·.nextCursor) budgets none answers ∧
      (∃ groups, answers.flatMap (·.files) = groups.flatten ∧
        List.Forall₂ (Listed scan) (riskOrder scan review.files) groups) ∧
      ((riskOrder scan review.files).map (·.file)).Perm (List.finRange review.files.length) ∧
      (riskOrder scan review.files).Pairwise (fun one two => rankLe one.key two.key = true) ∧
      ∀ before answer after, answers = before ++ answer :: after →
        answer.filesListed = answer.files.length ∧ (answer.nextCursor = none ↔ after = []) := by
  obtain ⟨pages, followed, run⟩ := followed_run (fileHeads scan) (riskOrder scan review.files)
    (ShowsFiles scan (riskOrder scan review.files)) (·.slices) (fun _ _ _ page => page.leads)
    (fun budget cursor => outline scan sizes review ⟨budget, cursor⟩) (·.nextCursor)
    FilePage.answer (fun place => cursor review.inputSeal "outline".toList place.1 place.2)
    (fun budget => minMaxBytes ≤ budget ∧ budget ≤ maxMaxBytes)
    (outline_answered scan sizes review) budgets ranged none
    (fun found member => absurd member (by simp))
  have walk := run_walk (fileHeads scan) (riskOrder scan review.files)
    (ShowsFiles scan (riskOrder scan review.files)) (·.slices) (fun _ _ _ page => page.leads)
    (0, 0) pages run
  refine ⟨pages.map FilePage.answer, followed, ?_, riskOrder_perm scan, riskOrder_sorted scan, ?_⟩
  · rw [run_files scan _ (0, 0) pages run]
    exact listed_all scan _ _ walk
  · intro before answer after split
    obtain ⟨before, page, after, rfl, rfl, rfl, rfl⟩ := split_map _ _ _ _ _ split
    obtain ⟨place, onward, shown, ends, -⟩ := run_split (fileHeads scan) (riskOrder scan review.files)
      (ShowsFiles scan (riskOrder scan review.files)) (·.slices) (fun _ _ _ page => page.leads)
      (0, 0) before page after run
    refine ⟨?_, shown.ends.trans (ends.trans List.map_eq_nil_iff.symm)⟩
    rw [shown.listed, shown.shown, List.length_map]

/-- Three files of one hunk each. -/
def pagedReview : SealedReview :=
  { sampleReview with
    files := [sampleFile, { sampleFile with path := ['y'] }, { sampleFile with path := ['z'] }]
    held := Nat.le_of_ble_eq_true rfl }

/-- One file's entry, or one hunk's, is as much as a page takes. -/
def wideSizes : Sizes := ⟨fun _ => 0, fun _ => 0, fun _ => 600, fun _ => 600⟩

theorem paged_goes (answer : OutlineAnswer)
    (asked : outline quietScan wideSizes pagedReview ⟨minMaxBytes, none⟩ = .ok answer) :
    answer.nextCursor ≠ none := by
  have order : riskOrder quietScan pagedReview.files = (List.finRange 3).map fun file =>
      ⟨file, (scoreFile quietScan (pagedReview.files.get file)).1,
        (scoreFile quietScan (pagedReview.files.get file)).2⟩ :=
    List.mergeSort_of_pairwise (by decide +kernel)
  unfold outline at asked
  rw [order] at asked
  cases asked
  exact Option.some_ne_none _

/-- A review that takes several pages. -/
theorem outline_paging_sample :
    ∃ answers,
      Followed (fun budget cursor => outline quietScan wideSizes pagedReview ⟨budget, cursor⟩)
        (·.nextCursor) (fun n => minMaxBytes + n % 2) none answers ∧
      (∃ groups, answers.flatMap (·.files) = groups.flatten ∧
        List.Forall₂ (Listed quietScan) (riskOrder quietScan pagedReview.files) groups) ∧
      ((riskOrder quietScan pagedReview.files).map (·.file)).Perm
        (List.finRange pagedReview.files.length) ∧
      (riskOrder quietScan pagedReview.files).Pairwise
        (fun one two => rankLe one.key two.key = true) ∧
      (∀ before answer after, answers = before ++ answer :: after →
        answer.filesListed = answer.files.length ∧ (answer.nextCursor = none ↔ after = [])) ∧
      1 < answers.length := by
  obtain ⟨answers, followed, listed, each, sorted, ends⟩ := outline_paging quietScan wideSizes
    pagedReview (fun n => minMaxBytes + n % 2)
    (by intro n; simp only [minMaxBytes, maxMaxBytes]; omega)
  refine ⟨answers, followed, listed, each, sorted, ends, ?_⟩
  cases followed with
  | last _ _ answer asked stops => exact absurd stops (paged_goes answer asked)
  | more _ _ answer onward answers asked goes later =>
    cases later <;> simp

end DeepDiffForge.Daemon
